import QuantumChain.ConsensusChain
import QuantumChain.TreeWalk
import Mathlib.Algebra.BigOperators.Ring.Finset

/-! The fork choice over the latest votes.
Maps are walked in any order; weights are words of 128 bits. -/
namespace QuantumChain.Consensus
open List KeyedMap TreeWalk
open StepRun (run)
open TreeWalk (Reaches climb lastMax descend Heaviest)
open Relation (ReflTransGen TransGen)

structure LMDGhostStore where
  blocks : KeyedMap Hash BlockHeader
  children : KeyedMap Hash (List Hash)
  latestVotes : KeyedMap ValidatorId Hash
  weightCache : KeyedMap Hash U128
  cacheValid : Bool
  justifiedCheckpoint : Option Hash
  deriving DecidableEq

namespace LMDGhostStore

def new : LMDGhostStore := ⟨∅,∅,∅,∅,false,none⟩

def invalidateCache (s : LMDGhostStore) : LMDGhostStore := {s with cacheValid := false}

def childrenOf (s : LMDGhostStore) (hash : Hash) : List Hash := (s.children.lookup hash).getD []

def addBlock (keccak : Bytes → Hash) (s : LMDGhostStore) (header : BlockHeader) : LMDGhostStore :=
  let hash := header.hash keccak
  let parent := header.parentHash
  invalidateCache { s with
    children := s.children.insert parent (s.childrenOf parent ++ [hash])
    blocks := s.blocks.insert hash header }

variable (s : LMDGhostStore)

def onAttestation (validator : ValidatorId) (target : Hash) : LMDGhostStore :=
  invalidateCache {s with latestVotes := s.latestVotes.insert validator target}

def setJustified (checkpoint : Hash) : LMDGhostStore :=
  invalidateCache {s with justifiedCheckpoint := some checkpoint}

def getWeight (block : Hash) : U128 := (s.weightCache.lookup block).getD 0

def credit (stake : U128) (s : LMDGhostStore) (block : Hash) : LMDGhostStore :=
  {s with weightCache := s.weightCache.insert block (s.getWeight block + stake)}

def climbWith (stake : U128) : Nat → Finset Hash → Hash → LMDGhostStore → LMDGhostStore
  | 0,_,_,s => s
  | turns+1,visited,current,s =>
    if current ∈ visited then s
    else
      match s.blocks.lookup current with
      | none => s
      | some header =>
        if current = header.parentHash then s.credit stake current
        else climbWith stake turns (insert current visited) header.parentHash (s.credit stake current)

-- A turn that goes on visits one more of the known blocks.
def addWeightToAncestors (s : LMDGhostStore) (target : Hash) (stake : U128) : LMDGhostStore :=
  climbWith stake (s.blocks.size + 1) ∅ target s

def stakeOf (vs : ValidatorSet) (validator : ValidatorId) : U128 := (vs.getStake validator).getD 0

variable (visit : Visit ValidatorId)

def votes (s : LMDGhostStore) : List (ValidatorId × Hash) :=
  (visit.order s.latestVotes.keys).filterMap (fun v => (s.latestVotes.lookup v).map (fun target => (v,target)))

def rebuildWeightCache (vs : ValidatorSet) (s : LMDGhostStore) : LMDGhostStore :=
  { (s.votes visit).foldl (fun s vote => s.addWeightToAncestors vote.2 (stakeOf vs vote.1)) {s with weightCache := ∅} with
    cacheValid := true }

def withWeights (vs : ValidatorSet) (s : LMDGhostStore) : LMDGhostStore :=
  if s.cacheValid then s else s.rebuildWeightCache visit vs

def bestChild (s : LMDGhostStore) (current : Hash) : Option Hash := lastMax s.getWeight (s.childrenOf current)

def getHead (turns : Nat) (visit : Visit ValidatorId) (vs : ValidatorSet) (s : LMDGhostStore) :
    Option (Option Hash) × LMDGhostStore :=
  match s.justifiedCheckpoint with
  | none => (some none,s)
  | some justified =>
    if (s.blocks.lookup justified).isNone then (some none,s)
    else
      let s := s.withWeights visit vs
      ((descend s.bestChild turns justified).map some,s)

end LMDGhostStore

inductive ForkEvent where
  | addBlock (header : BlockHeader)
  | onAttestation (validator : ValidatorId) (target : Hash)
  | setJustified (checkpoint : Hash)
  | getHead (visit : Visit ValidatorId) (vs : ValidatorSet)

namespace LMDGhostStore

def apply (keccak : Bytes → Hash) (s : LMDGhostStore) : ForkEvent → LMDGhostStore
  | .addBlock header => s.addBlock keccak header
  | .onAttestation validator target => s.onAttestation validator target
  | .setJustified checkpoint => s.setJustified checkpoint
  | .getHead visit vs => (s.getHead 0 visit vs).2

def parentOf (s : LMDGhostStore) (hash : Hash) : Option Hash := (s.blocks.lookup hash).map BlockHeader.parentHash

def Supports (s : LMDGhostStore) (block : Hash) (validator : ValidatorId) : Prop :=
  ∃ target, s.latestVotes.lookup validator = some target ∧ Reaches s.parentOf target block

theorem parentKnown {s : LMDGhostStore} (x p) (link : s.parentOf x = some p) : x ∈ s.blocks.keys := by
  obtain ⟨header,stored,_⟩ := Option.map_eq_some_iff.mp link
  exact memKeys.mpr ⟨header,stored⟩

theorem memAncestors {s : LMDGhostStore} {x y} :
    y ∈ climb s.parentOf (s.blocks.size + 1) ∅ x ↔ Reaches s.parentOf x y :=
  memClimb parentKnown (Nat.lt_succ_self _)

instance decideReaches (s : LMDGhostStore) (x y : Hash) : Decidable (Reaches s.parentOf x y) :=
  decidable_of_iff ((climb s.parentOf (s.blocks.size + 1) ∅ x).contains y = true) (List.contains_iff_mem.trans memAncestors)

instance decideSupports (s : LMDGhostStore) (block : Hash) (validator : ValidatorId) :
    Decidable (s.Supports block validator) :=
  match found : s.latestVotes.lookup validator with
  | none => isFalse (fun ⟨_,vote,_⟩ => by rw [found] at vote; contradiction)
  | some target => decidable_of_iff (Reaches s.parentOf target block)
      ⟨fun reaches => ⟨target,found,reaches⟩,fun ⟨_,vote,reaches⟩ => Option.some.inj (found.symm.trans vote) ▸ reaches⟩

def subtreeWeight (vs : ValidatorSet) (s : LMDGhostStore) (block : Hash) : Nat :=
  ∑ v ∈ s.latestVotes.keys.filter (s.Supports block), (stakeOf vs v).toNat

theorem climbFolds (stake) (turns) (visited) (current) (s) :
    climbWith stake turns visited current s = (climb s.parentOf turns visited current).foldl (credit stake) s := by
  induction turns generalizing visited current s with
  | zero => rfl
  | succ turns ih =>
    unfold climbWith climb
    split
    · rfl
    unfold parentOf
    cases stored : s.blocks.lookup current with
    | none => rfl
    | some header =>
      simp only [Option.map_some]
      split
      · rfl
      · rw [ih]
        rfl

theorem foldCredit (stake) {blocks : List Hash} (nodup : blocks.Nodup) (s) :
    ∃ cache, blocks.foldl (credit stake) s = {s with weightCache := cache} ∧
      ∀ x, (cache.lookup x).getD 0 = s.getWeight x + if x ∈ blocks then stake else 0 := by
  induction blocks generalizing s with
  | nil => exact ⟨s.weightCache,rfl,fun x => by simp [getWeight]⟩
  | cons block rest ih =>
    obtain ⟨absent,nodup⟩ := nodup_cons.mp nodup
    obtain ⟨cache,same,weights⟩ := ih nodup (s.credit stake block)
    refine ⟨cache,same,fun x => ?_⟩
    rw [weights]
    simp only [credit,getWeight,lookupInsert]
    by_cases here : x = block
    · subst here
      simp [absent]
    · simp [here]

theorem addWeightSpec (s : LMDGhostStore) (target) (stake) :
    ∃ cache, s.addWeightToAncestors target stake = {s with weightCache := cache} ∧
      ∀ x, (cache.lookup x).getD 0 = s.getWeight x + if Reaches s.parentOf target x then stake else 0 := by
  have nodup : (climb s.parentOf (s.blocks.size + 1) ∅ target).Nodup := climbNodup.1
  obtain ⟨cache,same,weights⟩ := foldCredit stake nodup s
  refine ⟨cache,?_,fun x => ?_⟩
  · rw [addWeightToAncestors,climbFolds]
    exact same
  · rw [weights]
    simp only [memAncestors]

theorem foldVotes (vs) (votes : List (ValidatorId × Hash)) (s : LMDGhostStore) :
    ∃ cache, votes.foldl (fun s vote => s.addWeightToAncestors vote.2 (stakeOf vs vote.1)) s = {s with weightCache := cache} ∧
      ∀ x, (cache.lookup x).getD 0 =
        s.getWeight x + (votes.map (fun vote => if Reaches s.parentOf vote.2 x then stakeOf vs vote.1 else 0)).sum := by
  induction votes generalizing s with
  | nil => exact ⟨s.weightCache,rfl,fun x => by simp [getWeight]⟩
  | cons vote rest ih =>
    obtain ⟨first,one,weight⟩ := s.addWeightSpec vote.2 (stakeOf vs vote.1)
    obtain ⟨cache,same,weights⟩ := ih {s with weightCache := first}
    refine ⟨cache,?_,fun x => ?_⟩
    · rw [foldl_cons,one]
      exact same
    · rw [weights,map_cons,sum_cons,← add_assoc,← weight]
      rfl

theorem votesSum (visit) (vs) (s : LMDGhostStore) (x) :
    ((s.votes visit).map (fun vote => if Reaches s.parentOf vote.2 x then stakeOf vs vote.1 else 0)).sum =
      BitVec.ofNat 128 (s.subtreeWeight vs x) := by
  have single : ∀ keys : List ValidatorId,
      ((keys.filterMap (fun v => (s.latestVotes.lookup v).map (fun target => (v,target)))).map
        (fun vote => if Reaches s.parentOf vote.2 x then stakeOf vs vote.1 else 0)).sum =
      (keys.map (fun v => if s.Supports x v then stakeOf vs v else 0)).sum := by
    intro keys
    induction keys with
    | nil => rfl
    | cons v rest ih =>
      cases vote : s.latestVotes.lookup v with
      | none =>
        have silent : ¬ s.Supports x v := fun ⟨_,found,_⟩ => by rw [vote] at found; contradiction
        simp only [filterMap_cons,vote,Option.map_none,map_cons,if_neg silent,sum_cons,zero_add,ih]
      | some target =>
        have same : s.Supports x v ↔ Reaches s.parentOf target x := by simp [Supports,vote]
        simp only [filterMap_cons,vote,Option.map_some,map_cons,same,sum_cons,ih]
  have keys : (visit.order s.latestVotes.keys).toFinset = s.latestVotes.keys := by
    ext v
    rw [mem_toFinset,visit.complete]
  calc _ = ((visit.order s.latestVotes.keys).map (fun v => if s.Supports x v then stakeOf vs v else 0)).sum := single _
    _ = ∑ v ∈ s.latestVotes.keys, if s.Supports x v then stakeOf vs v else 0 := by
      rw [← sum_toFinset _ (visit.nodup _),keys]
    _ = ∑ v ∈ s.latestVotes.keys.filter (s.Supports x), stakeOf vs v := (Finset.sum_filter _ _).symm
    _ = BitVec.ofNat 128 (s.subtreeWeight vs x) := by
      rw [subtreeWeight,← BitVec.natCast_eq_ofNat,Nat.cast_sum]
      exact Finset.sum_congr rfl (fun v _ => (by simp))

theorem rebuildSpec (visit) (vs) (s : LMDGhostStore) :
    ∃ cache, s.rebuildWeightCache visit vs = {s with weightCache := cache, cacheValid := true} ∧
      ∀ x, (cache.lookup x).getD 0 = BitVec.ofNat 128 (s.subtreeWeight vs x) := by
  obtain ⟨cache,same,weights⟩ := foldVotes vs (s.votes visit) {s with weightCache := ∅}
  refine ⟨cache,?_,fun x => ?_⟩
  · rw [rebuildWeightCache,same]
  · rw [weights,← votesSum visit]
    simp only [getWeight,Finmap.lookup_empty,Option.getD_none,zero_add]
    rfl

theorem getHeadFrame (turns) (visit) (vs) (s : LMDGhostStore) :
    ∃ cache valid, (s.getHead turns visit vs).2 = {s with weightCache := cache, cacheValid := valid} := by
  unfold getHead
  split
  · exact ⟨s.weightCache,s.cacheValid,rfl⟩
  split
  · exact ⟨s.weightCache,s.cacheValid,rfl⟩
  dsimp only [withWeights]
  split
  · exact ⟨s.weightCache,s.cacheValid,rfl⟩
  · obtain ⟨cache,same,_⟩ := s.rebuildSpec visit vs
    exact ⟨cache,true,same⟩

theorem getHeadWalks {s : LMDGhostStore} {justified} (checkpoint : s.justifiedCheckpoint = some justified)
    (known : (s.blocks.lookup justified).isSome = true) {turns visit vs} :
    (s.getHead turns visit vs).1 = (descend (s.withWeights visit vs).bestChild turns justified).map some := by
  have present : (s.blocks.lookup justified).isNone = false := by simpa using known
  simp only [getHead,checkpoint,present,Bool.false_eq_true,if_false]

def store (keccak : Bytes → Hash) (events : List ForkEvent) : LMDGhostStore := run (apply keccak) new events

end LMDGhostStore

def received (events : List ForkEvent) : List BlockHeader :=
  events.filterMap (fun | .addBlock header => some header | _ => none)

namespace LMDGhostStore

theorem addBlockChildren (keccak) (s : LMDGhostStore) (header) (p) : (s.addBlock keccak header).childrenOf p =
      if p = header.parentHash then s.childrenOf p ++ [header.hash keccak] else s.childrenOf p := by
  simp only [childrenOf,addBlock,invalidateCache,lookupInsert]
  split
  · rename_i here
    rw [here]
    rfl
  · rfl

structure Built (keccak : Bytes → Hash) (headers : List BlockHeader) (s : LMDGhostStore) : Prop where
  known : ∀ x header, s.blocks.lookup x = some header → header ∈ headers ∧ header.hash keccak = x
  stored : ∀ header ∈ headers, ∃ last, s.blocks.lookup (header.hash keccak) = some last
  linked : ∀ p c, c ∈ s.childrenOf p ↔ ∃ header ∈ headers, header.hash keccak = c ∧ header.parentHash = p

namespace Built
variable {keccak : Bytes → Hash} {headers : List BlockHeader} {s : LMDGhostStore}

theorem addBlock (built : Built keccak headers s) (header) :
    Built keccak (headers ++ [header]) (s.addBlock keccak header) := by
  refine ⟨fun x block found => ?_,fun block mem => ?_,fun p c => ?_⟩
  · simp only [LMDGhostStore.addBlock,invalidateCache,lookupInsert] at found
    split at found
    · rename_i same
      cases Option.some.inj found
      exact ⟨by simp,same.symm⟩
    · obtain ⟨mem,own⟩ := built.known x block found
      exact ⟨mem_append_left _ mem,own⟩
  · simp only [LMDGhostStore.addBlock,invalidateCache,lookupInsert]
    split
    · exact ⟨header,rfl⟩
    · rename_i other
      rcases mem_append.mp mem with old | last
      · exact built.stored block old
      · cases mem_singleton.mp last
        exact absurd rfl other
  · rw [addBlockChildren]
    simp only [mem_append,mem_singleton,or_and_right,exists_or,exists_eq_left,← built.linked]
    split
    · rename_i here
      simp [here,eq_comm]
    · rename_i other
      simp [Ne.symm other]

theorem framed (built : Built keccak headers s) {s'} (blocks : s'.blocks = s.blocks)
    (children : s'.children = s.children) : Built keccak headers s' := by
  obtain ⟨known,stored,linked⟩ := built
  unfold childrenOf at linked
  rw [← blocks] at known stored
  rw [← children] at linked
  exact ⟨known,stored,linked⟩

theorem store (keccak) (events) : Built keccak (received events) (LMDGhostStore.store keccak events) := by
  induction events using List.reverseRecOn with
  | nil =>
    exact ⟨fun _ _ found => (nomatch found),fun _ mem => (nomatch mem),fun p c => by
      simp [received,LMDGhostStore.store,LMDGhostStore.new,childrenOf]⟩
  | append_singleton before e ih =>
    unfold LMDGhostStore.store at ih ⊢
    rw [StepRun.runAppend,received,filterMap_append]
    cases e with
    | addBlock header => exact ih.addBlock header
    | onAttestation validator target => exact (append_nil (received before)) ▸ ih.framed rfl rfl
    | setJustified checkpoint => exact (append_nil (received before)) ▸ ih.framed rfl rfl
    | getHead visit vs =>
      obtain ⟨cache,valid,same⟩ := getHeadFrame 0 visit vs (run (LMDGhostStore.apply keccak) LMDGhostStore.new before)
      refine (append_nil (received before)) ▸ ih.framed ?_ ?_ <;> simp [LMDGhostStore.apply,same]

end Built

end LMDGhostStore

namespace ValidatorSet

theorem getMember {epoch validators id v}
    (found : (new epoch validators).get id = some v) : v ∈ validators ∧ v.id = id := by
  obtain ⟨i,position,present⟩ := Option.bind_eq_some_iff.mp found
  obtain ⟨w,there,own⟩ := tableSource position
  cases Option.some.inj (present.symm.trans there)
  exact ⟨mem_of_getElem? there,own⟩

def stakeUnder (validators : List ValidatorInfo) (id : ValidatorId) : Nat :=
  ((validators.filter (fun v => v.id = id)).map (fun v => v.stake.toNat)).sum

theorem stakesUnder (ids) (validators) :
    ∑ id ∈ ids, stakeUnder validators id ≤ (validators.map (fun v => v.stake.toNat)).sum := by
  induction validators with
  | nil => simp [stakeUnder]
  | cons v rest ih =>
    have split : ∀ id, stakeUnder (v::rest) id = (if v.id = id then v.stake.toNat else 0) + stakeUnder rest id := by
      intro id
      unfold stakeUnder
      rw [filter_cons]
      by_cases own : v.id = id <;> simp [own]
    simp only [split,Finset.sum_add_distrib,Finset.sum_ite_eq,map_cons,sum_cons]
    split_ifs <;> omega

theorem stakesBounded (epoch) (validators) (ids) :
    ∑ id ∈ ids, (LMDGhostStore.stakeOf (new epoch validators) id).toNat ≤ (validators.map (fun v => v.stake.toNat)).sum := by
  refine Nat.le_trans (Finset.sum_le_sum (fun id _ => ?_)) (stakesUnder ids validators)
  unfold LMDGhostStore.stakeOf getStake
  cases found : (new epoch validators).get id with
  | none => exact Nat.zero_le _
  | some v =>
    obtain ⟨member,own⟩ := getMember found
    refine single_le_sum (fun _ _ => Nat.zero_le _) _ ?_
    exact mem_map.mpr ⟨v,mem_filter.mpr ⟨member,decide_eq_true own⟩,rfl⟩

end ValidatorSet

namespace LMDGhostStore

theorem weightFits (epoch) {validators}
    (total : (validators.map (fun v => v.stake.toNat)).sum < 2^128) (s : LMDGhostStore) (block) :
    (BitVec.ofNat 128 (s.subtreeWeight (.new epoch validators) block)).toNat = s.subtreeWeight
      (.new epoch validators) block := by
  have bounded := ValidatorSet.stakesBounded epoch validators (s.latestVotes.keys.filter (s.Supports block))
  exact Nat.mod_eq_of_lt (Nat.lt_of_le_of_lt bounded total)

def Child (s : LMDGhostStore) (parent child : Hash) : Prop := child ∈ s.childrenOf parent

def Acyclic (s : LMDGhostStore) : Prop := ∀ x, ¬ TransGen s.Child x x

theorem acyclicOfRank {s keccak headers} (built : Built keccak headers s) (rank : Hash → Nat)
    (grows : ∀ header ∈ headers, rank header.parentHash < rank (header.hash keccak)) : s.Acyclic := by
  have along : ∀ x y, TransGen s.Child x y → rank x < rank y := by
    intro x y path
    have link : ∀ p c, s.Child p c → rank p < rank c := by
      intro p c child
      obtain ⟨header,mem,rfl,rfl⟩ := (built.linked p c).mp child
      exact grows header mem
    induction path with
    | single child => exact link _ _ child
    | tail _ child ih => exact Nat.lt_trans ih (link _ _ child)
  exact fun x path => Nat.lt_irrefl _ (along x x path)

variable (vs : ValidatorSet) (s : LMDGhostStore)

def wordWeight (block : Hash) : U128 := BitVec.ofNat 128 (s.subtreeWeight vs block)

def heaviestChild (block : Hash) : Option Hash :=
  lastMax (s.wordWeight vs) (s.childrenOf block)

def Current : Prop :=
  s.cacheValid = false ∨ ∀ x, s.getWeight x = s.wordWeight vs x

theorem Current.getHead {vs s} (current : Current vs s) {justified}
    (checkpoint : s.justifiedCheckpoint = some justified) (known : (s.blocks.lookup justified).isSome = true)
    (turns) (visit) : (s.getHead turns visit vs).1 = (descend (s.heaviestChild vs) turns justified).map some := by
  have best : (s.withWeights visit vs).bestChild = s.heaviestChild vs := by
    unfold withWeights
    split
    · rename_i valid
      rcases current with invalid | weights
      · exact absurd (valid.symm.trans invalid) Bool.true_eq_false.mp
      · exact congrArg (fun weight x => lastMax weight (s.childrenOf x)) (funext weights)
    · obtain ⟨cache,rebuilt,weights⟩ := s.rebuildSpec visit vs
      rw [rebuilt]
      exact congrArg (fun weight x => lastMax weight (s.childrenOf x)) (funext weights)
  rw [getHeadWalks checkpoint known,best]

theorem headEnds {s keccak headers} (built : Built keccak headers s) (acyclic : s.Acyclic) (vs) (justified) :
    ∃ leaf, (∀ turns, s.blocks.size < turns → descend (s.heaviestChild vs) turns justified = some leaf) ∧
      ReflTransGen (Heaviest s.childrenOf (s.wordWeight vs)) justified leaf ∧ s.childrenOf leaf = [] := by
  have follows : ∀ x y, s.heaviestChild vs x = some y → s.Child x y ∧ y ∈ s.blocks.keys := by
    intro x y best
    obtain ⟨child,_⟩ := lastMaxSome best
    obtain ⟨header,mem,own,_⟩ := (built.linked x y).mp child
    exact ⟨child,memKeys.mpr (own ▸ built.stored header mem)⟩
  obtain ⟨leaf,ends⟩ := descendEnds acyclic follows
    (Nat.lt_succ_of_le (rankBound s.Child s.blocks.keys justified))
  obtain ⟨path,stop⟩ := descendPath ends
  exact ⟨leaf,fun turns enough => descendMore enough ends,
    ReflTransGen.mono (fun x y best => lastMaxSome best) _ _ path,lastMaxNone.mp stop⟩

end LMDGhostStore

theorem headHeaviest (keccak : Bytes → Hash) (events : List ForkEvent) (visit : Visit ValidatorId) (epoch : U64)
    (validators : List ValidatorInfo) (justified : Hash) (total : (validators.map (fun v => v.stake.toNat)).sum < 2^128)
    (acyclic : (LMDGhostStore.store keccak events).Acyclic)
    (invalid : (LMDGhostStore.store keccak events).cacheValid = false)
    (checkpoint : (LMDGhostStore.store keccak events).justifiedCheckpoint = some justified)
    (known : ((LMDGhostStore.store keccak events).blocks.lookup justified).isSome = true) :
    ∃ leaf, (∀ turns, (LMDGhostStore.store keccak events).blocks.size < turns →
        ((LMDGhostStore.store keccak events).getHead turns visit (.new epoch validators)).1 = some (some leaf)) ∧
      ReflTransGen (Heaviest (LMDGhostStore.store keccak events).childrenOf
        ((LMDGhostStore.store keccak events).subtreeWeight (.new epoch validators))) justified leaf ∧
      (LMDGhostStore.store keccak events).childrenOf leaf = [] := by
  have built := LMDGhostStore.Built.store keccak events
  generalize LMDGhostStore.store keccak events = s at *
  obtain ⟨leaf,ends,path,stop⟩ := LMDGhostStore.headEnds built acyclic (.new epoch validators) justified
  refine ⟨leaf,fun turns enough => ?_,ReflTransGen.mono (fun x y best => ⟨best.1,fun c child => ?_⟩) _ _ path,stop⟩
  · rw [LMDGhostStore.Current.getHead (.inl invalid) checkpoint known,ends turns enough]
    rfl
  · have more := best.2 c child
    rw [LMDGhostStore.wordWeight,LMDGhostStore.wordWeight,BitVec.le_def,LMDGhostStore.weightFits epoch total,
      LMDGhostStore.weightFits epoch total] at more
    exact more

def votedEvents : List ForkEvent :=
  [.addBlock (linked 0 0 1),.setJustified 1,.addBlock (linked 1 1 2),.addBlock (linked 1 1 3),
    .onAttestation 1 3,.onAttestation 2 2,.onAttestation 3 2]

theorem heavierBranchChosen : ∃ leaf, ReflTransGen (Heaviest (LMDGhostStore.store gasDigest votedEvents).childrenOf
        ((LMDGhostStore.store gasDigest votedEvents).subtreeWeight (members 3))) 1 leaf ∧
      ((LMDGhostStore.store gasDigest votedEvents).getHead 4 .upwards (members 3)).1 = some (some leaf) ∧
      leaf = 2 := by
  obtain ⟨leaf,ends,path,_⟩ := headHeaviest gasDigest votedEvents .upwards 0 (members 3).validators 1 (by decide +kernel)
    (LMDGhostStore.acyclicOfRank (.store gasDigest votedEvents) BitVec.toNat (by decide +kernel)) (by decide +kernel)
    (by decide +kernel) (by decide +kernel)
  have found := ends 4 (by decide +kernel)
  have head : ((LMDGhostStore.store gasDigest votedEvents).getHead 4 .upwards (members 3)).1 = some (some 2) := by
    decide +kernel
  exact ⟨leaf,path,found,Option.some.inj (Option.some.inj (found.symm.trans head))⟩

end QuantumChain.Consensus
