import QuantumChain.ForkChoice

/-! Two stores with the same blocks, votes and checkpoint.
Orders of arrival and of the maps may differ. -/
namespace QuantumChain.Consensus
open LMDGhostStore TreeWalk
open List
open StepRun (run)
open TreeWalk (Reaches lastMax descend Heaviest Steps)
open Relation (ReflTransGen TransGen)

namespace LMDGhostStore

def Untied (vs : ValidatorSet) (s : LMDGhostStore) : Prop :=
  ∀ justified ∈ s.justifiedCheckpoint, ∀ x, ReflTransGen (Heaviest s.childrenOf (s.wordWeight vs)) justified x →
    ∀ y z, Heaviest s.childrenOf (s.wordWeight vs) x y → Heaviest s.childrenOf (s.wordWeight vs) x z → y = z

end LMDGhostStore

structure SameView (keccak : Bytes → Hash) (first second : List ForkEvent) : Prop where
  blocks : (received first).toFinset = (received second).toFinset
  votes : (LMDGhostStore.store keccak first).latestVotes = (LMDGhostStore.store keccak second).latestVotes
  justified : (LMDGhostStore.store keccak first).justifiedCheckpoint = (LMDGhostStore.store keccak second).justifiedCheckpoint

theorem receivedMem {first second} (blocks : (received first).toFinset = (received second).toFinset)
    (header) : header ∈ received first ↔ header ∈ received second := by
  rw [← mem_toFinset,blocks,mem_toFinset]

theorem CollisionFree.parent {keccak headers} (free : CollisionFree keccak headers)
    {a b} (left : a ∈ headers) (right : b ∈ headers) (same : a.hash keccak = b.hash keccak) :
    a.parentHash = b.parentHash :=
  congrArg HashedFields.parentHash (encodingTells.mp (free a left b right same))

namespace SameView
open LMDGhostStore (store)
variable {keccak : Bytes → Hash} {first second : List ForkEvent}

theorem children (same : SameView keccak first second) (p c) :
    c ∈ (store keccak first).childrenOf p ↔ c ∈ (store keccak second).childrenOf p := by
  rw [(LMDGhostStore.Built.store keccak first).linked,(LMDGhostStore.Built.store keccak second).linked]
  simp only [receivedMem same.blocks]

theorem parents (same : SameView keccak first second) (free : CollisionFree keccak (received first)) (x) :
    (store keccak first).parentOf x = (store keccak second).parentOf x := by
  have one := LMDGhostStore.Built.store keccak first
  have two := LMDGhostStore.Built.store keccak second
  unfold parentOf
  cases left : (store keccak first).blocks.lookup x with
  | none =>
    cases right : (store keccak second).blocks.lookup x with
    | none => rfl
    | some header =>
      obtain ⟨mem,rfl⟩ := two.known x header right
      obtain ⟨last,stored⟩ := one.stored header ((receivedMem same.blocks header).mpr mem)
      rw [left] at stored
      contradiction
  | some header =>
    obtain ⟨mem,rfl⟩ := one.known x header left
    obtain ⟨last,stored⟩ := two.stored header ((receivedMem same.blocks header).mp mem)
    obtain ⟨received',own⟩ := two.known _ last stored
    rw [stored]
    exact congrArg some (free.parent mem ((receivedMem same.blocks last).mpr received') own.symm)

theorem weights (same : SameView keccak first second) (free : CollisionFree keccak (received first)) (vs) :
    (store keccak first).wordWeight vs = (store keccak second).wordWeight vs := by
  funext x
  unfold wordWeight subtreeWeight
  have supports : ∀ v, (store keccak first).Supports x v ↔ (store keccak second).Supports x v := by
    intro v
    unfold LMDGhostStore.Supports
    rw [same.votes,funext (same.parents free)]
  refine congrArg (BitVec.ofNat 128) (Finset.sum_congr ?_ (fun _ _ => rfl))
  ext v
  rw [Finset.mem_filter,Finset.mem_filter,same.votes,supports]

theorem known (same : SameView keccak first second) (x) :
    ((store keccak first).blocks.lookup x).isSome = ((store keccak second).blocks.lookup x).isSome := by
  have side : ∀ {a b : List ForkEvent}, (received a).toFinset = (received b).toFinset →
      ((store keccak a).blocks.lookup x).isSome = true → ((store keccak b).blocks.lookup x).isSome = true := by
    intro a b blocks present
    obtain ⟨header,stored⟩ := Option.isSome_iff_exists.mp present
    obtain ⟨mem,rfl⟩ := (LMDGhostStore.Built.store keccak a).known x header stored
    exact Option.isSome_iff_exists.mpr
      ((LMDGhostStore.Built.store keccak b).stored header ((receivedMem blocks header).mp mem))
  exact Bool.eq_iff_iff.mpr ⟨side same.blocks,side same.blocks.symm⟩

end SameView

namespace LMDGhostStore

theorem getHeadNone {s : LMDGhostStore} (absent : ∀ justified ∈ s.justifiedCheckpoint,
    (s.blocks.lookup justified).isSome = false)
    (turns) (visit) (vs) : (s.getHead turns visit vs).1 = some none := by
  unfold getHead
  split
  · rfl
  · rename_i justified checkpoint
    have unknown : (s.blocks.lookup justified).isNone = true := by simpa using absent justified checkpoint
    rw [if_pos unknown]

end LMDGhostStore

def Agrees (keccak : Bytes → Hash) (vs : ValidatorSet) (first : List ForkEvent) : Prop :=
  ∀ second, SameView keccak first second → (LMDGhostStore.store keccak second).Current vs → ∀ visit visit' turns,
    ((LMDGhostStore.store keccak first).getHead turns visit vs).1 =
      ((LMDGhostStore.store keccak second).getHead turns visit' vs).1

section
open LMDGhostStore (store)
variable {keccak : Bytes → Hash} {vs : ValidatorSet} {first : List ForkEvent}

theorem agreesOfUntied (free : CollisionFree keccak (received first)) (current : (store keccak first).Current vs)
    (untied : (store keccak first).Untied vs) : Agrees keccak vs first := by
  intro second same current' visit visit' turns
  by_cases known : ∃ justified, (store keccak first).justifiedCheckpoint = some justified ∧
      ((store keccak first).blocks.lookup justified).isSome = true
  · obtain ⟨justified,checkpoint,present⟩ := known
    rw [current.getHead checkpoint present,
      current'.getHead (same.justified ▸ checkpoint) (same.known justified ▸ present)]
    refine congrArg (Option.map some) (descendAgree (fun x path => ?_) turns)
    have heaviest : ReflTransGen (Heaviest (store keccak first).childrenOf ((store keccak first).wordWeight vs))
      justified x :=
      ReflTransGen.mono (fun a b step => lastMaxSome step) _ _ path
    unfold heaviestChild
    rw [← same.weights free]
    cases here : lastMax ((store keccak first).wordWeight vs) ((store keccak first).childrenOf x) with
    | none =>
      have empty := lastMaxNone.mp here
      refine (lastMaxNone.mpr (eq_nil_iff_forall_not_mem.mpr (fun c mem => ?_))).symm
      rw [← same.children,empty] at mem
      exact not_mem_nil mem
    | some y =>
      cases there : lastMax ((store keccak first).wordWeight vs) ((store keccak second).childrenOf x) with
      | none =>
        have mem := (same.children x y).mp (lastMaxSome here).1
        rw [lastMaxNone.mp there] at mem
        exact absurd mem not_mem_nil
      | some z =>
        obtain ⟨mem,top⟩ := lastMaxSome there
        have also : Heaviest (store keccak first).childrenOf ((store keccak first).wordWeight vs) x z :=
          ⟨(same.children x z).mpr mem,fun c child => top c ((same.children x c).mp child)⟩
        rw [untied justified checkpoint x heaviest y z (lastMaxSome here) also]
  · have absent : ∀ justified ∈ (store keccak first).justifiedCheckpoint,
        ((store keccak first).blocks.lookup justified).isSome = false :=
      fun justified checkpoint => Bool.eq_false_iff.mpr (fun present => known ⟨justified,checkpoint,present⟩)
    rw [getHeadNone absent,getHeadNone (fun justified checkpoint => ?_)]
    rw [← same.known]
    exact absent justified (same.justified ▸ checkpoint)

theorem storeAgain (keccak) (header) :
    store keccak (first ++ [.addBlock header]) = (store keccak first).addBlock keccak header := by
  rw [store,StepRun.runAppend]
  rfl

theorem sameViewAgain (keccak) {header} (mem : header ∈ received first) :
    SameView keccak first (first ++ [.addBlock header]) := by
  refine ⟨?_,?_,?_⟩
  · ext other
    simp only [received,filterMap_append,mem_toFinset,mem_append]
    refine ⟨.inl,fun either => either.elim id (fun last => ?_)⟩
    cases mem_singleton.mp last
    exact mem
  · rw [storeAgain]
    rfl
  · rw [storeAgain]
    rfl

theorem singleParent (free : CollisionFree keccak (received first)) (p q c) (left : (store keccak first).Child p c)
    (right : (store keccak first).Child q c) : p = q := by
  have built := LMDGhostStore.Built.store keccak first
  obtain ⟨a,memA,own,rfl⟩ := (built.linked p c).mp left
  obtain ⟨b,memB,own',rfl⟩ := (built.linked q c).mp right
  exact free.parent memA memB (own.trans own'.symm)

theorem untiedOfAgrees (free : CollisionFree keccak (received first)) (current : (store keccak first).Current vs)
    (acyclic : (store keccak first).Acyclic)
    (known : ∀ justified ∈ (store keccak first).justifiedCheckpoint,
      ((store keccak first).blocks.lookup justified).isSome = true)
    (agrees : Agrees keccak vs first) : (store keccak first).Untied vs := by
  intro justified checkpoint x heavy y z left right
  have built := LMDGhostStore.Built.store keccak first
  obtain ⟨leaf,ends,_,_⟩ := headEnds built acyclic vs justified
  have picks : ∀ a, ReflTransGen (Steps ((store keccak first).heaviestChild vs)) justified a → ∀ c,
      Heaviest (store keccak first).childrenOf ((store keccak first).wordWeight vs) a c →
      (store keccak first).heaviestChild vs a = some c := by
    intro a path c heaviest
    obtain ⟨header,mem,rfl,rfl⟩ := (built.linked a c).mp heaviest.1
    have same := sameViewAgain keccak mem
    have again : (store keccak (first ++ [.addBlock header])).Current vs := .inl (by rw [storeAgain]; rfl)
    have lists : (store keccak (first ++ [.addBlock header])).heaviestChild vs = fun b =>
        lastMax ((store keccak first).wordWeight vs) (if b = header.parentHash then
          (store keccak first).childrenOf b ++ [header.hash keccak] else (store keccak first).childrenOf b) := by
      funext b
      rw [heaviestChild,← same.weights free,storeAgain,addBlockChildren]
    have equal := agrees _ same again .upwards .upwards ((store keccak first).blocks.size + 1)
    rw [current.getHead checkpoint (known justified checkpoint),
      again.getHead (same.justified ▸ checkpoint) (same.known justified ▸ known justified checkpoint),
      ends _ (Nat.lt_succ_self _),lists] at equal
    obtain ⟨_,ends',last⟩ := Option.map_eq_some_iff.mp equal.symm
    cases Option.some.inj last
    exact pickedAgain acyclic (singleParent free) heaviest path (ends _ (Nat.lt_succ_self _)) ends'
  have walk := heaviestWalk picks heavy
  exact Option.some.inj ((picks x walk y left).symm.trans (picks x walk z right))

end

theorem untiedOfApart {keccak vs events}
    (apart : ∀ a ∈ received events, ∀ b ∈ received events, a.parentHash = b.parentHash → a.hash keccak ≠ b.hash keccak →
      (LMDGhostStore.store keccak events).wordWeight vs (a.hash keccak) ≠
        (LMDGhostStore.store keccak events).wordWeight vs (b.hash keccak)) :
    (LMDGhostStore.store keccak events).Untied vs := by
  intro justified _ x _ y z left right
  have built := LMDGhostStore.Built.store keccak events
  obtain ⟨a,memA,rfl,parent⟩ := (built.linked x y).mp left.1
  obtain ⟨b,memB,rfl,parent'⟩ := (built.linked x z).mp right.1
  exact by_contra (fun different => apart a memA b memB (parent.trans parent'.symm) different
    (le_antisymm (right.2 _ left.1) (left.2 _ right.1)))

theorem forkChoiceAgrees (keccak : Bytes → Hash) (vs : ValidatorSet) (first : List ForkEvent)
    (free : CollisionFree keccak (received first)) (current : (LMDGhostStore.store keccak first).Current vs) :
    ((LMDGhostStore.store keccak first).Untied vs → Agrees keccak vs first) ∧
    ((LMDGhostStore.store keccak first).Acyclic →
      (∀ justified ∈ (LMDGhostStore.store keccak first).justifiedCheckpoint,
        ((LMDGhostStore.store keccak first).blocks.lookup justified).isSome = true) →
      Agrees keccak vs first → (LMDGhostStore.store keccak first).Untied vs) :=
  ⟨agreesOfUntied free current,untiedOfAgrees free current⟩

def reorderedEvents : List ForkEvent :=
  [.onAttestation 3 2,.addBlock (linked 1 1 3),.addBlock (linked 1 1 2),.getHead .upwards (members 1),.onAttestation 1 3,
    .onAttestation 2 2,.addBlock (linked 0 0 1),.setJustified 1]

theorem reorderedHeadSame : ((LMDGhostStore.store gasDigest votedEvents).getHead 4 .upwards (members 3)).1 =
      ((LMDGhostStore.store gasDigest reorderedEvents).getHead 4 .upwards (members 3)).1 :=
  (forkChoiceAgrees gasDigest (members 3) votedEvents (by decide +kernel) (.inl (by decide +kernel))).1
    (untiedOfApart (by decide +kernel)) reorderedEvents ⟨by decide +kernel,by decide +kernel,by decide +kernel⟩
    (.inl (by decide +kernel)) .upwards .upwards 4

def tiedEvents (left right : U64) : List ForkEvent :=
  [.addBlock (linked 0 0 1),.setJustified 1,.addBlock (linked 1 1 left),.addBlock (linked 1 1 right)]

def splitEvents : List ForkEvent := tiedEvents 2 3 ++ [.onAttestation 1 2,.onAttestation 2 3]

def staked (first second : U128) : ValidatorSet := .new 0 [⟨1,first,blankKey,true⟩,⟨2,second,blankKey,true⟩]

theorem sameViewOtherHead : SameView gasDigest (tiedEvents 2 3) (tiedEvents 3 2) ∧
    ((LMDGhostStore.store gasDigest (tiedEvents 2 3)).getHead 4 .upwards (staked 1 2)).1 = some (some 3) ∧
    ((LMDGhostStore.store gasDigest (tiedEvents 3 2)).getHead 4 .upwards (staked 1 2)).1 = some (some 2) ∧
    SameView gasDigest splitEvents (splitEvents ++ [.getHead .upwards (staked 5 2)]) ∧
    ((LMDGhostStore.store gasDigest splitEvents).getHead 4 .upwards (staked 1 2)).1 = some (some 3) ∧
    ((LMDGhostStore.store gasDigest (splitEvents ++ [.getHead .upwards (staked 5 2)])).getHead 4 .upwards (staked 1 2)).1 =
      some (some 2) := by
  refine ⟨⟨?_,?_,?_⟩,?_,?_,⟨?_,?_,?_⟩,?_,?_⟩ <;> decide +kernel

end QuantumChain.Consensus
