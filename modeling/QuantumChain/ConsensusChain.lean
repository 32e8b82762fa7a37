import QuantumChain.ConsensusBlock
import QuantumChain.StepRun
import Mathlib.Order.Interval.Finset.Nat

/-! The chain of known blocks and its pruning.
The order in which the map is walked is arbitrary. -/
namespace QuantumChain.Consensus
open KeyedMap StepRun List Finset
open StepRun (Along)

structure ChainHead where
  blockHash : Hash := 0
  blockHeight : U64 := 0
  timestamp : U64 := 0
  deriving DecidableEq, Repr

structure ChainState where
  knownBlocks : KeyedMap Hash BlockHeader
  head : ChainHead
  heightIndex : KeyedMap U64 Hash
  maxBlocks : U64
  deriving DecidableEq

namespace ChainState

def withMaxBlocks (maxBlocks : U64) : ChainState := ⟨∅,{},∅,maxBlocks⟩

def new : ChainState := withMaxBlocks 8192

def removeHeight (c : ChainState) (height : U64) : ChainState :=
  match c.heightIndex.lookup height with
  | none => c
  | some hash => {c with heightIndex := c.heightIndex.erase height, knownBlocks := c.knownBlocks.erase hash}

def minHeightToKeep (c : ChainState) : Nat := c.head.blockHeight.toNat - c.maxBlocks.toNat

def heightsToRemove (visit : Visit U64) (c : ChainState) : List U64 :=
  (visit.order c.heightIndex.keys).filter (fun h => decide (h.toNat < c.minHeightToKeep))

def pruneIfNeeded (visit : Visit U64) (c : ChainState) : ChainState :=
  if c.knownBlocks.size ≤ c.maxBlocks.toNat then c else (c.heightsToRemove visit).foldl removeHeight c

def record (keccak : Bytes → Hash) (c : ChainState) (header : BlockHeader) : ChainState :=
  let hash := header.hash keccak
  { c with
    head :=
      if c.head.blockHeight < header.blockHeight ∨ c.head.blockHeight = 0 then
        ⟨hash,header.blockHeight,header.timestamp⟩
      else c.head
    heightIndex := c.heightIndex.insert header.blockHeight hash
    knownBlocks := c.knownBlocks.insert hash header }

def addBlock (keccak : Bytes → Hash) (visit : Visit U64) (c : ChainState) (header : BlockHeader) : ChainState :=
  (c.record keccak header).pruneIfNeeded visit

variable (c : ChainState)

def hasBlock (hash : Hash) : Bool := (c.knownBlocks.lookup hash).isSome

def getBlock (hash : Hash) : Option BlockHeader := c.knownBlocks.lookup hash

def blockCount : Nat := c.knownBlocks.size

theorem removeHeightLookup (k) :
    (∀ h, (c.removeHeight k).heightIndex.lookup h = if h = k then none else c.heightIndex.lookup h) ∧
    ∀ x, (c.removeHeight k).knownBlocks.lookup x =
      if c.heightIndex.lookup k = some x then none else c.knownBlocks.lookup x := by
  unfold removeHeight
  cases found : c.heightIndex.lookup k with
  | none =>
    refine ⟨fun h => ?_,fun x => by simp⟩
    dsimp only
    split
    · rename_i here
      rw [here]
      exact found
    · rfl
  | some hash =>
    refine ⟨fun h => lookupErase _ _ _,fun x => ?_⟩
    simp only [lookupErase,Option.some.injEq,eq_comm]

theorem removeHeightHead (k) :
    (c.removeHeight k).head = c.head ∧ (c.removeHeight k).maxBlocks = c.maxBlocks := by
  unfold removeHeight
  split <;> exact ⟨rfl,rfl⟩

theorem foldRemoves (heights : List U64) (c) : (∀ h, (heights.foldl removeHeight c).heightIndex.lookup h =
      if h ∈ heights then none else c.heightIndex.lookup h) ∧ ∀ x, (heights.foldl removeHeight c).knownBlocks.lookup x =
      if ∃ h ∈ heights, c.heightIndex.lookup h = some x then none else c.knownBlocks.lookup x := by
  induction heights generalizing c with
  | nil => simp
  | cons k rest ih =>
    obtain ⟨index,known⟩ := c.removeHeightLookup k
    obtain ⟨indexRest,knownRest⟩ := ih (c.removeHeight k)
    rw [foldl_cons]
    refine ⟨fun h => ?_,fun x => ?_⟩
    · rw [indexRest,index]
      by_cases here : h = k <;> simp [here]
    · rw [knownRest,known]
      by_cases first : c.heightIndex.lookup k = some x
      · simp [first]
      · have same : (∃ h ∈ rest, (c.removeHeight k).heightIndex.lookup h = some x) ↔
            ∃ h ∈ k::rest, c.heightIndex.lookup h = some x := by
          constructor
          · intro ⟨h,mem,found⟩
            rw [index] at found
            split at found <;> try contradiction
            exact ⟨h,mem_cons_of_mem _ mem,found⟩
          · intro ⟨h,mem,found⟩
            have other : h ≠ k := by
              intro equal
              rw [equal] at found
              exact first found
            refine ⟨h,(mem_cons.mp mem).resolve_left other,?_⟩
            rw [index,if_neg other]
            exact found
        simp only [same,if_neg first]

theorem foldHead (heights : List U64) (c) :
    (heights.foldl removeHeight c).head = c.head ∧ (heights.foldl removeHeight c).maxBlocks = c.maxBlocks :=
  ⟨runFrame ChainState.head (fun d k => (d.removeHeightHead k).1) c heights,
    runFrame ChainState.maxBlocks (fun d k => (d.removeHeightHead k).2) c heights⟩

def Prunes (c : ChainState) (h : U64) : Prop := c.maxBlocks.toNat < c.knownBlocks.size ∧ h.toNat < c.minHeightToKeep

theorem pruneHead (visit) (c : ChainState) :
    (c.pruneIfNeeded visit).head = c.head ∧ (c.pruneIfNeeded visit).maxBlocks = c.maxBlocks := by
  unfold pruneIfNeeded
  split
  · exact ⟨rfl,rfl⟩
  · exact foldHead _ c

theorem pruneLookup (visit) (c : ChainState) :
    (∀ h x, (c.pruneIfNeeded visit).heightIndex.lookup h = some x ↔ c.heightIndex.lookup h = some x ∧ ¬ c.Prunes h) ∧
    ∀ x header, (c.pruneIfNeeded visit).knownBlocks.lookup x = some header ↔
      c.knownBlocks.lookup x = some header ∧ ¬ ∃ h, c.Prunes h ∧ c.heightIndex.lookup h = some x := by
  unfold pruneIfNeeded
  split
  · rename_i small
    have none : ∀ h, ¬ c.Prunes h := fun h prunes => Nat.not_lt.mpr small prunes.1
    simp [none]
  · rename_i large
    have full := Nat.lt_of_not_le large
    obtain ⟨index,known⟩ := foldRemoves (c.heightsToRemove visit) c
    have chosen : ∀ h x, c.heightIndex.lookup h = some x → (h ∈ c.heightsToRemove visit ↔ c.Prunes h) := by
      intro h x found
      simp only [heightsToRemove,mem_filter,visit.complete,decide_eq_true_eq,Prunes,full,true_and]
      exact and_iff_right (memKeys.mpr ⟨x,found⟩)
    refine ⟨fun h x => ?_,fun x header => ?_⟩
    · rw [index]
      constructor
      · intro found
        split at found <;> try contradiction
        rename_i kept
        exact ⟨found,fun prunes => kept ((chosen h x found).mpr prunes)⟩
      · intro ⟨found,kept⟩
        rw [if_neg (fun mem => kept ((chosen h x found).mp mem))]
        exact found
    · have same : (∃ h ∈ c.heightsToRemove visit, c.heightIndex.lookup h = some x) ↔
          ∃ h, c.Prunes h ∧ c.heightIndex.lookup h = some x :=
        ⟨fun ⟨h,mem,found⟩ => ⟨h,(chosen h x found).mp mem,found⟩,
          fun ⟨h,prunes,found⟩ => ⟨h,(chosen h x found).mpr prunes,found⟩⟩
      rw [known,← same]
      split
      · rename_i removed
        exact ⟨fun impossible => (nomatch impossible),fun kept => absurd removed kept.2⟩
      · rename_i kept
        exact (and_iff_left kept).symm

end ChainState

def Headed (c : ChainState) : Prop :=
  ∃ header, c.knownBlocks.lookup c.head.blockHash = some header ∧ header.blockHeight = c.head.blockHeight

structure Sound (c : ChainState) : Prop where
  indexed : ∀ h x, c.heightIndex.lookup h = some x →
    ∃ header, c.knownBlocks.lookup x = some header ∧ header.blockHeight = h
  below : ∀ x header, c.knownBlocks.lookup x = some header → header.blockHeight.toNat ≤ c.head.blockHeight.toNat
  headed : c.knownBlocks = ∅ ∧ c.head = {} ∨ Headed c

namespace Sound
variable {c : ChainState} {keccak : Bytes → Hash} {header : BlockHeader}

theorem withMaxBlocks (maxBlocks) : Sound (.withMaxBlocks maxBlocks) :=
  ⟨fun _ _ found => (nomatch found),fun _ _ found => (nomatch found),.inl ⟨rfl,rfl⟩⟩

theorem recordHeadCases (c : ChainState) (keccak) (header) :
    (c.record keccak header).head = ⟨header.hash keccak,header.blockHeight,header.timestamp⟩ ∨
    (c.record keccak header).head = c.head ∧ c.head ≠ {} := by
  unfold ChainState.record
  split
  · exact .inl rfl
  · rename_i lower
    refine .inr ⟨rfl,fun fresh => lower (.inr ?_)⟩
    rw [fresh]

theorem recordHead (c : ChainState) (keccak) (header) :
    c.head.blockHeight.toNat ≤ (c.record keccak header).head.blockHeight.toNat ∧
    header.blockHeight.toNat ≤ (c.record keccak header).head.blockHeight.toNat := by
  unfold ChainState.record
  split
  · rename_i higher
    rcases higher with above | zero
    · exact ⟨Nat.le_of_lt (BitVec.lt_def.mp above),Nat.le_refl _⟩
    · rw [zero]
      exact ⟨Nat.zero_le _,Nat.le_refl _⟩
  · rename_i lower
    exact ⟨Nat.le_refl _,Nat.le_of_not_lt (fun above => lower (.inl (BitVec.lt_def.mpr above)))⟩

theorem recordKeeps (agrees : ∀ old, c.knownBlocks.lookup (header.hash keccak) = some old →
    old.blockHeight = header.blockHeight) (x) (old) (found : c.knownBlocks.lookup x = some old) :
    ∃ new, (c.record keccak header).knownBlocks.lookup x = some new ∧ new.blockHeight = old.blockHeight := by
  simp only [ChainState.record,lookupInsert]
  split
  · rename_i same
    exact ⟨header,rfl,(agrees old (same ▸ found)).symm⟩
  · exact ⟨old,found,rfl⟩

theorem recordHeaded (sound : Sound c) (agrees : ∀ old, c.knownBlocks.lookup (header.hash keccak) = some old →
    old.blockHeight = header.blockHeight) : Headed (c.record keccak header) := by
  unfold Headed
  rcases recordHeadCases c keccak header with new | ⟨same,started⟩
  · rw [new]
    exact ⟨header,Finmap.lookup_insert _,rfl⟩
  · rw [same]
    rcases sound.headed with ⟨_,fresh⟩ | ⟨old,stored,height⟩
    · exact absurd fresh started
    · obtain ⟨new,there,equal⟩ := recordKeeps agrees _ old stored
      exact ⟨new,there,equal.trans height⟩

theorem record (sound : Sound c) (agrees : ∀ old, c.knownBlocks.lookup (header.hash keccak) = some old →
    old.blockHeight = header.blockHeight) : Sound (c.record keccak header) := by
  obtain ⟨higher,own⟩ := recordHead c keccak header
  refine ⟨fun h x found => ?_,fun x block found => ?_,.inr (sound.recordHeaded agrees)⟩
  · have place : (c.record keccak header).heightIndex.lookup h =
        if h = header.blockHeight then some (header.hash keccak) else c.heightIndex.lookup h :=
      lookupInsert _ _ _ _
    rw [place] at found
    split at found
    · rename_i same
      cases Option.some.inj found
      exact ⟨header,Finmap.lookup_insert _,same.symm⟩
    · obtain ⟨old,stored,height⟩ := sound.indexed h x found
      obtain ⟨new,there,equal⟩ := recordKeeps agrees x old stored
      exact ⟨new,there,equal.trans height⟩
  · simp only [ChainState.record,lookupInsert] at found
    split at found
    · cases Option.some.inj found
      exact own
    · exact Nat.le_trans (sound.below x block found) higher

theorem spared (sound : Sound c) (visit) {x} (found : c.knownBlocks.lookup x = some header)
    (kept : ¬ c.Prunes header.blockHeight) : (c.pruneIfNeeded visit).knownBlocks.lookup x = some header := by
  refine ((c.pruneLookup visit).2 x header).mpr ⟨found,fun ⟨h,prunes,at'⟩ => kept ?_⟩
  obtain ⟨other,stored,height⟩ := sound.indexed h x at'
  cases Option.some.inj (found.symm.trans stored)
  rw [height]
  exact prunes

theorem pruneHeaded (sound : Sound c) (headed : Headed c) (visit) : Headed (c.pruneIfNeeded visit) := by
  obtain ⟨header,stored,height⟩ := headed
  unfold Headed
  rw [(c.pruneHead visit).1]
  refine ⟨header,sound.spared visit stored (fun prunes => ?_),height⟩
  -- The head is as high as the head, and what is pruned is lower.
  have low := prunes.2
  rw [ChainState.minHeightToKeep,height] at low
  omega

theorem prune (sound : Sound c) (visit) : Sound (c.pruneIfNeeded visit) := by
  obtain ⟨index,known⟩ := c.pruneLookup visit
  obtain ⟨head,_⟩ := c.pruneHead visit
  refine ⟨fun h x found => ?_,fun x header found => ?_,?_⟩
  · obtain ⟨before,kept⟩ := (index h x).mp found
    obtain ⟨header,stored,height⟩ := sound.indexed h x before
    exact ⟨header,sound.spared visit stored (height ▸ kept),height⟩
  · rw [head]
    exact sound.below x header ((known x header).mp found).1
  · rcases sound.headed with ⟨empty,fresh⟩ | headed
    · have small : c.knownBlocks.size ≤ c.maxBlocks.toNat := by
        rw [empty]
        exact Nat.zero_le _
      rw [ChainState.pruneIfNeeded,if_pos small]
      exact .inl ⟨empty,fresh⟩
    · exact .inr (sound.pruneHeaded headed visit)

theorem addBlock (sound : Sound c) (visit)
    (agrees : ∀ old, c.knownBlocks.lookup (header.hash keccak) = some old → old.blockHeight = header.blockHeight) :
    Sound (c.addBlock keccak visit header) ∧ Headed (c.addBlock keccak visit header) :=
  ⟨(sound.record agrees).prune visit,(sound.record agrees).pruneHeaded (sound.recordHeaded agrees) visit⟩

end Sound

def OnePerHeight (c : ChainState) : Prop :=
  ∀ x header, c.knownBlocks.lookup x = some header → c.heightIndex.lookup header.blockHeight = some x

theorem singleKeys (c) : (c.knownBlocks.keys.filter (fun x => (c.knownBlocks.lookup x).all
      (fun header => decide (c.heightIndex.lookup header.blockHeight = some x)) = false)).card = 0 ↔ OnePerHeight c := by
  rw [card_eq_zero,filter_eq_empty_iff]
  constructor
  · intro each x header found
    have own := each (memKeys.mpr ⟨header,found⟩)
    rw [found] at own
    simpa using own
  · intro single x mem
    obtain ⟨header,found⟩ := memKeys.mp mem
    rw [found]
    simpa using single x header found

instance (c : ChainState) : Decidable (OnePerHeight c) := decidable_of_iff _ (singleKeys c)

theorem pruneSize (visit) (c : ChainState) : (c.pruneIfNeeded visit).blockCount ≤ c.blockCount :=
  sizeMono (fun x header found => ⟨header,(((c.pruneLookup visit).2 x header).mp found).1⟩)

theorem pruneBounded {c} (sound : Sound c) (single : OnePerHeight c) (visit) :
    (c.pruneIfNeeded visit).blockCount ≤ c.maxBlocks.toNat + 1 := by
  by_cases small : c.knownBlocks.size ≤ c.maxBlocks.toNat
  · exact Nat.le_succ_of_le (Nat.le_trans (pruneSize visit c) small)
  obtain ⟨_,known⟩ := c.pruneLookup visit
  let height : Hash → Nat := fun x => ((c.knownBlocks.lookup x).map (fun header => header.blockHeight.toNat)).getD 0
  have block : ∀ x ∈ (c.pruneIfNeeded visit).knownBlocks.keys, ∃ header, c.knownBlocks.lookup x = some header ∧
      height x = header.blockHeight.toNat ∧ ¬ c.Prunes header.blockHeight := by
    intro x mem
    obtain ⟨header,found⟩ := memKeys.mp mem
    obtain ⟨before,kept⟩ := (known x header).mp found
    exact ⟨header,before,by simp only [height,before]; rfl,fun prunes => kept ⟨_,prunes,single x header before⟩⟩
  have inside : ∀ x ∈ (c.pruneIfNeeded visit).knownBlocks.keys,
      height x ∈ Finset.Icc c.minHeightToKeep c.head.blockHeight.toNat := by
    intro x mem
    obtain ⟨header,before,same,kept⟩ := block x mem
    rw [mem_Icc,same]
    exact ⟨Nat.le_of_not_lt (fun low => kept ⟨Nat.lt_of_not_le small,low⟩),sound.below x header before⟩
  have apart : Set.InjOn height (c.pruneIfNeeded visit).knownBlocks.keys := by
    intro x memX y memY same
    obtain ⟨header,before,heightX,_⟩ := block x memX
    obtain ⟨other,before',heightY,_⟩ := block y memY
    have equal : header.blockHeight = other.blockHeight :=
      BitVec.eq_of_toNat_eq (heightX.symm.trans (same.trans heightY))
    have first := single x header before
    rw [equal,single y other before'] at first
    exact (Option.some.inj first).symm
  have count := card_le_card_of_injOn height inside apart
  rw [Nat.card_Icc,ChainState.minHeightToKeep] at count
  change (c.pruneIfNeeded visit).knownBlocks.keys.card ≤ _
  omega

theorem recordSingle {c keccak header} (single : OnePerHeight c)
    (free : c.heightIndex.lookup header.blockHeight = none) : OnePerHeight (c.record keccak header) := by
  intro x block found
  simp only [ChainState.record,lookupInsert] at found ⊢
  split at found
  · rename_i same
    cases Option.some.inj found
    rw [if_pos rfl,same]
  · have own := single x block found
    rw [if_neg]
    · exact own
    · intro same
      rw [same,free] at own
      contradiction

def Unforked (keccak : Bytes → Hash) (c : ChainState) (header : BlockHeader) : Prop :=
  c.hasBlock (header.hash keccak) = true ∨ c.blockCount ≤ c.maxBlocks.toNat ∨
    OnePerHeight c ∧ c.heightIndex.lookup header.blockHeight = none

instance (keccak : Bytes → Hash) (c : ChainState) (header : BlockHeader) : Decidable (Unforked keccak c header) :=
  inferInstanceAs (Decidable (_ ∨ _ ∨ _))

theorem addBounded {c keccak header} (sound : Sound c) (visit)
    (agrees : ∀ old, c.knownBlocks.lookup (header.hash keccak) = some old → old.blockHeight = header.blockHeight)
    (bounded : c.blockCount ≤ c.maxBlocks.toNat + 1) (unforked : Unforked keccak c header) :
    (c.addBlock keccak visit header).blockCount ≤ c.maxBlocks.toNat + 1 := by
  rcases unforked with known | room | ⟨single,free⟩
  · obtain ⟨old,found⟩ := Option.isSome_iff_exists.mp known
    have same := sizeInsertKnown found header
    exact Nat.le_trans (pruneSize visit _) (Nat.le_trans (Nat.le_of_eq same) bounded)
  · have more : (c.record keccak header).blockCount ≤ c.blockCount + 1 := by
      cases found : c.knownBlocks.lookup (header.hash keccak) with
      | none => exact Nat.le_of_eq (sizeInsertFresh found header)
      | some old => exact Nat.le_succ_of_le (Nat.le_of_eq (sizeInsertKnown found header))
    exact Nat.le_trans (pruneSize visit _) (Nat.le_trans more (Nat.succ_le_succ room))
  · exact pruneBounded (sound.record agrees) (recordSingle single free) visit

abbrev AddCall := Visit U64 × BlockHeader

def ChainState.add (keccak : Bytes → Hash) (c : ChainState) (call : AddCall) : ChainState :=
  c.addBlock keccak call.1 call.2

def CollisionFree (keccak : Bytes → Hash) (headers : List BlockHeader) : Prop :=
  ∀ a ∈ headers, ∀ b ∈ headers, a.hash keccak = b.hash keccak → a.encoding = b.encoding
instance (keccak headers) : Decidable (CollisionFree keccak headers) := by
  unfold CollisionFree; infer_instance

structure Filed (keccak : Bytes → Hash) (headers : List BlockHeader) (maxBlocks : U64) (c : ChainState) : Prop where
  limit : c.maxBlocks = maxBlocks
  sound : Sound c
  named : ∀ x header, c.knownBlocks.lookup x = some header → header.hash keccak = x ∧ header ∈ headers

namespace Filed
variable {keccak : Bytes → Hash} {headers : List BlockHeader} {maxBlocks : U64} {c : ChainState}

theorem agrees (filed : Filed keccak headers maxBlocks c) (free : CollisionFree keccak headers) {header}
    (given : header ∈ headers) (old) (found : c.knownBlocks.lookup (header.hash keccak) = some old) :
    old.blockHeight = header.blockHeight := by
  obtain ⟨same,received⟩ := filed.named _ old found
  have fields := encodingTells.mp (free old received header given same)
  exact congrArg HashedFields.blockHeight fields

theorem add (filed : Filed keccak headers maxBlocks c) (free : CollisionFree keccak headers) {call}
    (given : call.2 ∈ headers) : Filed keccak headers maxBlocks (c.add keccak call) := by
  refine ⟨((ChainState.pruneHead call.1 _).2).trans filed.limit,(filed.sound.addBlock call.1 (filed.agrees free given)).1,?_⟩
  intro x header found
  have before := (((ChainState.pruneLookup call.1 _).2 x header).mp found).1
  rw [ChainState.record,lookupInsert] at before
  split at before
  · rename_i same
    cases Option.some.inj before
    exact ⟨same.symm,given⟩
  · exact filed.named x header before

end Filed

theorem chainMemoryBounded (keccak : Bytes → Hash) (maxBlocks : U64) (calls : List AddCall)
    (free : CollisionFree keccak (calls.map Prod.snd)) :
    Along (ChainState.add keccak) (fun c call => (c.add keccak call).hasBlock (c.add keccak call).head.blockHash = true)
      (.withMaxBlocks maxBlocks) calls ∧
    (Along (ChainState.add keccak) (fun c call => Unforked keccak c call.2) (.withMaxBlocks maxBlocks) calls →
      Along (ChainState.add keccak) (fun c call => (c.add keccak call).blockCount ≤ maxBlocks.toNat + 1)
        (.withMaxBlocks maxBlocks) calls) := by
  have given : Along (ChainState.add keccak) (fun _ call => call.2 ∈ calls.map Prod.snd) (.withMaxBlocks maxBlocks) calls :=
    alongEach _ (fun call mem => mem_map.mpr ⟨call,mem,rfl⟩)
  have start : Filed keccak (calls.map Prod.snd) maxBlocks (.withMaxBlocks maxBlocks) :=
    ⟨rfl,.withMaxBlocks maxBlocks,fun _ _ found => (nomatch found)⟩
  have small : (ChainState.withMaxBlocks maxBlocks).blockCount ≤ maxBlocks.toNat + 1 := by
    rw [show (ChainState.withMaxBlocks maxBlocks).blockCount = 0 from rfl]
    exact Nat.zero_le _
  refine ⟨?_,fun unforked => ?_⟩
  · refine alongUnder (fun c call filed given => filed.add free given) (fun c call filed given => ?_) start given
    obtain ⟨header,stored,_⟩ := (filed.sound.addBlock call.1 (filed.agrees free given)).2
    exact Option.isSome_iff_exists.mpr ⟨header,stored⟩
  · have meets := alongAnd given unforked
    refine alongKeeps
      (I := fun c => Filed keccak (calls.map Prod.snd) maxBlocks c ∧ c.blockCount ≤ maxBlocks.toNat + 1)
      (fun c call inv meets => ?_) (fun c inv => inv.2) ⟨start,small⟩ meets
    obtain ⟨filed,bounded⟩ := inv
    obtain ⟨received,straight⟩ := meets
    refine ⟨filed.add free received,?_⟩
    rw [← filed.limit] at bounded ⊢
    exact addBounded filed.sound call.1 (filed.agrees free received) bounded straight

def gasDigest (bytes : Bytes) : Hash := BitVec.ofNat 256 (bytes[92]?.getD 0).toNat

def linked (height : U64) (parent : Hash) (gasUsed : U64) : BlockHeader :=
  ⟨1,height,parent,1000 + height,0,none,none,0,30000000,gasUsed,[]⟩

def forkedCalls : List AddCall := [(.upwards,linked 0 0 1),(.upwards,linked 1 1 2),(.upwards,linked 1 1 3)]

theorem forkExceedsLimit :
    (linked 0 0 1).hash gasDigest = 1 ∧ (linked 1 1 2).hash gasDigest ≠ (linked 1 1 3).hash gasDigest ∧
    (StepRun.run (ChainState.add gasDigest) (.withMaxBlocks 1) forkedCalls).blockCount = 3 := by
  refine ⟨?_,?_,?_⟩ <;> decide +kernel

def straightCalls : List AddCall := [(.upwards,linked 0 0 1),(.upwards,linked 1 1 2),(.upwards,linked 2 2 3)]

theorem straightChainBounded :
    Along (ChainState.add gasDigest) (fun c call => (c.add gasDigest call).blockCount ≤ (1 : U64).toNat + 1)
      (.withMaxBlocks 1) straightCalls ∧
    (StepRun.run (ChainState.add gasDigest) (.withMaxBlocks 1) straightCalls).blockCount = 2 :=
  ⟨(chainMemoryBounded gasDigest 1 straightCalls (by decide +kernel)).2 (by decide +kernel),by decide +kernel⟩

end QuantumChain.Consensus
