import QuantumChain.FixedWidth
import QuantumChain.KeyedMap
import QuantumChain.WeightedQuorum

/-! Entities of the finality subsystem.
Stakes are words of 128 bits, and sums saturate. -/
namespace QuantumChain.Finality
open KeyedMap WeightedQuorum

abbrev ValidatorId := BitVec 256
abbrev BlsSignature := Bytes
abbrev BlsPublicKey := BitVec 384

structure CheckpointId where
  epoch : Nat
  blockHash : Hash
  deriving DecidableEq, Repr

inductive CheckpointState where
  | pending
  | justified
  | finalized
  deriving DecidableEq, Repr

structure Checkpoint where
  epoch : Nat
  blockHash : Hash
  blockHeight : Nat
  state : CheckpointState
  attestedStake : U128
  totalStake : U128
  deriving DecidableEq, Repr

namespace Checkpoint

def new (epoch : Nat) (blockHash : Hash) (blockHeight : Nat) : Checkpoint :=
  ⟨epoch,blockHash,blockHeight,.pending,0,0⟩

variable (cp : Checkpoint)

def withTotalStake (totalStake : U128) : Checkpoint :=
  {cp with totalStake := totalStake}

def id : CheckpointId := ⟨cp.epoch,cp.blockHash⟩

def isJustified : Bool :=
  match cp.state with
  | .pending => false
  | .justified | .finalized => true

def isFinalized : Bool := decide (cp.state = .finalized)

def requiredStake (totalStake : U128) : U128 :=
  match U128.checkedMul totalStake 2 with
  | some v => v / 3 + 1
  | none => U128.saturatingAdd (U128.saturatingMul (totalStake / 3) 2) 1

variable (cp : Checkpoint)

def checkJustificationThreshold : Bool :=
  if cp.totalStake = 0 then false
  else decide (requiredStake cp.totalStake ≤ cp.attestedStake)

def addAttestationStake (stake : U128) : Checkpoint :=
  {cp with attestedStake := U128.saturatingAdd cp.attestedStake stake}

def tryJustify : Bool × Checkpoint :=
  if cp.state = .pending ∧ cp.checkJustificationThreshold = true then
    (true,{cp with state := .justified})
  else (false,cp)

def finalize : Bool × Checkpoint :=
  if cp.state = .justified then (true,{cp with state := .finalized}) else (false,cp)

theorem tryJustifyFields :
    cp.tryJustify.2.epoch = cp.epoch ∧ cp.tryJustify.2.blockHash = cp.blockHash ∧
    cp.tryJustify.2.attestedStake = cp.attestedStake ∧ cp.tryJustify.2.totalStake = cp.totalStake := by
  unfold tryJustify
  split <;> exact ⟨rfl,rfl,rfl,rfl⟩

theorem tryJustifyJustified {cp : Checkpoint} (h : cp.tryJustify.2.isJustified = true) :
    cp.isJustified = true ∨ cp.checkJustificationThreshold = true := by
  unfold tryJustify at h
  split at h
  · rename_i met; exact .inr met.2
  · exact .inl h

variable (cp : Checkpoint)

theorem finalizeFields : cp.finalize.2.epoch = cp.epoch ∧ cp.finalize.2.blockHash = cp.blockHash ∧
    cp.finalize.2.attestedStake = cp.attestedStake ∧ cp.finalize.2.totalStake = cp.totalStake ∧
    cp.finalize.2.isJustified = cp.isJustified := by
  unfold finalize
  split
  · rename_i just; exact ⟨rfl,rfl,rfl,rfl,by simp [isJustified,just]⟩
  · exact ⟨rfl,rfl,rfl,rfl,rfl⟩

theorem tryJustifyThreshold :
    cp.tryJustify.2.checkJustificationThreshold = cp.checkJustificationThreshold := by
  unfold tryJustify
  split <;> rfl

theorem finalizeThreshold :
    cp.finalize.2.checkJustificationThreshold = cp.checkJustificationThreshold := by
  unfold finalize
  split <;> rfl

theorem thresholdStays {cp : Checkpoint} (met : cp.checkJustificationThreshold = true) (stake) :
    (cp.addAttestationStake stake).checkJustificationThreshold = true := by
  unfold checkJustificationThreshold addAttestationStake at *
  split at met
  · contradiction
  · rename_i positive
    have reached := of_decide_eq_true met
    have small := cp.attestedStake.isLt
    have more : cp.attestedStake.toNat ≤ (U128.saturatingAdd cp.attestedStake stake).toNat := by
      rw [U128.toNatSaturatingAdd]
      unfold u128Max
      omega
    simp only [if_neg positive]
    exact decide_eq_true (BitVec.le_def.mpr (reached.trans more))

def ThresholdExact (totalStake : U128) : Prop :=
  totalStake.toNat < 2^127 ∨ totalStake.toNat % 3 ≠ 2
instance (totalStake) : Decidable (ThresholdExact totalStake) := by
  unfold ThresholdExact; infer_instance

theorem toNatRequiredStake (totalStake) : (requiredStake totalStake).toNat =
      if totalStake.toNat < 2^127 then totalStake.toNat * 2 / 3 + 1 else totalStake.toNat / 3 * 2 + 1 := by
  have bound := totalStake.isLt
  have three : (3 : U128).toNat = 3 := rfl
  have two : (2 : U128).toNat = 2 := rfl
  have one : (1 : U128).toNat = 1 := rfl
  unfold requiredStake
  cases h : U128.checkedMul totalStake 2 with
  | some v =>
    have product := U128.checkedMulSome h
    have small := v.isLt
    rw [two] at product
    have below : totalStake.toNat < 2^127 := by omega
    simp only [if_pos below,BitVec.toNat_add,BitVec.toNat_udiv,three,one,product]
    rw [Nat.mod_eq_of_lt (by omega)]
  | none =>
    have large := U128.checkedMulNone h
    rw [two] at large
    unfold u128Max at large
    have above : ¬ totalStake.toNat < 2^127 := by omega
    simp only [if_neg above,U128.toNatSaturatingAdd,U128.toNatSaturatingMul,BitVec.toNat_udiv,
      three,two,one,u128Max]
    omega

theorem thresholdSupermajority {cp : Checkpoint} (sound : ThresholdExact cp.totalStake)
    (met : cp.checkJustificationThreshold = true) : 2 * cp.totalStake.toNat < 3 * cp.attestedStake.toNat := by
  unfold checkJustificationThreshold at met
  split at met
  · contradiction
  · have reached : (requiredStake cp.totalStake).toNat ≤ cp.attestedStake.toNat := of_decide_eq_true met
    rw [toNatRequiredStake] at reached
    unfold ThresholdExact at sound
    split at reached <;> omega

end Checkpoint

structure Attestation where
  validatorId : ValidatorId
  sourceCheckpoint : CheckpointId
  targetCheckpoint : CheckpointId
  signature : BlsSignature
  slot : Nat
  deriving DecidableEq, Repr

def Attestation.conflictsWith (self other : Attestation) : Bool :=
  if self.validatorId ≠ other.validatorId then false
  else if self.targetCheckpoint.epoch = other.targetCheckpoint.epoch ∧
      self.targetCheckpoint.blockHash ≠ other.targetCheckpoint.blockHash then true
  else if self.sourceCheckpoint.epoch < other.sourceCheckpoint.epoch ∧
      self.targetCheckpoint.epoch > other.targetCheckpoint.epoch then true
  else if other.sourceCheckpoint.epoch < self.sourceCheckpoint.epoch ∧
      other.targetCheckpoint.epoch > self.targetCheckpoint.epoch then true
  else false

theorem doubleVoteConflicts {a b : Attestation} (voter : a.validatorId = b.validatorId)
    (epoch : a.targetCheckpoint.epoch = b.targetCheckpoint.epoch)
    (block : a.targetCheckpoint.blockHash ≠ b.targetCheckpoint.blockHash) : a.conflictsWith b = true := by
  simp [Attestation.conflictsWith,voter,epoch,block]

structure AggregatedAttestations where
  sourceCheckpoint : CheckpointId
  targetCheckpoint : CheckpointId
  attestations : List Attestation
  participationBitmap : List Bool
  aggregateSignature : Option BlsSignature
  totalStake : U128
  deriving DecidableEq, Repr

namespace AggregatedAttestations

def new (source target : CheckpointId) (validatorCount : Nat) : AggregatedAttestations :=
  ⟨source,target,[],List.replicate validatorCount false,none,0⟩

def addAttestation (agg : AggregatedAttestations) (attestation : Attestation) (validatorIndex : Nat)
    (stake : U128) : AggregatedAttestations :=
  {agg with
    participationBitmap :=
      -- An index past the bitmap marks nobody; the vote and its stake are added all the same.
      if validatorIndex < agg.participationBitmap.length then agg.participationBitmap.set validatorIndex true
      else agg.participationBitmap
    attestations := agg.attestations ++ [attestation]
    totalStake := U128.saturatingAdd agg.totalStake stake}

def hasAttested (agg : AggregatedAttestations) (validatorIndex : Nat) : Bool :=
  agg.participationBitmap[validatorIndex]?.getD false

theorem newHasAttested (source target) (count i) : (new source target count).hasAttested i = false := by
  unfold hasAttested new
  cases h : (List.replicate count false)[i]? with
  | none => rfl
  | some b => exact (List.mem_replicate.mp (List.mem_of_getElem? h)).2

theorem addAttestationLength (agg : AggregatedAttestations) (a i stake) :
    (agg.addAttestation a i stake).participationBitmap.length = agg.participationBitmap.length := by
  unfold addAttestation
  split <;> simp

theorem addAttestationHasAttested {agg : AggregatedAttestations} {i}
    (inside : i < agg.participationBitmap.length) (a) (stake) (j) :
    (agg.addAttestation a i stake).hasAttested j = if j = i then true else agg.hasAttested j := by
  unfold hasAttested addAttestation
  simp only [if_pos inside,List.getElem?_set]
  split
  · rename_i same; subst j; simp
  · rename_i other; rw [if_neg (fun h => other h.symm)]

end AggregatedAttestations

structure Validator where
  id : ValidatorId
  stake : U128
  index : Nat
  active : Bool
  pubkey : BlsPublicKey
  deriving DecidableEq, Repr

def Validator.new (id : ValidatorId) (stake : U128) (index : Nat) : Validator :=
  ⟨id,stake,index,true,id ++ (0 : BitVec 128)⟩

def Validator.withPubkey (id : ValidatorId) (stake : U128) (index : Nat) (pubkey : BlsPublicKey) :
    Validator := ⟨id,stake,index,true,pubkey⟩

structure ValidatorSet where
  validators : KeyedMap ValidatorId Validator
  indexToId : List ValidatorId
  totalStake : U128
  epoch : Nat
  deriving DecidableEq

namespace ValidatorSet

def new (epoch : Nat) : ValidatorSet := ⟨∅,[],0,epoch⟩

def push (vs : ValidatorSet) (validator : Validator) : ValidatorSet :=
  {vs with
    validators := vs.validators.insert validator.id validator
    indexToId := vs.indexToId ++ [validator.id]
    totalStake := U128.saturatingAdd vs.totalStake validator.stake}

def addValidator (vs : ValidatorSet) (id : ValidatorId) (stake : U128) : ValidatorSet :=
  vs.push (Validator.new id stake vs.indexToId.length)

def addValidatorWithPubkey (vs : ValidatorSet) (id : ValidatorId) (stake : U128)
    (pubkey : BlsPublicKey) : ValidatorSet :=
  vs.push (Validator.withPubkey id stake vs.indexToId.length pubkey)

def get (vs : ValidatorSet) (id : ValidatorId) : Option Validator := vs.validators.lookup id

def getIndex (vs : ValidatorSet) (id : ValidatorId) : Option Nat := (vs.get id).map Validator.index

def getStake (vs : ValidatorSet) (id : ValidatorId) : Option U128 := (vs.get id).map Validator.stake

def contains (vs : ValidatorSet) (id : ValidatorId) : Bool := (vs.get id).isSome

def len (vs : ValidatorSet) : Nat := vs.validators.size

def requiredStake (vs : ValidatorSet) : U128 := Checkpoint.requiredStake vs.totalStake

inductive DistinctIds : ValidatorSet → Prop where
  | new (epoch : Nat) : DistinctIds (ValidatorSet.new epoch)
  | add {vs} (tail : DistinctIds vs) (id : ValidatorId) (stake : U128)
      (fresh : vs.contains id = false) : DistinctIds (vs.addValidator id stake)
  | addWithPubkey {vs} (tail : DistinctIds vs) (id : ValidatorId) (stake : U128) (pubkey : BlsPublicKey)
      (fresh : vs.contains id = false) : DistinctIds (vs.addValidatorWithPubkey id stake pubkey)

variable (vs : ValidatorSet)

def ids : Finset ValidatorId := vs.validators.keys

def stakeOf (id : ValidatorId) : Nat := ((vs.getStake id).map BitVec.toNat).getD 0

def fullStake : Nat := weight vs.stakeOf vs.ids

structure Indexed (vs : ValidatorSet) : Prop where
  position : ∀ id i, vs.getIndex id = some i → vs.indexToId[i]? = some id
  size : vs.len = vs.indexToId.length
  total : vs.totalStake.toNat = min vs.fullStake u128Max

theorem pushIndexed {vs} (indexed : Indexed vs) {validator}
    (fresh : vs.contains validator.id = false) (last : validator.index = vs.indexToId.length) :
    Indexed (vs.push validator) := by
  have absent : vs.validators.lookup validator.id = none := by
    simpa [contains,get] using fresh
  have notMember : validator.id ∉ vs.ids := by
    intro member
    obtain ⟨v,found⟩ := memKeys.mp member
    simp [absent] at found
  refine ⟨?_,?_,?_⟩
  · intro id i found
    simp only [getIndex,get,push,lookupInsert] at found
    by_cases same : id = validator.id
    · rw [if_pos same] at found
      have at' := Option.some.inj found
      subst id
      rw [← at',last]
      simp [push]
    · rw [if_neg same] at found
      have old := indexed.position id i found
      have inside := (List.getElem?_eq_some_iff.mp old).1
      simp only [push,List.getElem?_append_left inside,old]
  · have grown := sizeInsertFresh absent validator
    have size := indexed.size
    simp only [len,push,List.length_append,List.length_singleton] at *
    omega
  · have stakes : ∀ id ∈ vs.ids, (vs.push validator).stakeOf id = vs.stakeOf id := by
      intro id member
      have other : id ≠ validator.id := fun same => notMember (same ▸ member)
      simp only [stakeOf,getStake,get,push,lookupInsert,if_neg other]
    have own : (vs.push validator).stakeOf validator.id = validator.stake.toNat := by
      simp [stakeOf,getStake,get,push]
    have keys : (vs.push validator).ids = insert validator.id vs.ids :=
      keysInsert vs.validators validator.id validator
    have full : (vs.push validator).fullStake = validator.stake.toNat + vs.fullStake := by
      unfold fullStake
      rw [keys,weightInsert _ notMember,own]
      exact congrArg _ (Finset.sum_congr rfl stakes)
    have total := indexed.total
    rw [full]
    simp only [push,U128.toNatSaturatingAdd]
    omega

theorem distinctIndexed {vs} (distinct : DistinctIds vs) : Indexed vs := by
  induction distinct with
  | new epoch =>
    refine ⟨?_,rfl,?_⟩
    · intro id i found
      simp [getIndex,get,new] at found
    · simp [fullStake,ids,new,weight]
  | add tail id stake fresh ih => exact pushIndexed ih fresh rfl
  | addWithPubkey tail id stake pubkey fresh ih => exact pushIndexed ih fresh rfl

theorem indexInjective {vs} (indexed : Indexed vs) {a b i}
    (left : vs.getIndex a = some i) (right : vs.getIndex b = some i) : a = b := by
  have same := (indexed.position a i left).symm.trans (indexed.position b i right)
  exact Option.some.inj same

theorem indexBound {vs} (indexed : Indexed vs) {id i} (found : vs.getIndex id = some i) : i < vs.len := by
  rw [indexed.size]
  exact (List.getElem?_eq_some_iff.mp (indexed.position id i found)).1

theorem memIds {vs : ValidatorSet} {id} : id ∈ vs.ids ↔ vs.contains id = true := by
  unfold ids contains get
  rw [memKeys,Option.isSome_iff_exists]

theorem indexOfMember {vs : ValidatorSet} {id} (member : vs.contains id = true) : ∃ i, vs.getIndex id = some i := by
  obtain ⟨v,found⟩ := Option.isSome_iff_exists.mp member
  exact ⟨v.index,by simp [getIndex,found]⟩

theorem stakeOfMember {vs : ValidatorSet} {id} (member : vs.contains id = true) :
    ∃ stake, vs.getStake id = some stake ∧ vs.stakeOf id = stake.toNat := by
  obtain ⟨v,found⟩ := Option.isSome_iff_exists.mp member
  exact ⟨v.stake,by simp [getStake,found],by simp [stakeOf,getStake,found]⟩

end ValidatorSet

inductive FinalityState where
  | running
  | sync (attempt : Nat)
  | haltedAwaitingIntervention
  deriving DecidableEq, Repr

inductive FinalityEvent where
  | finalityAchieved
  | finalityFailed
  | syncSuccess
  | syncFailed
  | manualIntervention
  deriving DecidableEq, Repr

structure CircuitBreaker where
  state : FinalityState
  maxSyncAttempts : Nat
  consecutiveFailures : Nat
  interventionCount : Nat
  deriving DecidableEq, Repr

namespace CircuitBreaker

def new : CircuitBreaker := ⟨.running,3,0,0⟩

variable (cb : CircuitBreaker)

def isHalted : Bool := decide (cb.state = .haltedAwaitingIntervention)

def nextState (event : FinalityEvent) : FinalityState :=
  match cb.state,event with
  | .running,.finalityAchieved => .running
  | .running,.finalityFailed => .sync 1
  | .sync _,.syncSuccess => .running
  | .sync attempt,.syncFailed =>
    if attempt ≥ cb.maxSyncAttempts then .haltedAwaitingIntervention else .sync (attempt+1)
  | .haltedAwaitingIntervention,.manualIntervention => .running
  | state,_ => state

def processEvent (event : FinalityEvent) : CircuitBreaker :=
  let next := cb.nextState event
  match event with
  | .finalityFailed | .syncFailed =>
    {cb with state := next, consecutiveFailures := cb.consecutiveFailures + 1}
  | .finalityAchieved | .syncSuccess => {cb with state := next, consecutiveFailures := 0}
  | .manualIntervention =>
    {cb with state := next, interventionCount := cb.interventionCount + 1, consecutiveFailures := 0}

end CircuitBreaker
end QuantumChain.Finality
