import QuantumChain.FinalityDomain
import QuantumChain.StepRun

/-! The finality service.
The verifier of signatures and the sink of requests are inputs. -/
namespace QuantumChain.Finality

inductive FinalityError where
  | systemHalted
  | invalidSignature (validatorId : ValidatorId)
  | unknownValidator (validatorId : ValidatorId)
  | conflictingAttestation
  | stakeQueryFailed (reason : String)
  | storageError (reason : String)
  deriving DecidableEq, Repr

structure FinalityConfig where
  inactivityLeakEpochs : Nat := 4
  inactivityLeakRateBps : Nat := 100
  alwaysReverifySignatures : Bool := false
  deriving DecidableEq, Repr

inductive SlashableOffenseType where
  | doubleVote
  | surroundVote
  deriving DecidableEq, Repr

structure SlashableOffense where
  validatorId : ValidatorId
  offenseType : SlashableOffenseType
  attestation1 : Attestation
  attestation2 : Attestation
  detectedEpoch : Nat
  deriving DecidableEq, Repr

structure SlashableOffenseDetectedEvent where
  validatorId : ValidatorId
  offenseType : SlashableOffenseType
  attestation1Source : CheckpointId
  attestation1Target : CheckpointId
  attestation2Source : CheckpointId
  attestation2Target : CheckpointId
  detectedEpoch : Nat
  recommendedSlashPercent : Nat
  deriving DecidableEq, Repr

structure InactivityLeakTriggeredEvent where
  epoch : Nat
  epochsWithoutFinality : Nat
  leakRateBps : Nat
  deriving DecidableEq, Repr

structure FinalityServiceState where
  circuitBreaker : CircuitBreaker
  checkpoints : KeyedMap Nat Checkpoint
  attestations : KeyedMap CheckpointId AggregatedAttestations
  finalizedBlocks : KeyedMap Hash Nat
  lastFinalized : Option Checkpoint
  lastJustified : Option Checkpoint
  currentEpoch : Nat
  epochsWithoutFinality : Nat
  attestationHistory : KeyedMap ValidatorId (List Attestation)
  slashableOffenses : List SlashableOffense
  pendingSlashingEvents : List SlashableOffenseDetectedEvent
  pendingInactivityEvents : List InactivityLeakTriggeredEvent
  maxCheckpoints : Nat
  deriving DecidableEq

def maxHistory : Nat := 64

def popFull : List Attestation → List Attestation
  | [] => []
  | first::rest => if (first::rest).length ≥ maxHistory then popFull rest else first::rest

namespace FinalityServiceState

def new : FinalityServiceState where
  circuitBreaker := CircuitBreaker.new
  checkpoints := ∅
  attestations := ∅
  finalizedBlocks := ∅
  lastFinalized := none
  lastJustified := none
  currentEpoch := 0
  epochsWithoutFinality := 0
  attestationHistory := ∅
  slashableOffenses := []
  pendingSlashingEvents := []
  pendingInactivityEvents := []
  maxCheckpoints := 128

variable (st : FinalityServiceState)

def isInactivityLeakActive (config : FinalityConfig) : Bool :=
  decide (st.epochsWithoutFinality ≥ config.inactivityLeakEpochs)

def pruneOldCheckpoints : FinalityServiceState :=
  if st.checkpoints.size ≤ st.maxCheckpoints then st
  else
    let lastFinalizedEpoch := (st.lastFinalized.map Checkpoint.epoch).getD 0
    let minKeepEpoch := lastFinalizedEpoch - 2
    {st with
      checkpoints := st.checkpoints.retain (fun epoch _ => decide (epoch ≥ minKeepEpoch))
      attestations := st.attestations.retain (fun id _ => decide (id.epoch ≥ minKeepEpoch))}

def recordAttestation (attestation : Attestation) : FinalityServiceState :=
  let history := (st.attestationHistory.lookup attestation.validatorId).getD []
  {st with
    attestationHistory :=
      st.attestationHistory.insert attestation.validatorId (popFull history ++ [attestation])}

def getOrCreateCheckpoint (target : Checkpoint) (totalStake : U128) :
    Checkpoint × FinalityServiceState :=
  match st.checkpoints.lookup target.epoch with
  | some cp => (cp,st)
  | none =>
    let cp := (Checkpoint.new target.epoch target.blockHash 0).withTotalStake totalStake
    (cp,{st with checkpoints := st.checkpoints.insert target.epoch cp})

def getOrCreateAggregate (attestation : Attestation) (validatorCount : Nat) :
    AggregatedAttestations × FinalityServiceState :=
  match st.attestations.lookup attestation.targetCheckpoint with
  | some agg => (agg,st)
  | none =>
    let agg := AggregatedAttestations.new attestation.sourceCheckpoint attestation.targetCheckpoint validatorCount
    (agg,{st with attestations := st.attestations.insert attestation.targetCheckpoint agg})

def countStake (epoch : Nat) (stake : U128) :
    (Bool × Option Checkpoint) × FinalityServiceState :=
  match st.checkpoints.lookup epoch with
  | some cp =>
    -- The stored checkpoint may be of another block than the vote: only the epoch is looked up.
    let attempt := (cp.addAttestationStake stake).tryJustify
    let stored := {st with checkpoints := st.checkpoints.insert epoch attempt.2}
    if attempt.1 then ((true,some attempt.2),{stored with lastJustified := some attempt.2})
    else ((true,none),stored)
  | none => ((true,none),st)

def applyAttestation (attestation : Attestation) (validators : ValidatorSet)
    (stake : U128) : (Bool × Option Checkpoint) × FinalityServiceState :=
  let recorded := st.recordAttestation attestation
  let target := attestation.targetCheckpoint
  let tempCheckpoint := Checkpoint.new target.epoch target.blockHash 0
  let created := (recorded.getOrCreateCheckpoint tempCheckpoint validators.totalStake).2
  let (agg,opened) := created.getOrCreateAggregate attestation validators.len
  match validators.getIndex attestation.validatorId with
  | none => ((false,none),opened)
  | some idx =>
    if agg.hasAttested idx then ((false,none),opened)
    else
      let counted := {opened with
        attestations := opened.attestations.insert target (agg.addAttestation attestation idx stake)}
      counted.countStake target.epoch stake

def conflicting (attestation : Attestation) : Option Attestation :=
  ((st.attestationHistory.lookup attestation.validatorId).getD []).find?
    (fun prev => attestation.conflictsWith prev)

def recordSlashableOffense (attestation conflicting : Attestation)
    (currentEpoch : Nat) : FinalityServiceState :=
  let offenseType :=
    if attestation.targetCheckpoint.epoch = conflicting.targetCheckpoint.epoch then
      SlashableOffenseType.doubleVote
    else .surroundVote
  {st with
    slashableOffenses := st.slashableOffenses ++
      [⟨attestation.validatorId,offenseType,attestation,conflicting,currentEpoch⟩]
    pendingSlashingEvents := st.pendingSlashingEvents ++
      [⟨attestation.validatorId,offenseType,attestation.sourceCheckpoint,attestation.targetCheckpoint,
        conflicting.sourceCheckpoint,conflicting.targetCheckpoint,currentEpoch,100⟩]}

def checkSlashableConditions (attestation : Attestation) :
    Except FinalityError Unit × FinalityServiceState :=
  match st.conflicting attestation with
  | some prev =>
    (.error .conflictingAttestation,
      st.recordSlashableOffense attestation prev attestation.targetCheckpoint.epoch)
  | none => (.ok (),st)

def checkFinalization : Option Checkpoint × FinalityServiceState :=
  match st.lastJustified with
  | none => (none,st)
  | some lastJustified =>
    match lastJustified.epoch with
    | 0 => (none,st)
    | prevEpoch+1 =>
      match st.checkpoints.lookup prevEpoch with
      | none => (none,st)
      | some prevCheckpoint =>
        if prevCheckpoint.isJustified then
          -- Also for a checkpoint that is final already: whether `finalize` changed it is not asked.
          let finalized := prevCheckpoint.finalize.2
          (some finalized,{st with
            checkpoints := st.checkpoints.insert prevEpoch finalized
            finalizedBlocks := st.finalizedBlocks.insert finalized.blockHash finalized.blockHeight
            lastFinalized := some finalized})
        else (none,st)

def checkAndProcessFinalization (config : FinalityConfig) (st : FinalityServiceState) (currentEpoch : Nat) :
    Option Checkpoint × FinalityServiceState :=
  match st.checkFinalization with
  | (some finalized,done) =>
    let settled := {done with
      epochsWithoutFinality := 0
      circuitBreaker := done.circuitBreaker.processEvent .finalityAchieved}
    (some finalized,settled.pruneOldCheckpoints)
  | (none,same) =>
    if same.currentEpoch ≠ currentEpoch then
      let moved := {same with
        currentEpoch := currentEpoch
        epochsWithoutFinality := same.epochsWithoutFinality + 1}
      if moved.isInactivityLeakActive config then
        (none,{moved with pendingInactivityEvents := moved.pendingInactivityEvents ++
          [⟨currentEpoch,moved.epochsWithoutFinality,config.inactivityLeakRateBps⟩]})
      else (none,moved)
    else (none,same)

end FinalityServiceState

structure ProofCheckpoint where
  epoch : Nat
  blockHash : Hash
  blockHeight : Nat
  deriving DecidableEq, Repr

def ProofCheckpoint.ofCheckpoint (cp : Checkpoint) : ProofCheckpoint :=
  ⟨cp.epoch,cp.blockHash,cp.blockHeight⟩

structure FinalityProof where
  sourceCheckpoint : ProofCheckpoint
  targetCheckpoint : ProofCheckpoint
  aggregateSignature : BlsSignature
  participationBitmap : Bytes
  participatingStake : U128
  totalStake : U128
  deriving DecidableEq, Repr

structure MarkFinalizedRequest where
  blockHash : Hash
  blockHeight : Nat
  finalizedEpoch : Nat
  finalityProof : FinalityProof
  deriving DecidableEq, Repr

def packMsb0 (bits : List Bool) : Bytes :=
  (List.range ((bits.length + 7) / 8)).map (fun byte =>
    (List.range 8).foldl (fun acc bit => 2*acc + (if bits[8*byte + bit]?.getD false then 1 else 0)) 0)

def xorInto (aggregated signature : Bytes) : Bytes :=
  aggregated.zipIdx.map (fun entry => entry.1 ^^^ signature[entry.2]?.getD 0)

def aggregateBlsSignatures (attestations : List Attestation) : BlsSignature :=
  if attestations.isEmpty then []
  else attestations.foldl (fun acc a => xorInto acc a.signature) (List.replicate 96 0)

def finalizationRequest (st : FinalityServiceState) (checkpoint : Checkpoint) : MarkFinalizedRequest :=
  let source := (st.checkpoints.lookup (checkpoint.epoch - 1)).getD checkpoint
  let (aggSig,bitmap) := match st.attestations.lookup checkpoint.id with
    | some agg => (aggregateBlsSignatures agg.attestations,agg.participationBitmap)
    | none => ([],[])
  { blockHash := checkpoint.blockHash
    blockHeight := checkpoint.blockHeight
    finalizedEpoch := checkpoint.epoch
    finalityProof :=
      { sourceCheckpoint := .ofCheckpoint source
        targetCheckpoint := .ofCheckpoint checkpoint
        aggregateSignature := aggSig
        participationBitmap := packMsb0 bitmap
        participatingStake := checkpoint.attestedStake
        totalStake := checkpoint.totalStake } }

structure Env where
  config : FinalityConfig
  verifyAttestation : Attestation → Bool
  validatorSetAt : Nat → Except FinalityError ValidatorSet

def processSingleAttestation (env : Env) (validators : ValidatorSet) (st : FinalityServiceState)
    (attestation : Attestation) : Except FinalityError (Option U128) × FinalityServiceState :=
  if validators.contains attestation.validatorId = false then
    (.error (.unknownValidator attestation.validatorId),st)
  else if env.config.alwaysReverifySignatures && !env.verifyAttestation attestation then
    (.error (.invalidSignature attestation.validatorId),st)
  else
    match st.checkSlashableConditions attestation with
    | (.error e,marked) => (.error e,marked)
    | (.ok _,clean) =>
      match validators.getStake attestation.validatorId with
      | none => (.error (.unknownValidator attestation.validatorId),clean)
      | some stake => (.ok (some stake),clean)

def processAttestationUpdate (env : Env) (validators : ValidatorSet) (st : FinalityServiceState)
    (attestation : Attestation) : Except Unit (Option Checkpoint) × FinalityServiceState :=
  match processSingleAttestation env validators st attestation with
  | (.ok (some stake),checked) =>
    match checked.applyAttestation attestation validators stake with
    | ((true,justified),next) => (.ok justified,next)
    | ((false,_),next) => (.error (),next)
  | (_,checked) => (.error (),checked)

structure BatchCounts where
  accepted : Nat
  rejected : Nat
  newJustified : Option Checkpoint
  deriving DecidableEq, Repr

def processAttestationBatch (env : Env) (validators : ValidatorSet) :
    BatchCounts → FinalityServiceState → List Attestation → BatchCounts × FinalityServiceState
  | counts,st,[] => (counts,st)
  | counts,st,attestation::rest =>
    match processAttestationUpdate env validators st attestation with
    | (.ok (some cp),next) =>
      processAttestationBatch env validators
        {counts with accepted := counts.accepted + 1, newJustified := some cp} next rest
    | (.ok none,next) =>
      processAttestationBatch env validators {counts with accepted := counts.accepted + 1} next rest
    | (.error _,next) =>
      processAttestationBatch env validators {counts with rejected := counts.rejected + 1} next rest

structure AttestationResult where
  accepted : Nat
  rejected : Nat
  newJustified : Option Checkpoint
  newFinalized : Option Checkpoint
  slashingEvents : List SlashableOffenseDetectedEvent
  inactivityEvents : List InactivityLeakTriggeredEvent
  deriving DecidableEq, Repr

structure Service where
  state : FinalityServiceState
  sent : List MarkFinalizedRequest
  deriving DecidableEq

def Service.new : Service := ⟨FinalityServiceState.new,[]⟩

structure Call where
  attestations : List Attestation
  markFinalized : Except FinalityError Unit

def handleFinalizationNotification (svc : Service) (finalized : Checkpoint)
    (reply : Except FinalityError Unit) : Service :=
  let request := finalizationRequest svc.state finalized
  let state := match reply with
    | .ok _ => svc.state
    | .error _ =>
      {svc.state with circuitBreaker := svc.state.circuitBreaker.processEvent .finalityFailed}
  ⟨state,svc.sent ++ [request]⟩

def takeEvents (st : FinalityServiceState) : FinalityServiceState :=
  {st with pendingSlashingEvents := [], pendingInactivityEvents := []}

def processAttestations (env : Env) (svc : Service) (call : Call) :
    Except FinalityError AttestationResult × Service :=
  if svc.state.circuitBreaker.isHalted then (.error .systemHalted,svc)
  else
    match call.attestations with
    | [] => (.ok ⟨0,0,none,none,[],[]⟩,svc)
    | first::rest =>
      match env.validatorSetAt first.targetCheckpoint.epoch with
      | .error e => (.error e,svc)
      | .ok validators =>
        let batch := processAttestationBatch env validators ⟨0,0,none⟩ svc.state (first::rest)
        let checked := batch.2.checkAndProcessFinalization env.config first.targetCheckpoint.epoch
        let notified := match checked.1 with
          | some finalized => handleFinalizationNotification ⟨checked.2,svc.sent⟩ finalized call.markFinalized
          | none => ⟨checked.2,svc.sent⟩
        (.ok ⟨batch.1.accepted,batch.1.rejected,batch.1.newJustified,checked.1,
            notified.state.pendingSlashingEvents,notified.state.pendingInactivityEvents⟩,
          ⟨takeEvents notified.state,notified.sent⟩)

def resetFromHalted (svc : Service) : Service :=
  if svc.state.circuitBreaker.isHalted then
    {svc with state := {svc.state with
      circuitBreaker := svc.state.circuitBreaker.processEvent .manualIntervention}}
  else svc

end QuantumChain.Finality
