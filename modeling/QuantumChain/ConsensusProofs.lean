import QuantumChain.FixedWidth
import QuantumChain.KeyedMap

/-! Validation of the two proof kinds a block may carry.
Signature checks are inputs; that they are sound is not claimed. -/
namespace QuantumChain.Consensus

abbrev ValidatorId := BitVec 256
abbrev BlsPublicKey := ByteArrayOf 48
abbrev EcdsaPublicKey := ByteArrayOf 33
abbrev BlsSignature := ByteArrayOf 96
abbrev EcdsaSignature := ByteArrayOf 65

inductive ConsensusError where
  | insufficientAttestations (got required : UInt8)
  | viewMismatch (expected actual : U64)
  | unknownValidator (validator : ValidatorId)
  | signatureVerificationFailed (validator : ValidatorId)
  | duplicateVote (validator : ValidatorId)
  | stateError (reason : String)
  | invalidSignatureFormat (validator : ValidatorId)
  | alreadyValidated (hash : Hash)
  | tooManyTransactions (count limit : Nat)
  | gasLimitExceeded (used limit : U64)
  | extraDataTooLarge (size limit : Nat)
  | genesisWithParent
  | unknownParent (parent : Hash)
  | invalidHeight (expected actual : U64)
  | futureTimestamp (timestamp current : U64)
  | invalidTimestamp (block parent : U64)
  | invalidProposer (proposer : ValidatorId)
  | proposerDidNotAttest (proposer : ValidatorId)
  | eventBusError (reason : String)
  deriving DecidableEq, Repr

abbrev ConsensusResult (α : Type) := Except (Fault ConsensusError) α

def refuse {α : Type} (e : ConsensusError) : ConsensusResult α := .error (.error e)

structure ValidatorInfo where
  id : ValidatorId
  stake : U128
  pubkey : BlsPublicKey
  active : Bool
  deriving DecidableEq, Repr

def ValidatorInfo.new (id : ValidatorId) (stake : U128) (pubkey : BlsPublicKey) : ValidatorInfo :=
  ⟨id,stake,pubkey,true⟩

structure ValidatorSet where
  epoch : U64
  validators : List ValidatorInfo
  totalStake : U128
  lookup : KeyedMap ValidatorId Nat
  deriving DecidableEq

namespace ValidatorSet

def lookupTable (validators : List ValidatorInfo) : KeyedMap ValidatorId Nat :=
  validators.zipIdx.foldl (fun table entry => table.insert entry.1.id entry.2) ∅

def new (epoch : U64) (validators : List ValidatorInfo) : ValidatorSet :=
  ⟨epoch,validators,(validators.map ValidatorInfo.stake).sum,lookupTable validators⟩

variable (vs : ValidatorSet)

def len : Nat := vs.validators.length

variable (id : ValidatorId)

def contains : Bool := (vs.lookup.lookup id).isSome

def get : Option ValidatorInfo :=
  (vs.lookup.lookup id).bind (fun idx => vs.validators[idx]?)

def getPubkey : Option BlsPublicKey :=
  (vs.get id).map ValidatorInfo.pubkey

def getStake : Option U128 := (vs.get id).map ValidatorInfo.stake

def requiredAttestations (percent : UInt8) : Nat :=
  max (vs.validators.length * percent.toNat / 100) 1

def requiredPbftVotes (_ : ValidatorSet) (byzantineThreshold : U64) : U64 := 2 * byzantineThreshold + 1

end ValidatorSet

structure Attestation where
  validator : ValidatorId
  blockHash : Hash
  signature : Bytes
  slot : U64
  deriving DecidableEq, Repr

def Attestation.isBls (a : Attestation) : Bool := decide (a.signature.length = 96)

structure PoSProof where
  attestations : List Attestation
  epoch : U64
  slot : U64
  deriving DecidableEq, Repr

def PoSProof.participationCount (proof : PoSProof) : Nat := proof.attestations.length

structure PrepareMessage where
  view : U64
  sequence : U64
  blockHash : Hash
  validator : ValidatorId
  signature : EcdsaSignature
  deriving DecidableEq, Repr

structure CommitMessage where
  view : U64
  sequence : U64
  blockHash : Hash
  validator : ValidatorId
  signature : EcdsaSignature
  deriving DecidableEq, Repr

structure PBFTProof where
  prepares : List PrepareMessage
  commits : List CommitMessage
  view : U64
  epoch : U64
  deriving DecidableEq, Repr

def PBFTProof.prepareCount (proof : PBFTProof) : Nat := proof.prepares.length

def PBFTProof.commitCount (proof : PBFTProof) : Nat := proof.commits.length

inductive ValidationProof where
  | poS (proof : PoSProof)
  | pbft (proof : PBFTProof)
  deriving DecidableEq, Repr

def ValidationProof.epoch : ValidationProof → U64
  | .poS proof => proof.epoch
  | .pbft proof => proof.epoch

def u64Bytes (n : U64) : Bytes := leBytes 8 n.toNat

def attestationSigningMessage (blockHash : Hash) (slot epoch : U64) : Bytes :=
  wordBytes blockHash ++ u64Bytes slot ++ u64Bytes epoch

def prepareTag : Bytes := [80,82,69,80,65,82,69]

def commitTag : Bytes := [67,79,77,77,73,84]

def prepareSigningMessage (view sequence : U64) (blockHash : Hash) : Bytes :=
  prepareTag ++ u64Bytes view ++ u64Bytes sequence ++ wordBytes blockHash

def commitSigningMessage (view sequence : U64) (blockHash : Hash) : Bytes :=
  commitTag ++ u64Bytes view ++ u64Bytes sequence ++ wordBytes blockHash

structure ConsensusConfig where
  minAttestationPercent : UInt8 := 67
  byzantineThreshold : U64 := 1
  maxTxsPerBlock : Nat := 10000
  maxBlockGas : U64 := 30000000
  maxTimestampDriftSecs : U64 := 15
  deriving DecidableEq, Repr

structure SignatureVerifier where
  verifyEcdsa : Bytes → EcdsaSignature → EcdsaPublicKey → Bool
  verifyAggregateBls : Bytes → BlsSignature → List BlsPublicKey → Bool

structure ValidatorSetProvider where
  getEpochStateRoot : U64 → Except String Hash
  getValidatorSetAtEpoch : U64 → Hash → Except String ValidatorSet

structure ProofEnv where
  sigVerifier : SignatureVerifier
  validatorProvider : ValidatorSetProvider
  config : ConsensusConfig
  currentView : U64

def validatorSetFor (env : ProofEnv) (epoch : U64) : ConsensusResult ValidatorSet :=
  match env.validatorProvider.getEpochStateRoot epoch with
  | .error reason => refuse (.stateError reason)
  | .ok root =>
    match env.validatorProvider.getValidatorSetAtEpoch epoch root with
    | .error reason => refuse (.stateError reason)
    | .ok vs => .ok vs

def ecdsaPubkey (pubkey : BlsPublicKey) : EcdsaPublicKey :=
  ⟨2 :: pubkey.1.take 32,by simp [pubkey.2]⟩

def checkDuplicateVotes : List ValidatorId → List Attestation → ConsensusResult Unit
  | _,[] => .ok ()
  | seen,a::rest =>
    if a.validator ∈ seen then refuse (.duplicateVote a.validator)
    else checkDuplicateVotes (a.validator::seen) rest

def verifyAttestationSignature (env : ProofEnv) (a : Attestation) (message : Bytes) (pubkey : BlsPublicKey) :
    ConsensusResult Bool :=
  if a.isBls then
    match tryIntoArray 96 a.signature with
    | some signature => .ok (env.sigVerifier.verifyAggregateBls message signature [pubkey])
    | none => refuse (.invalidSignatureFormat a.validator)
  else if a.signature.length = 65 then
    match tryIntoArray 65 a.signature with
    | some signature => .ok (env.sigVerifier.verifyEcdsa message signature (ecdsaPubkey pubkey))
    | none => refuse (.invalidSignatureFormat a.validator)
  else refuse (.invalidSignatureFormat a.validator)

def verifyAttestationsOver (env : ProofEnv) (vs : ValidatorSet) (message : Bytes) :
    List Attestation → ConsensusResult Unit
  | [] => .ok ()
  | a::rest =>
    match vs.getPubkey a.validator with
    | none => refuse (.unknownValidator a.validator)
    | some pubkey =>
      match verifyAttestationSignature env a message pubkey with
      | .error e => .error e
      | .ok false => refuse (.signatureVerificationFailed a.validator)
      | .ok true => verifyAttestationsOver env vs message rest

def verifyAttestations (env : ProofEnv) (vs : ValidatorSet) (blockHash : Hash) (proof : PoSProof) :
    ConsensusResult Unit :=
  verifyAttestationsOver env vs (attestationSigningMessage blockHash proof.slot proof.epoch) proof.attestations

def validatePosProof (env : ProofEnv) (proof : PoSProof) (blockHash : Hash) : ConsensusResult Unit := do
  let vs ← validatorSetFor env proof.epoch
  checkDuplicateVotes [] proof.attestations
  verifyAttestations env vs blockHash proof
  let participation := proof.participationCount
  if participation < vs.requiredAttestations env.config.minAttestationPercent then
    if vs.len = 0 then .error .panic
    else refuse (.insufficientAttestations (UInt8.ofNat (participation * 100 / vs.len))
      env.config.minAttestationPercent)
  else .ok ()

def verifyPbftSignatures {T : Type} (env : ProofEnv) (vs : ValidatorSet)
    (extract : T → ValidatorId × Bytes × EcdsaSignature) : List T → ConsensusResult Unit
  | [] => .ok ()
  | item::rest =>
    let (validator,message,signature) := extract item
    if vs.contains validator = false then refuse (.unknownValidator validator)
    else
      match vs.getPubkey validator with
      | none => refuse (.unknownValidator validator)
      | some pubkey =>
        if env.sigVerifier.verifyEcdsa message signature (ecdsaPubkey pubkey) then
          verifyPbftSignatures env vs extract rest
        else refuse (.signatureVerificationFailed validator)

def prepareVote (p : PrepareMessage) : ValidatorId × Bytes × EcdsaSignature :=
  (p.validator,prepareSigningMessage p.view p.sequence p.blockHash,p.signature)

def commitVote (c : CommitMessage) : ValidatorId × Bytes × EcdsaSignature :=
  (c.validator,commitSigningMessage c.view c.sequence c.blockHash,c.signature)

def validatePbftProof (env : ProofEnv) (proof : PBFTProof) (_blockHash : Hash) : ConsensusResult Unit :=
  if proof.view ≠ env.currentView then refuse (.viewMismatch env.currentView proof.view)
  else do
    let vs ← validatorSetFor env proof.epoch
    let required := vs.requiredPbftVotes env.config.byzantineThreshold
    if proof.prepareCount < required.toNat then
      refuse (.insufficientAttestations (UInt8.ofNat proof.prepareCount) (UInt8.ofNat required.toNat))
    else if proof.commitCount < required.toNat then
      refuse (.insufficientAttestations (UInt8.ofNat proof.commitCount) (UInt8.ofNat required.toNat))
    else
      verifyPbftSignatures env vs prepareVote proof.prepares
      verifyPbftSignatures env vs commitVote proof.commits

def validateConsensusProof (env : ProofEnv) (proof : ValidationProof) (blockHash : Hash) : ConsensusResult Unit :=
  match proof with
  | .poS pos => validatePosProof env pos blockHash
  | .pbft pbft => validatePbftProof env pbft blockHash

end QuantumChain.Consensus
