import QuantumChain.ConsensusChain

/-! Validation of one block after another.
Proof checks, clock and the bus's answer are inputs of each call. -/
namespace QuantumChain.Consensus
open ChainState
open StepRun (Along boundOk)

def maxExtraDataSize : Nat := 32

def validateStructure (block : Block) (config : ConsensusConfig) : ConsensusResult Unit :=
  let totalGas : U64 := (block.transactions.map SignedTransaction.gasCost).sum
  if config.maxTxsPerBlock < block.transactions.length then
    refuse (.tooManyTransactions block.transactions.length config.maxTxsPerBlock)
  else if config.maxBlockGas < totalGas then refuse (.gasLimitExceeded totalGas config.maxBlockGas)
  else if block.header.gasLimit < block.header.gasUsed then
    refuse (.gasLimitExceeded block.header.gasUsed block.header.gasLimit)
  else if maxExtraDataSize < block.header.extraData.length then
    refuse (.extraDataTooLarge block.header.extraData.length maxExtraDataSize)
  else .ok ()

variable (header : BlockHeader) (chain : ChainState)

def validateParent : ConsensusResult Unit :=
  if header.isGenesis then
    if 0 < chain.blockCount then refuse .genesisWithParent else .ok ()
  else if chain.hasBlock header.parentHash = false then refuse (.unknownParent header.parentHash)
  else .ok ()

def validateHeight : ConsensusResult Unit :=
  if header.isGenesis then
    if header.blockHeight ≠ 0 then refuse (.invalidHeight 0 header.blockHeight) else .ok ()
  else
    match chain.getBlock header.parentHash with
    | some parent =>
      let expected := parent.blockHeight + 1
      if header.blockHeight ≠ expected then refuse (.invalidHeight expected header.blockHeight) else .ok ()
    | none => .ok ()

def validateTimestamp (now : U64) (config : ConsensusConfig) :
    ConsensusResult Unit :=
  if now + config.maxTimestampDriftSecs < header.timestamp then refuse (.futureTimestamp header.timestamp now)
  else if header.isGenesis then .ok ()
  else
    match chain.getBlock header.parentHash with
    | some parent =>
      if header.timestamp ≤ parent.timestamp then refuse (.invalidTimestamp header.timestamp parent.timestamp)
      else .ok ()
    | none => .ok ()

def validateProposer (env : ProofEnv) (header : BlockHeader) (proof : ValidationProof) : ConsensusResult Unit :=
  if header.isGenesis then .ok ()
  else do
    let vs ← validatorSetFor env proof.epoch
    if vs.contains header.proposer = false then refuse (.invalidProposer header.proposer)
    else
      match proof with
      | .poS pos =>
        if pos.attestations.any (fun a => decide (a.validator = header.proposer)) = false then
          refuse (.proposerDidNotAttest header.proposer)
        else .ok ()
      | .pbft _ => .ok ()

structure Surroundings where
  env : ProofEnv
  now : U64
  visit : Visit U64
  publishedAt : U64
  reply : Except String Unit

structure BlockValidatedEvent where
  blockHash : Hash
  blockHeight : U64
  block : ValidatedBlock
  consensusProof : ValidationProof
  validatedAt : U64
  deriving DecidableEq, Repr

def BlockValidatedEvent.new (keccak : Bytes → Hash) (block : ValidatedBlock) (proof : ValidationProof) (validatedAt : U64) :
    BlockValidatedEvent :=
  ⟨block.header.hash keccak,block.header.blockHeight,block,proof,validatedAt⟩

structure ConsensusService where
  chain : ChainState
  published : List BlockValidatedEvent
  deriving DecidableEq

def ConsensusService.new : ConsensusService := ⟨.new,[]⟩

def verifyBlockLogic (chain : ChainState) (block : Block) (blockHash : Hash) (around : Surroundings) :
    ConsensusResult Unit := do
  validateStructure block around.env.config
  validateParent block.header chain
  validateHeight block.header chain
  validateTimestamp block.header chain around.now around.env.config
  validateProposer around.env block.header block.proof
  validateConsensusProof around.env block.proof blockHash

def validated (block : Block) : ValidatedBlock := ⟨block.header,block.transactions,block.proof⟩

namespace ConsensusService

variable (keccak : Bytes → Hash) (svc : ConsensusService)

def addToChain (block : Block) (around : Surroundings) : ConsensusService :=
  {svc with chain := svc.chain.addBlock keccak around.visit block.header}

def publish (block : Block) (around : Surroundings) : ConsensusService :=
  {svc with published := svc.published ++ [.new keccak (validated block) block.proof around.publishedAt]}

def record (block : Block) (around : Surroundings) : ConsensusService :=
  (svc.addToChain keccak block around).publish keccak block around

end ConsensusService

def published (block : Block) (around : Surroundings) : ConsensusResult ValidatedBlock :=
  match around.reply with
  | .error reason => refuse (.eventBusError reason)
  | .ok _ => .ok (validated block)

def validateBlock (keccak : Bytes → Hash) (svc : ConsensusService) (block : Block) (around : Surroundings) :
    ConsensusResult ValidatedBlock × ConsensusService :=
  let blockHash := block.hash keccak
  if svc.chain.hasBlock blockHash then (refuse (.alreadyValidated blockHash),svc)
  else
    match verifyBlockLogic svc.chain block blockHash around with
    | .error e => (.error e,svc)
    | .ok _ => (published block around,svc.record keccak block around)

def accepts (keccak : Bytes → Hash) (chain : ChainState) (block : Block) (around : Surroundings) : Bool :=
  !chain.hasBlock (block.hash keccak) && (verifyBlockLogic chain block (block.hash keccak) around).isOk

theorem validateCases (keccak) (svc) (block) (around) :
    (validateBlock keccak svc block around).2 =
      if accepts keccak svc.chain block around then svc.record keccak block around else svc := by
  unfold validateBlock accepts
  dsimp only
  split
  · rename_i known
    simp [known]
  · rename_i fresh
    cases checked : verifyBlockLogic svc.chain block (block.hash keccak) around with
    | error e => simp [Except.isOk,Except.toBool]
    | ok _ => simp [fresh,Except.isOk,Except.toBool]

theorem parentOk {header chain} (passed : validateParent header chain = .ok ()) :
    (header.isGenesis = true ∧ chain.blockCount = 0) ∨
    (header.isGenesis = false ∧ ∃ parent, chain.getBlock header.parentHash = some parent) := by
  unfold validateParent at passed
  split at passed
  · rename_i genesis
    split at passed
    · contradiction
    · rename_i empty
      exact .inl ⟨genesis,Nat.eq_zero_of_not_pos empty⟩
  · rename_i later
    split at passed
    · contradiction
    · rename_i known
      refine .inr ⟨by simpa using later,Option.isSome_iff_exists.mp ?_⟩
      simpa [hasBlock,getBlock,Option.isSome_iff_ne_none] using known

theorem heightOk {header parent chain} (passed : validateHeight header chain = .ok ())
    (later : header.isGenesis = false) (found : chain.getBlock header.parentHash = some parent) :
    header.blockHeight = parent.blockHeight + 1 := by
  simp only [validateHeight,later,Bool.false_eq_true,if_false,found] at passed
  split at passed
  · contradiction
  · rename_i same
    exact not_not.mp same

theorem timestampOk {header parent chain now config}
    (passed : validateTimestamp header chain now config = .ok ()) (later : header.isGenesis = false)
    (found : chain.getBlock header.parentHash = some parent) : parent.timestamp < header.timestamp := by
  unfold validateTimestamp at passed
  split at passed
  · contradiction
  simp only [later,Bool.false_eq_true,if_false,found] at passed
  split at passed
  · contradiction
  · rename_i above
    exact not_le.mp above

theorem verifyOk {chain block blockHash around} (passed : verifyBlockLogic chain block blockHash around = .ok ()) :
    validateStructure block around.env.config = .ok () ∧ validateParent block.header chain = .ok () ∧
    validateHeight block.header chain = .ok () ∧
    validateTimestamp block.header chain around.now around.env.config = .ok () ∧
    validateProposer around.env block.header block.proof = .ok () ∧
    validateConsensusProof around.env block.proof blockHash = .ok () := by
  simp only [verifyBlockLogic,boundOk] at passed
  obtain ⟨_,structured,_,parented,_,heighted,_,timed,_,proposed,proved⟩ := passed
  exact ⟨structured,parented,heighted,timed,proposed,proved⟩

theorem acceptsOk {keccak chain block around} (accepted : accepts keccak chain block around = true) :
    chain.knownBlocks.lookup (block.hash keccak) = none ∧
    verifyBlockLogic chain block (block.hash keccak) around = .ok () := by
  rw [accepts,Bool.and_eq_true] at accepted
  obtain ⟨fresh,passed⟩ := accepted
  refine ⟨by simpa [hasBlock] using fresh,?_⟩
  cases checked : verifyBlockLogic chain block (block.hash keccak) around with
  | error e => simp [checked,Except.isOk,Except.toBool] at passed
  | ok _ => rfl

structure Journal where
  service : ConsensusService
  accepted : List BlockHeader
  deriving DecidableEq

structure Submission where
  block : Block
  around : Surroundings

namespace Journal

def new : Journal := ⟨.new,[]⟩

def submit (keccak : Bytes → Hash) (j : Journal) (s : Submission) : Journal :=
  { service := (validateBlock keccak j.service s.block s.around).2
    accepted :=
      if accepts keccak j.service.chain s.block s.around then j.accepted ++ [s.block.header] else j.accepted }

def HeadTop (j : Journal) : Prop :=
  j.accepted ≠ [] → ∃ header, j.service.chain.getBlock j.service.chain.head.blockHash = some header ∧
    header.blockHeight = j.service.chain.head.blockHeight ∧
    ∀ a ∈ j.accepted, a.blockHeight.toNat ≤ header.blockHeight.toNat

def Extends (keccak : Bytes → Hash) (j : Journal) (s : Submission) : Prop :=
  accepts keccak j.service.chain s.block s.around = true → j.accepted ≠ [] →
    ∃ parent, j.service.chain.getBlock s.block.header.parentHash = some parent ∧
      s.block.header.blockHeight.toNat = parent.blockHeight.toNat + 1 ∧ parent.timestamp < s.block.header.timestamp

structure Linked (j : Journal) : Prop where
  sound : Sound j.service.chain
  tops : ∀ a ∈ j.accepted, a.blockHeight.toNat ≤ j.service.chain.head.blockHeight.toNat
  started : j.accepted = [] ∧ j.service.chain.knownBlocks = ∅ ∨ j.accepted ≠ [] ∧ Headed j.service.chain
  timed : ∀ x header, j.service.chain.knownBlocks.lookup x = some header →
    header.blockHeight.toNat ≤ header.timestamp.toNat

namespace Linked
variable {keccak : Bytes → Hash} {j : Journal} {s : Submission}

theorem new : Linked .new :=
  ⟨.withMaxBlocks 8192,fun _ mem => (nomatch mem),.inl ⟨rfl,rfl⟩,fun _ _ found => (nomatch found)⟩

theorem headTop (linked : Linked j) : j.HeadTop := by
  intro some'
  rcases linked.started with ⟨none',_⟩ | ⟨_,header,stored,height⟩
  · exact absurd none' some'
  · exact ⟨header,stored,height,fun a mem => height ▸ linked.tops a mem⟩

theorem occupied (headed : Headed j.service.chain) : j.service.chain.blockCount ≠ 0 := by
  obtain ⟨header,stored,_⟩ := headed
  intro empty
  have none' := Finset.card_eq_zero.mp empty
  have member := KeyedMap.memKeys.mpr ⟨header,stored⟩
  rw [none'] at member
  exact absurd member (Finset.notMem_empty _)

theorem child (linked : Linked j) {parent header : BlockHeader} {hash}
    (found : j.service.chain.getBlock hash = some parent) (height : header.blockHeight = parent.blockHeight + 1)
    (time : parent.timestamp < header.timestamp) :
    header.blockHeight.toNat = parent.blockHeight.toNat + 1 ∧ header.blockHeight.toNat ≤ header.timestamp.toNat := by
  -- A height never passes its timestamp, and the timestamp of the parent is not the last one.
  have low := linked.timed hash parent found
  have later := BitVec.lt_def.mp time
  have bound := header.timestamp.isLt
  have exact' : header.blockHeight.toNat = parent.blockHeight.toNat + 1 := by
    rw [height]
    exact toNatNext (by omega)
  exact ⟨exact',by omega⟩

theorem extend (linked : Linked j) : j.Extends keccak s := by
  intro accepted some'
  obtain ⟨_,passed⟩ := acceptsOk accepted
  obtain ⟨_,parented,heighted,timed,_,_⟩ := verifyOk passed
  rcases linked.started with ⟨none',_⟩ | ⟨_,headed⟩
  · exact absurd none' some'
  rcases parentOk parented with ⟨_,empty⟩ | ⟨later,parent,found⟩
  · exact absurd empty (occupied headed)
  · have time := timestampOk timed later found
    exact ⟨parent,found,(linked.child found (heightOk heighted later found) time).1,time⟩

theorem timedHeader (linked : Linked j) (accepted : accepts keccak j.service.chain s.block s.around = true) :
    s.block.header.blockHeight.toNat ≤ s.block.header.timestamp.toNat := by
  obtain ⟨_,passed⟩ := acceptsOk accepted
  obtain ⟨_,parented,heighted,timed,_,_⟩ := verifyOk passed
  rcases parentOk parented with ⟨genesis,_⟩ | ⟨later,parent,found⟩
  · have zero := (of_decide_eq_true genesis).1
    rw [zero]
    exact Nat.zero_le _
  · exact (linked.child found (heightOk heighted later found) (timestampOk timed later found)).2

theorem submit (linked : Linked j) : Linked (j.submit keccak s) := by
  unfold Journal.submit
  rw [validateCases]
  cases accepted : accepts keccak j.service.chain s.block s.around with
  | false => exact linked
  | true =>
    simp only [if_true,ConsensusService.record,ConsensusService.addToChain,ConsensusService.publish]
    obtain ⟨fresh,_⟩ := acceptsOk accepted
    have agrees : ∀ old, j.service.chain.knownBlocks.lookup (s.block.header.hash keccak) = some old →
        old.blockHeight = s.block.header.blockHeight := by
      intro old found
      rw [show s.block.header.hash keccak = s.block.hash keccak from rfl,fresh] at found
      contradiction
    obtain ⟨sound,headed⟩ := linked.sound.addBlock s.around.visit agrees
    obtain ⟨higher,own⟩ := Sound.recordHead j.service.chain keccak s.block.header
    have head := (pruneHead s.around.visit (j.service.chain.record keccak s.block.header)).1
    refine ⟨sound,fun a mem => ?_,.inr ⟨by simp,headed⟩,fun x header found => ?_⟩
    · rw [addBlock,head]
      rcases List.mem_append.mp mem with before | last
      · exact Nat.le_trans (linked.tops a before) higher
      · cases List.mem_singleton.mp last
        exact own
    · have before := (((pruneLookup s.around.visit _).2 x header).mp found).1
      rw [record,KeyedMap.lookupInsert] at before
      split at before
      · cases Option.some.inj before
        exact linked.timedHeader accepted
      · exact linked.timed x header before

end Linked

end Journal

theorem chainIntegrity (keccak : Bytes → Hash) (submissions : List Submission) :
    Along (Journal.submit keccak) (fun j s => j.Extends keccak s ∧ (j.submit keccak s).HeadTop) .new submissions :=
  StepRun.alongImplies (P := fun _ _ => True) (fun _ _ linked => linked.submit)
    (fun _ _ linked _ => ⟨linked.extend,linked.submit.headTop⟩) Journal.Linked.new
    (StepRun.alongAlways (fun _ _ => trivial) _ _)

end QuantumChain.Consensus
