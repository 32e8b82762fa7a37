import QuantumChain.ConsensusQuorum

/-! Blocks and their identity.
The hash is a parameter; only the fields it is taken over are settled. -/
namespace QuantumChain.Consensus

structure BlockHeader where
  version : BitVec 32
  blockHeight : U64
  parentHash : Hash
  timestamp : U64
  proposer : ValidatorId
  transactionsRoot : Option Hash
  stateRoot : Option Hash
  receiptsRoot : Hash
  gasLimit : U64
  gasUsed : U64
  extraData : Bytes
  deriving DecidableEq, Repr

structure SignedTransaction where
  hash : Hash
  fromAddr : Address
  toAddr : Option Address
  value : U128
  gasLimit : U64
  gasPrice : U64
  nonce : U64
  data : Bytes
  signature : EcdsaSignature
  deriving DecidableEq, Repr

def SignedTransaction.gasCost (tx : SignedTransaction) : U64 := tx.gasLimit

structure Block where
  header : BlockHeader
  transactions : List SignedTransaction
  proof : ValidationProof
  deriving DecidableEq, Repr

structure ValidatedBlock where
  header : BlockHeader
  transactions : List SignedTransaction
  validationProof : ValidationProof
  deriving DecidableEq, Repr

namespace BlockHeader

def encoding (h : BlockHeader) : Bytes :=
  leBytes 4 h.version.toNat ++ u64Bytes h.blockHeight ++ wordBytes h.parentHash ++ u64Bytes h.timestamp ++
    wordBytes h.proposer ++ u64Bytes h.gasLimit ++ u64Bytes h.gasUsed

def hash {D : Type} (keccak : Bytes → D) (h : BlockHeader) : D := keccak h.encoding

def isGenesis (h : BlockHeader) : Bool := decide (h.blockHeight = 0 ∧ h.parentHash = 0)

end BlockHeader

def Block.hash {D : Type} (keccak : Bytes → D) (b : Block) : D := b.header.hash keccak

structure HashedFields where
  version : BitVec 32
  blockHeight : U64
  parentHash : Hash
  timestamp : U64
  proposer : ValidatorId
  gasLimit : U64
  gasUsed : U64
  deriving DecidableEq, Repr

def BlockHeader.hashed (h : BlockHeader) : HashedFields :=
  ⟨h.version,h.blockHeight,h.parentHash,h.timestamp,h.proposer,h.gasLimit,h.gasUsed⟩

structure UnhashedContent where
  transactionsRoot : Option Hash
  stateRoot : Option Hash
  receiptsRoot : Hash
  extraData : Bytes
  transactions : List SignedTransaction
  deriving DecidableEq, Repr

def Block.unhashed (b : Block) : UnhashedContent :=
  ⟨b.header.transactionsRoot,b.header.stateRoot,b.header.receiptsRoot,b.header.extraData,b.transactions⟩

theorem encodingTells {a b : BlockHeader} : a.encoding = b.encoding ↔ a.hashed = b.hashed := by
  constructor
  · intro same
    -- All fields have a fixed width, so the first one can be split off each time.
    simp only [BlockHeader.encoding,List.append_assoc] at same
    obtain ⟨version,same⟩ := leWordFirst (by decide) same
    obtain ⟨height,same⟩ := leWordFirst (by decide) same
    obtain ⟨parent,same⟩ := wordFirst (by decide) same
    obtain ⟨timestamp,same⟩ := leWordFirst (by decide) same
    obtain ⟨proposer,same⟩ := wordFirst (by decide) same
    obtain ⟨gasLimit,same⟩ := leWordFirst (by decide) same
    obtain ⟨gasUsed,_⟩ := leWordFirst (s := []) (t := []) (by decide) (congrArg (· ++ []) same)
    unfold BlockHeader.hashed
    rw [version,height,parent,timestamp,proposer,gasLimit,gasUsed]
  · intro same
    obtain ⟨⟩ := a
    obtain ⟨⟩ := b
    simp only [BlockHeader.hashed,HashedFields.mk.injEq] at same
    obtain ⟨rfl,rfl,rfl,rfl,rfl,rfl,rfl⟩ := same
    rfl

theorem contentSplits (a b : Block) : a.header = b.header ∧ a.transactions = b.transactions ↔
    a.header.hashed = b.header.hashed ∧ a.unhashed = b.unhashed := by
  constructor
  · intro ⟨header,transactions⟩
    unfold Block.unhashed
    rw [header,transactions]
    exact ⟨rfl,rfl⟩
  · intro ⟨hashed,unhashed⟩
    obtain ⟨header,transactions,proof⟩ := a
    obtain ⟨header',transactions',proof'⟩ := b
    obtain ⟨⟩ := header
    obtain ⟨⟩ := header'
    simp only [BlockHeader.hashed,HashedFields.mk.injEq] at hashed
    simp only [Block.unhashed,UnhashedContent.mk.injEq] at unhashed
    obtain ⟨rfl,rfl,rfl,rfl,rfl,rfl,rfl⟩ := hashed
    obtain ⟨rfl,rfl,rfl,rfl,rfl⟩ := unhashed
    exact ⟨rfl,rfl⟩

theorem blockIdentityIff {D : Type} (keccak : Bytes → D) (a b : Block)
    (injective : keccak a.header.encoding = keccak b.header.encoding → a.header.encoding = b.header.encoding) :
    (a.hash keccak = b.hash keccak → a.header = b.header ∧ a.transactions = b.transactions) ↔
      (a.header.hashed ≠ b.header.hashed ∨ a.unhashed = b.unhashed) := by
  have equal : a.hash keccak = b.hash keccak ↔ a.header.hashed = b.header.hashed := by
    rw [← encodingTells]
    exact ⟨injective,congrArg keccak⟩
  rw [equal,contentSplits]
  constructor
  · intro tells
    by_cases same : a.header.hashed = b.header.hashed
    · exact .inr (tells same).2
    · exact .inl same
  · intro either same
    rcases either with apart | unhashed
    · exact absurd same apart
    · exact ⟨same,unhashed⟩

def emptyProof : ValidationProof := .poS ⟨[],0,0⟩

def blockOf (timestamp : U64) (stateRoot : Option Hash) (transactions : List SignedTransaction) : Block :=
  ⟨⟨1,0,0,timestamp,0,none,stateRoot,0,30000000,0,[]⟩,transactions,emptyProof⟩

def payment (value : U128) : SignedTransaction := ⟨5,1,some 2,value,21000,1,0,[],blankSignature⟩

theorem twoContentsOneHash : (blockOf 1000 none [payment 1]).hash id = (blockOf 1000 (some 9) [payment 2]).hash id ∧
    (blockOf 1000 none [payment 1]).header ≠ (blockOf 1000 (some 9) [payment 2]).header ∧
    (blockOf 1000 none [payment 1]).transactions ≠ (blockOf 1000 (some 9) [payment 2]).transactions := by
  refine ⟨rfl,by decide,by decide⟩

theorem laterBlockIdentity : ((blockOf 1000 none [payment 1]).hash id = (blockOf 1001 none [payment 1]).hash id →
      (blockOf 1000 none [payment 1]).header = (blockOf 1001 none [payment 1]).header ∧
      (blockOf 1000 none [payment 1]).transactions = (blockOf 1001 none [payment 1]).transactions) ∧
    (blockOf 1000 none [payment 1]).hash id ≠ (blockOf 1001 none [payment 1]).hash id :=
  ⟨(blockIdentityIff id _ _ id).mpr (.inl (by decide)),by decide⟩

end QuantumChain.Consensus
