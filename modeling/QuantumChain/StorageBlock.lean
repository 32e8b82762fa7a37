import QuantumChain.FixedWidth
import QuantumChain.KeyedMap

/-! Blocks, keys, the height index and the assembly buffer.
Keys are byte strings, as in the store. -/
namespace QuantumChain.Storage
open List

abbrev Timestamp := U64

structure BlockHeader where
  version : BitVec 16
  height : U64
  parentHash : Hash
  merkleRoot : Hash
  stateRoot : Hash
  timestamp : U64
  proposer : Hash
  difficulty : U256
  nonce : U64
  deriving DecidableEq, Repr

structure Transaction where
  fromKey : Hash
  toKey : Option Hash
  value : U64
  nonce : U64
  data : Bytes
  signature : BitVec 512
  deriving DecidableEq, Repr

structure ValidatedTransaction where
  inner : Transaction
  txHash : Hash
  deriving DecidableEq, Repr

structure Attestation where
  blockHash : Hash
  epoch : U64
  validator : Hash
  signature : BitVec 512
  deriving DecidableEq, Repr

structure ConsensusProof where
  blockHash : Hash
  attestations : List Attestation
  totalStake : U64
  deriving DecidableEq, Repr

structure ValidatedBlock where
  header : BlockHeader
  transactions : List ValidatedTransaction
  consensusProof : ConsensusProof
  deriving DecidableEq, Repr

structure StoredBlock where
  block : ValidatedBlock
  merkleRoot : Hash
  stateRoot : Hash
  storedAt : Timestamp
  checksum : BitVec 32
  deriving DecidableEq, Repr

structure TransactionLocation where
  blockHash : Hash
  blockHeight : U64
  transactionIndex : Nat
  merkleRoot : Hash
  deriving DecidableEq, Repr

inductive StorageError where
  | blockNotFound (hash : Hash)
  | heightNotFound (height : U64)
  | blockExists (hash : Hash)
  | parentNotFound (parentHash : Hash)
  | diskFull (availablePercent requiredPercent : UInt8)
  | dataCorruption (blockHash : Hash) (expectedChecksum actualChecksum : BitVec 32)
  | blockTooLarge (size maxSize : Nat)
  | invalidFinalization (requested current : U64)
  | transactionNotFound (txHash : Hash)
  | databaseError (message : String)
  | serializationError (message : String)
  | unauthorizedSender (senderId expectedId : UInt8) (operation : String)
  deriving DecidableEq, Repr

inductive KeyPrefix where
  | block
  | blockByHeight
  | metadata
  | transaction
  deriving DecidableEq, Repr

namespace KeyPrefix

def asBytes : KeyPrefix → Bytes
  | block => [98,58]
  | blockByHeight => [104,58]
  | metadata => [109,58]
  | transaction => [116,58]

def key (p : KeyPrefix) (suffix : Bytes) : Bytes := p.asBytes ++ suffix

def blockKey (hash : Hash) : Bytes := block.key (wordBytes hash)

def heightKey (height : U64) : Bytes := blockByHeight.key (wordBytes height)

def transactionKey (txHash : Hash) : Bytes := transaction.key (wordBytes txHash)

theorem keyInj {p q : KeyPrefix} {a b} (same : p.key a = q.key b) : p = q ∧ a = b := by
  cases p <;> cases q <;> simp_all [key,asBytes]

theorem blockKeyInj {a b} (same : blockKey a = blockKey b) : a = b :=
  wordBytesInj (by decide) (keyInj same).2

end KeyPrefix

structure BlockIndexEntry where
  height : U64
  blockHash : Hash
  deriving DecidableEq, Repr

namespace BlockIndexEntry

def place (entry : BlockIndexEntry) : List BlockIndexEntry → List BlockIndexEntry
  | [] => [entry]
  | e::rest =>
    if entry.height < e.height then entry::e::rest
    else if entry.height = e.height then entry::rest
    else e::entry.place rest

theorem memPlace {entry e} {entries : List BlockIndexEntry} (mem : e ∈ entry.place entries) :
    e = entry ∨ e ∈ entries := by
  induction entries with
  | nil => exact .inl (mem_singleton.mp mem)
  | cons first rest ih =>
    unfold place at mem
    split at mem
    · exact mem_cons.mp mem
    · split at mem
      · exact (mem_cons.mp mem).imp_right (mem_cons_of_mem _)
      · rcases mem_cons.mp mem with here | there
        · exact .inr (here ▸ mem_cons_self)
        · exact (ih there).imp_right (mem_cons_of_mem _)

theorem placeFind (entry) (entries : List BlockIndexEntry) (height) :
    (entry.place entries).find? (fun e => decide (e.height = height)) =
      if height = entry.height then some entry else entries.find? (fun e => decide (e.height = height)) := by
  induction entries with
  | nil => simp [place,eq_comm]
  | cons first rest ih =>
    unfold place
    split
    · rw [find?_cons]
      by_cases own : height = entry.height
      · simp [own]
      · simp [own,Ne.symm own]
    · split
      · rename_i same
        by_cases own : height = entry.height
        · simp [own]
        · simp [own,Ne.symm own,← same]
      · rename_i other
        rw [find?_cons,find?_cons,ih]
        by_cases own : height = entry.height
        · simp [own,Ne.symm other]
        · simp [own]

theorem placeSorted {entry : BlockIndexEntry} {entries : List BlockIndexEntry}
    (sorted : entries.Pairwise (·.height < ·.height)) : (entry.place entries).Pairwise (·.height < ·.height) := by
  induction sorted with
  | nil => exact pairwise_singleton _ _
  | @cons first rest above later ih =>
    unfold place
    split
    · rename_i below
      refine .cons ?_ (.cons above later)
      intro e mem
      rcases mem_cons.mp mem with rfl | there
      · exact below
      · exact below.trans (above e there)
    · rename_i notBelow
      split
      · rename_i same
        exact .cons (fun e mem => same ▸ above e mem) later
      · rename_i other
        refine .cons ?_ ih
        intro e mem
        rcases memPlace mem with rfl | there
        · exact lt_of_le_of_ne (not_lt.mp notBelow) (Ne.symm other)
        · exact above e there

end BlockIndexEntry

structure BlockIndex where
  entries : List BlockIndexEntry
  sorted : entries.Pairwise (·.height < ·.height)

namespace BlockIndex

def new : BlockIndex := ⟨[],.nil⟩

variable (index : BlockIndex)

def insert (height : U64) (blockHash : Hash) : BlockIndex :=
  ⟨(BlockIndexEntry.mk height blockHash).place index.entries,BlockIndexEntry.placeSorted index.sorted⟩

def get (height : U64) : Option Hash :=
  (index.entries.find? (fun e => decide (e.height = height))).map BlockIndexEntry.blockHash

def contains (height : U64) : Bool := (index.get height).isSome

theorem getInsert (height) (blockHash) (a) :
    (index.insert height blockHash).get a = if a = height then some blockHash else index.get a := by
  rw [get,insert,BlockIndexEntry.placeFind,apply_ite (Option.map BlockIndexEntry.blockHash)]
  rfl

theorem memGet {index : BlockIndex} {e} : e ∈ index.entries ↔ index.get e.height = some e.blockHash := by
  obtain ⟨entries,sorted⟩ := index
  constructor
  · intro mem
    have found : entries.find? (fun d => decide (d.height = e.height)) = some e := by
      induction sorted with
      | nil => exact absurd mem not_mem_nil
      | @cons first rest above later ih =>
        rw [find?_cons]
        rcases mem_cons.mp mem with here | there
        · rw [← here,decide_eq_true rfl]
        · rw [decide_eq_false (ne_of_lt (above e there))]
          exact ih there
    rw [get,found]
    rfl
  · intro found
    obtain ⟨d,first,same⟩ := Option.map_eq_some_iff.mp found
    have height : d.height = e.height := by simpa using find?_some first
    have whole : d = e := by
      cases d
      cases e
      exact congrArg₂ BlockIndexEntry.mk height same
    exact whole ▸ mem_of_find?_eq_some first

theorem sameGet {index other : BlockIndex} (same : ∀ height, index.get height = other.get height) : index = other := by
  have once : ∀ i : BlockIndex, i.entries.Nodup :=
    fun i => i.sorted.imp (fun below same => absurd (same ▸ below) (lt_irrefl _))
  have perm := (perm_ext_iff_of_nodup (once index) (once other)).mpr (fun e => by
    rw [memGet,memGet,same])
  have entries := perm.eq_of_pairwise
    (fun a b _ _ below above => absurd (below.trans above) (lt_irrefl _)) index.sorted other.sorted
  cases index
  cases other
  cases entries
  rfl

end BlockIndex

structure StorageMetadata where
  genesisHash : Option Hash := none
  latestHeight : U64 := 0
  finalizedHeight : U64 := 0
  totalBlocks : U64 := 0
  storageVersion : BitVec 16 := 1
  deriving DecidableEq, Repr

namespace StorageMetadata

def onBlockStored (m : StorageMetadata) (height : U64) (blockHash : Hash) : StorageMetadata :=
  {m with
    genesisHash := if m.genesisHash = none ∧ height = 0 then some blockHash else m.genesisHash
    latestHeight := if m.latestHeight < height then height else m.latestHeight
    totalBlocks := m.totalBlocks + 1}

def onFinalized (m : StorageMetadata) (height : U64) : Option StorageMetadata :=
  if height ≤ m.finalizedHeight then none else some {m with finalizedHeight := height}

end StorageMetadata

structure AssemblyConfig where
  maxPendingAssemblies : Nat := 1000
  deriving DecidableEq, Repr

structure PendingBlockAssembly where
  blockHash : Hash
  blockHeight : U64
  startedAt : Timestamp
  validatedBlock : Option ValidatedBlock
  merkleRoot : Option Hash
  stateRoot : Option Hash
  deriving DecidableEq, Repr

namespace PendingBlockAssembly

def new (blockHash : Hash) (startedAt : Timestamp) : PendingBlockAssembly :=
  ⟨blockHash,0,startedAt,none,none,none⟩

def isComplete (a : PendingBlockAssembly) : Bool :=
  a.validatedBlock.isSome && a.merkleRoot.isSome && a.stateRoot.isSome

def takeComponents (a : PendingBlockAssembly) : Option (ValidatedBlock × Hash × Hash) :=
  match a.validatedBlock,a.merkleRoot,a.stateRoot with
  | some block,some merkle,some state => some (block,merkle,state)
  | _,_,_ => none

end PendingBlockAssembly

structure BlockAssemblyBuffer where
  pending : KeyedMap Hash PendingBlockAssembly
  config : AssemblyConfig

namespace BlockAssemblyBuffer

def new (config : AssemblyConfig) : BlockAssemblyBuffer := ⟨∅,config⟩

variable (b : BlockAssemblyBuffer)

def enter (blockHash : Hash) (now : Timestamp)
    (component : PendingBlockAssembly → PendingBlockAssembly) : BlockAssemblyBuffer :=
  let assembly := (b.pending.lookup blockHash).getD (.new blockHash now)
  {b with pending := b.pending.insert blockHash (component assembly)}

def addBlockValidated (blockHash : Hash) (block : ValidatedBlock) (now : Timestamp) :
    BlockAssemblyBuffer :=
  b.enter blockHash now (fun a => {a with blockHeight := block.header.height, validatedBlock := some block})

def addMerkleRoot (blockHash merkleRoot : Hash) (now : Timestamp) : BlockAssemblyBuffer :=
  b.enter blockHash now (fun a => {a with merkleRoot := some merkleRoot})

def addStateRoot (blockHash stateRoot : Hash) (now : Timestamp) : BlockAssemblyBuffer :=
  b.enter blockHash now (fun a => {a with stateRoot := some stateRoot})

def isComplete (b : BlockAssemblyBuffer) (blockHash : Hash) : Bool :=
  ((b.pending.lookup blockHash).map PendingBlockAssembly.isComplete).getD false

def takeComplete (b : BlockAssemblyBuffer) (blockHash : Hash) : Option PendingBlockAssembly × BlockAssemblyBuffer :=
  if b.isComplete blockHash then (b.pending.lookup blockHash,{b with pending := b.pending.erase blockHash})
  else (none,b)

def eraseAll (b : BlockAssemblyBuffer) (hashes : List Hash) : BlockAssemblyBuffer :=
  {b with pending := hashes.foldl (fun pending hash => pending.erase hash) b.pending}

def enforceMaxPending (visit : Visit Hash) (b : BlockAssemblyBuffer) : List Hash × BlockAssemblyBuffer :=
  if b.pending.size ≤ b.config.maxPendingAssemblies then ([],b)
  else
    let startedAt := fun h => ((b.pending.lookup h).map PendingBlockAssembly.startedAt).getD 0
    -- A stable sort: among assemblies of one age the order of the visit decides.
    let entries := (visit.order b.pending.keys).insertionSort (fun x y => startedAt x ≤ startedAt y)
    let purged := entries.take (b.pending.size - b.config.maxPendingAssemblies)
    (purged,b.eraseAll purged)

end BlockAssemblyBuffer
end QuantumChain.Storage
