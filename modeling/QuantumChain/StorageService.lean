import QuantumChain.StorageBlock
import QuantumChain.StepRun

/-! The block storage service over a map.
Disk space, clock and serializer are inputs. -/
namespace QuantumChain.Storage
open StepRun (andThen)

def transactionIndexingId : UInt8 := 3
def stateManagementId : UInt8 := 4
def consensusId : UInt8 := 8

structure StorageConfig where
  minDiskSpacePercent : UInt8 := 5
  maxBlockSize : Nat := 10*1024*1024
  assemblyConfig : AssemblyConfig := {}
  persistTransactionIndex : Bool := false
  deriving DecidableEq, Repr

structure BlockSerializer where
  serialize : StoredBlock → Except String Bytes
  deserialize : Bytes → Except String StoredBlock
  estimateSize : StoredBlock → Nat

def BlockSerializer.RoundTrips (serializer : BlockSerializer) : Prop :=
  ∀ stored, ∃ data, serializer.serialize stored = .ok data ∧ serializer.deserialize data = .ok stored

structure BlockStorageDependencies where
  sha256 : Bytes → Hash
  computeCrc32c : Bytes → BitVec 32
  serializer : BlockSerializer
  serializeLocation : TransactionLocation → Option Bytes

structure Surroundings where
  availableDiskSpacePercent : Except String UInt8
  clock : Timestamp
  visit : Visit Hash

inductive BatchOperation where
  | put (key value : Bytes)
  | delete (key : Bytes)
  deriving DecidableEq, Repr

abbrev KeyValueStore := KeyedMap Bytes Bytes

def KeyValueStore.atomicBatchWrite (store : KeyValueStore) (operations : List BatchOperation) : KeyValueStore :=
  operations.foldl (fun store operation =>
    match operation with
    | .put key value => store.insert key value
    | .delete key => store.erase key) store

structure BlockStorageService where
  kvStore : KeyValueStore
  config : StorageConfig
  assemblyBuffer : BlockAssemblyBuffer
  blockIndex : BlockIndex
  metadata : StorageMetadata
  txIndex : KeyedMap Hash TransactionLocation

abbrev StorageResult (α : Type) := Except StorageError α

def checkDiskSpace (config : StorageConfig) (around : Surroundings) : StorageResult Unit :=
  match around.availableDiskSpacePercent with
  | .error text => .error (.databaseError ("Failed to check disk space: " ++ text))
  | .ok available =>
    if available < config.minDiskSpacePercent then .error (.diskFull available config.minDiskSpacePercent)
    else .ok ()

section
variable (deps : BlockStorageDependencies)

def computeBlockHash (block : ValidatedBlock) : Hash :=
  deps.sha256 (wordBytes block.header.parentHash ++ leBytes 8 block.header.height.toNat ++
    wordBytes block.header.merkleRoot ++ wordBytes block.header.stateRoot ++
    leBytes 8 block.header.timestamp.toNat)

def computeBlockChecksum (block : ValidatedBlock) (merkleRoot stateRoot : Hash) : BitVec 32 :=
  deps.computeCrc32c (wordBytes block.header.parentHash ++ leBytes 8 block.header.height.toNat ++
    wordBytes merkleRoot ++ wordBytes stateRoot)

def verifyBlockChecksum (stored : StoredBlock) : StorageResult Unit :=
  let expected := computeBlockChecksum deps stored.block stored.merkleRoot stored.stateRoot
  if stored.checksum ≠ expected then
    .error (.dataCorruption (computeBlockHash deps stored.block) expected stored.checksum)
  else .ok ()

def storedBlock (block : ValidatedBlock) (merkleRoot stateRoot : Hash) (now : Timestamp) : StoredBlock :=
  ⟨block,merkleRoot,stateRoot,now,computeBlockChecksum deps block merkleRoot stateRoot⟩

end

namespace BlockStorageService

def blockExists (s : BlockStorageService) (hash : Hash) : Bool :=
  (s.kvStore.lookup (KeyPrefix.blockKey hash)).isSome

def checkParentExists (s : BlockStorageService) (block : ValidatedBlock) : StorageResult Unit :=
  if block.header.height = 0 then .ok ()
  else if s.blockExists block.header.parentHash = false then .error (.parentNotFound block.header.parentHash)
  else .ok ()

section
variable (deps : BlockStorageDependencies)

def indexTransaction (s : BlockStorageService) (block : ValidatedBlock) (blockHash : Hash)
    (tx : ValidatedTransaction) (index : Nat) : BlockStorageService :=
  let location : TransactionLocation := ⟨blockHash,block.header.height,index,block.header.merkleRoot⟩
  let s := {s with txIndex := s.txIndex.insert tx.txHash location}
  if s.config.persistTransactionIndex = false then s
  else
    match deps.serializeLocation location with
    | none => s
    | some value => {s with kvStore := s.kvStore.insert (KeyPrefix.transactionKey tx.txHash) value}

def indexTransactions (s : BlockStorageService) (block : ValidatedBlock) (blockHash : Hash) : BlockStorageService :=
  block.transactions.zipIdx.foldl (fun s entry => s.indexTransaction deps block blockHash entry.1 entry.2) s

def prepareBlock (around : Surroundings) (s : BlockStorageService) (block : ValidatedBlock)
    (merkleRoot stateRoot : Hash) : StorageResult Bytes := do
  checkDiskSpace s.config around
  s.checkParentExists block
  let blockHash := computeBlockHash deps block
  if s.blockExists blockHash then throw (.blockExists blockHash)
  let stored := storedBlock deps block merkleRoot stateRoot around.clock
  let size := deps.serializer.estimateSize stored
  if s.config.maxBlockSize < size then throw (.blockTooLarge size s.config.maxBlockSize)
  match deps.serializer.serialize stored with
  | .error message => throw (.serializationError message)
  | .ok data => return data

def commitBlock (s : BlockStorageService) (block : ValidatedBlock) (blockHash : Hash) (data : Bytes) :
    BlockStorageService :=
  let height := block.header.height
  let operations := [BatchOperation.put (KeyPrefix.blockKey blockHash) data,
    BatchOperation.put (KeyPrefix.heightKey height) (wordBytes blockHash)]
  let s := {s with
    kvStore := s.kvStore.atomicBatchWrite operations
    blockIndex := s.blockIndex.insert height blockHash
    metadata := s.metadata.onBlockStored height blockHash}
  s.indexTransactions deps block blockHash

def writeBlock (around : Surroundings) (s : BlockStorageService) (block : ValidatedBlock)
    (merkleRoot stateRoot : Hash) : StorageResult Hash × BlockStorageService :=
  match s.prepareBlock deps around block merkleRoot stateRoot with
  | .error e => (.error e,s)
  | .ok data =>
    let blockHash := computeBlockHash deps block
    (.ok blockHash,s.commitBlock deps block blockHash data)

variable (s : BlockStorageService)

def readBlock (hash : Hash) : StorageResult StoredBlock :=
  match s.kvStore.lookup (KeyPrefix.blockKey hash) with
  | none => .error (.blockNotFound hash)
  | some data =>
    match deps.serializer.deserialize data with
    | .error message => .error (.serializationError message)
    | .ok stored => (verifyBlockChecksum deps stored).map (fun _ => stored)

def readBlockByHeight (height : U64) : StorageResult StoredBlock :=
  match s.blockIndex.get height with
  | none => .error (.heightNotFound height)
  | some hash => s.readBlock deps hash

def markFinalized (height : U64) : StorageResult Unit × BlockStorageService :=
  if s.blockIndex.contains height = false then (.error (.heightNotFound height),s)
  else
    match s.metadata.onFinalized height with
    | none => (.error (.invalidFinalization height s.metadata.finalizedHeight),s)
    | some metadata => (.ok (),{s with metadata := metadata})

variable (around : Surroundings) (s : BlockStorageService)

def tryCompleteAssembly (blockHash : Hash) :
    StorageResult (Option Hash) × BlockStorageService :=
  match s.assemblyBuffer.takeComplete blockHash with
  | (none,buffer) => (.ok none,{s with assemblyBuffer := buffer})
  | (some assembly,buffer) =>
    let s := {s with assemblyBuffer := buffer}
    match assembly.takeComponents with
    | none => (.ok none,s)
    | some (block,merkleRoot,stateRoot) =>
      andThen (s.writeBlock deps around block merkleRoot stateRoot) fun hash s => (.ok (some hash),s)

def onBlockValidated (senderId : UInt8) (block : ValidatedBlock)
    (now : Timestamp) : StorageResult Unit × BlockStorageService :=
  if senderId ≠ consensusId then (.error (.unauthorizedSender senderId consensusId "BlockValidated"),s)
  else
    let blockHash := computeBlockHash deps block
    let buffer := s.assemblyBuffer.addBlockValidated blockHash block now
    let s := {s with assemblyBuffer := (buffer.enforceMaxPending around.visit).2}
    andThen (s.tryCompleteAssembly deps around blockHash) fun _ s => (.ok (),s)

def onMerkleRootComputed (senderId : UInt8)
    (blockHash merkleRoot : Hash) (now : Timestamp) : StorageResult Unit × BlockStorageService :=
  if senderId ≠ transactionIndexingId then
    (.error (.unauthorizedSender senderId transactionIndexingId "MerkleRootComputed"),s)
  else
    let s := {s with assemblyBuffer := s.assemblyBuffer.addMerkleRoot blockHash merkleRoot now}
    andThen (s.tryCompleteAssembly deps around blockHash) fun _ s => (.ok (),s)

def onStateRootComputed (senderId : UInt8)
    (blockHash stateRoot : Hash) (now : Timestamp) : StorageResult Unit × BlockStorageService :=
  if senderId ≠ stateManagementId then
    (.error (.unauthorizedSender senderId stateManagementId "StateRootComputed"),s)
  else
    let s := {s with assemblyBuffer := s.assemblyBuffer.addStateRoot blockHash stateRoot now}
    andThen (s.tryCompleteAssembly deps around blockHash) fun _ s => (.ok (),s)

end
end BlockStorageService

inductive Event where
  | blockValidated (senderId : UInt8) (block : ValidatedBlock)
  | merkleRootComputed (senderId : UInt8) (blockHash merkleRoot : Hash)
  | stateRootComputed (senderId : UInt8) (blockHash stateRoot : Hash)
  deriving DecidableEq, Repr

structure Delivery where
  event : Event
  now : Timestamp
  around : Surroundings

def BlockStorageService.receive (deps : BlockStorageDependencies) (s : BlockStorageService) (d : Delivery) :
    StorageResult Unit × BlockStorageService :=
  match d.event with
  | .blockValidated senderId block => s.onBlockValidated deps d.around senderId block d.now
  | .merkleRootComputed senderId blockHash merkleRoot =>
    s.onMerkleRootComputed deps d.around senderId blockHash merkleRoot d.now
  | .stateRootComputed senderId blockHash stateRoot =>
    s.onStateRootComputed deps d.around senderId blockHash stateRoot d.now

def BlockStorageService.receiveAll (deps : BlockStorageDependencies) (s : BlockStorageService)
    (deliveries : List Delivery) : BlockStorageService :=
  StepRun.run (fun s d => (s.receive deps d).2) s deliveries

end QuantumChain.Storage
