import QuantumChain.StorageService

/-! What a write checks and adds.
A refused write adds nothing. -/
namespace QuantumChain.Storage
open KeyPrefix KeyedMap

namespace BlockStorageService
variable (deps : BlockStorageDependencies)

theorem indexTransactionLookup (s : BlockStorageService) (block) (blockHash)
    (tx) (index) {p : KeyPrefix} (other : p ≠ .transaction) (suffix) :
    (s.indexTransaction deps block blockHash tx index).kvStore.lookup (p.key suffix) = s.kvStore.lookup (p.key suffix) := by
  unfold indexTransaction
  dsimp only
  split
  · rfl
  · split
    · rfl
    · have apart : p.key suffix ≠ transactionKey tx.txHash := fun same => other (keyInj same).1
      exact (lookupInsert _ _ _ _).trans (if_neg apart)

theorem indexTransactionKept (s : BlockStorageService) (block) (blockHash)
    (tx) (index) : (s.indexTransaction deps block blockHash tx index).config = s.config ∧
    (s.indexTransaction deps block blockHash tx index).assemblyBuffer = s.assemblyBuffer ∧
    (s.indexTransaction deps block blockHash tx index).blockIndex = s.blockIndex ∧
    (s.indexTransaction deps block blockHash tx index).metadata = s.metadata := by
  unfold indexTransaction
  dsimp only
  split
  · exact ⟨rfl,rfl,rfl,rfl⟩
  · split <;> exact ⟨rfl,rfl,rfl,rfl⟩

structure Indexed (s next : BlockStorageService) : Prop where
  config : next.config = s.config
  buffer : next.assemblyBuffer = s.assemblyBuffer
  blockIndex : next.blockIndex = s.blockIndex
  metadata : next.metadata = s.metadata
  lookups : ∀ p : KeyPrefix, p ≠ .transaction → ∀ suffix, next.kvStore.lookup (p.key suffix) = s.kvStore.lookup (p.key suffix)

theorem indexTransactionsKept (s) (block) (blockHash) :
    Indexed s (s.indexTransactions deps block blockHash) := by
  unfold indexTransactions
  generalize block.transactions.zipIdx = entries
  induction entries generalizing s with
  | nil => exact ⟨rfl,rfl,rfl,rfl,fun _ _ _ => rfl⟩
  | cons entry rest ih =>
    obtain ⟨config,buffer,index,metadata,lookups⟩ := ih (s.indexTransaction deps block blockHash entry.1 entry.2)
    obtain ⟨config',buffer',index',metadata'⟩ := indexTransactionKept deps s block blockHash entry.1 entry.2
    exact ⟨config.trans config',buffer.trans buffer',index.trans index',metadata.trans metadata',fun p other suffix =>
      (lookups p other suffix).trans (indexTransactionLookup deps s block blockHash entry.1 entry.2 other suffix)⟩

variable (s : BlockStorageService)

theorem commitBlockKept (block) (blockHash) (data) :
    (s.commitBlock deps block blockHash data).config = s.config ∧
    (s.commitBlock deps block blockHash data).assemblyBuffer = s.assemblyBuffer ∧
    (s.commitBlock deps block blockHash data).blockIndex = s.blockIndex.insert block.header.height blockHash ∧
    (s.commitBlock deps block blockHash data).metadata = s.metadata.onBlockStored block.header.height blockHash := by
  obtain ⟨config,buffer,index,metadata,_⟩ := indexTransactionsKept deps _ block blockHash
  exact ⟨config,buffer,index,metadata⟩

theorem commitBlockHeights (block) (blockHash) (data suffix) :
    (s.commitBlock deps block blockHash data).kvStore.lookup (KeyPrefix.blockByHeight.key suffix) =
      if suffix = wordBytes block.header.height then some (wordBytes blockHash)
      else s.kvStore.lookup (KeyPrefix.blockByHeight.key suffix) := by
  have apart : blockByHeight.key suffix ≠ blockKey blockHash :=
    fun same => noConfusion (keyInj same).1
  rw [commitBlock,(indexTransactionsKept deps _ block blockHash).lookups _ noConfusion]
  simp only [KeyValueStore.atomicBatchWrite,List.foldl_cons,List.foldl_nil,lookupInsert,if_neg apart]
  by_cases own : suffix = wordBytes block.header.height
  · rw [if_pos own,own,heightKey,if_pos rfl]
  · rw [if_neg own,heightKey,if_neg (fun same => own (keyInj same).2)]

theorem commitBlockLookup (block) (blockHash h) (data) :
    (s.commitBlock deps block blockHash data).kvStore.lookup (KeyPrefix.blockKey h) =
      if h = blockHash then some data else s.kvStore.lookup (KeyPrefix.blockKey h) := by
  have apart : blockKey h ≠ heightKey block.header.height :=
    fun same => nomatch (keyInj same).1
  rw [commitBlock,blockKey,(indexTransactionsKept deps _ block blockHash).lookups _ noConfusion,
    ← blockKey]
  simp only [KeyValueStore.atomicBatchWrite,List.foldl_cons,List.foldl_nil,lookupInsert,if_neg apart]
  by_cases own : h = blockHash
  · rw [if_pos own,if_pos (congrArg _ own)]
  · rw [if_neg own,if_neg (fun same => own (blockKeyInj same))]

theorem writeBlockKept (around) (s : BlockStorageService)
    (block) (merkleRoot stateRoot) :
    (s.writeBlock deps around block merkleRoot stateRoot).2.config = s.config ∧
    (s.writeBlock deps around block merkleRoot stateRoot).2.assemblyBuffer = s.assemblyBuffer := by
  unfold writeBlock
  split
  · exact ⟨rfl,rfl⟩
  · obtain ⟨config,buffer,_⟩ := commitBlockKept deps s block _ _
    exact ⟨config,buffer⟩

def Admits (s : BlockStorageService) (stored : StoredBlock) : Prop :=
  (stored.block.header.height = 0 ∨ s.blockExists stored.block.header.parentHash = true) ∧
    deps.serializer.estimateSize stored ≤ s.config.maxBlockSize

section
variable {deps} {around : Surroundings} {s : BlockStorageService} {block : ValidatedBlock}
variable {merkleRoot stateRoot : Hash}

theorem prepareOk {data} : s.prepareBlock deps around block merkleRoot stateRoot = .ok data ↔
      checkDiskSpace s.config around = .ok () ∧ s.checkParentExists block = .ok () ∧
      s.blockExists (computeBlockHash deps block) = false ∧
      deps.serializer.estimateSize (storedBlock deps block merkleRoot stateRoot around.clock) ≤ s.config.maxBlockSize ∧
      deps.serializer.serialize (storedBlock deps block merkleRoot stateRoot around.clock) = .ok data := by
  unfold prepareBlock
  simp only [bind,Except.bind,pure,Except.pure,throw,throwThe,MonadExceptOf.throw]
  cases checkDiskSpace s.config around with
  | error e => simp
  | ok _ =>
    cases s.checkParentExists block with
    | error e => simp
    | ok _ =>
      cases s.blockExists (computeBlockHash deps block) with
      | true => simp
      | false =>
        by_cases large : s.config.maxBlockSize <
            deps.serializer.estimateSize (storedBlock deps block merkleRoot stateRoot around.clock)
        · simp [large]
        · cases deps.serializer.serialize (storedBlock deps block merkleRoot stateRoot around.clock) <;>
            simp [large,Nat.not_lt.mp large]

theorem parentOk : s.checkParentExists block = .ok () ↔
    block.header.height = 0 ∨ s.blockExists block.header.parentHash = true := by
  unfold checkParentExists
  split
  · rename_i genesis
    simp [genesis]
  · rename_i above
    rw [or_iff_right above]
    cases s.blockExists block.header.parentHash <;> simp

theorem writeAdmitted (lawful : deps.serializer.RoundTrips) (disk : checkDiskSpace s.config around = .ok ())
    (fresh : s.blockExists (computeBlockHash deps block) = false)
    (admits : s.Admits deps (storedBlock deps block merkleRoot stateRoot around.clock)) :
    ∃ data, deps.serializer.deserialize data = .ok (storedBlock deps block merkleRoot stateRoot around.clock) ∧
      (s.writeBlock deps around block merkleRoot stateRoot).2 =
        s.commitBlock deps block (computeBlockHash deps block) data := by
  obtain ⟨data,written,back⟩ := lawful (storedBlock deps block merkleRoot stateRoot around.clock)
  have parent : s.checkParentExists block = .ok () := parentOk.mpr admits.1
  have prepared := prepareOk.mpr ⟨disk,parent,fresh,admits.2,written⟩
  exact ⟨data,back,by rw [writeBlock,prepared]⟩

theorem writeRefused (refused : ¬ s.Admits deps (storedBlock deps block merkleRoot stateRoot around.clock)) :
    (s.writeBlock deps around block merkleRoot stateRoot).2 = s := by
  unfold writeBlock
  split
  · rfl
  · rename_i data prepared
    obtain ⟨_,parent,_,fits,_⟩ := prepareOk.mp prepared
    exact absurd ⟨parentOk.mp parent,fits⟩ refused

end

end BlockStorageService
end QuantumChain.Storage
