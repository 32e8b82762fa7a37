import QuantumChain.StorageRuns

/-! Coherence of reads after any run of writes.
The serializer is assumed to read back what it wrote. -/
namespace QuantumChain.Storage
open KeyPrefix KeyedMap List
open StepRun (run runInvariant runAppend runCons)

theorem KeyPrefix.transactionKeyInj {a b} (same : transactionKey a = transactionKey b) : a = b :=
  wordBytesInj (by decide) (keyInj same).2

namespace BlockStorageService
variable (deps : BlockStorageDependencies)

def Located (s : BlockStorageService) (txHash : Hash) (location : TransactionLocation) : Prop :=
  ∃ stored tx, s.readBlock deps location.blockHash = .ok stored ∧
    stored.block.transactions[location.transactionIndex]? = some tx ∧ tx.txHash = txHash ∧
    location.blockHeight = stored.block.header.height ∧ location.merkleRoot = stored.block.header.merkleRoot

structure IndexedBy (P : Hash → TransactionLocation → Prop) (s : BlockStorageService) : Prop where
  memory : ∀ txHash location, s.txIndex.lookup txHash = some location → P txHash location
  persisted : ∀ txHash value, s.kvStore.lookup (KeyPrefix.transactionKey txHash) = some value →
    ∃ location, deps.serializeLocation location = some value ∧ P txHash location

structure Coherent (s : BlockStorageService) : Prop where
  sound : s.Sound deps
  heights : ∀ height h, s.blockIndex.get height = some h →
    ∃ stored, s.readBlock deps h = .ok stored ∧ stored.block.header.height = height ∧ computeBlockHash deps stored.block = h
  transactions : IndexedBy deps (s.Located deps) s

section
variable {deps} {P : Hash → TransactionLocation → Prop} {s : BlockStorageService}

theorem IndexedBy.mono {Q} (indexed : IndexedBy deps P s)
    (implies : ∀ txHash location, P txHash location → Q txHash location) : IndexedBy deps Q s := by
  refine ⟨fun txHash location found => implies _ _ (indexed.memory txHash location found),fun txHash value found => ?_⟩
  obtain ⟨location,serialized,holds⟩ := indexed.persisted txHash value found
  exact ⟨location,serialized,implies _ _ holds⟩

theorem indexTransactionBy (indexed : IndexedBy deps P s) {block blockHash tx index}
    (holds : P tx.txHash ⟨blockHash,block.header.height,index,block.header.merkleRoot⟩) :
    IndexedBy deps P (s.indexTransaction deps block blockHash tx index) := by
  have memory : ∀ txHash location, (s.txIndex.insert tx.txHash ⟨blockHash,block.header.height,index,
    block.header.merkleRoot⟩).lookup
      txHash = some location → P txHash location := by
    intro txHash location found
    rw [lookupInsert] at found
    split at found
    · rename_i own
      cases found
      exact own ▸ holds
    · exact indexed.memory txHash location found
  unfold indexTransaction
  dsimp only
  split
  · exact ⟨memory,indexed.persisted⟩
  split
  · exact ⟨memory,indexed.persisted⟩
  rename_i value serialized
  refine ⟨memory,fun txHash stored found => ?_⟩
  rw [lookupInsert] at found
  split at found
  · rename_i own
    cases found
    rw [transactionKeyInj own]
    exact ⟨_,serialized,holds⟩
  · exact indexed.persisted txHash stored found

theorem indexTransactionsBy (indexed : IndexedBy deps P s) {block blockHash}
    (holds : ∀ index tx, block.transactions[index]? = some tx →
      P tx.txHash ⟨blockHash,block.header.height,index,block.header.merkleRoot⟩) :
    IndexedBy deps P (s.indexTransactions deps block blockHash) := by
  unfold indexTransactions
  have entries : ∀ entry ∈ block.transactions.zipIdx, block.transactions[entry.2]? = some entry.1 := fun entry mem =>
    mem_zipIdx_iff_getElem?.mp mem
  generalize block.transactions.zipIdx = remaining at entries
  induction remaining generalizing s with
  | nil => exact indexed
  | cons entry rest ih =>
    exact ih (indexTransactionBy indexed (holds entry.2 entry.1 (entries entry mem_cons_self)))
      fun other mem => entries other (mem_cons_of_mem _ mem)

theorem commitBlockBy (indexed : IndexedBy deps P s) {block blockHash} (data)
    (holds : ∀ index tx, block.transactions[index]? = some tx →
      P tx.txHash ⟨blockHash,block.header.height,index,block.header.merkleRoot⟩) :
    IndexedBy deps P (s.commitBlock deps block blockHash data) := by
  unfold commitBlock
  apply indexTransactionsBy _ holds
  refine ⟨indexed.memory,fun txHash value found => indexed.persisted txHash value ?_⟩
  -- the batch writes a block key and a height key, never a transaction key
  have notBlock : transactionKey txHash ≠ blockKey blockHash :=
    fun same => noConfusion (keyInj same).1
  have notHeight : transactionKey txHash ≠ heightKey block.header.height :=
    fun same => noConfusion (keyInj same).1
  simpa only [KeyValueStore.atomicBatchWrite,foldl_cons,foldl_nil,lookupInsert,if_neg notBlock,
    if_neg notHeight] using found

theorem Adds.located {next stored} (adds : Adds deps s next stored) {txHash location}
    (located : s.Located deps txHash location) : next.Located deps txHash location := by
  obtain ⟨held,tx,read,rest⟩ := located
  exact ⟨held,tx,(adds.keeps (readExists read)).trans read,rest⟩

theorem operateCoherent (lawful : deps.serializer.RoundTrips) (coherent : s.Coherent deps) (op) :
    (s.operate deps op).Coherent deps := by
  have sound := operateSound lawful coherent.sound op
  revert sound
  refine operateKeeps (I := fun s => s.Sound deps → s.Coherent deps)
    (fun sound => ⟨sound,coherent.heights,coherent.transactions⟩)
    (fun around block merkleRoot stateRoot data prepared sound => ?_) (fun _ _ _ sound => ⟨sound,coherent.heights,?_⟩) op
  · have adds := writeAdds lawful prepared
    refine ⟨sound,fun height h found => ?_,?_⟩
    · rw [adds.index,BlockIndex.getInsert] at found
      split at found
      · rename_i own
        cases found
        exact ⟨_,adds.own,own.symm,rfl⟩
      · obtain ⟨stored,read,at',hash⟩ := coherent.heights height h found
        exact ⟨stored,(adds.keeps (readExists read)).trans read,at',hash⟩
    · refine commitBlockBy (coherent.transactions.mono fun _ _ located => adds.located located) data fun index tx listed => ?_
      exact ⟨_,tx,adds.own,listed,rfl,rfl,rfl⟩
  · exact ⟨coherent.transactions.memory,coherent.transactions.persisted⟩

theorem freshCoherent (config) : (fresh config).Coherent deps := by
  refine ⟨fun h known => ?_,fun height h found => ?_,fun txHash location found => ?_,fun txHash value found => ?_⟩
  · cases known
  · cases found
  · cases found
  · cases found

theorem runCoherent (lawful : deps.serializer.RoundTrips) (config) (ops) :
    (run (operate deps) (fresh config) ops).Coherent deps :=
  runInvariant (I := Coherent deps) (fun _ op coherent => operateCoherent lawful coherent op) (freshCoherent config) ops

theorem readNeverCorrupt (sound : s.Sound deps) (h) :
    (∃ stored, s.readBlock deps h = .ok stored) ∨ s.readBlock deps h = .error (.blockNotFound h) := by
  cases known : s.blockExists h with
  | true =>
    obtain ⟨stored,read,_⟩ := sound h known
    exact .inl ⟨stored,read⟩
  | false =>
    unfold blockExists at known
    cases found : s.kvStore.lookup (blockKey h) with
    | none => exact .inr (by rw [readBlock,found])
    | some data =>
      rw [found] at known
      cases known

theorem operateKeepsRead (lawful : deps.serializer.RoundTrips) {h stored}
    (read : s.readBlock deps h = .ok stored) (op) : (s.operate deps op).readBlock deps h = .ok stored :=
  operateKeeps (I := fun s => s.readBlock deps h = .ok stored) read
    (fun _ _ _ _ _ prepared => ((writeAdds lawful prepared).keeps (readExists read)).trans read) (fun _ _ _ => read) op

theorem writtenRead (lawful : deps.serializer.RoundTrips) {around block merkleRoot stateRoot h}
    (accepted : (s.writeBlock deps around block merkleRoot stateRoot).1 = .ok h) (after) :
    (run (operate deps) (s.operate deps (.write around block merkleRoot stateRoot)) after).readBlock deps h =
      .ok (storedBlock deps block merkleRoot stateRoot around.clock) := by
  refine runInvariant (I := fun s : BlockStorageService => s.readBlock deps h =
    .ok (storedBlock deps block merkleRoot stateRoot around.clock))
    (fun _ op read => operateKeepsRead lawful read op) ?_ after
  rcases writeCases deps around s block merkleRoot stateRoot with ⟨e,refused⟩ | ⟨data,prepared,written⟩
  · rw [refused] at accepted
    cases accepted
  · rw [written] at accepted
    cases accepted
    rw [operate,written]
    exact (writeAdds lawful prepared).own

theorem storageCoherent (lawful : deps.serializer.RoundTrips) (config : StorageConfig) (ops : List StorageOp) :
    (∀ height h, (run (operate deps) (fresh config) ops).blockIndex.get height = some h →
      ∃ stored, (run (operate deps) (fresh config) ops).readBlock deps h = .ok stored ∧ stored.block.header.height = height ∧
        computeBlockHash deps stored.block = h) ∧
    (∀ before around block merkleRoot stateRoot after h, ops = before ++ .write around block merkleRoot stateRoot::after →
      ((run (operate deps) (fresh config) before).writeBlock deps around block merkleRoot stateRoot).1 = .ok h →
      (run (operate deps) (fresh config) ops).readBlock deps h =
        .ok (storedBlock deps block merkleRoot stateRoot around.clock)) ∧
    (∀ h, (∃ stored, (run (operate deps) (fresh config) ops).readBlock deps h = .ok stored) ∨
      (run (operate deps) (fresh config) ops).readBlock deps h = .error (.blockNotFound h)) ∧
    IndexedBy deps ((run (operate deps) (fresh config) ops).Located deps) (run (operate deps) (fresh config) ops) := by
  have coherent := runCoherent lawful config ops
  refine ⟨coherent.heights,?_,readNeverCorrupt coherent.sound,coherent.transactions⟩
  rintro before around block merkleRoot stateRoot after h rfl accepted
  rw [runAppend,runCons]
  exact writtenRead lawful accepted after

def paying : BlockParts := ⟨{emptyBlock 0 0 with transactions := [⟨⟨1,none,5,0,[],0⟩,71⟩,⟨⟨2,none,6,0,[],0⟩,72⟩]},3,4⟩

theorem payingCoherent : standIns.serializer.RoundTrips ∧
    (run (operate standIns) (fresh {}) [written paying,written child]).readBlock standIns (paying.hash standIns) = .ok
      (stored paying) ∧
    IndexedBy standIns ((run (operate standIns) (fresh {}) [written paying,written child]).Located standIns)
      (run (operate standIns) (fresh {}) [written paying,written child]) ∧
    (run (operate standIns) (fresh {}) [written paying,written child]).txIndex.lookup 72 =
      some ⟨paying.hash standIns,0,1,0⟩ := by
  have lawful : standIns.serializer.RoundTrips := unaryRoundTrips
  obtain ⟨_,reads,_,indexed⟩ := storageCoherent lawful {} [written paying,written child]
  exact ⟨lawful,reads [] calm paying.block 3 4 [written child] (paying.hash standIns) rfl (by decide +kernel),indexed,
    by decide +kernel⟩

end
end BlockStorageService
end QuantumChain.Storage
