import QuantumChain.StorageRestart

/-! The size of the assembly buffer.
The bound is on entries, not on bytes. -/
namespace QuantumChain.Storage
open KeyedMap
open StepRun (Along alongExact andThenKeeps)

namespace BlockAssemblyBuffer
variable {b : BlockAssemblyBuffer} {h : Hash}

theorem purgedSize {visit : Visit Hash} {entries : List Hash} (perm : entries.Perm (visit.order b.pending.keys))
    (large : ¬ b.pending.size ≤ b.config.maxPendingAssemblies) :
    (b.eraseAll (entries.take (b.pending.size - b.config.maxPendingAssemblies))).pending.size =
      b.config.maxPendingAssemblies := by
  have length : entries.length = b.pending.size := perm.length_eq.trans (visit.orderLength _)
  have once : (entries.take (b.pending.size - b.config.maxPendingAssemblies)).Nodup :=
    (perm.nodup_iff.mpr (visit.nodup _)).sublist (List.take_sublist _ _)
  have present : ∀ k ∈ entries.take (b.pending.size - b.config.maxPendingAssemblies), ∃ a, b.pending.lookup k = some a :=
    fun k mem => memKeys.mp ((visit.complete _ _).mp (perm.mem_iff.mp (List.mem_of_mem_take mem)))
  have sizes : (b.eraseAll (entries.take (b.pending.size - b.config.maxPendingAssemblies))).pending.size +
      (entries.take (b.pending.size - b.config.maxPendingAssemblies)).length = b.pending.size :=
    sizeEraseAll once present
  rw [List.length_take,length] at sizes
  omega

theorem enforced (visit : Visit Hash) (b : BlockAssemblyBuffer) :
    (b.enforceMaxPending visit).2.pending.size ≤ b.config.maxPendingAssemblies ∧
      (b.enforceMaxPending visit).2.config = b.config := by
  unfold enforceMaxPending
  split
  · rename_i fits
    exact ⟨fits,rfl⟩
  · rename_i large
    exact ⟨(purgedSize (List.perm_insertionSort _ _) large).le,rfl⟩

theorem takeCompleteSize (b : BlockAssemblyBuffer) (h : Hash) :
    (b.takeComplete h).2.pending.size ≤ b.pending.size ∧ (b.takeComplete h).2.config = b.config := by
  unfold takeComplete
  split
  · refine ⟨sizeMono (fun k v found => ?_),rfl⟩
    rw [lookupErase] at found
    split at found
    · cases found
    · exact ⟨v,found⟩
  · exact ⟨le_refl _,rfl⟩

theorem enterSize (b : BlockAssemblyBuffer) (h : Hash) (now : Timestamp)
    (component : PendingBlockAssembly → PendingBlockAssembly) :
    (b.enter h now component).pending.size = if (b.pending.lookup h).isSome then b.pending.size else b.pending.size + 1 := by
  unfold enter
  cases found : b.pending.lookup h with
  | none => exact sizeInsertFresh found _
  | some a => exact sizeInsertKnown found _

theorem enterIncomplete {now component}
    (absent : b.pending.lookup h = none) (blockless : (component (.new h now)).validatedBlock = none) :
    (b.enter h now component).takeComplete h = (none,b.enter h now component) := by
  have own : (b.enter h now component).pending.lookup h = some (component (.new h now)) := by
    rw [enter,absent,lookupInsert,if_pos rfl]
    rfl
  rw [takeComplete,isComplete,own]
  simp [PendingBlockAssembly.isComplete,blockless]

theorem blockBounded (visit : Visit Hash) (b : BlockAssemblyBuffer) (h : Hash) (block : ValidatedBlock) (now : Timestamp) :
    (((b.addBlockValidated h block now).enforceMaxPending visit).2.takeComplete h).2.pending.size ≤
      b.config.maxPendingAssemblies :=
  (takeCompleteSize _ h).1.trans (enforced visit (b.addBlockValidated h block now)).1

end BlockAssemblyBuffer

namespace BlockStorageService
variable {deps : BlockStorageDependencies} {s : BlockStorageService}

theorem tryBuffer (around) (s : BlockStorageService) (h) :
    (s.tryCompleteAssembly deps around h).2.assemblyBuffer = (s.assemblyBuffer.takeComplete h).2 := by
  unfold tryCompleteAssembly
  split
  · rename_i same
    rw [same]
  · rename_i assembly buffer same
    rw [same]
    dsimp only
    split
    · rfl
    · exact andThenKeeps (I := fun s : BlockStorageService => s.assemblyBuffer = buffer) (writeBlockKept deps around _ _ _ _).2
        (fun _ _ kept => kept)

theorem receiveBuffer (s : BlockStorageService) (d) : (s.receive deps d).2.assemblyBuffer =
      match d.event with
      | .blockValidated senderId block =>
        if senderId = consensusId then
          (((s.assemblyBuffer.addBlockValidated (computeBlockHash deps block) block d.now).enforceMaxPending
            d.around.visit).2.takeComplete (computeBlockHash deps block)).2
        else s.assemblyBuffer
      | .merkleRootComputed senderId h merkleRoot =>
        if senderId = transactionIndexingId then ((s.assemblyBuffer.addMerkleRoot h merkleRoot d.now).takeComplete h).2
        else s.assemblyBuffer
      | .stateRootComputed senderId h stateRoot =>
        if senderId = stateManagementId then ((s.assemblyBuffer.addStateRoot h stateRoot d.now).takeComplete h).2
        else s.assemblyBuffer := by
  unfold receive
  cases d.event with
  | blockValidated senderId block =>
    by_cases own : senderId = consensusId
    · simp only [onBlockValidated,own,ne_eq,not_true_eq_false,if_false,if_true,andThenState,tryBuffer]
    · simp only [onBlockValidated,own,ne_eq,not_false_eq_true,if_false,if_true]
  | merkleRootComputed senderId h merkleRoot =>
    by_cases own : senderId = transactionIndexingId
    · simp only [onMerkleRootComputed,own,ne_eq,not_true_eq_false,if_false,if_true,andThenState,tryBuffer]
    · simp only [onMerkleRootComputed,own,ne_eq,not_false_eq_true,if_false,if_true]
  | stateRootComputed senderId h stateRoot =>
    by_cases own : senderId = stateManagementId
    · simp only [onStateRootComputed,own,ne_eq,not_true_eq_false,if_false,if_true,andThenState,tryBuffer]
    · simp only [onStateRootComputed,own,ne_eq,not_false_eq_true,if_false,if_true]

def HasRoom (limit : Nat) (s : BlockStorageService) (h : Hash) : Prop :=
  (s.assemblyBuffer.pending.lookup h).isSome = true ∨ s.assemblyBuffer.pending.size < limit

def Roomy (limit : Nat) (s : BlockStorageService) (d : Delivery) : Prop :=
  match d.event with
  | .blockValidated _ _ => True
  | .merkleRootComputed senderId h _ => senderId = transactionIndexingId → s.HasRoom limit h
  | .stateRootComputed senderId h _ => senderId = stateManagementId → s.HasRoom limit h

structure Within (limit : Nat) (s : BlockStorageService) : Prop where
  size : s.assemblyBuffer.pending.size ≤ limit
  config : s.assemblyBuffer.config.maxPendingAssemblies = limit

theorem enterWithin {limit} (within : s.Within limit) (h) (now)
    {component} (blockless : (component (.new h now)).validatedBlock = none) :
    ((s.assemblyBuffer.enter h now component).takeComplete h).2.pending.size ≤ limit ↔ s.HasRoom limit h := by
  have size := within.size
  have entered := s.assemblyBuffer.enterSize h now component
  have taken := (BlockAssemblyBuffer.takeCompleteSize (s.assemblyBuffer.enter h now component) h).1
  unfold HasRoom
  cases found : s.assemblyBuffer.pending.lookup h with
  | none =>
    rw [BlockAssemblyBuffer.enterIncomplete found blockless]
    rw [found] at entered
    simp only [Option.isSome_none,Bool.false_eq_true,if_false,false_or] at entered ⊢
    omega
  | some a =>
    rw [found] at entered
    simp only [Option.isSome_some,if_true,true_or,iff_true] at entered ⊢
    omega

theorem rootBounded {limit} (within : s.Within limit) (h) (now) {taken} [Decidable taken]
    {component} (blockless : (component (.new h now)).validatedBlock = none) :
    (if taken then ((s.assemblyBuffer.enter h now component).takeComplete h).2 else s.assemblyBuffer).pending.size ≤ limit ↔
      (taken → s.HasRoom limit h) := by
  by_cases own : taken
  · rw [if_pos own,forall_prop_of_true own]
    exact enterWithin within h now blockless
  · rw [if_neg own,forall_prop_of_false own]
    exact iff_of_true within.size trivial

theorem receiveConfig (s : BlockStorageService) (d) :
    (s.receive deps d).2.assemblyBuffer.config = s.assemblyBuffer.config := by
  rw [receiveBuffer]
  cases d.event with
  | blockValidated senderId block =>
    dsimp only
    split
    · rw [(BlockAssemblyBuffer.takeCompleteSize _ _).2,(BlockAssemblyBuffer.enforced _ _).2]
      rfl
    · rfl
  | merkleRootComputed senderId h merkleRoot =>
    dsimp only
    split
    · exact (BlockAssemblyBuffer.takeCompleteSize _ _).2
    · rfl
  | stateRootComputed senderId h stateRoot =>
    dsimp only
    split
    · exact (BlockAssemblyBuffer.takeCompleteSize _ _).2
    · rfl

theorem receiveBounded {limit} (within : s.Within limit) (d) :
    (s.receive deps d).2.assemblyBuffer.pending.size ≤ limit ↔ s.Roomy limit d := by
  rw [receiveBuffer]
  unfold Roomy
  cases d.event with
  | blockValidated senderId block =>
    refine iff_of_true ?_ trivial
    dsimp only
    split
    · exact (BlockAssemblyBuffer.blockBounded _ _ _ _ _).trans within.config.le
    · exact within.size
  | merkleRootComputed senderId h merkleRoot => exact rootBounded within h d.now rfl
  | stateRootComputed senderId h stateRoot => exact rootBounded within h d.now rfl

theorem assemblyBounded (deps : BlockStorageDependencies) (visit : Visit Bytes)
    (deserializeLocation : Bytes → Option TransactionLocation) (config : StorageConfig) (store : KeyValueStore)
    (deliveries : List Delivery) : Along (fun s d => (receive deps s d).2)
        (fun s d => (receive deps s d).2.assemblyBuffer.pending.size ≤ config.assemblyConfig.maxPendingAssemblies)
        (new visit deserializeLocation config store) deliveries ↔
      Along (fun s d => (receive deps s d).2) (Roomy config.assemblyConfig.maxPendingAssemblies)
        (new visit deserializeLocation config store) deliveries := by
  refine alongExact (I := Within config.assemblyConfig.maxPendingAssemblies) ?_ (fun s within => within.size) ?_ ?_
  · intro s d within roomy
    refine ⟨(receiveBounded within d).mpr roomy,?_⟩
    rw [receiveConfig]
    exact within.config
  · intro s d within bounded
    exact (receiveBounded within d).mp bounded
  · constructor
    · rw [(newKept visit deserializeLocation config store).2]
      exact Nat.zero_le _
    · rw [(newKept visit deserializeLocation config store).2]
      rfl

def oneAssembly : StorageConfig := {assemblyConfig := {maxPendingAssemblies := 1}}

theorem rootsPastLimit : oneAssembly.assemblyConfig.maxPendingAssemblies = 1 ∧
      ∀ visit deserializeLocation,
        let after := (new visit deserializeLocation oneAssembly ∅).receiveAll standIns
          (delivered [.merkleRootComputed transactionIndexingId 1 7,.merkleRootComputed transactionIndexingId 2 7])
        after.assemblyBuffer.pending.size = 2 := by
  refine ⟨rfl,?_⟩
  intro visit deserializeLocation after
  unfold after
  rw [newEmpty]
  decide +kernel

end BlockStorageService
end QuantumChain.Storage
