import QuantumChain.StorageWrite
import Mathlib.Tactic.DeriveEncodable
import Mathlib.Logic.Equiv.List

/-! Assembly of blocks from three event streams.
Events may come in any order and more than once. -/
namespace QuantumChain.Storage
open BlockStorageService KeyPrefix BlockAssemblyBuffer Encodable
open List KeyedMap
open StepRun (andThen)

structure BlockParts where
  block : ValidatedBlock
  merkleRoot : Hash
  stateRoot : Hash
  deriving DecidableEq, Repr

def BlockParts.hash (deps : BlockStorageDependencies) (p : BlockParts) : Hash := computeBlockHash deps p.block

inductive Component where
  | block
  | merkle
  | state
  deriving DecidableEq, Repr

abbrev Parts := Option ValidatedBlock × Option Hash × Option Hash

namespace BlockStorageService
variable (deps : BlockStorageDependencies)

def held (s : BlockStorageService) (h : Hash) : Parts :=
  match s.assemblyBuffer.pending.lookup h with
  | none => (none,none,none)
  | some a => (a.validatedBlock,a.merkleRoot,a.stateRoot)

def Stores (s : BlockStorageService) (p : BlockParts) : Prop :=
  ∃ stored, s.readBlock deps (p.hash deps) = .ok stored ∧
    stored.block = p.block ∧ stored.merkleRoot = p.merkleRoot ∧ stored.stateRoot = p.stateRoot

theorem readSame {s t : BlockStorageService} {h}
    (same : s.kvStore.lookup (blockKey h) = t.kvStore.lookup (blockKey h)) :
    s.readBlock deps h = t.readBlock deps h := by
  unfold readBlock
  rw [same]

theorem storesExists {deps} {s : BlockStorageService} {p} (stores : s.Stores deps p) :
    s.blockExists (p.hash deps) = true := by
  obtain ⟨stored,read,_⟩ := stores
  unfold readBlock at read
  unfold blockExists
  cases found : s.kvStore.lookup (blockKey (p.hash deps)) with
  | none => simp [found] at read
  | some data => rfl

end BlockStorageService

namespace BlockParts
variable (deps : BlockStorageDependencies)

def event (p : BlockParts) : Component → Event
  | .block => .blockValidated consensusId p.block
  | .merkle => .merkleRootComputed transactionIndexingId (p.hash deps) p.merkleRoot
  | .state => .stateRootComputed stateManagementId (p.hash deps) p.stateRoot

def events (p : BlockParts) : List Event := [p.event deps .block,p.event deps .merkle,p.event deps .state]

def Complete (p : BlockParts) (seen : List Event) : Prop := ∀ e ∈ p.events deps, e ∈ seen
instance (p seen) : Decidable (Complete deps p seen) := by
  unfold Complete; infer_instance

def arrived (p : BlockParts) (seen : List Event) : Parts :=
  (if p.event deps .block ∈ seen then some p.block else none,
    if p.event deps .merkle ∈ seen then some p.merkleRoot else none,
    if p.event deps .state ∈ seen then some p.stateRoot else none)

def put (p : BlockParts) (c : Component) (a : PendingBlockAssembly) : PendingBlockAssembly :=
  match c with
  | .block => {a with blockHeight := p.block.header.height, validatedBlock := some p.block}
  | .merkle => {a with merkleRoot := some p.merkleRoot}
  | .state => {a with stateRoot := some p.stateRoot}

variable {deps}

theorem completeIff {p : BlockParts} {seen} :
    p.Complete deps seen ↔ p.arrived deps seen = (some p.block,some p.merkleRoot,some p.stateRoot) := by
  simp [Complete,events,arrived]

theorem arrivedComplete {p : BlockParts} {seen} {a : PendingBlockAssembly}
    (shows' : (a.validatedBlock,a.merkleRoot,a.stateRoot) = p.arrived deps seen) :
    a.isComplete = true ↔ p.Complete deps seen := by
  simp only [arrived,Prod.mk.injEq] at shows'
  obtain ⟨block,merkle,state⟩ := shows'
  simp [PendingBlockAssembly.isComplete,block,merkle,state,Complete,events,and_assoc]

theorem eventSame {p : BlockParts} {c c'} : p.event deps c = p.event deps c' ↔ c = c' := by
  cases c <;> cases c' <;> simp [event]

theorem putArrived {p : BlockParts} {seen} (c) {a}
    (shows' : (a.validatedBlock,a.merkleRoot,a.stateRoot) = p.arrived deps seen) :
    ((p.put c a).validatedBlock,(p.put c a).merkleRoot,(p.put c a).stateRoot) =
      p.arrived deps (seen ++ [p.event deps c]) := by
  simp only [arrived,Prod.mk.injEq] at shows' ⊢
  obtain ⟨block,merkle,state⟩ := shows'
  cases c <;> simp [put,eventSame,block,merkle,state]

end BlockParts
namespace BlockStorageService
variable {deps : BlockStorageDependencies} {around : Surroundings} {s : BlockStorageService}

def withPending (s : BlockStorageService) (pending : KeyedMap Hash PendingBlockAssembly) : BlockStorageService :=
  {s with assemblyBuffer := {s.assemblyBuffer with pending := pending}}

@[simp] theorem pendingWithPending (s : BlockStorageService) (pending) :
    (s.withPending pending).assemblyBuffer.pending = pending := rfl

theorem andThenState {α} (first : StorageResult α × BlockStorageService) :
    (andThen first fun _ s => ((.ok () : StorageResult Unit),s)).2 = first.2 := by
  obtain ⟨result,next⟩ := first
  cases result <;> rfl

theorem tryIncomplete {h a} (found : s.assemblyBuffer.pending.lookup h = some a)
    (incomplete : a.isComplete = false) : (s.tryCompleteAssembly deps around h).2 = s := by
  simp [tryCompleteAssembly,takeComplete,BlockAssemblyBuffer.isComplete,found,incomplete]

theorem tryComplete {h merkleRoot stateRoot block a} (found : s.assemblyBuffer.pending.lookup h = some a)
    (parts : (a.validatedBlock,a.merkleRoot,a.stateRoot) = (some block,some merkleRoot,some stateRoot)) :
    (s.tryCompleteAssembly deps around h).2 =
      ((s.withPending (s.assemblyBuffer.pending.erase h)).writeBlock deps around block merkleRoot stateRoot).2 := by
  simp only [Prod.mk.injEq] at parts
  obtain ⟨hasBlock,hasMerkle,hasState⟩ := parts
  have complete : a.isComplete = true := by simp [PendingBlockAssembly.isComplete,hasBlock,hasMerkle,hasState]
  simp only [tryCompleteAssembly,takeComplete,BlockAssemblyBuffer.isComplete,found,Option.map_some,
    Option.getD_some,complete,if_true,PendingBlockAssembly.takeComponents,hasBlock,hasMerkle,hasState]
  generalize writing : writeBlock deps around _ block merkleRoot stateRoot = out
  obtain ⟨result,next⟩ := out
  rw [withPending,writing]
  cases result <;> rfl

theorem receiveEvent {p : BlockParts} {c d} (own : d.event = p.event deps c)
    (room : (s.assemblyBuffer.enter (p.hash deps) d.now (p.put c)).pending.size ≤
      s.assemblyBuffer.config.maxPendingAssemblies) : (s.receive deps d).2 =
      ((s.withPending (s.assemblyBuffer.enter (p.hash deps) d.now (p.put c)).pending).tryCompleteAssembly deps
        d.around (p.hash deps)).2 := by
  unfold receive
  rw [own]
  cases c with
  | block =>
    simp only [BlockParts.event,onBlockValidated,ne_eq,not_true_eq_false,if_false,andThenState]
    have untouched : (s.assemblyBuffer.addBlockValidated (p.hash deps) p.block d.now).enforceMaxPending d.around.visit =
        ([],s.assemblyBuffer.addBlockValidated (p.hash deps) p.block d.now) := if_pos room
    rw [show computeBlockHash deps p.block = p.hash deps from rfl,untouched]
    rfl
  | merkle =>
    simp only [BlockParts.event,onMerkleRootComputed,ne_eq,not_true_eq_false,if_false,andThenState]
    rfl
  | state =>
    simp only [BlockParts.event,onStateRootComputed,ne_eq,not_true_eq_false,if_false,andThenState]
    rfl

end BlockStorageService
namespace BlockParts
variable {deps : BlockStorageDependencies}

theorem memEvents {p : BlockParts} {e} : e ∈ p.events deps ↔ ∃ c, e = p.event deps c := by
  constructor
  · intro mem
    simp only [events,mem_cons,not_mem_nil,or_false] at mem
    rcases mem with own | own | own <;> exact ⟨_,own⟩
  · rintro ⟨c,rfl⟩
    cases c <;> simp [events]

theorem eventHash {p q : BlockParts} {c c'} (same : p.event deps c = q.event deps c') : p.hash deps = q.hash deps := by
  cases c <;> cases c' <;> simp_all [event,hash]

theorem otherEvent {p q : BlockParts} {seen c} (other : q.hash deps ≠ p.hash deps) :
    (q.Complete deps (seen ++ [p.event deps c]) ↔ q.Complete deps seen) ∧
      q.arrived deps (seen ++ [p.event deps c]) = q.arrived deps seen := by
  have apart : ∀ c', q.event deps c' ≠ p.event deps c := fun _ same => other (eventHash same)
  constructor
  · simp [Complete,events,apart]
  · simp [arrived,apart]

end BlockParts

structure Received (deps : BlockStorageDependencies) (p : BlockParts) (seen : List Event) (clock : Timestamp)
    (s next : BlockStorageService) : Prop where
  config : next.config = s.config
  bufferConfig : next.assemblyBuffer.config = s.assemblyBuffer.config
  others : ∀ h, h ≠ p.hash deps → next.assemblyBuffer.pending.lookup h = s.assemblyBuffer.pending.lookup h
  own : next.held (p.hash deps) = if p.Complete deps seen then (none,none,none) else p.arrived deps seen
  written : p.Complete deps seen → s.Admits deps (storedBlock deps p.block p.merkleRoot p.stateRoot clock) →
    ∃ data, deps.serializer.deserialize data = .ok (storedBlock deps p.block p.merkleRoot p.stateRoot clock) ∧
      ∀ h, next.kvStore.lookup (blockKey h) =
        if h = p.hash deps then some data else s.kvStore.lookup (blockKey h)
  kept : ¬ (p.Complete deps seen ∧ s.Admits deps (storedBlock deps p.block p.merkleRoot p.stateRoot clock)) →
    ∀ h, next.kvStore.lookup (blockKey h) = s.kvStore.lookup (blockKey h)

section
variable {deps : BlockStorageDependencies} {s : BlockStorageService}

theorem heldNone {h} (absent : s.assemblyBuffer.pending.lookup h = none) : s.held h = (none,none,none) := by
  rw [BlockStorageService.held,absent]

theorem completed {p seen around pending} (lawful : deps.serializer.RoundTrips)
    (complete : p.Complete deps seen) (disk : checkDiskSpace s.config around = .ok ())
    (fresh : s.blockExists (p.hash deps) = false) (absent : pending.lookup (p.hash deps) = none)
    (others : ∀ h, h ≠ p.hash deps → pending.lookup h = s.assemblyBuffer.pending.lookup h) :
    Received deps p seen around.clock s
      ((s.withPending pending).writeBlock deps around p.block p.merkleRoot p.stateRoot).2 := by
  obtain ⟨config,buffer⟩ :=
    (s.withPending pending).writeBlockKept deps around p.block p.merkleRoot p.stateRoot
  refine ⟨config,by rw [buffer]; rfl,?_,?_,?_,?_⟩
  · intro h other
    rw [buffer]
    exact others h other
  · rw [if_pos complete]
    apply heldNone
    rw [buffer]
    exact absent
  · intro _ admits
    obtain ⟨data,back,result⟩ := (s.withPending pending).writeAdmitted lawful disk fresh admits
    refine ⟨data,back,?_⟩
    intro h
    rw [result,commitBlockLookup]
    rfl
  · intro refused h
    rw [(s.withPending pending).writeRefused (fun admits => refused ⟨complete,admits⟩)]
    rfl

theorem received {p c d seen} (lawful : deps.serializer.RoundTrips) (own : d.event = p.event deps c)
    (room : (s.assemblyBuffer.enter (p.hash deps) d.now (p.put c)).pending.size ≤
      s.assemblyBuffer.config.maxPendingAssemblies)
    (disk : checkDiskSpace s.config d.around = .ok ()) (fresh : s.blockExists (p.hash deps) = false)
    (held : s.held (p.hash deps) = p.arrived deps seen) :
    Received deps p (seen ++ [d.event]) d.around.clock s (s.receive deps d).2 := by
  rw [own,receiveEvent own room,enter]
  have parts : ∀ a, a = (s.assemblyBuffer.pending.lookup (p.hash deps)).getD (.new (p.hash deps) d.now) →
      (a.validatedBlock,a.merkleRoot,a.stateRoot) = p.arrived deps seen := by
    rintro a rfl
    rw [← held,BlockStorageService.held]
    cases s.assemblyBuffer.pending.lookup (p.hash deps) <;> rfl
  have entered := BlockParts.putArrived c (parts _ rfl)
  generalize p.put c ((s.assemblyBuffer.pending.lookup (p.hash deps)).getD (.new (p.hash deps) d.now)) = a at entered ⊢
  have found := lookupInsert s.assemblyBuffer.pending (p.hash deps) a
  have here := (found (p.hash deps)).trans (if_pos rfl)
  by_cases complete : p.Complete deps (seen ++ [p.event deps c])
  · rw [tryComplete here (entered.trans (BlockParts.completeIff.mp complete))]
    simp only [BlockStorageService.pendingWithPending]
    apply completed lawful complete disk fresh
    · exact (lookupErase _ _ _).trans (if_pos rfl)
    · intro h other
      rw [lookupErase,if_neg other,found,if_neg other]
  · have incomplete : a.isComplete = false :=
      Bool.eq_false_iff.mpr (fun all => complete ((BlockParts.arrivedComplete entered).mp all))
    rw [tryIncomplete here incomplete]
    refine ⟨rfl,rfl,?_,?_,?_,?_⟩
    · intro h other
      exact (found h).trans (if_neg other)
    · rw [if_neg complete,← entered,BlockStorageService.held,BlockStorageService.pendingWithPending,here]
    · intro all
      exact absurd all complete
    · exact fun _ _ => rfl

end

theorem readStored {deps} {s : BlockStorageService} {p data clock}
    (found : s.kvStore.lookup (blockKey (p.hash deps)) = some data)
    (back : deps.serializer.deserialize data = .ok (storedBlock deps p.block p.merkleRoot p.stateRoot clock)) :
    s.Stores deps p := by
  refine ⟨storedBlock deps p.block p.merkleRoot p.stateRoot clock,?_,rfl,rfl,rfl⟩
  simp [readBlock,found,back,verifyBlockChecksum,storedBlock,Except.map]

structure Awaits (deps : BlockStorageDependencies) (start : BlockStorageService) (chain : List BlockParts) : Prop where
  distinct : (chain.map (BlockParts.hash deps)).Nodup
  idle : start.assemblyBuffer.pending = ∅
  unknown : ∀ p ∈ chain, start.blockExists (p.hash deps) = false
  room : chain.length ≤ start.assemblyBuffer.config.maxPendingAssemblies

structure Tracks (deps : BlockStorageDependencies) (start : BlockStorageService) (chain : List BlockParts)
    (seen : List Event) (s : BlockStorageService) : Prop where
  config : s.config = start.config
  bufferConfig : s.assemblyBuffer.config = start.assemblyBuffer.config
  held : ∀ p ∈ chain, s.held (p.hash deps) =
    if p.Complete deps seen then (none,none,none) else p.arrived deps seen
  keys : ∀ h a, s.assemblyBuffer.pending.lookup h = some a → h ∈ chain.map (BlockParts.hash deps)
  added : ∀ h, s.blockExists h = true →
    start.blockExists h = true ∨ ∃ p ∈ chain, p.hash deps = h ∧ p.Complete deps seen
  kept : ∀ h, start.blockExists h = true → s.blockExists h = true

def AllStored (deps : BlockStorageDependencies) (chain : List BlockParts) (seen : List Event)
    (s : BlockStorageService) : Prop :=
  ∀ p ∈ chain, p.Complete deps seen → s.Stores deps p

def Timely (deps : BlockStorageDependencies) (start : BlockStorageService) (chain : List BlockParts)
    (seen : List Event) (d : Delivery) : Prop :=
  ∀ p ∈ chain, d.event ∈ p.events deps → p.Complete deps (seen ++ [d.event]) →
    (p.block.header.height = 0 ∨ start.blockExists p.block.header.parentHash = true ∨
      ∃ q ∈ chain, q.hash deps = p.block.header.parentHash ∧ q.Complete deps seen) ∧
    deps.serializer.estimateSize (storedBlock deps p.block p.merkleRoot p.stateRoot d.around.clock) ≤
      start.config.maxBlockSize
instance (deps start chain seen d) : Decidable (Timely deps start chain seen d) := by
  unfold Timely; infer_instance

section
variable {deps : BlockStorageDependencies} {start s : BlockStorageService} {chain : List BlockParts}
variable {seen : List Event} {p : BlockParts} {c : Component} {d : Delivery}

theorem completeGrows {q : BlockParts} (complete : q.Complete deps seen) (more) : q.Complete deps (seen ++ more) :=
  fun e mem => mem_append_left _ (complete e mem)

theorem Awaits.same (awaits : Awaits deps start chain) {q} (mem : p ∈ chain) (mem' : q ∈ chain)
    (same : q.hash deps = p.hash deps) : q = p :=
  inj_on_of_nodup_map awaits.distinct mem' mem same

theorem Awaits.tracks (awaits : Awaits deps start chain) : Tracks deps start chain [] start := by
  refine ⟨rfl,rfl,?_,?_,fun h known => .inl known,fun h known => known⟩
  · intro p mem
    have incomplete : ¬ p.Complete deps [] := fun complete => nomatch complete _ (BlockParts.memEvents.mpr ⟨.block,rfl⟩)
    rw [heldNone (by rw [awaits.idle]; rfl)]
    rfl
  · intro h a found
    rw [awaits.idle] at found
    exact nomatch found

theorem Tracks.fresh (awaits : Awaits deps start chain) (tracks : Tracks deps start chain seen s) (mem : p ∈ chain)
    (open' : ¬ p.Complete deps seen) : s.blockExists (p.hash deps) = false := by
  rw [Bool.eq_false_iff]
  intro known
  rcases tracks.added _ known with before | ⟨q,mem',same,complete⟩
  · rw [awaits.unknown p mem] at before
    contradiction
  · exact open' (awaits.same mem mem' same ▸ complete)

theorem Tracks.room (awaits : Awaits deps start chain) (tracks : Tracks deps start chain seen s) (mem : p ∈ chain)
    (now) (component) :
    (s.assemblyBuffer.enter (p.hash deps) now component).pending.size ≤ s.assemblyBuffer.config.maxPendingAssemblies := by
  rw [tracks.bufferConfig]
  have inside : (s.assemblyBuffer.enter (p.hash deps) now component).pending.keys ⊆
      (chain.map (BlockParts.hash deps)).toFinset := by
    intro h present
    rw [enter,keysInsert,Finset.mem_insert] at present
    rw [mem_toFinset]
    rcases present with own | other
    · exact own ▸ mem_map_of_mem mem
    · obtain ⟨a,found⟩ := memKeys.mp other
      exact tracks.keys h a found
  calc _ ≤ (chain.map (BlockParts.hash deps)).toFinset.card := Finset.card_le_card inside
    _ ≤ (chain.map (BlockParts.hash deps)).length := toFinset_card_le _
    _ = chain.length := length_map _
    _ ≤ _ := awaits.room

theorem Received.stores {clock next} (got : Received deps p seen clock s next)
    {q} (other : q.hash deps ≠ p.hash deps) : next.Stores deps q ↔ s.Stores deps q := by
  have same : next.kvStore.lookup (blockKey (q.hash deps)) =
      s.kvStore.lookup (blockKey (q.hash deps)) := by
    by_cases writes : p.Complete deps seen ∧
        s.Admits deps (storedBlock deps p.block p.merkleRoot p.stateRoot clock)
    · obtain ⟨data,_,lookups⟩ := got.written writes.1 writes.2
      rw [lookups,if_neg other]
    · exact got.kept writes _
  unfold BlockStorageService.Stores
  rw [readSame deps same]

theorem Received.exists {clock next} (got : Received deps p seen clock s next)
    (h) : next.blockExists h = true ↔ s.blockExists h = true ∨ h = p.hash deps ∧ p.Complete deps seen ∧
      s.Admits deps (storedBlock deps p.block p.merkleRoot p.stateRoot clock) := by
  unfold blockExists
  by_cases writes : p.Complete deps seen ∧
      s.Admits deps (storedBlock deps p.block p.merkleRoot p.stateRoot clock)
  · obtain ⟨data,_,lookups⟩ := got.written writes.1 writes.2
    rw [lookups]
    split
    · rename_i own
      exact iff_of_true rfl (.inr ⟨own,writes⟩)
    · rename_i other
      simp [other]
  · rw [got.kept writes]
    exact (or_iff_left (fun impossible => writes impossible.2)).symm

theorem Tracks.step (awaits : Awaits deps start chain) (tracks : Tracks deps start chain seen s) (mem : p ∈ chain)
    (own : d.event = p.event deps c) {next} (got : Received deps p (seen ++ [d.event]) d.around.clock s next) :
    Tracks deps start chain (seen ++ [d.event]) next := by
  refine ⟨got.config.trans tracks.config,got.bufferConfig.trans tracks.bufferConfig,?_,?_,?_,?_⟩
  · intro q mem'
    by_cases same : q.hash deps = p.hash deps
    · rw [awaits.same mem mem' same]
      exact got.own
    · obtain ⟨complete,arrived⟩ := @BlockParts.otherEvent deps p q seen c same
      have before := tracks.held q mem'
      rw [BlockStorageService.held] at before ⊢
      rw [got.others _ same,before,own,arrived]
      exact if_congr complete.symm rfl rfl
  · intro h a found
    by_cases same : h = p.hash deps
    · exact same ▸ mem_map_of_mem mem
    · rw [got.others h same] at found
      exact tracks.keys h a found
  · intro h known
    rcases (got.exists h).mp known with before | ⟨same,complete,_⟩
    · rcases tracks.added h before with old | ⟨q,mem',same,complete⟩
      · exact .inl old
      · exact .inr ⟨q,mem',same,completeGrows complete _⟩
    · exact .inr ⟨p,mem,same.symm,complete⟩
  · intro h known
    exact (got.exists h).mpr (.inl (tracks.kept h known))

theorem Tracks.storedIff (awaits : Awaits deps start chain) (tracks : Tracks deps start chain seen s) (mem : p ∈ chain)
    (own : d.event = p.event deps c) (open' : ¬ p.Complete deps seen) {next}
    (got : Received deps p (seen ++ [d.event]) d.around.clock s next) :
    AllStored deps chain (seen ++ [d.event]) next ↔ AllStored deps chain seen s ∧ Timely deps start chain seen d := by
  constructor
  · intro all
    refine ⟨?_,?_⟩
    · intro q mem' complete
      -- A block complete before is not the one delivered for, which still was open.
      have other : q.hash deps ≠ p.hash deps := fun same => open' (awaits.same mem mem' same ▸ complete)
      exact (got.stores other).mp (all q mem' (completeGrows complete _))
    · intro q mem' event complete
      obtain ⟨c',own'⟩ := BlockParts.memEvents.mp event
      have same := awaits.same mem mem' (BlockParts.eventHash (own'.symm.trans own))
      subst same
      have known := storesExists (all q mem complete)
      rcases (got.exists _).mp known with before | ⟨_,_,parent,fits⟩
      · rw [tracks.fresh awaits mem open'] at before
        contradiction
      · exact ⟨parent.imp_right (tracks.added _),tracks.config ▸ fits⟩
  · rintro ⟨all,timely⟩ q mem' complete
    by_cases same : q.hash deps = p.hash deps
    · have same := awaits.same mem mem' same
      subst same
      obtain ⟨parent,fits⟩ := timely q mem (own ▸ BlockParts.memEvents.mpr ⟨c,rfl⟩) complete
      have admits : s.Admits deps (storedBlock deps q.block q.merkleRoot q.stateRoot d.around.clock) := by
        refine ⟨parent.imp_right ?_,tracks.config ▸ fits⟩
        rintro (old | ⟨r,mem',same,before⟩)
        · exact tracks.kept _ old
        · exact same ▸ storesExists (all r mem' before)
      obtain ⟨data,back,lookups⟩ := got.written complete admits
      exact readStored ((lookups _).trans (if_pos rfl)) back
    · rw [own] at complete
      exact (got.stores same).mpr (all q mem' ((BlockParts.otherEvent same).1.mp complete))

theorem assemblyRun (lawful : deps.serializer.RoundTrips) (awaits : Awaits deps start chain)
    {deliveries} (tracks : Tracks deps start chain seen s)
    (disk : ∀ d ∈ deliveries, checkDiskSpace start.config d.around = .ok ())
    (known : ∀ d ∈ deliveries, ∃ p ∈ chain, d.event ∈ p.events deps)
    (once : (seen ++ deliveries.map Delivery.event).Nodup) :
    AllStored deps chain (seen ++ deliveries.map Delivery.event) (s.receiveAll deps deliveries) ↔
      AllStored deps chain seen s ∧
        StepRun.Along (fun seen d => seen ++ [d.event]) (Timely deps start chain) seen deliveries := by
  induction deliveries generalizing seen s with
  | nil => simp [StepRun.Along,receiveAll]
  | cons d rest ih =>
    obtain ⟨p,mem,event⟩ := known d mem_cons_self
    obtain ⟨c,own⟩ := BlockParts.memEvents.mp event
    have new : d.event ∉ seen := by
      rw [nodup_append] at once
      exact fun old => once.2.2 _ old _ mem_cons_self rfl
    have open' : ¬ p.Complete deps seen := fun complete => new (complete _ event)
    have got := received lawful own (tracks.room awaits mem _ _)
      (tracks.config ▸ disk d mem_cons_self) (tracks.fresh awaits mem open')
      ((tracks.held p mem).trans (if_neg open'))
    have shift : seen ++ (d::rest).map Delivery.event = (seen ++ [d.event]) ++ rest.map Delivery.event := by simp
    rw [shift] at once ⊢
    have first : s.receiveAll deps (d::rest) = (s.receive deps d).2.receiveAll deps rest := rfl
    rw [first,ih (tracks.step awaits mem own got) (fun d' mem' => disk d' (mem_cons_of_mem _ mem'))
      (fun d' mem' => known d' (mem_cons_of_mem _ mem')) once,tracks.storedIff awaits mem own open' got]
    exact and_assoc

theorem eventsOnce (awaits : Awaits deps start chain) : (chain.flatMap (BlockParts.events deps)).Nodup := by
  rw [nodup_flatMap]
  refine ⟨?_,?_⟩
  · intro p mem
    simp [BlockParts.events,BlockParts.eventSame]
  · refine (pairwise_map.mp awaits.distinct).imp ?_
    intro p q other e mem mem'
    obtain ⟨c,own⟩ := BlockParts.memEvents.mp mem
    obtain ⟨c',own'⟩ := BlockParts.memEvents.mp mem'
    exact other (BlockParts.eventHash (own.symm.trans own'))

theorem assembledBlocksStoredIff (lawful : deps.serializer.RoundTrips) (awaits : Awaits deps start chain)
    {deliveries : List Delivery} (disk : ∀ d ∈ deliveries, checkDiskSpace start.config d.around = .ok ())
    (interleaved : (deliveries.map Delivery.event).Perm (chain.flatMap (BlockParts.events deps))) :
    (∀ p ∈ chain, (start.receiveAll deps deliveries).Stores deps p) ↔
      StepRun.Along (fun seen d => seen ++ [d.event]) (Timely deps start chain) [] deliveries := by
  have known : ∀ d ∈ deliveries, ∃ p ∈ chain, d.event ∈ p.events deps := by
    intro d mem
    exact mem_flatMap.mp (interleaved.mem_iff.mp (mem_map_of_mem mem))
  have once : ([] ++ deliveries.map Delivery.event).Nodup := interleaved.nodup_iff.mpr (eventsOnce awaits)
  have exact' := assemblyRun lawful awaits awaits.tracks disk known once
  have nothing : AllStored deps chain [] start := by
    intro p mem complete
    exact nomatch complete _ (BlockParts.memEvents.mpr ⟨.block,rfl⟩)
  have everything : ∀ p ∈ chain, p.Complete deps ([] ++ deliveries.map Delivery.event) := by
    intro p mem e event
    exact interleaved.mem_iff.mpr (mem_flatMap.mpr ⟨p,mem,event⟩)
  rw [← and_iff_right nothing (b := StepRun.Along _ _ _ _),← exact']
  exact ⟨fun all p mem _ => all p mem,fun all p mem => all p mem (everything p mem)⟩

end

def BlockStorageService.fresh (config : StorageConfig) : BlockStorageService :=
  ⟨∅,config,.new config.assemblyConfig,.new,{},∅⟩

instance encodableWord (n : Nat) : Encodable (BitVec n) :=
  ofEquiv (Fin (2^n)) ⟨BitVec.toFin,BitVec.ofFin,fun _ => rfl,fun _ => rfl⟩

instance encodableByte : Encodable UInt8 :=
  ofEquiv (BitVec 8) ⟨UInt8.toBitVec,UInt8.ofBitVec,fun _ => rfl,fun _ => rfl⟩

deriving instance Encodable for BlockHeader
deriving instance Encodable for Transaction
deriving instance Encodable for ValidatedTransaction
deriving instance Encodable for Attestation
deriving instance Encodable for ConsensusProof
deriving instance Encodable for ValidatedBlock
deriving instance Encodable for StoredBlock

def unarySerializer : BlockSerializer where
  serialize stored := .ok (List.replicate (Encodable.encode stored) 0)
  deserialize data :=
    match decode data.length with
    | none => .error "no block"
    | some stored => .ok stored
  estimateSize stored := 1024 + stored.block.transactions.length * 256

theorem unaryRoundTrips : unarySerializer.RoundTrips := by
  intro stored
  refine ⟨_,rfl,?_⟩
  simp [unarySerializer]

def standIns : BlockStorageDependencies :=
    ⟨numberHash,fun bytes => BitVec.ofNat 32 bytes.length,unarySerializer,fun _ => none⟩

def calm : Surroundings := ⟨.ok 50,1000,.upwards⟩

def emptyBlock (height : U64) (parentHash : Hash) : ValidatedBlock :=
  ⟨⟨1,height,parentHash,0,0,height + 1,0,0,0⟩,[],⟨0,[],0⟩⟩

def genesis : BlockParts := ⟨emptyBlock 0 0,3,4⟩
def child : BlockParts := ⟨emptyBlock 1 (genesis.hash standIns),5,6⟩

def delivered (events : List Event) : List Delivery := events.map (fun e => ⟨e,1000,calm⟩)

theorem deliveredEvents (events) : (delivered events).map Delivery.event = events := by
  simp [delivered,Function.comp_def]

theorem twoAwaited : Awaits standIns (.fresh {}) [genesis,child] :=
  ⟨by decide +kernel,rfl,fun _ _ => rfl,by decide +kernel⟩

theorem deliveredCalmly {events} :
    ∀ d ∈ delivered events, checkDiskSpace (BlockStorageService.fresh {}).config d.around = .ok () := by
  intro d mem
  obtain ⟨e,_,rfl⟩ := mem_map.mp mem
  rfl

def rootsFirst : List Event :=
  [child.event standIns .state,child.event standIns .merkle,genesis.event standIns .state,
    genesis.event standIns .merkle,genesis.event standIns .block,child.event standIns .block]

theorem rootsFirstStored : let after := (fresh {}).receiveAll standIns (delivered rootsFirst)
    after.Stores standIns genesis ∧ after.Stores standIns child := by
  have interleaved : ((delivered rootsFirst).map Delivery.event).Perm
      ([genesis,child].flatMap (BlockParts.events standIns)) := by
    rw [deliveredEvents]
    decide +kernel
  have stored := (assembledBlocksStoredIff unaryRoundTrips twoAwaited deliveredCalmly interleaved).mpr (by decide +kernel)
  exact ⟨stored genesis (by simp),stored child (by simp)⟩

def childFirst : List Event := child.events standIns ++ genesis.events standIns

theorem earlyChildLost : standIns.serializer.RoundTrips ∧ Awaits standIns (.fresh {}) [genesis,child] ∧
    child.block.header.parentHash = genesis.hash standIns ∧
    childFirst.Perm ([genesis,child].flatMap (BlockParts.events standIns)) ∧
    let after := (fresh {}).receiveAll standIns (delivered childFirst)
    after.blockExists (genesis.hash standIns) = true ∧
    after.readBlock standIns (child.hash standIns) = .error (.blockNotFound (child.hash standIns)) ∧
    after.assemblyBuffer.pending = ∅ := by
  have missing : ((fresh {}).receiveAll standIns (delivered childFirst)).kvStore.lookup
      (blockKey (child.hash standIns)) = none := by decide +kernel
  refine ⟨unaryRoundTrips,twoAwaited,rfl,by decide +kernel,by decide +kernel,?_,by decide +kernel⟩
  rw [readBlock,missing]

end QuantumChain.Storage
