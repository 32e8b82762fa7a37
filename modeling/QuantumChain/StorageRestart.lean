import QuantumChain.StorageRuns

/-! A service opened on the store of another.
The store is a map that loses nothing; crashes are not modelled. -/
namespace QuantumChain.Storage
open List BlockIndex StorageMetadata
open StepRun (run runInvariant)

def KeyValueStore.prefixScan (visit : Visit Bytes) (store : KeyValueStore) (start : Bytes) : List (Bytes × Bytes) :=
  (visit.entries store).filter (fun entry => start.isPrefixOf entry.1)

structure LoadedIndex where
  index : BlockIndex
  loadedCount : Nat
  maxHeight : U64

def loadHeight (loaded : LoadedIndex) (entry : Bytes × Bytes) : LoadedIndex :=
  if entry.1.length ≠ 10 then loaded
  else if entry.2.length ≠ 32 then loaded
  else
    let height : U64 := BitVec.ofNat 64 (beNumber (entry.1.drop 2))
    ⟨loaded.index.insert height (BitVec.ofNat 256 (beNumber entry.2)),loaded.loadedCount + 1,max loaded.maxHeight height⟩

-- The first value that does not decode ends the loop; what was loaded before it stays.
def loadLocations (deserializeLocation : Bytes → Option TransactionLocation) (txIndex : KeyedMap Hash TransactionLocation) :
    List (Bytes × Bytes) → KeyedMap Hash TransactionLocation
  | [] => txIndex
  | (key,value)::rest =>
    if key.length ≠ 34 then loadLocations deserializeLocation txIndex rest
    else
      match deserializeLocation value with
      | none => txIndex
      | some location =>
        loadLocations deserializeLocation (txIndex.insert (BitVec.ofNat 256 (beNumber (key.drop 2))) location) rest

namespace BlockStorageService

def loadIndexFromStorage (visit : Visit Bytes) (s : BlockStorageService) : BlockStorageService :=
  let entries := s.kvStore.prefixScan visit KeyPrefix.blockByHeight.asBytes
  if entries = [] then s
  else
    let loaded := entries.foldl loadHeight ⟨s.blockIndex,0,0⟩
    if 0 < loaded.loadedCount then
      {s with
        blockIndex := loaded.index
        metadata := s.metadata.onBlockStored loaded.maxHeight ((loaded.index.get loaded.maxHeight).getD 0)}
    else {s with blockIndex := loaded.index}

def loadTransactionIndexFromStorage (visit : Visit Bytes) (deserializeLocation : Bytes → Option TransactionLocation)
    (s : BlockStorageService) : BlockStorageService :=
  if s.config.persistTransactionIndex = false then s
  else
    let entries := s.kvStore.prefixScan visit KeyPrefix.transaction.asBytes
    {s with txIndex := loadLocations deserializeLocation s.txIndex entries}

def new (visit : Visit Bytes) (deserializeLocation : Bytes → Option TransactionLocation) (config : StorageConfig)
    (store : KeyValueStore) : BlockStorageService :=
  let service : BlockStorageService := ⟨store,config,.new config.assemblyConfig,.new,{},∅⟩
  (service.loadIndexFromStorage visit).loadTransactionIndexFromStorage visit deserializeLocation

def verdicts (deps : BlockStorageDependencies) (s : BlockStorageService) : List StorageOp → List (StorageResult Unit)
  | [] => []
  | .write around block merkleRoot stateRoot::rest =>
    (s.writeBlock deps around block merkleRoot stateRoot).2.verdicts deps rest
  | .finalize height::rest => (s.markFinalized height).1 :: (s.markFinalized height).2.verdicts deps rest

end BlockStorageService

def heightEntry (height : U64) (hash : Hash) : Bytes × Bytes := (KeyPrefix.heightKey height,wordBytes hash)

theorem loadHeightEntry (loaded) (height) (hash) : loadHeight loaded (heightEntry height hash) =
      ⟨loaded.index.insert height hash,loaded.loadedCount + 1,max loaded.maxHeight height⟩ := by
  have key : (heightEntry height hash).1.length = 10 := by
    simp [heightEntry,KeyPrefix.heightKey,KeyPrefix.key,KeyPrefix.asBytes,wordBytesLength]
  have value : (heightEntry height hash).2.length = 32 := wordBytesLength hash
  have parsed : (heightEntry height hash).1.drop 2 = wordBytes height := rfl
  rw [loadHeight,if_neg (not_not.mpr key),if_neg (not_not.mpr value),parsed]
  simp [heightEntry,beNumberWord]

theorem heightEntryInj {height other hash hash'} (same : heightEntry height hash = heightEntry other hash') :
    height = other :=
  wordBytesInj (by decide) (KeyPrefix.keyInj (Prod.mk.inj same).1).2

def Lists (entries : List (Bytes × Bytes)) (index : BlockIndex) : Prop :=
  ∀ entry ∈ entries, ∃ height hash, entry = heightEntry height hash ∧ index.get height = some hash

section
variable {entries : List (Bytes × Bytes)} {index : BlockIndex}

theorem loadedGet (lists : Lists entries index) (loaded) (height) : (entries.foldl loadHeight loaded).index.get height =
      if ∃ hash, heightEntry height hash ∈ entries then index.get height else loaded.index.get height := by
  induction entries generalizing loaded with
  | nil => simp
  | cons entry rest ih =>
    obtain ⟨first,hash,rfl,found⟩ := lists entry mem_cons_self
    rw [foldl_cons,loadHeightEntry,ih (fun e mem => lists e (mem_cons_of_mem _ mem))]
    by_cases again : ∃ hash, heightEntry height hash ∈ rest
    · obtain ⟨h,mem⟩ := again
      rw [if_pos ⟨h,mem⟩,if_pos ⟨h,mem_cons_of_mem _ mem⟩]
    · rw [if_neg again,getInsert]
      by_cases own : height = first
      · subst own
        rw [if_pos rfl,if_pos ⟨hash,mem_cons_self⟩,found]
      · have absent : ¬ ∃ h, heightEntry height h ∈ heightEntry first hash::rest := by
          rintro ⟨h,mem⟩
          rcases mem_cons.mp mem with here | there
          · exact own (heightEntryInj here)
          · exact again ⟨h,there⟩
        rw [if_neg own,if_neg absent]

theorem loadedCount (lists : Lists entries index) (loaded) :
    (entries.foldl loadHeight loaded).loadedCount = loaded.loadedCount + entries.length := by
  induction entries generalizing loaded with
  | nil => rfl
  | cons entry rest ih =>
    obtain ⟨first,hash,rfl,_⟩ := lists entry mem_cons_self
    rw [foldl_cons,loadHeightEntry,ih (fun e mem => lists e (mem_cons_of_mem _ mem)),length_cons]
    exact Nat.add_right_comm loaded.loadedCount 1 rest.length

theorem loadedMax (lists : Lists entries index) (loaded) :
    loaded.maxHeight ≤ (entries.foldl loadHeight loaded).maxHeight ∧
      (∀ height hash, heightEntry height hash ∈ entries → height ≤ (entries.foldl loadHeight loaded).maxHeight) ∧
      ((entries.foldl loadHeight loaded).maxHeight = loaded.maxHeight ∨
        ∃ hash, heightEntry (entries.foldl loadHeight loaded).maxHeight hash ∈ entries) := by
  induction entries generalizing loaded with
  | nil => exact ⟨le_refl _,fun _ _ mem => absurd mem not_mem_nil,.inl rfl⟩
  | cons entry rest ih =>
    obtain ⟨first,hash,rfl,_⟩ := lists entry mem_cons_self
    rw [foldl_cons,loadHeightEntry]
    obtain ⟨start,above,attained⟩ := ih (fun e mem => lists e (mem_cons_of_mem _ mem))
      ⟨loaded.index.insert first hash,loaded.loadedCount + 1,max loaded.maxHeight first⟩
    refine ⟨(le_max_left _ _).trans start,fun height h mem => ?_,?_⟩
    · rcases mem_cons.mp mem with here | there
      · rw [heightEntryInj here]
        exact (le_max_right _ _).trans start
      · exact above height h there
    · rcases attained with own | ⟨h,mem⟩
      · rcases max_choice loaded.maxHeight first with old | new
        · exact .inl (own.trans old)
        · exact .inr ⟨hash,by rw [own.trans new]; exact mem_cons_self⟩
      · exact .inr ⟨h,mem_cons_of_mem _ mem⟩

end

def Mirrors (store : KeyValueStore) (index : BlockIndex) : Prop :=
  ∀ suffix value, store.lookup (KeyPrefix.blockByHeight.key suffix) = some value ↔
    ∃ height hash, suffix = wordBytes height ∧ value = wordBytes hash ∧ index.get height = some hash

section
variable {store : KeyValueStore} {index : BlockIndex} {visit : Visit Bytes}

theorem scanLists (mirrors : Mirrors store index) :
    Lists (store.prefixScan visit KeyPrefix.blockByHeight.asBytes) index := by
  rintro ⟨key,value⟩ mem
  obtain ⟨inside,start⟩ := mem_filter.mp mem
  obtain ⟨suffix,rfl⟩ := isPrefixOf_iff_prefix.mp start
  obtain ⟨height,hash,rfl,rfl,found⟩ := (mirrors suffix value).mp (Visit.memEntries.mp inside)
  exact ⟨height,hash,rfl,found⟩

theorem memScan (mirrors : Mirrors store index) {height hash} (found : index.get height = some hash) :
    heightEntry height hash ∈ store.prefixScan visit KeyPrefix.blockByHeight.asBytes := by
  refine mem_filter.mpr ⟨Visit.memEntries.mpr ?_,List.isPrefixOf_iff_prefix.mpr ⟨wordBytes height,rfl⟩⟩
  exact (mirrors (wordBytes height) (wordBytes hash)).mpr ⟨height,hash,rfl,rfl,found⟩

theorem scannedGet (mirrors : Mirrors store index) (height) (count) (top) :
    ((store.prefixScan visit KeyPrefix.blockByHeight.asBytes).foldl loadHeight ⟨.new,count,top⟩).index.get height =
      index.get height := by
  rw [loadedGet (scanLists mirrors)]
  cases found : index.get height with
  | none => split <;> rfl
  | some hash => rw [if_pos ⟨hash,memScan mirrors found⟩]

theorem scannedTop (mirrors : Mirrors store index) {loaded} (start : loaded.maxHeight = 0)
    (some' : store.prefixScan visit KeyPrefix.blockByHeight.asBytes ≠ []) :
    (∃ hash, index.get ((store.prefixScan visit KeyPrefix.blockByHeight.asBytes).foldl loadHeight loaded).maxHeight =
        some hash) ∧
      ∀ height, index.contains height = true →
        height ≤ ((store.prefixScan visit KeyPrefix.blockByHeight.asBytes).foldl loadHeight loaded).maxHeight := by
  have lists : Lists (store.prefixScan visit KeyPrefix.blockByHeight.asBytes) index := scanLists mirrors
  obtain ⟨_,above,attained⟩ := loadedMax lists loaded
  obtain ⟨entry,mem⟩ := exists_mem_of_ne_nil _ some'
  obtain ⟨height,hash,rfl,found⟩ := lists entry mem
  refine ⟨?_,fun height known => ?_⟩
  · rcases attained with zero | ⟨hash',mem'⟩
    · -- no height is below zero, so a maximum of zero is the height of an entry too
      have least := le_antisymm ((above height hash mem).trans_eq (zero.trans start)) (Nat.zero_le _)
      exact ⟨hash,by rw [zero,start,← least]; exact found⟩
    · obtain ⟨height',hash'',same,found'⟩ := lists _ mem'
      exact ⟨hash'',heightEntryInj same ▸ found'⟩
  · obtain ⟨h,here⟩ := Option.isSome_iff_exists.mp known
    exact above height h (memScan mirrors here)

structure Opened (store : KeyValueStore) (index : BlockIndex) (r : BlockStorageService) : Prop where
  kvStore : r.kvStore = store
  blockIndex : r.blockIndex = index
  none : (∀ height, index.get height = none) → r.metadata = {}
  some : (∃ height, index.contains height = true) → ∃ top hash, index.get top = some hash ∧
    (∀ height, index.contains height = true → height ≤ top) ∧ r.metadata = onBlockStored {} top hash

theorem newOpened (mirrors : Mirrors store index) (deserializeLocation)
    (config) : Opened store index (.new visit deserializeLocation config store) := by
  have lists : Lists (store.prefixScan visit KeyPrefix.blockByHeight.asBytes) index := scanLists mirrors
  have loads : Opened store index
      (BlockStorageService.loadIndexFromStorage visit ⟨store,config,.new config.assemblyConfig,.new,{},∅⟩) := by
    unfold BlockStorageService.loadIndexFromStorage
    dsimp only
    split
    · rename_i none'
      have free : ∀ height, index.get height = none := by
        intro height
        cases found : index.get height with
        | none => rfl
        | some hash => exact absurd (none' ▸ memScan mirrors found) not_mem_nil
      refine ⟨rfl,sameGet (fun height => (free height).symm),fun _ => rfl,?_⟩
      rintro ⟨height,known⟩
      rw [BlockIndex.contains,free height] at known
      cases known
    · rename_i some'
      have counted := loadedCount lists ⟨.new,0,0⟩
      rw [if_pos (by rw [counted]; exact Nat.add_pos_right _ (length_pos_iff.mpr some'))]
      obtain ⟨⟨hash,top⟩,above⟩ := scannedTop mirrors (show (⟨.new,0,0⟩ : LoadedIndex).maxHeight = 0 from rfl) some'
      have same : ((store.prefixScan visit KeyPrefix.blockByHeight.asBytes).foldl loadHeight ⟨.new,0,0⟩).index = index :=
        sameGet (fun height => scannedGet mirrors height 0 0)
      rw [same,top]
      refine ⟨rfl,rfl,fun none' => ?_,fun _ => ⟨_,hash,top,above,rfl⟩⟩
      rw [none'] at top
      cases top
  unfold BlockStorageService.new BlockStorageService.loadTransactionIndexFromStorage
  dsimp only
  split
  · exact loads
  · exact ⟨loads.kvStore,loads.blockIndex,loads.none,loads.some⟩

end

namespace BlockStorageService

theorem newKept (visit) (deserializeLocation) (config) (store) :
    (new visit deserializeLocation config store).config = config ∧
      (new visit deserializeLocation config store).assemblyBuffer = .new config.assemblyConfig := by
  have located (s : BlockStorageService) :
      (s.loadTransactionIndexFromStorage visit deserializeLocation).config = s.config ∧
        (s.loadTransactionIndexFromStorage visit deserializeLocation).assemblyBuffer = s.assemblyBuffer := by
    unfold loadTransactionIndexFromStorage
    split <;> exact ⟨rfl,rfl⟩
  rw [new,(located _).1,(located _).2,loadIndexFromStorage]
  split
  · exact ⟨rfl,rfl⟩
  · dsimp only
    split <;> exact ⟨rfl,rfl⟩

inductive Stage (s : BlockStorageService) : Prop where
  | empty (blocks : ∀ h, s.blockExists h = false) (index : ∀ height, s.blockIndex.get height = none)
      (metadata : s.metadata = {})
  | single (g : Hash) (blocks : ∀ h, s.blockExists h = true ↔ h = g)
      (index : ∀ height, s.blockIndex.get height = if height = 0 then some g else none)
      (metadata : s.metadata = onBlockStored {} 0 g)
  | many (g other : Hash) (genesis : s.metadata.genesisHash = some g) (first : s.blockExists g = true)
      (second : s.blockExists other = true) (apart : other ≠ g)
      (moved : (∃ height, height ≠ 0 ∧ s.blockIndex.contains height = true) ∨ ∃ h, h ≠ g ∧ s.blockIndex.get 0 = some h)

structure Tallied (s : BlockStorageService) : Prop where
  mirrors : Mirrors s.kvStore s.blockIndex
  stage : s.Stage
  finalized : s.metadata.finalizedHeight = 0 ∨ s.blockIndex.contains s.metadata.finalizedHeight = true

def AtMostOne (s : BlockStorageService) : Prop :=
  ∀ a b, s.blockExists a = true → s.blockExists b = true → a = b

section
variable {deps : BlockStorageDependencies} {s next r : BlockStorageService} {block : ValidatedBlock}

theorem commitsMirrors (mirrors : Mirrors s.kvStore s.blockIndex) (commits : Commits deps s next block) :
    Mirrors next.kvStore next.blockIndex := by
  intro suffix value
  rw [commits.heights,commits.index]
  simp only [getInsert]
  by_cases own : suffix = wordBytes block.header.height
  · subst own
    rw [if_pos rfl]
    constructor
    · intro same
      exact ⟨_,_,rfl,(Option.some.inj same).symm,if_pos rfl⟩
    · rintro ⟨height,hash,suffix,rfl,found⟩
      rw [if_pos (wordBytesInj (by decide) suffix).symm] at found
      rw [Option.some.inj found]
  · rw [if_neg own,mirrors]
    constructor
    · rintro ⟨height,hash,rfl,rfl,found⟩
      exact ⟨height,hash,rfl,rfl,by rw [if_neg (fun same => own (congrArg _ same)),found]⟩
    · rintro ⟨height,hash,rfl,rfl,found⟩
      rw [if_neg (fun same => own (congrArg _ same))] at found
      exact ⟨height,hash,rfl,rfl,found⟩

theorem commitsMany {g} (genesis : s.metadata.genesisHash = some g) (first : s.blockExists g = true)
    (commits : Commits deps s next block) : next.Stage := by
  have apart := Ne.symm (commits.other first)
  have kept : next.metadata.genesisHash = some g := by
    rw [commits.metadata,onBlockStored,genesis]
    simp
  refine .many g (computeBlockHash deps block) kept (commits.stays first) ((commits.blocks _).mpr (.inl rfl)) apart ?_
  by_cases ground : block.header.height = 0
  · exact .inr ⟨_,apart,by rw [commits.index,getInsert,if_pos ground.symm]⟩
  · exact .inl ⟨_,ground,by rw [BlockIndex.contains,commits.index,getInsert,if_pos rfl]; rfl⟩

theorem commitsStage (stage : s.Stage) (commits : Commits deps s next block) : next.Stage := by
  cases stage with
  | empty blocks index metadata =>
    have ground := commits.parent.resolve_right (by rw [blocks]; decide)
    refine .single (computeBlockHash deps block) (fun h => ?_) (fun height => ?_) ?_
    · rw [commits.blocks,blocks]
      simp
    · rw [commits.index,getInsert,index,ground]
    · rw [commits.metadata,metadata,ground]
  | single g blocks index metadata =>
    exact commitsMany (by rw [metadata]; rfl) ((blocks g).mpr rfl) commits
  | many g other genesis first second apart moved => exact commitsMany genesis first commits

theorem commitsFinalized
    (finalized : s.metadata.finalizedHeight = 0 ∨ s.blockIndex.contains s.metadata.finalizedHeight = true)
    (commits : Commits deps s next block) :
    next.metadata.finalizedHeight = 0 ∨ next.blockIndex.contains next.metadata.finalizedHeight = true := by
  have same : next.metadata.finalizedHeight = s.metadata.finalizedHeight := by
    rw [commits.metadata]
    rfl
  rw [same,BlockIndex.contains,commits.index,getInsert]
  refine finalized.imp_right (fun inside => ?_)
  split
  · rfl
  · exact inside

theorem operateTallied (tallied : s.Tallied) (op) : (s.operate deps op).Tallied := by
  refine operateKeeps (I := Tallied) tallied (fun _ block _ _ _ prepared => ?_) (fun height known above => ?_) op
  · have commits := writeCommits prepared
    exact ⟨commitsMirrors tallied.mirrors commits,commitsStage tallied.stage commits,
      commitsFinalized tallied.finalized commits⟩
  · refine ⟨tallied.mirrors,?_,.inr known⟩
    cases tallied.stage with
    | empty blocks index metadata =>
      rw [BlockIndex.contains,index] at known
      cases known
    | single g blocks index metadata =>
      rw [BlockIndex.contains,index] at known
      split at known
      · rename_i ground
        rw [ground] at above
        exact absurd above (not_lt.mpr (Nat.zero_le _))
      · cases known
    | many g other genesis first second apart moved => exact .many g other genesis first second apart moved

theorem freshTallied (config) : (fresh config).Tallied := by
  refine ⟨fun suffix value => ⟨fun found => ?_,?_⟩,.empty (fun _ => rfl) (fun _ => rfl) rfl,.inl rfl⟩
  · cases found
  · rintro ⟨height,hash,_,_,found⟩
    cases found

theorem openedFinalized {store index} (opened : Opened store index r) : r.metadata.finalizedHeight = 0 := by
  by_cases occupied : ∃ height, index.contains height = true
  · obtain ⟨top,hash,_,_,metadata⟩ := opened.some occupied
    rw [metadata]
    rfl
  · have free : ∀ height, index.get height = none := by
      intro height
      cases found : index.get height with
      | none => rfl
      | some hash => exact absurd ⟨height,by rw [BlockIndex.contains,found]; rfl⟩ occupied
    rw [opened.none free]

theorem openedMetadata (stage : s.Stage) (opened : Opened s.kvStore s.blockIndex r) :
    r.metadata = s.metadata ↔ s.AtMostOne := by
  cases stage with
  | empty blocks index metadata =>
    refine iff_of_true ((opened.none index).trans metadata.symm) (fun a b known _ => ?_)
    rw [blocks a] at known
    contradiction
  | single g blocks index metadata =>
    have occupied : s.blockIndex.contains 0 = true := by
      rw [BlockIndex.contains,index,if_pos rfl]
      rfl
    obtain ⟨top,hash,found,_,made⟩ := opened.some ⟨0,occupied⟩
    rw [index] at found
    split at found
    · rename_i ground
      cases found
      refine iff_of_true (by rw [made,metadata,ground]) (fun a b knownA knownB => ?_)
      exact ((blocks a).mp knownA).trans ((blocks b).mp knownB).symm
    · cases found
  | many g other genesis first second apart moved =>
    refine iff_of_false (fun same => ?_) (fun one => apart (one other g second first))
    have occupied : ∃ height, s.blockIndex.contains height = true := by
      rcases moved with ⟨height,_,known⟩ | ⟨h,_,found⟩
      · exact ⟨height,known⟩
      · exact ⟨0,by rw [BlockIndex.contains,found]; rfl⟩
    obtain ⟨top,hash,found,above,made⟩ := opened.some occupied
    -- the new service takes the highest block for the genesis block, or has none
    have known : (onBlockStored {} top hash).genesisHash = some g := by
      rw [← made,same]
      exact genesis
    obtain ⟨ground,own⟩ : top = 0 ∧ hash = g := by simpa [onBlockStored] using known
    rw [ground] at found above
    rcases moved with ⟨height,high,inside⟩ | ⟨h,other',here⟩
    · exact high (le_antisymm (above height inside) (Nat.zero_le _))
    · exact other' (Option.some.inj (here.symm.trans (found.trans (congrArg some own))))

structure Alike (r s : BlockStorageService) : Prop where
  kvStore : r.kvStore = s.kvStore
  config : r.config = s.config
  blockIndex : r.blockIndex = s.blockIndex

theorem indexAlike (alike : Alike r s) (block) (blockHash) :
    Alike (r.indexTransactions deps block blockHash) (s.indexTransactions deps block blockHash) := by
  unfold indexTransactions
  generalize block.transactions.zipIdx = entries
  induction entries generalizing r s with
  | nil => exact alike
  | cons entry rest ih =>
    apply ih
    unfold indexTransaction
    dsimp only
    rw [alike.config]
    split
    · exact ⟨alike.kvStore,rfl,alike.blockIndex⟩
    · cases deps.serializeLocation ⟨blockHash,block.header.height,entry.2,block.header.merkleRoot⟩ with
      | none => exact ⟨alike.kvStore,rfl,alike.blockIndex⟩
      | some value =>
        refine ⟨?_,rfl,alike.blockIndex⟩
        rw [alike.kvStore]

theorem writeAlike (alike : Alike r s) (around) (block) (merkleRoot stateRoot) :
    Alike (r.writeBlock deps around block merkleRoot stateRoot).2
      (s.writeBlock deps around block merkleRoot stateRoot).2 := by
  have prepared : r.prepareBlock deps around block merkleRoot stateRoot =
    s.prepareBlock deps around block merkleRoot stateRoot := by
    unfold prepareBlock checkParentExists blockExists
    rw [alike.kvStore,alike.config]
  unfold writeBlock
  rw [prepared]
  cases s.prepareBlock deps around block merkleRoot stateRoot with
  | error e => exact alike
  | ok data =>
    apply indexAlike
    refine ⟨?_,alike.config,?_⟩
    · show r.kvStore.atomicBatchWrite _ = s.kvStore.atomicBatchWrite _
      rw [alike.kvStore]
    · show r.blockIndex.insert _ _ = s.blockIndex.insert _ _
      rw [alike.blockIndex]

theorem markKept (s) (height) : Alike (s.markFinalized height).2 s := by
  rcases finalizeCases s height with ⟨e,refused⟩ | ⟨_,_,raised⟩
  · rw [refused]
    exact ⟨rfl,rfl,rfl⟩
  · rw [raised]
    exact ⟨rfl,rfl,rfl⟩

theorem markAlike (alike : Alike r s) (height) : Alike (r.markFinalized height).2 (s.markFinalized height).2 := by
  obtain ⟨kvStore,config,blockIndex⟩ := markKept r height
  obtain ⟨kvStore',config',blockIndex'⟩ := markKept s height
  exact ⟨(kvStore.trans alike.kvStore).trans kvStore'.symm,(config.trans alike.config).trans config'.symm,
    (blockIndex.trans alike.blockIndex).trans blockIndex'.symm⟩

theorem runAlike (alike : Alike r s) (later) : Alike (run (operate deps) r later) (run (operate deps) s later) := by
  induction later generalizing r s with
  | nil => exact alike
  | cons op rest ih =>
    cases op with
    | write around block merkleRoot stateRoot => exact ih (writeAlike alike around block merkleRoot stateRoot)
    | finalize height => exact ih (markAlike alike height)

theorem Alike.reads (alike : Alike r s) (height) : r.readBlockByHeight deps height = s.readBlockByHeight deps height := by
  unfold readBlockByHeight
  rw [alike.blockIndex]
  cases s.blockIndex.get height with
  | none => rfl
  | some h => exact readSame deps (by rw [alike.kvStore])

theorem writeFinalized (s : BlockStorageService) (around) (block) (merkleRoot stateRoot) :
    (s.writeBlock deps around block merkleRoot stateRoot).2.metadata.finalizedHeight = s.metadata.finalizedHeight := by
  rcases writeCases deps around s block merkleRoot stateRoot with ⟨e,refused⟩ | ⟨data,prepared,written⟩
  · rw [refused]
  · rw [written,(writeCommits prepared).metadata]
    rfl

theorem sameMark (alike : Alike r s) (finalized : r.metadata.finalizedHeight = s.metadata.finalizedHeight) (height) :
    (r.markFinalized height).1 = (s.markFinalized height).1 ∧
      (r.markFinalized height).2.metadata.finalizedHeight = (s.markFinalized height).2.metadata.finalizedHeight := by
  unfold markFinalized onFinalized
  rw [alike.blockIndex,finalized]
  by_cases unknown : s.blockIndex.contains height = false
  · rw [if_pos unknown,if_pos unknown]
    exact ⟨rfl,finalized⟩
  · rw [if_neg unknown,if_neg unknown]
    by_cases below : height ≤ s.metadata.finalizedHeight
    · rw [if_pos below,if_pos below]
      exact ⟨rfl,finalized⟩
    · rw [if_neg below,if_neg below]
      exact ⟨rfl,rfl⟩

theorem sameVerdicts (alike : Alike r s) (finalized : r.metadata.finalizedHeight = s.metadata.finalizedHeight)
    (later) : r.verdicts deps later = s.verdicts deps later := by
  induction later generalizing r s with
  | nil => rfl
  | cons op rest ih =>
    cases op with
    | write around block merkleRoot stateRoot =>
      exact ih (writeAlike alike around block merkleRoot stateRoot) (by rw [writeFinalized,writeFinalized,finalized])
    | finalize height =>
      obtain ⟨verdict,finalized'⟩ := sameMark alike finalized height
      rw [verdicts,verdicts,verdict,ih (markAlike alike height) finalized']

theorem runConfig (config) (ops) : (run (operate deps) (fresh config) ops).config = config := by
  refine runInvariant (I := fun s : BlockStorageService => s.config = config) (fun s op before => ?_) rfl ops
  exact operateKeeps (I := fun s : BlockStorageService => s.config = config) before
    (fun _ block _ _ data _ => (commitBlockKept deps s block _ data).1.trans before) (fun _ _ _ => before) op

theorem openedVerdicts (tallied : s.Tallied) (alike : Alike r s) (unknown : r.metadata.finalizedHeight = 0) :
    (∀ later, r.verdicts deps later = s.verdicts deps later) ↔ s.metadata.finalizedHeight = 0 := by
  refine ⟨fun same => ?_,fun none' => sameVerdicts alike (unknown.trans none'.symm)⟩
  by_contra some'
  -- the finalized height itself is refused by the one and accepted by the other
  have inside := tallied.finalized.resolve_left some'
  have first : (r.markFinalized s.metadata.finalizedHeight).1 = (s.markFinalized s.metadata.finalizedHeight).1 :=
    (List.cons.inj (same [.finalize s.metadata.finalizedHeight])).1
  have above : r.metadata.finalizedHeight < s.metadata.finalizedHeight := by
    rw [unknown]
    exact lt_of_le_of_ne (Nat.zero_le _) (Ne.symm some')
  rw [markAccepted (alike.blockIndex ▸ inside) above] at first
  obtain ⟨e,refused⟩ := markRefused (le_refl s.metadata.finalizedHeight)
  rw [refused] at first
  cases first

theorem reopenedService (deps : BlockStorageDependencies) (config : StorageConfig) (ops : List StorageOp)
    (visit : Visit Bytes) (deserializeLocation : Bytes → Option TransactionLocation) :
    let before := run (operate deps) (fresh config) ops
    let after := new visit deserializeLocation config before.kvStore
    after.blockIndex = before.blockIndex ∧
      (∀ later height, (run (operate deps) after later).readBlockByHeight deps height =
        (run (operate deps) before later).readBlockByHeight deps height) ∧
      (after.metadata = before.metadata ↔ before.AtMostOne) ∧
      ((∀ later, after.verdicts deps later = before.verdicts deps later) ↔ before.metadata.finalizedHeight = 0) := by
  intro before after
  have tallied : before.Tallied :=
    runInvariant (I := Tallied) (fun s op tallied => operateTallied tallied op) (freshTallied config) ops
  have opened : Opened before.kvStore before.blockIndex after := newOpened tallied.mirrors deserializeLocation config
  have config' : after.config = before.config :=
    (newKept visit deserializeLocation config _).1.trans (runConfig config ops).symm
  have alike : Alike after before := ⟨opened.kvStore,config',opened.blockIndex⟩
  exact ⟨alike.blockIndex,fun later height => (runAlike alike later).reads height,openedMetadata tallied.stage opened,
    openedVerdicts tallied alike (openedFinalized opened)⟩

end

theorem newEmpty (visit) (deserializeLocation) (config) : new visit deserializeLocation config ∅ = fresh config := by
  have nothing : ∀ start, KeyValueStore.prefixScan visit ∅ start = [] := by
    intro start
    refine eq_nil_iff_forall_not_mem.mpr (fun entry mem => ?_)
    have found := Visit.memEntries.mp (mem_filter.mp mem).1
    rw [Finmap.lookup_empty] at found
    cases found
  simp only [new,loadIndexFromStorage,nothing,if_true,loadTransactionIndexFromStorage,loadLocations]
  split <;> rfl

def twoStoredFinalized : BlockStorageService := twoStored.operate standIns (.finalize 1)

theorem twoTallied : twoStoredFinalized.Tallied :=
  runInvariant (I := Tallied) (fun _ op tallied => operateTallied tallied op) (freshTallied {})
    [written genesis,written child,.finalize 1]

theorem reopenedForgets : twoStoredFinalized.metadata =
        {genesisHash := some (genesis.hash standIns), latestHeight := 1, finalizedHeight := 1, totalBlocks := 2} ∧
      (twoStoredFinalized.markFinalized 1).1 = .error (.invalidFinalization 1 1) ∧
      ∀ visit deserializeLocation,
        let after := new visit deserializeLocation {} twoStoredFinalized.kvStore
        after.metadata.genesisHash = none ∧ after.metadata.finalizedHeight = 0 ∧ after.metadata.totalBlocks = 1 ∧
          (after.markFinalized 1).1 = .ok () := by
  refine ⟨by decide +kernel,by decide +kernel,?_⟩
  intro visit deserializeLocation after
  have inside : twoStoredFinalized.blockIndex.contains 1 = true := by decide +kernel
  have opened : Opened twoStoredFinalized.kvStore twoStoredFinalized.blockIndex after :=
    newOpened twoTallied.mirrors deserializeLocation {}
  obtain ⟨top,hash,_,above,metadata⟩ := opened.some ⟨1,inside⟩
  have high : top ≠ 0 := fun ground => absurd (above 1 inside) (by rw [ground]; decide)
  have none' : (onBlockStored {} top hash).genesisHash = none := by
    simpa [onBlockStored] using high
  have unmarked : after.metadata.finalizedHeight = 0 := openedFinalized opened
  have known : after.blockIndex.contains 1 = true := by rw [opened.blockIndex,inside]
  refine ⟨by rw [metadata,none'],unmarked,by rw [metadata]; rfl,?_⟩
  rw [markAccepted known (by rw [unmarked]; decide)]

end BlockStorageService
end QuantumChain.Storage
