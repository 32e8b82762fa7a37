import QuantumChain.StorageAssembly

/-! Runs of block writes and finalizations.
The store itself never fails; disk space is an input of each write. -/
namespace QuantumChain.Storage
open StepRun (run Along runExact runInvariant alongExact)
open BlockIndex

inductive StorageOp where
  | write (around : Surroundings) (block : ValidatedBlock) (merkleRoot stateRoot : Hash)
  | finalize (height : U64)

namespace BlockStorageService
variable (deps : BlockStorageDependencies)

def operate (s : BlockStorageService) : StorageOp → BlockStorageService
  | .write around block merkleRoot stateRoot => (s.writeBlock deps around block merkleRoot stateRoot).2
  | .finalize height => (s.markFinalized height).2

section
variable {deps} {around : Surroundings} {s : BlockStorageService} {block : ValidatedBlock} {merkleRoot stateRoot : Hash}

theorem writeCases (deps) (around) (s : BlockStorageService) (block) (merkleRoot stateRoot : Hash) :
    (∃ e, s.writeBlock deps around block merkleRoot stateRoot = (.error e,s)) ∨
      ∃ data, s.prepareBlock deps around block merkleRoot stateRoot = .ok data ∧
        s.writeBlock deps around block merkleRoot stateRoot =
          (.ok (computeBlockHash deps block),s.commitBlock deps block (computeBlockHash deps block) data) := by
  unfold writeBlock
  cases prepared : s.prepareBlock deps around block merkleRoot stateRoot with
  | error e => exact .inl ⟨e,rfl⟩
  | ok data => exact .inr ⟨data,rfl,rfl⟩

theorem markRefused {height} (low : height ≤ s.metadata.finalizedHeight) :
    ∃ e, s.markFinalized height = (.error e,s) := by
  unfold markFinalized StorageMetadata.onFinalized
  split <;> exact ⟨_,rfl⟩

theorem markAccepted {height} (known : s.blockIndex.contains height = true)
    (above : s.metadata.finalizedHeight < height) :
    s.markFinalized height = (.ok (),{s with metadata := {s.metadata with finalizedHeight := height}}) := by
  unfold markFinalized StorageMetadata.onFinalized
  rw [known,if_neg (by decide),if_neg (not_le.mpr above)]

theorem finalizeCases (s : BlockStorageService) (height) : (∃ e, s.markFinalized height = (.error e,s)) ∨
      s.blockIndex.contains height = true ∧ s.metadata.finalizedHeight < height ∧
        s.markFinalized height = (.ok (),{s with metadata := {s.metadata with finalizedHeight := height}}) := by
  rcases le_or_gt height s.metadata.finalizedHeight with low | above
  · exact .inl (markRefused low)
  · cases known : s.blockIndex.contains height with
    | false => exact .inl ⟨.heightNotFound height,if_pos known⟩
    | true => exact .inr ⟨rfl,above,markAccepted known above⟩

end

theorem finalizeStore (s : BlockStorageService) (height) : (s.operate deps (.finalize height)).kvStore = s.kvStore := by
  rcases finalizeCases s height with ⟨e,refused⟩ | ⟨_,_,raised⟩
  · rw [operate,refused]
  · rw [operate,raised]

def Sound (s : BlockStorageService) : Prop :=
  ∀ h, s.blockExists h = true → ∃ stored, s.readBlock deps h = .ok stored ∧ computeBlockHash deps stored.block = h

section
variable {deps} {s : BlockStorageService}

theorem readExists {h stored} (read : s.readBlock deps h = .ok stored) : s.blockExists h = true := by
  unfold readBlock at read
  unfold blockExists
  cases found : s.kvStore.lookup (KeyPrefix.blockKey h) with
  | none =>
    rw [found] at read
    cases read
  | some data => rfl

structure Commits (deps : BlockStorageDependencies) (s next : BlockStorageService) (block : ValidatedBlock) : Prop where
  fresh : s.blockExists (computeBlockHash deps block) = false
  parent : block.header.height = 0 ∨ s.blockExists block.header.parentHash = true
  blocks : ∀ h, next.blockExists h = true ↔ h = computeBlockHash deps block ∨ s.blockExists h = true
  heights : ∀ suffix, next.kvStore.lookup (KeyPrefix.blockByHeight.key suffix) =
    if suffix = wordBytes block.header.height then some (wordBytes (computeBlockHash deps block))
    else s.kvStore.lookup (KeyPrefix.blockByHeight.key suffix)
  index : next.blockIndex = s.blockIndex.insert block.header.height (computeBlockHash deps block)
  metadata : next.metadata = s.metadata.onBlockStored block.header.height (computeBlockHash deps block)

theorem writeCommits {around block merkleRoot stateRoot data}
    (prepared : s.prepareBlock deps around block merkleRoot stateRoot = .ok data) :
    Commits deps s (s.commitBlock deps block (computeBlockHash deps block) data) block := by
  obtain ⟨_,parent,fresh,_,_⟩ := prepareOk.mp prepared
  obtain ⟨_,_,index,metadata⟩ := commitBlockKept deps s block (computeBlockHash deps block) data
  refine ⟨fresh,parentOk.mp parent,fun h => ?_,commitBlockHeights deps s block _ data,index,metadata⟩
  rw [blockExists,commitBlockLookup]
  by_cases own : h = computeBlockHash deps block
  · simp [own]
  · simp [own,blockExists]

theorem Commits.other {next block} (commits : Commits deps s next block) {h}
    (known : s.blockExists h = true) : h ≠ computeBlockHash deps block := by
  intro same
  rw [same,commits.fresh] at known
  contradiction

theorem Commits.stays {next block} (commits : Commits deps s next block) {h}
    (known : s.blockExists h = true) : next.blockExists h = true := (commits.blocks h).mpr (.inr known)

structure Adds (deps : BlockStorageDependencies) (s next : BlockStorageService) (stored : StoredBlock) : Prop
    extends Commits deps s next stored.block where
  own : next.readBlock deps (computeBlockHash deps stored.block) = .ok stored
  others : ∀ h, h ≠ computeBlockHash deps stored.block → next.readBlock deps h = s.readBlock deps h

theorem writeAdds (lawful : deps.serializer.RoundTrips) {around block merkleRoot stateRoot data}
    (prepared : s.prepareBlock deps around block merkleRoot stateRoot = .ok data) :
    Adds deps s (s.commitBlock deps block (computeBlockHash deps block) data)
      (storedBlock deps block merkleRoot stateRoot around.clock) := by
  obtain ⟨_,_,_,_,written⟩ := prepareOk.mp prepared
  obtain ⟨data',written',back⟩ := lawful (storedBlock deps block merkleRoot stateRoot around.clock)
  cases written.symm.trans written'
  have lookups := commitBlockLookup deps s block (computeBlockHash deps block)
  refine ⟨writeCommits prepared,?_,fun h other => readSame deps ((lookups h data).trans (if_neg other))⟩
  have found := (lookups (computeBlockHash deps block) data).trans (if_pos rfl)
  have checked : verifyBlockChecksum deps (storedBlock deps block merkleRoot stateRoot around.clock) = .ok () := by
    simp [verifyBlockChecksum,storedBlock]
  show readBlock deps _ (computeBlockHash deps block) = _
  simp [readBlock,found,back,checked,Except.map]

theorem acceptedAdds (lawful : deps.serializer.RoundTrips) {around block merkleRoot stateRoot}
    (accepted : (s.writeBlock deps around block merkleRoot stateRoot).1.isOk = true) :
    Adds deps s (s.operate deps (.write around block merkleRoot stateRoot))
      (storedBlock deps block merkleRoot stateRoot around.clock) := by
  rcases writeCases deps around s block merkleRoot stateRoot with ⟨e,refused⟩ | ⟨data,prepared,written⟩
  · rw [refused] at accepted
    cases accepted
  · rw [operate,written]
    exact writeAdds lawful prepared

theorem Adds.keeps {next stored} (adds : Adds deps s next stored) {h}
    (known : s.blockExists h = true) : next.readBlock deps h = s.readBlock deps h :=
  adds.others h (adds.other known)

theorem operateKeeps {I : BlockStorageService → Prop} (start : I s)
    (writes : ∀ around block merkleRoot stateRoot data, s.prepareBlock deps around block merkleRoot stateRoot = .ok data →
      I (s.commitBlock deps block (computeBlockHash deps block) data))
    (raises : ∀ height, s.blockIndex.contains height = true → s.metadata.finalizedHeight < height →
      I {s with metadata := {s.metadata with finalizedHeight := height}}) (op) : I (s.operate deps op) := by
  cases op with
  | write around block merkleRoot stateRoot =>
    rcases writeCases deps around s block merkleRoot stateRoot with ⟨e,refused⟩ | ⟨data,prepared,written⟩
    · rw [operate,refused]
      exact start
    · rw [operate,written]
      exact writes around block merkleRoot stateRoot data prepared
  | finalize height =>
    rcases finalizeCases s height with ⟨e,refused⟩ | ⟨known,above,raised⟩
    · rw [operate,refused]
      exact start
    · rw [operate,raised]
      exact raises height known above

theorem operateSound (lawful : deps.serializer.RoundTrips) (sound : s.Sound deps) (op) :
    (s.operate deps op).Sound deps := by
  refine operateKeeps (I := Sound deps) sound (fun _ _ _ _ _ prepared => ?_) (fun _ _ _ => sound) op
  have adds := writeAdds lawful prepared
  intro h known
  rcases (adds.blocks h).mp known with own | before
  · exact ⟨_,own ▸ adds.own,own.symm⟩
  · rw [adds.keeps before]
    exact sound h before

end

variable (s : BlockStorageService)

def Parented : Prop :=
  ∀ h stored, s.readBlock deps h = .ok stored →
    stored.block.header.height = 0 ∨ s.blockExists stored.block.header.parentHash = true

def Linked : Prop :=
  ∀ h b, s.readBlock deps h = .ok b → b.block.header.height ≠ 0 →
    ∃ parent, s.readBlock deps b.block.header.parentHash = .ok parent ∧
      parent.block.header.height.toNat + 1 = b.block.header.height.toNat

def ParentBelow : StorageOp → Prop
  | .write around block merkleRoot stateRoot =>
    (∃ hash, (s.writeBlock deps around block merkleRoot stateRoot).1 = .ok hash) →
      block.header.height = 0 ∨ ∃ parent, s.readBlock deps block.header.parentHash = .ok parent ∧
        parent.block.header.height.toNat + 1 = block.header.height.toNat
  | .finalize _ => True

inductive PathDown (s : BlockStorageService) : StoredBlock → List StoredBlock → Prop where
  | genesis {b} (ground : b.block.header.height = 0) : PathDown s b [b]
  | step {b parent rest} (read : s.readBlock deps b.block.header.parentHash = .ok parent)
      (below : parent.block.header.height.toNat + 1 = b.block.header.height.toNat)
      (tail : PathDown s parent rest) : PathDown s b (b::rest)

section
variable {deps} {s : BlockStorageService}

theorem Adds.readCases {next stored} (adds : Adds deps s next stored) {h b} (read : next.readBlock deps h = .ok b) :
    b = stored ∨ s.readBlock deps h = .ok b := by
  by_cases own : h = computeBlockHash deps stored.block
  · rw [own,adds.own] at read
    exact .inl (Except.ok.inj read).symm
  · exact .inr ((adds.others h own).symm.trans read)

theorem operateParented (lawful : deps.serializer.RoundTrips) (parented : s.Parented deps) (op) :
    (s.operate deps op).Parented deps := by
  refine operateKeeps (I := Parented deps) parented (fun _ _ _ _ _ prepared => ?_) (fun _ _ _ => parented) op
  have adds := writeAdds lawful prepared
  intro h b read
  rcases adds.readCases read with own | before
  · exact own ▸ adds.parent.imp_right adds.stays
  · exact (parented h b before).imp_right adds.stays

theorem addsLinked {next stored} (adds : Adds deps s next stored) (parented : s.Parented deps) :
    next.Linked deps ↔ s.Linked deps ∧ (stored.block.header.height = 0 ∨
      ∃ parent, s.readBlock deps stored.block.header.parentHash = .ok parent ∧
        parent.block.header.height.toNat + 1 = stored.block.header.height.toNat) := by
  constructor
  · intro linked
    refine ⟨fun h b read above => ?_,?_⟩
    · have known := (parented h b read).resolve_left above
      have link := linked h b ((adds.keeps (readExists read)).trans read) above
      rwa [adds.keeps known] at link
    · by_cases ground : stored.block.header.height = 0
      · exact .inl ground
      · have link := linked _ stored adds.own ground
        rw [adds.keeps (adds.parent.resolve_left ground)] at link
        exact .inr link
  · rintro ⟨linked,below⟩ h b read above
    -- whichever block it is, its parent is one of the blocks from before
    have before : ∃ parent, s.readBlock deps b.block.header.parentHash = .ok parent ∧
        parent.block.header.height.toNat + 1 = b.block.header.height.toNat := by
      rcases adds.readCases read with own | old
      · subst own
        exact below.resolve_left above
      · exact linked h b old above
    obtain ⟨parent,found,height⟩ := before
    exact ⟨parent,(adds.keeps (readExists found)).trans found,height⟩

theorem operateLinked (lawful : deps.serializer.RoundTrips) (parented : s.Parented deps) (op) :
    (s.operate deps op).Linked deps ↔ s.Linked deps ∧ s.ParentBelow deps op := by
  cases op with
  | write around block merkleRoot stateRoot =>
    rcases writeCases deps around s block merkleRoot stateRoot with ⟨e,refused⟩ | ⟨data,prepared,written⟩
    · simp [operate,ParentBelow,refused]
    · rw [operate,ParentBelow,written,addsLinked (writeAdds lawful prepared) parented]
      simp [storedBlock]
  | finalize height =>
    rcases finalizeCases s height with ⟨e,refused⟩ | ⟨_,_,raised⟩
    · simp [operate,ParentBelow,refused]
    · rw [operate,raised]
      exact (and_iff_left trivial).symm

theorem linkedPath (linked : s.Linked deps) {h b} (read : s.readBlock deps h = .ok b) :
    ∃ path, s.PathDown deps b path ∧ path.length = b.block.header.height.toNat + 1 := by
  generalize size : b.block.header.height.toNat = n
  induction n generalizing h b with
  | zero => exact ⟨[b],.genesis (BitVec.eq_of_toNat_eq size),rfl⟩
  | succ n ih =>
    have above : b.block.header.height ≠ 0 := by
      intro ground
      rw [ground] at size
      cases size
    obtain ⟨parent,found,below⟩ := linked h b read above
    obtain ⟨path,down,length⟩ := ih found (by omega)
    exact ⟨b::path,.step found below down,by rw [List.length_cons,length]⟩

theorem linkedExact (lawful : deps.serializer.RoundTrips) (config) (ops) :
    (run (operate deps) (fresh config) ops).Linked deps ↔ Along (operate deps) (ParentBelow deps) (fresh config) ops := by
  have start : (fresh config).Parented deps := by
    intro h b read
    cases read
  have nothing : (fresh config).Linked deps := by
    intro h b read
    cases read
  have exact' := runExact (I := Parented deps) (fun s op parented => operateParented lawful parented op)
    (fun s op parented => operateLinked lawful parented op) start ops
  exact exact'.trans (and_iff_right nothing)

theorem storedChainLinked (lawful : deps.serializer.RoundTrips) (config : StorageConfig) (ops : List StorageOp) :
    ((run (operate deps) (fresh config) ops).Linked deps ∧
        ∀ h b, (run (operate deps) (fresh config) ops).readBlock deps h = .ok b →
          ∃ path, (run (operate deps) (fresh config) ops).PathDown deps b path ∧
            path.length = b.block.header.height.toNat + 1) ↔
      Along (operate deps) (ParentBelow deps) (fresh config) ops := by
  rw [← linkedExact lawful config ops]
  exact and_iff_left_of_imp (fun linked h b read => linkedPath linked read)

def written (p : BlockParts) : StorageOp := .write calm p.block p.merkleRoot p.stateRoot

def stored (p : BlockParts) : StoredBlock := storedBlock standIns p.block p.merkleRoot p.stateRoot calm.clock

theorem childLinked : standIns.serializer.RoundTrips ∧
      (run (operate standIns) (fresh {}) [written genesis,written child]).Linked standIns ∧
      ∀ h b, (run (operate standIns) (fresh {}) [written genesis,written child]).readBlock standIns h = .ok b →
        ∃ path, (run (operate standIns) (fresh {}) [written genesis,written child]).PathDown standIns b path ∧
          path.length = b.block.header.height.toNat + 1 := by
  have first : Adds standIns (fresh {}) ((fresh {}).operate standIns (written genesis)) (stored genesis) :=
    acceptedAdds unaryRoundTrips (by decide +kernel)
  exact ⟨unaryRoundTrips,(storedChainLinked unaryRoundTrips {} _).mpr
    ⟨fun _ => .inl rfl,fun _ => .inr ⟨_,first.own,rfl⟩,trivial⟩⟩

def skipping : BlockParts := ⟨emptyBlock 5 (genesis.hash standIns),5,6⟩

theorem skippedHeightStored : standIns.serializer.RoundTrips ∧
      (run (operate standIns) (fresh {}) [written genesis,written skipping]).readBlock standIns (skipping.hash standIns) =
        .ok (stored skipping) ∧ (stored skipping).block.header.height = 5 ∧
      (run (operate standIns) (fresh {}) [written genesis,written skipping]).readBlock standIns
        (stored skipping).block.header.parentHash = .ok (stored genesis) ∧ (stored genesis).block.header.height = 0 := by
  have first : Adds standIns (fresh {}) ((fresh {}).operate standIns (written genesis)) (stored genesis) :=
    acceptedAdds unaryRoundTrips (by decide +kernel)
  have second : Adds standIns ((fresh {}).operate standIns (written genesis))
      (((fresh {}).operate standIns (written genesis)).operate standIns (written skipping)) (stored skipping) :=
    acceptedAdds unaryRoundTrips (by decide +kernel)
  exact ⟨unaryRoundTrips,second.own,rfl,(second.keeps (readExists first.own)).trans first.own,rfl⟩

end

def Holds (sealed : BlockStorageService) (finalized : U64) (s : BlockStorageService) : Prop :=
  ∀ height, height ≤ finalized → ∀ b, sealed.readBlockByHeight deps height = .ok b →
    s.readBlockByHeight deps height = .ok b

def Spares (sealed : BlockStorageService) (finalized : U64) (s : BlockStorageService) : StorageOp → Prop
  | .write around block merkleRoot stateRoot =>
    (∃ hash, (s.writeBlock deps around block merkleRoot stateRoot).1 = .ok hash) →
      finalized < block.header.height ∨ sealed.blockIndex.get block.header.height = none
  | .finalize _ => True

structure Consistent (s : BlockStorageService) : Prop where
  sound : s.Sound deps
  indexed : ∀ height h, s.blockIndex.get height = some h → s.blockExists h = true

structure Continues (sealed : BlockStorageService) (finalized : U64) (s : BlockStorageService) : Prop where
  stays : ∀ h, sealed.blockExists h = true → s.blockExists h = true ∧ s.readBlock deps h = sealed.readBlock deps h
  heights : ∀ height, height ≤ finalized → ∀ h, sealed.blockIndex.get height = some h → s.blockIndex.get height = some h

section
variable {deps} {s sealed : BlockStorageService} {finalized : U64}

theorem operateConsistent (lawful : deps.serializer.RoundTrips) (consistent : s.Consistent deps) (op) :
    (s.operate deps op).Consistent deps := by
  refine ⟨operateSound lawful consistent.sound op,?_⟩
  refine operateKeeps (I := fun s => ∀ height h, s.blockIndex.get height = some h → s.blockExists h = true)
    consistent.indexed (fun _ _ _ _ _ prepared => ?_) (fun _ _ _ => consistent.indexed) op
  have adds := writeAdds lawful prepared
  intro height h found
  rw [adds.index,getInsert] at found
  split at found
  · cases found
    exact readExists adds.own
  · exact adds.stays (consistent.indexed height h found)

theorem continuesHolds (consistent : sealed.Consistent deps) (continues : sealed.Continues deps finalized s) :
    sealed.Holds deps finalized s := by
  intro height below b read
  unfold readBlockByHeight at *
  cases found : sealed.blockIndex.get height with
  | none =>
    rw [found] at read
    cases read
  | some h =>
    rw [found] at read
    rw [continues.heights height below h found]
    exact (continues.stays h (consistent.indexed height h found)).2.trans read

theorem addsContinues {next stored} (continues : sealed.Continues deps finalized s) (adds : Adds deps s next stored)
    (spared : finalized < stored.block.header.height ∨ sealed.blockIndex.get stored.block.header.height = none) :
    sealed.Continues deps finalized next := by
  refine ⟨fun h known => ?_,fun height below h found => ?_⟩
  · obtain ⟨before,read⟩ := continues.stays h known
    exact ⟨adds.stays before,(adds.keeps before).trans read⟩
  · have other : height ≠ stored.block.header.height := by
      intro same
      rcases spared with above | free
      · exact absurd (lt_of_lt_of_le (same ▸ above) below) (lt_irrefl _)
      · rw [same,free] at found
        cases found
    rw [adds.index,getInsert,if_neg other]
    exact continues.heights height below h found

theorem addsSpares {next stored} (consistent : sealed.Consistent deps)
    (continues : sealed.Continues deps finalized s) (adds : Adds deps s next stored)
      (holds : sealed.Holds deps finalized next) :
    finalized < stored.block.header.height ∨ sealed.blockIndex.get stored.block.header.height = none := by
  by_contra open'
  obtain ⟨below,taken⟩ := not_or.mp open'
  obtain ⟨h,found⟩ := Option.ne_none_iff_exists'.mp taken
  have known := consistent.indexed _ h found
  obtain ⟨b,read,own⟩ := consistent.sound h known
  have before : sealed.readBlockByHeight deps stored.block.header.height = .ok b := by
    rw [readBlockByHeight,found]
    exact read
  have after := holds _ (not_lt.mp below) b before
  rw [readBlockByHeight,adds.index,getInsert,if_pos rfl] at after
  -- read back, the new block would be the old one, whose hash was stored already
  have same := Except.ok.inj (adds.own.symm.trans after)
  have fresh := adds.fresh
  rw [same,own,(continues.stays h known).1] at fresh
  contradiction

theorem operateContinues (lawful : deps.serializer.RoundTrips) (consistent : sealed.Consistent deps)
    (continues : sealed.Continues deps finalized s) (op) :
    (sealed.Spares deps finalized s op → sealed.Continues deps finalized (s.operate deps op)) ∧
      (sealed.Holds deps finalized (s.operate deps op) → sealed.Spares deps finalized s op) := by
  cases op with
  | write around block merkleRoot stateRoot =>
    rcases writeCases deps around s block merkleRoot stateRoot with ⟨e,refused⟩ | ⟨data,prepared,written⟩
    · simp [operate,Spares,refused,continues]
    · have adds := writeAdds lawful prepared
      rw [operate,Spares,written]
      exact ⟨fun spares => addsContinues continues adds (spares ⟨_,rfl⟩),
        fun holds _ => addsSpares consistent continues adds holds⟩
  | finalize height =>
    refine ⟨fun _ => ?_,fun _ => trivial⟩
    rcases finalizeCases s height with ⟨e,refused⟩ | ⟨_,_,raised⟩
    · rw [operate,refused]
      exact continues
    · rw [operate,raised]
      exact ⟨continues.stays,continues.heights⟩

theorem finalizedBlocksKept (lawful : deps.serializer.RoundTrips) (config : StorageConfig) (ops : List StorageOp)
    (finalized : U64) (later : List StorageOp) :
    let sealed := (run (operate deps) (fresh config) ops).operate deps (.finalize finalized)
    Along (operate deps) (fun s op => sealed.Holds deps finalized (s.operate deps op)) sealed later ↔
      Along (operate deps) (sealed.Spares deps finalized) sealed later := by
  intro sealed
  have start : (fresh config).Consistent deps := by
    refine ⟨?_,?_⟩
    · intro h known
      cases known
    · intro height h found
      cases found
  have before : (run (operate deps) (fresh config) ops).Consistent deps :=
    runInvariant (I := Consistent deps) (fun s op consistent => operateConsistent lawful consistent op) start ops
  have consistent : sealed.Consistent deps := operateConsistent lawful before _
  exact alongExact (I := fun s => sealed.Continues deps finalized s)
    (fun s op continues => (operateContinues lawful consistent continues op).1)
    (fun s continues => continuesHolds consistent continues)
    (fun s op continues => (operateContinues lawful consistent continues op).2)
    ⟨fun h known => ⟨known,rfl⟩,fun height _ h found => found⟩

end

def rival : BlockParts := ⟨⟨⟨1,1,genesis.hash standIns,0,0,77,0,0,0⟩,[],⟨0,[],0⟩⟩,5,6⟩

def twoStored : BlockStorageService := run (operate standIns) (fresh {}) [written genesis,written child]

def grandchild : BlockParts := ⟨emptyBlock 2 (child.hash standIns),7,8⟩

theorem grandchildSpares : standIns.serializer.RoundTrips ∧ (twoStored.markFinalized 1).1 = .ok () ∧
    Along (operate standIns)
      (fun s op => (twoStored.operate standIns (.finalize 1)).Holds standIns 1 (s.operate standIns op))
      (twoStored.operate standIns (.finalize 1)) [written grandchild,.finalize 2] :=
  ⟨unaryRoundTrips,by decide +kernel,
    (finalizedBlocksKept unaryRoundTrips {} [written genesis,written child] 1 [written grandchild,.finalize 2]).mpr
      ⟨fun _ => .inl (by decide),trivial,trivial⟩⟩

theorem finalizedBlockReplaced : standIns.serializer.RoundTrips ∧ (twoStored.markFinalized 1).1 = .ok () ∧
      (twoStored.operate standIns (.finalize 1)).readBlockByHeight standIns 1 = .ok (stored child) ∧
      ((twoStored.operate standIns (.finalize 1)).operate standIns (written rival)).readBlockByHeight standIns 1 =
        .ok (stored rival) ∧ stored child ≠ stored rival := by
  have second : Adds standIns ((fresh {}).operate standIns (written genesis)) twoStored (stored child) :=
    acceptedAdds unaryRoundTrips (by decide +kernel)
  have third : Adds standIns (twoStored.operate standIns (.finalize 1))
      ((twoStored.operate standIns (.finalize 1)).operate standIns (written rival)) (stored rival) :=
    acceptedAdds unaryRoundTrips (by decide +kernel)
  have indexed : (twoStored.operate standIns (.finalize 1)).blockIndex.get 1 = some (child.hash standIns) := by decide +kernel
  have replaced : ((twoStored.operate standIns (.finalize 1)).operate standIns (written rival)).blockIndex.get 1 =
      some (rival.hash standIns) := by
    rw [third.index]
    exact (getInsert _ _ _ _).trans (if_pos rfl)
  have apart : stored child ≠ stored rival := fun same =>
    absurd (congrArg (fun b => b.block.header.timestamp) same) (by decide +kernel)
  refine ⟨unaryRoundTrips,by decide +kernel,?_,?_,apart⟩
  · rw [readBlockByHeight,indexed]
    exact (readSame standIns (by rw [finalizeStore])).trans second.own
  · rw [readBlockByHeight,replaced]
    exact third.own

end BlockStorageService
end QuantumChain.Storage
