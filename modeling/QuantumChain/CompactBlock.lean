import QuantumChain.FixedWidth

/-! Compact blocks and the bytes sent.
SipHash is a parameter: short ids of different transactions may be equal. -/
namespace QuantumChain.Propagation
open List

abbrev ShortTxId := ByteArrayOf 6

inductive PropagationError where
  | duplicateBlock (hash : Hash)
  | blockTooLarge (size max : Nat)
  | rateLimited (peerId : Hash)
  | unknownPeer (peerId : Hash)
  | reconstructionFailed (count : Nat)
  | timeout (hash : Hash)
  | unauthorizedSender (subsystem : UInt8)
  | invalidSignature
  | networkError (text : String)
  | ipcSecurityError (text : String)
  | internalError (text : String)
  | malformedCompactBlock (expected actual : Nat)
  | blockDataTooShort (expected actual : Nat)
  deriving DecidableEq, Repr

structure PrefilledTx where
  index : BitVec 16
  txHash : Hash
  txData : Bytes
  deriving DecidableEq, Repr

structure CompactBlock where
  headerHash : Hash
  blockHeight : U64
  parentHash : Hash
  timestamp : U64
  shortTxids : List ShortTxId
  prefilledTxs : List PrefilledTx
  nonce : U64

structure CompactBlockParams where
  headerHash : Hash
  blockHeight : U64
  parentHash : Hash
  timestamp : U64
  txHashes : List Hash
  nonce : U64
  prefillIndices : List Nat

section Relay
variable (sipHash : U64 → U64 → Bytes → U64)

theorem shortBytes (full : U64) : ((leBytes 8 full.toNat).take 6).length = 6 := by
  rw [length_take,leBytesLength]
  rfl

def calculateShortId (txHash : Hash) (nonce : U64) : ShortTxId :=
  let fullHash := sipHash nonce 0 (wordBytes txHash)
  ⟨(leBytes 8 fullHash.toNat).take 6,shortBytes fullHash⟩

def prefilled (txHashes : List Hash) (i : Nat) : Option PrefilledTx :=
  txHashes[i]?.map fun txHash => ⟨BitVec.ofNat 16 i,txHash,[]⟩

def createCompactBlock (params : CompactBlockParams) : CompactBlock :=
  { headerHash := params.headerHash
    blockHeight := params.blockHeight
    parentHash := params.parentHash
    timestamp := params.timestamp
    shortTxids := params.txHashes.map fun hash => calculateShortId sipHash hash params.nonce
    prefilledTxs := params.prefillIndices.filterMap (prefilled params.txHashes)
    nonce := params.nonce }

end Relay

inductive ReconstructionResult where
  | success (blockHash : Hash) (txHashes : List Hash)
  | missingTransactions (indices : List (BitVec 16))
  deriving DecidableEq

abbrev MempoolLookup := List ShortTxId → U64 → List (Option Hash)

variable (compact : CompactBlock)

def missingAt (entry : Option Hash × Nat) : Option (BitVec 16) :=
  let isPrefilled := compact.prefilledTxs.any fun p => p.index == BitVec.ofNat 16 entry.2
  if entry.1.isNone ∧ !isPrefilled then some (BitVec.ofNat 16 entry.2) else none

def chosenAt (entry : Option Hash × Nat) : Hash :=
  (((compact.prefilledTxs.find? fun p => p.index == BitVec.ofNat 16 entry.2).map PrefilledTx.txHash).or entry.1).getD 0

def reconstructBlock (mempoolLookup : MempoolLookup) : ReconstructionResult :=
  let foundTxs := mempoolLookup compact.shortTxids compact.nonce
  let missing := foundTxs.zipIdx.filterMap (missingAt compact)
  if missing.isEmpty then .success compact.headerHash (foundTxs.zipIdx.map (chosenAt compact))
  else .missingTransactions missing

def serializeCompactBlock : Bytes :=
  let count : BitVec 16 := BitVec.ofNat 16 compact.shortTxids.length
  wordBytes compact.headerHash ++ leBytes 8 compact.nonce.toNat ++ leBytes 2 count.toNat ++
    compact.shortTxids.flatMap Subtype.val ++ List.replicate 33 0 ++ List.replicate 64 0

structure ParsedCompactBlock where
  shortIds : List ShortTxId
  nonce : U64
  proposerPubkey : Bytes
  signature : Bytes
  deriving DecidableEq

def slice (data : Bytes) (start stop : Nat) : Bytes := (data.drop start).take (stop - start)

def parseShortIds (data : Bytes) : Nat → Nat → List ShortTxId × Nat
  | 0,offset => ([],offset)
  | count+1,offset =>
    match tryIntoArray 6 (slice data offset (offset + 6)) with
    | none => ([],offset)
    | some shortId =>
      let rest := parseShortIds data count (offset + 6)
      (shortId::rest.1,rest.2)

def minCompactBlockSize : Nat := 48

def parseCompactBlock (data : Bytes) : Except PropagationError ParsedCompactBlock :=
  if data.length < minCompactBlockSize then .error (.malformedCompactBlock minCompactBlockSize data.length)
  else
    let nonce : U64 := BitVec.ofNat 64 (leNumber (slice data 32 40))
    let count := leNumber (slice data 40 42)
    let read := parseShortIds data count 42
    let offset := read.2
    let proposerPubkey := if offset + 33 ≤ data.length then slice data offset (offset + 33) else List.replicate 33 0
    let offset := offset + 33
    let signature := if offset + 64 ≤ data.length then slice data offset (offset + 64) else List.replicate 64 0
    .ok ⟨read.1,nonce,proposerPubkey,signature⟩

def prefilledAt (params : CompactBlockParams) (i : Nat) : Option Nat :=
  params.prefillIndices.find? fun j => j < params.txHashes.length ∧ j % 2^16 = i % 2^16

def PrefillsFit (params : CompactBlockParams) : Prop :=
  ∀ i < params.txHashes.length, ∀ j, prefilledAt params i = some j → params.txHashes[j]? = params.txHashes[i]?

def ShortIdsDistinct (sipHash : U64 → U64 → Bytes → U64) (params : CompactBlockParams) : Prop :=
  ∀ a ∈ params.txHashes, ∀ b ∈ params.txHashes,
    calculateShortId sipHash a params.nonce = calculateShortId sipHash b params.nonce → a = b

def Knows (sipHash : U64 → U64 → Bytes → U64) (params : CompactBlockParams) (lookup : MempoolLookup) : Prop :=
  List.Forall₂ (fun id answer => ∃ tx ∈ params.txHashes, calculateShortId sipHash tx params.nonce = id ∧ answer = some tx)
    (createCompactBlock sipHash params).shortTxids (lookup (createCompactBlock sipHash params).shortTxids params.nonce)

section Reconstruction
variable {sipHash : U64 → U64 → Bytes → U64} {params : CompactBlockParams} {lookup : MempoolLookup}

theorem answersAll (distinct : ShortIdsDistinct sipHash params) (knows : Knows sipHash params lookup) :
    lookup (createCompactBlock sipHash params).shortTxids params.nonce = params.txHashes.map some := by
  have part : ∀ {txs : List Hash} {answers : List (Option Hash)}, txs ⊆ params.txHashes →
      List.Forall₂ (fun id answer => ∃ tx ∈ params.txHashes, calculateShortId sipHash tx params.nonce = id ∧ answer = some tx)
        (txs.map fun hash => calculateShortId sipHash hash params.nonce) answers → answers = txs.map some := by
    intro txs answers inside all
    induction txs generalizing answers with
    | nil =>
      cases all
      rfl
    | cons tx rest ih =>
      cases all with
      | cons first later =>
        obtain ⟨found,mem,same,rfl⟩ := first
        have here := distinct found mem tx (inside mem_cons_self) same
        rw [ih (fun t mem => inside (mem_cons_of_mem _ mem)) later,here]
        rfl
  exact part (List.Subset.refl _) knows

theorem prefilledIndex {i j} : BitVec.ofNat 16 j = BitVec.ofNat 16 i ↔ j % 2^16 = i % 2^16 := by
  rw [← BitVec.toNat_inj,BitVec.toNat_ofNat,BitVec.toNat_ofNat]

theorem prefilledHere (i j) : (prefilled params.txHashes j).any (fun p => p.index == BitVec.ofNat 16 i) =
    decide (j < params.txHashes.length ∧ j % 2^16 = i % 2^16) := by
  unfold prefilled
  cases found : params.txHashes[j]? with
  | none =>
    have outside := getElem?_eq_none_iff.mp found
    simp [outside]
  | some tx =>
    have inside := (List.getElem?_eq_some_iff.mp found).1
    simp only [inside,true_and]
    exact Bool.eq_iff_iff.mpr (by rw [Option.map_some,Option.any_some,beq_iff_eq,prefilledIndex,decide_eq_true_eq])

variable (sipHash) in
theorem prefilledFound (i) :
    ((createCompactBlock sipHash params).prefilledTxs.find? fun p => p.index == BitVec.ofNat 16 i).map PrefilledTx.txHash =
      (prefilledAt params i).bind (params.txHashes[·]?) := by
  unfold createCompactBlock prefilledAt
  dsimp only
  rw [find?_filterMap]
  simp only [prefilledHere]
  cases params.prefillIndices.find? fun j => decide (j < params.txHashes.length ∧ j % 2^16 = i % 2^16) with
  | none => rfl
  | some j =>
    unfold prefilled
    rw [Option.bind_some,Option.bind_some]
    cases params.txHashes[j]? <;> rfl

theorem reconstructed (distinct : ShortIdsDistinct sipHash params) (knows : Knows sipHash params lookup) :
    reconstructBlock (createCompactBlock sipHash params) lookup = .success params.headerHash
      (params.txHashes.zipIdx.map fun entry => ((prefilledAt params entry.2).bind (params.txHashes[·]?)).getD entry.1) := by
  have answers : lookup (createCompactBlock sipHash params).shortTxids (createCompactBlock sipHash params).nonce =
      params.txHashes.map some := answersAll distinct knows
  have none' : (params.txHashes.map some).zipIdx.filterMap (missingAt (createCompactBlock sipHash params)) = [] := by
    rw [zipIdx_map,filterMap_map]
    refine filterMap_eq_nil_iff.mpr fun entry _ => ?_
    simp [missingAt]
  unfold reconstructBlock
  dsimp only
  rw [answers,none',if_pos isEmpty_nil,zipIdx_map,map_map]
  refine congrArg (ReconstructionResult.success params.headerHash) (map_congr_left fun entry _ => ?_)
  rw [← prefilledFound sipHash]
  change chosenAt _ (some entry.1,entry.2) = _
  unfold chosenAt
  cases (createCompactBlock sipHash params).prefilledTxs.find? fun p => p.index == BitVec.ofNat 16 entry.2 <;> rfl

theorem prefilledAtSome {i j} (first : prefilledAt params i = some j) :
    j < params.txHashes.length ∧ j % 2^16 = i % 2^16 := by
  have holds := find?_some first
  exact of_decide_eq_true holds

theorem chosenSame {i tx} (here : params.txHashes[i]? = some tx) :
    ((prefilledAt params i).bind (params.txHashes[·]?)).getD tx = tx ↔
      ∀ j, prefilledAt params i = some j → params.txHashes[j]? = params.txHashes[i]? := by
  rw [here]
  cases first : prefilledAt params i with
  | none => simp
  | some j =>
    have inside := (prefilledAtSome first).1
    have there := getElem?_eq_getElem inside
    rw [Option.bind_some,there,Option.getD_some]
    constructor
    · rintro rfl k same
      cases same
      exact there
    · intro each
      exact Option.some.inj (there.symm.trans (each j rfl))

theorem reconstructedIff (distinct : ShortIdsDistinct sipHash params) (knows : Knows sipHash params lookup) :
    reconstructBlock (createCompactBlock sipHash params) lookup = .success params.headerHash params.txHashes ↔
      PrefillsFit params := by
  rw [reconstructed distinct knows,ReconstructionResult.success.injEq,List.ext_getElem?_iff]
  simp only [true_and,List.getElem?_map,List.getElem?_zipIdx,Nat.zero_add]
  constructor
  · intro same i inside
    have here := getElem?_eq_getElem inside
    have both := same i
    rw [here] at both
    exact (chosenSame here).mp (Option.some.inj both)
  · intro fit i
    cases here : params.txHashes[i]? with
    | none => rfl
    | some tx => exact congrArg some ((chosenSame here).mpr (fit i (List.getElem?_eq_some_iff.mp here).1))

theorem shortBlockFits (short : params.txHashes.length ≤ 2^16) : PrefillsFit params := by
  intro i inside j first
  obtain ⟨known,same⟩ := prefilledAtSome first
  rw [Nat.mod_eq_of_lt (by omega),Nat.mod_eq_of_lt (by omega)] at same
  rw [same]

end Reconstruction

section Wire
variable {data : Bytes}

theorem sliceAhead {start} {code rest : Bytes} (ahead : data.drop start = code ++ rest) :
    slice data start (start + code.length) = code := by
  unfold slice
  rw [ahead,Nat.add_sub_cancel_left,take_left]

theorem dropAhead {start} {code rest : Bytes} (ahead : data.drop start = code ++ rest) :
    data.drop (start + code.length) = rest := by
  rw [← drop_drop,ahead,drop_left]

theorem parseIdsAhead {start count} {ids : List ShortTxId} {rest : Bytes}
    (ahead : data.drop start = ids.flatMap Subtype.val ++ rest) (within : count ≤ ids.length) :
    parseShortIds data count start = (ids.take count,start + 6 * count) := by
  induction count generalizing start ids with
  | zero => rfl
  | succ count ih =>
    match ids with
    | [] => cases within
    | id::others =>
      rw [flatMap_cons,append_assoc] at ahead
      have first := sliceAhead ahead
      have behind := dropAhead ahead
      rw [id.property] at first behind
      unfold parseShortIds
      rw [first,tryIntoArray,dif_pos id.property]
      dsimp only
      rw [ih behind (Nat.le_of_succ_le_succ within)]
      refine Prod.ext rfl ?_
      dsimp only
      omega

theorem serializedParts (compact) : (serializeCompactBlock compact).drop 32 = leBytes 8 compact.nonce.toNat ++
      (leBytes 2 (compact.shortTxids.length % 2^16) ++
        (compact.shortTxids.flatMap Subtype.val ++ (List.replicate 33 0 ++ List.replicate 64 0))) := by
  unfold serializeCompactBlock
  simp only [append_assoc,BitVec.toNat_ofNat]
  exact drop_left' (wordBytesLength compact.headerHash)

theorem serializedLength (compact) : ¬ (serializeCompactBlock compact).length < minCompactBlockSize := by
  have size := congrArg List.length (serializedParts compact)
  simp only [length_drop,length_append,leBytesLength,length_replicate] at size
  unfold minCompactBlockSize
  omega

theorem parseSerialized (compact) : ∃ parsed, parseCompactBlock (serializeCompactBlock compact) = .ok parsed ∧
    parsed.nonce = compact.nonce ∧ parsed.shortIds = compact.shortTxids.take (compact.shortTxids.length % 2^16) := by
  have parts := serializedParts compact
  have nonce := sliceAhead parts
  have behind := dropAhead parts
  rw [leBytesLength] at nonce behind
  have count := sliceAhead behind
  have ids := dropAhead behind
  rw [leBytesLength] at count ids
  unfold parseCompactBlock
  rw [if_neg (serializedLength compact)]
  refine ⟨_,rfl,?_,?_⟩
  · change BitVec.ofNat 64 (leNumber (slice _ 32 (32 + 8))) = _
    rw [nonce,leNumberWhole compact.nonce.isLt,BitVec.ofNat_toNat,BitVec.setWidth_eq]
  · change (parseShortIds _ (leNumber (slice _ 40 (40 + 2))) 42).1 = _
    have narrow : compact.shortTxids.length % 2^16 < 256^2 := Nat.mod_lt _ (by decide)
    rw [count,leNumberWhole narrow,parseIdsAhead ids (Nat.mod_le _ _)]

end Wire

theorem compactRelayIff (sipHash : U64 → U64 → Bytes → U64) (params : CompactBlockParams) (lookup : MempoolLookup)
    (distinct : ShortIdsDistinct sipHash params) (knows : Knows sipHash params lookup) :
    (reconstructBlock (createCompactBlock sipHash params) lookup = .success params.headerHash params.txHashes ↔
      PrefillsFit params) ∧ (params.txHashes.length ≤ 2^16 → PrefillsFit params) ∧
    (∃ parsed, parseCompactBlock (serializeCompactBlock (createCompactBlock sipHash params)) = .ok parsed ∧
      parsed.nonce = params.nonce ∧
      (parsed.shortIds = (createCompactBlock sipHash params).shortTxids ↔ params.txHashes.length < 2^16)) := by
  obtain ⟨parsed,ok,nonce,ids⟩ := parseSerialized (createCompactBlock sipHash params)
  refine ⟨reconstructedIff distinct knows,shortBlockFits,parsed,ok,nonce,?_⟩
  have size : (createCompactBlock sipHash params).shortTxids.length = params.txHashes.length := length_map _
  rw [ids,take_eq_self_iff,size]
  constructor
  · intro covers
    have narrowed := Nat.mod_lt params.txHashes.length (show 0 < 2^16 by decide)
    omega
  · intro short
    rw [Nat.mod_eq_of_lt short]

def ownAnswers (params : CompactBlockParams) : MempoolLookup := fun _ _ => params.txHashes.map some

theorem knowsOwn (sipHash) (params) : Knows sipHash params (ownAnswers params) := by
  unfold Knows ownAnswers createCompactBlock
  rw [List.forall₂_map_left_iff,List.forall₂_map_right_iff,List.forall₂_same]
  exact fun tx mem => ⟨tx,mem,rfl,rfl⟩

def lastByte (_ _ : U64) (message : Bytes) : U64 := BitVec.ofNat 64 (message.getLastD 0).toNat

def threeTransactions : CompactBlockParams := ⟨1,0,0,0,[5,6,7],9,[0,2]⟩

theorem compactRelayThree : ShortIdsDistinct lastByte threeTransactions ∧
    Knows lastByte threeTransactions (ownAnswers threeTransactions) ∧
    reconstructBlock (createCompactBlock lastByte threeTransactions) (ownAnswers threeTransactions) = .success 1 [5,6,7] := by
  have apart : (threeTransactions.txHashes.map fun hash => calculateShortId lastByte hash threeTransactions.nonce).Nodup := by
    decide +kernel
  have distinct : ShortIdsDistinct lastByte threeTransactions :=
    fun a memA b memB same => inj_on_of_nodup_map apart memA memB same
  have knows := knowsOwn lastByte threeTransactions
  obtain ⟨exact',fits,_⟩ := compactRelayIff lastByte threeTransactions _ distinct knows
  exact ⟨distinct,knows,exact'.mpr (fits (by decide))⟩

def longBlock : CompactBlockParams := ⟨1,0,0,0,List.replicate 65536 5 ++ [6],9,[65536]⟩

theorem longLength : longBlock.txHashes.length = 65537 := by
  unfold longBlock
  rw [length_append,length_replicate,length_singleton]

theorem longDistinct : ShortIdsDistinct lastByte longBlock := by
  have either {tx : Hash} (mem : tx ∈ longBlock.txHashes) : tx = 5 ∨ tx = 6 := by
    rcases mem_append.mp mem with front | last
    · exact .inl (mem_replicate.mp front).2
    · exact .inr (mem_singleton.mp last)
  have apart : calculateShortId lastByte 5 longBlock.nonce ≠ calculateShortId lastByte 6 longBlock.nonce := by decide +kernel
  intro a memA b memB same
  rcases either memA with rfl | rfl <;> rcases either memB with rfl | rfl
  · rfl
  · exact absurd same apart
  · exact absurd same.symm apart
  · rfl

theorem longUnfit : ¬ PrefillsFit longBlock := by
  intro fit
  have first : prefilledAt longBlock 0 = some 65536 := by
    unfold prefilledAt
    rw [longLength]
    rfl
  have same := fit 0 (by rw [longLength]; decide) 65536 first
  unfold longBlock at same
  rw [getElem?_append_right (by rw [length_replicate]),length_replicate,
    getElem?_append_left (by rw [length_replicate]; decide),getElem?_replicate] at same
  exact absurd same (by decide)

theorem longBlockChanged : ShortIdsDistinct lastByte longBlock ∧ Knows lastByte longBlock (ownAnswers longBlock) ∧
    (∃ txHashes, reconstructBlock (createCompactBlock lastByte longBlock) (ownAnswers longBlock) = .success 1 txHashes ∧
      txHashes ≠ longBlock.txHashes) ∧
    (∃ parsed, parseCompactBlock (serializeCompactBlock (createCompactBlock lastByte longBlock)) = .ok parsed ∧
      parsed.shortIds.length = 1 ∧ (createCompactBlock lastByte longBlock).shortTxids.length = 65537) := by
  have knows := knowsOwn lastByte longBlock
  have success := reconstructed longDistinct knows
  have size : (createCompactBlock lastByte longBlock).shortTxids.length = 65537 := (length_map _).trans longLength
  obtain ⟨parsed,ok,_,ids⟩ := parseSerialized (createCompactBlock lastByte longBlock)
  refine ⟨longDistinct,knows,⟨_,success,fun same => ?_⟩,parsed,ok,?_,size⟩
  · refine longUnfit ((reconstructedIff longDistinct knows).mp ?_)
    rw [success,same]
  · rw [ids,length_take,size]
    decide

end QuantumChain.Propagation
