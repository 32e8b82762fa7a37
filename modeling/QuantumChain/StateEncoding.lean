import QuantumChain.StateTrie
import QuantumChain.PrefixCode

/-! The encodings that are hashed are read back in one way only.
No decoder of the source is involved. -/
namespace QuantumChain.State
open PrefixCode (Delimited)
open List

namespace Nibbles

def Valid (path : Nibbles) : Prop := ∀ nibble ∈ path, nibble < 16

def decodeHexPrefix : Bytes → Nibbles × Bool
  | [] => ([],false)
  | first::rest =>
    let flag := first >>> 4
    ((if flag % 2 = 1 then [first &&& 0x0F] else []) ++ fromBytes rest,decide (2 ≤ flag))

theorem packedNibbles {a b : UInt8} (high : a < 16) (low : b < 16) :
    ((a <<< 4) ||| b) >>> 4 = a ∧ ((a <<< 4) ||| b) &&& 0x0F = b := by
  have both : ∀ x y : Fin 16, ((UInt8.ofNat x <<< 4) ||| UInt8.ofNat y) >>> 4 = UInt8.ofNat x ∧
      ((UInt8.ofNat x <<< 4) ||| UInt8.ofNat y) &&& 0x0F = UInt8.ofNat y := by decide +kernel
  have here := both ⟨a.toNat,UInt8.lt_iff_toNat_lt.mp high⟩ ⟨b.toNat,UInt8.lt_iff_toNat_lt.mp low⟩
  simpa using here

theorem unpackedByte (b : UInt8) : ((b >>> 4) <<< 4) ||| (b &&& 0x0F) = b ∧ b >>> 4 < 16 ∧ b &&& 0x0F < 16 := by
  have all : ∀ x : Fin 256, ((UInt8.ofNat x >>> 4) <<< 4) ||| (UInt8.ofNat x &&& 0x0F) = UInt8.ofNat x ∧
      UInt8.ofNat x >>> 4 < 16 ∧ UInt8.ofNat x &&& 0x0F < 16 := by decide +kernel
  have here := all ⟨b.toNat,b.toNat_lt⟩
  simpa using here

theorem fromBytesValid (bytes) : Valid (fromBytes bytes) := by
  intro nibble mem
  obtain ⟨b,_,half⟩ := mem_flatMap.mp mem
  obtain ⟨_,high,low⟩ := unpackedByte b
  simp only [mem_cons,not_mem_nil,or_false] at half
  rcases half with rfl | rfl
  · exact high
  · exact low

theorem packFromBytes (bytes) : packPairs (fromBytes bytes) = bytes := by
  induction bytes with
  | nil => rfl
  | cons b rest ih =>
    have split : fromBytes (b::rest) = (b >>> 4)::(b &&& 0x0F)::fromBytes rest := rfl
    rw [split,packPairs,ih,(unpackedByte b).1]

theorem fromBytesInj {a b} (same : fromBytes a = fromBytes b) : a = b := by
  rw [← packFromBytes a,same,packFromBytes]

theorem unpackPairs : (path : Nibbles) → path.Valid → path.length % 2 = 0 → fromBytes (packPairs path) = path
  | [],_,_ => rfl
  | [a],_,even => absurd even (by simp)
  | a::b::rest,valid,even => by
    obtain ⟨high,low⟩ := packedNibbles (valid a (by simp)) (valid b (by simp))
    have later := unpackPairs rest (fun n mem => valid n (by simp [mem])) (by simp only [length_cons] at even; omega)
    have split : fromBytes (packPairs (a::b::rest)) =
        (((a <<< 4) ||| b) >>> 4)::(((a <<< 4) ||| b) &&& 0x0F)::fromBytes (packPairs rest) := rfl
    rw [split,high,low,later]

theorem decodeEncode {path} (valid : path.Valid) (isLeaf) :
    decodeHexPrefix (encodeHexPrefix path isLeaf) = (path,isLeaf) := by
  cases path with
  | nil => cases isLeaf <;> rfl
  | cons first rest =>
    have zero : (0 : UInt8) < 16 := by decide
    by_cases odd : (first::rest).length % 2 = 1
    · have flag : ((if isLeaf then 2 else 0) + 1 : UInt8) < 16 := by cases isLeaf <;> decide
      obtain ⟨high,low⟩ := packedNibbles flag (valid first mem_cons_self)
      have tail := unpackPairs rest (fun n mem => valid n (mem_cons_of_mem _ mem))
        (by rw [length_cons] at odd; omega)
      simp only [encodeHexPrefix,odd,if_true,decodeHexPrefix,high,low,tail]
      cases isLeaf <;> rfl
    · have flag : ((if isLeaf then 2 else 0) + 0 : UInt8) < 16 := by cases isLeaf <;> decide
      obtain ⟨high,_⟩ := packedNibbles flag zero
      rw [UInt8.or_zero] at high
      have tail := unpackPairs (first::rest) valid (by omega)
      simp only [encodeHexPrefix,odd,if_false,decodeHexPrefix,high,tail]
      cases isLeaf <;> rfl

theorem encodeHexPrefixInj {path other isLeaf isLeaf'} (valid : path.Valid) (valid' : other.Valid)
    (same : encodeHexPrefix path isLeaf = encodeHexPrefix other isLeaf') : path = other ∧ isLeaf = isLeaf' := by
  have decoded := decodeEncode valid isLeaf
  rw [same,decodeEncode valid' isLeaf'] at decoded
  obtain ⟨left,right⟩ := Prod.mk.inj decoded
  exact ⟨left.symm,right.symm⟩

theorem packPairsLength : (path : Nibbles) → (packPairs path).length ≤ path.length
  | [] => Nat.le_refl _
  | [a] => Nat.le_refl _
  | a::b::rest => by
    have later := packPairsLength rest
    simp only [packPairs,length_cons]
    omega

theorem encodeHexPrefixLength (path) (isLeaf) : (encodeHexPrefix path isLeaf).length ≤ path.length + 1 := by
  unfold encodeHexPrefix
  dsimp only
  split
  · rename_i first rest
    have short := packPairsLength rest
    have whole := packPairsLength (first::rest)
    split
    · simp only [length_cons]
      omega
    · simp only [length_cons] at *
      omega
  · simp

end Nibbles

namespace Rlp

def lengthHead (base : UInt8) (n : Nat) : Bytes :=
  if n < 56 then [base + UInt8.ofNat n]
  else (base + 55 + UInt8.ofNat (encodeLength n).length) :: encodeLength n

theorem encodeLengthSize (n) : 1 ≤ (encodeLength n).length ∧ (encodeLength n).length ≤ 8 := by
  have short : ((beBytes 8 n).dropWhile (· == 0)).length ≤ 8 := by
    have sub := (dropWhile_sublist (l := beBytes 8 n) (fun b : UInt8 => b == 0)).length_le
    simpa [beBytes,leBytesLength] using sub
  unfold encodeLength
  split
  · decide
  · rename_i nonempty
    exact ⟨length_pos_iff.mpr nonempty,short⟩

theorem encodeLengthNumber {n} (bound : n < 2^64) : beNumber (encodeLength n) = n := by
  have value : beNumber ((beBytes 8 n).dropWhile (· == 0)) = n := by
    rw [beNumberTrimmed,beNumberBytes]
    exact Nat.mod_eq_of_lt bound
  unfold encodeLength
  split
  · rename_i trimmed
    rw [trimmed] at value
    exact value
  · exact value

theorem headByte {base} (room : base.toNat ≤ 192) {n : Nat} (small : n < 64) :
    (base + UInt8.ofNat n).toNat = base.toNat + n := by
  rw [UInt8.toNat_add,UInt8.toNat_ofNat']
  omega

theorem longHeadByte {base} (room : base.toNat ≤ 192) (n) :
    (base + 55 + UInt8.ofNat (encodeLength n).length).toNat = base.toNat + 55 + (encodeLength n).length := by
  have size := (encodeLengthSize n).2
  have sum : base + 55 + UInt8.ofNat (encodeLength n).length = base + UInt8.ofNat (55 + (encodeLength n).length) := by
    rw [UInt8.ofNat_add,UInt8.add_assoc]
    rfl
  rw [sum,headByte room (by omega)]
  omega

theorem headDelimited (base : UInt8) (room : base.toNat ≤ 192) : Delimited (· < 2^64) (lengthHead base) := by
  have apart : ∀ a b, a < 56 → base + UInt8.ofNat a ≠ base + 55 + UInt8.ofNat (encodeLength b).length := by
    intro a b short same
    have bytes := congrArg UInt8.toNat same
    have size := (encodeLengthSize b).1
    rw [headByte room (by omega),longHeadByte room] at bytes
    omega
  intro a b left right s t same
  unfold lengthHead at same
  split at same
  · rename_i shortA
    split at same
    · rename_i shortB
      obtain ⟨first,rest⟩ := List.cons.inj same
      have bytes := congrArg UInt8.toNat first
      rw [headByte room (by omega),headByte room (by omega)] at bytes
      exact ⟨Nat.add_left_cancel bytes,rest⟩
    · exact absurd (List.cons.inj same).1 (apart a b shortA)
  · split at same
    · rename_i shortB
      exact absurd (List.cons.inj same).1.symm (apart b a shortB)
    · obtain ⟨first,rest⟩ := List.cons.inj same
      have bytes := congrArg UInt8.toNat first
      rw [longHeadByte room,longHeadByte room] at bytes
      obtain ⟨digits,rest⟩ := append_inj rest (Nat.add_left_cancel bytes)
      refine ⟨?_,rest⟩
      rw [← encodeLengthNumber left,digits,encodeLengthNumber right]

theorem headFirst (base) (room : base.toNat ≤ 192) (n) :
    ∃ first rest, lengthHead base n = first::rest ∧ base.toNat ≤ first.toNat := by
  unfold lengthHead
  split
  · refine ⟨_,_,rfl,?_⟩
    rw [headByte room (by omega)]
    omega
  · refine ⟨_,_,rfl,?_⟩
    rw [longHeadByte room]
    omega

theorem headLength (base) (n) : (lengthHead base n).length ≤ 9 := by
  have size := (encodeLengthSize n).2
  unfold lengthHead
  split
  · simp
  · simp only [length_cons]
    omega

theorem listHeaderHead (total) : listHeader total = lengthHead 0xc0 total := rfl

def Lone (data : Bytes) : Prop := ∃ single, data = [single] ∧ single < 0x80

theorem encodeLone {data} (lone : Lone data) : encodeBytes data = data := by
  obtain ⟨single,rfl,small⟩ := lone
  exact if_pos small

theorem encodeHeaded {data} (headed : ¬ Lone data) : encodeBytes data = lengthHead 0x80 data.length ++ data := by
  unfold encodeBytes
  split
  · rename_i single
    have large : ¬ single < 0x80 := fun small => headed ⟨single,rfl,small⟩
    rw [if_neg large]
    rfl
  · unfold lengthHead
    split <;> rfl

theorem encodeBytesDelimited : Delimited (fun data : Bytes => data.length < 2^64) encodeBytes := by
  have room : (0x80 : UInt8).toNat ≤ 192 := by decide
  have apart : ∀ a b s t, Lone a → ¬ Lone b → encodeBytes a ++ s ≠ encodeBytes b ++ t := by
    intro a b s t lone headed same
    obtain ⟨first,rest,shape,large⟩ := headFirst 0x80 room b.length
    rw [encodeLone lone,encodeHeaded headed,shape] at same
    obtain ⟨single,rfl,small⟩ := lone
    rw [(List.cons.inj same).1] at small
    exact absurd (UInt8.lt_iff_toNat_lt.mp small) (Nat.not_lt.mpr large)
  intro a b left right s t same
  by_cases loneA : Lone a
  · by_cases loneB : Lone b
    · rw [encodeLone loneA,encodeLone loneB] at same
      obtain ⟨x,rfl,_⟩ := loneA
      obtain ⟨y,rfl,_⟩ := loneB
      exact append_inj same rfl
    · exact absurd same (apart a b s t loneA loneB)
  · by_cases loneB : Lone b
    · exact absurd same.symm (apart b a t s loneB loneA)
    · rw [encodeHeaded loneA,encodeHeaded loneB] at same
      exact PrefixCode.framed (headDelimited 0x80 room) a b left right s t same

theorem encodeBytesOccupied (data) : encodeBytes data ≠ [] := by
  by_cases lone : Lone data
  · rw [encodeLone lone]
    obtain ⟨single,rfl,_⟩ := lone
    exact cons_ne_nil _ _
  · obtain ⟨first,rest,shape,_⟩ := headFirst 0x80 (by decide) data.length
    rw [encodeHeaded lone,shape]
    exact cons_ne_nil _ _

theorem encodeBytesLength (data) : (encodeBytes data).length ≤ data.length + 9 := by
  by_cases lone : Lone data
  · rw [encodeLone lone]
    omega
  · have head := headLength 0x80 data.length
    rw [encodeHeaded lone,length_append]
    omega

theorem encodeItems (items) :
    encodeListItems items = lengthHead 0xc0 (items.flatMap encodeBytes).length ++ items.flatMap encodeBytes := by
  rw [encodeListItems,length_flatMap,listHeaderHead]

theorem encodeTwo (a b) : encodeTwoItems a b = encodeListItems [a,b] := by
  simp [encodeTwoItems,encodeListItems,append_assoc]

theorem itemsLength {bound} {items : List Bytes} (sizes : ∀ item ∈ items, item.length ≤ bound) :
    (items.flatMap encodeBytes).length ≤ items.length * (bound + 9) := by
  induction items with
  | nil => simp
  | cons item rest ih =>
    have later := ih (fun i mem => sizes i (mem_cons_of_mem _ mem))
    have here := encodeBytesLength item
    have size := sizes item mem_cons_self
    rw [flatMap_cons,length_append,length_cons,Nat.add_mul]
    omega

def Fits (items : List Bytes) : Prop := items.length ≤ 17 ∧ ∀ item ∈ items, item.length ≤ 2^56

theorem Fits.total {items} (fits : Fits items) : (items.flatMap encodeBytes).length < 2^64 := by
  calc (items.flatMap encodeBytes).length ≤ items.length * (2^56 + 9) := itemsLength fits.2
    _ ≤ 17 * (2^56 + 9) := Nat.mul_le_mul_right _ fits.1
    _ < 2^64 := by decide

theorem encodeItemsInj {items other} (fits : Fits items) (fits' : Fits other)
    (same : encodeListItems items = encodeListItems other) : items = other := by
  rw [encodeItems,encodeItems] at same
  have bodies := (PrefixCode.framed (headDelimited 0xc0 (by decide))).injective fits.total fits'.total same
  refine encodeBytesDelimited.list (fun data _ => encodeBytesOccupied data) ?_ ?_ bodies
  · exact fun item mem => Nat.lt_of_le_of_lt (fits.2 item mem) (by decide)
  · exact fun item mem => Nat.lt_of_le_of_lt (fits'.2 item mem) (by decide)

theorem encodeItemsFirst (items) : ∃ first rest, encodeListItems items = first::rest ∧ 192 ≤ first.toNat := by
  obtain ⟨first,rest,shape,large⟩ := headFirst 0xc0 (by decide) (items.flatMap encodeBytes).length
  exact ⟨first,rest ++ items.flatMap encodeBytes,by rw [encodeItems,shape,cons_append],large⟩

theorem encodeItemsApart (items) : encodeListItems items ≠ [0x80] := by
  intro single
  obtain ⟨first,rest,shape,large⟩ := encodeItemsFirst items
  rw [shape] at single
  rw [(List.cons.inj single).1] at large
  exact absurd large (by decide)

def minimal (width value : Nat) : Bytes := (beBytes width value).dropWhile (· == 0)

theorem minimalLength (width value) : (minimal width value).length ≤ width := by
  have sub := (dropWhile_sublist (l := beBytes width value) (fun b : UInt8 => b == 0)).length_le
  simpa [minimal,beBytes,leBytesLength] using sub

theorem minimalNumber {width value} (bound : value < 256^width) : beNumber (minimal width value) = value := by
  rw [minimal,beNumberTrimmed,beNumberBytes,Nat.mod_eq_of_lt bound]

theorem minimalLead (width value) : (minimal width value).head? ≠ some 0 := by
  have head := List.head?_dropWhile_not (fun b : UInt8 => b == 0) (beBytes width value)
  rw [← minimal] at head
  intro zero
  rw [zero] at head
  exact absurd head (by decide)

theorem minimalUnique {width bytes} (short : bytes.length ≤ width) (lead : bytes.head? ≠ some 0) :
    minimal width (beNumber bytes) = bytes := by
  unfold minimal beBytes beNumber
  rw [leBytesNumber (by rwa [length_reverse]),reverse_append,reverse_reverse,reverse_replicate,
    dropWhile_append_of_pos (p := (· == 0)) fun b mem => by rw [(mem_replicate.mp mem).2]; rfl]
  cases bytes with
  | nil => rfl
  | cons b bytes =>
    refine dropWhile_cons_of_neg ?_
    intro zero
    exact lead (congrArg some (beq_iff_eq.mp zero))

theorem minimalFirst {width value first} {rest : Bytes} (shape : minimal width value = first::rest) :
    256^rest.length ≤ beNumber (first::rest) := by
  have nonzero : first ≠ 0 := by
    intro zero
    have lead := minimalLead width value
    rw [shape,zero] at lead
    exact lead rfl
  have positive := Nat.pos_of_ne_zero (fun zero => nonzero (UInt8.toNat_inj.mp zero))
  rw [beNumber,reverse_cons,leNumberAppend,length_reverse]
  exact Nat.le_trans (Nat.le_mul_of_pos_right _ positive) (Nat.le_add_left _ _)

theorem encodeUintMinimal {width value} (bound : value < 256^width) (narrow : width < 56) :
    encodeUint width value = encodeBytes (minimal width value) := by
  have number := minimalNumber bound
  have short := minimalLength width value
  unfold encodeUint
  cases shape : minimal width value with
  | nil =>
    rw [shape] at number
    have zero : value = 0 := number.symm
    rw [if_pos zero]
    rfl
  | cons first rest =>
    have front := minimalFirst shape
    rw [shape] at number
    rw [number] at front
    have nonzero : value ≠ 0 := fun zero => absurd front (by rw [zero]; exact Nat.not_le.mpr (Nat.pow_pos (by decide)))
    rw [if_neg nonzero]
    cases rest with
    | nil =>
      have one : first.toNat = value := by simpa [beNumber,leNumber] using number
      have byte : UInt8.ofNat value = first := by rw [← one,UInt8.ofNat_toNat]
      by_cases small : value < 128
      · have lone : first < 0x80 := UInt8.lt_iff_toNat_lt.mpr (one ▸ small)
        rw [if_pos small,byte,encodeLone ⟨first,rfl,lone⟩]
      · have large : ¬ Lone [first] := by
          rintro ⟨single,same,lone⟩
          cases same
          exact small (one ▸ UInt8.lt_iff_toNat_lt.mp lone)
        have bytes : (beBytes width value).dropWhile (· == 0) = [first] := shape
        rw [if_neg small,bytes,encodeHeaded large]
        rfl
    | cons second rest =>
      have big : ¬ value < 128 := by
        have power : 256^1 ≤ 256^(second::rest).length := Nat.pow_le_pow_right (by decide) (by simp)
        omega
      have large : ¬ Lone (first::second::rest) := by
        rintro ⟨single,same,_⟩
        exact absurd (congrArg length same) (by simp)
      have bytes : (beBytes width value).dropWhile (· == 0) = first::second::rest := shape
      rw [shape] at short
      rw [if_neg big,bytes,encodeHeaded large,lengthHead,if_pos (by omega)]
      rfl

end Rlp

def AccountState.items (a : AccountState) : List Bytes :=
  [Rlp.minimal 8 a.nonce.toNat,Rlp.minimal 16 a.balance.toNat,wordBytes a.storageRoot,wordBytes a.codeHash]

theorem AccountState.encodedItems (a : AccountState) : a.rlpEncode = Rlp.encodeListItems a.items := by
  have nonce := @Rlp.encodeUintMinimal 8 _ a.nonce.isLt (by decide)
  have balance := @Rlp.encodeUintMinimal 16 _ a.balance.isLt (by decide)
  rw [Rlp.encodeItems,← Rlp.listHeaderHead,AccountState.rlpEncode,Rlp.encodeList,Rlp.encodeU64,Rlp.encodeU128,nonce,
    balance]
  simp [items,append_assoc]

theorem AccountState.itemLength {a : AccountState} {item} (mem : item ∈ a.items) : item.length ≤ 32 := by
  have nonce := Rlp.minimalLength 8 a.nonce.toNat
  have balance := Rlp.minimalLength 16 a.balance.toNat
  simp only [items,mem_cons,not_mem_nil,or_false] at mem
  rcases mem with rfl | rfl | rfl | rfl
  · omega
  · omega
  · rw [wordBytesLength]
  · rw [wordBytesLength]

theorem AccountState.itemsFit (a : AccountState) : Rlp.Fits a.items :=
  ⟨by simp [items],fun _ mem => (AccountState.itemLength mem).trans (by decide)⟩

theorem AccountState.rlpEncodeInj {a b : AccountState} (same : a.rlpEncode = b.rlpEncode) : a = b := by
  rw [a.encodedItems,b.encodedItems] at same
  have items := Rlp.encodeItemsInj a.itemsFit b.itemsFit same
  simp only [AccountState.items,List.cons.injEq,and_true] at items
  obtain ⟨nonce,balance,storageRoot,codeHash⟩ := items
  have sameNonce : a.nonce.toNat = b.nonce.toNat := by
    rw [← @Rlp.minimalNumber 8 _ a.nonce.isLt,nonce,@Rlp.minimalNumber 8 _ b.nonce.isLt]
  have sameBalance : a.balance.toNat = b.balance.toNat := by
    rw [← @Rlp.minimalNumber 16 _ a.balance.isLt,balance,@Rlp.minimalNumber 16 _ b.balance.isLt]
  cases a
  cases b
  simp only [AccountState.mk.injEq]
  exact ⟨BitVec.eq_of_toNat_eq sameBalance,BitVec.eq_of_toNat_eq sameNonce,wordBytesInj (by decide) codeHash,
    wordBytesInj (by decide) storageRoot⟩

theorem AccountState.encodedLength (a : AccountState) : a.rlpEncode.length ≤ 2^56 := by
  have body := Rlp.itemsLength (fun _ mem => @AccountState.itemLength a _ mem)
  have head := Rlp.headLength 0xc0 (a.items.flatMap Rlp.encodeBytes).length
  have four : a.items.length = 4 := rfl
  rw [a.encodedItems,Rlp.encodeItems,length_append]
  omega

namespace TrieNode

def Sound : TrieNode → Prop
  | .empty => True
  | .leaf path value => path.Valid ∧ path.length ≤ 64 ∧ value.length ≤ 2^56
  | .extension path _ => path.Valid ∧ path.length ≤ 64
  | .branch children value => children.length = 16 ∧ ∀ v, value = some v → v ≠ [0x80] ∧ v.length ≤ 2^56

def items : TrieNode → List Bytes
  | .empty => []
  | .leaf path value => [Nibbles.encodeHexPrefix path true,value]
  | .extension path child => [Nibbles.encodeHexPrefix path false,wordBytes child]
  | .branch children value => children.map (fun child => (child.map wordBytes).getD [0x80]) ++ [value.getD [0x80]]

theorem encodedItems {node : TrieNode} (occupied : node ≠ .empty) : node.rlpEncode = Rlp.encodeListItems node.items := by
  cases node with
  | empty => exact absurd rfl occupied
  | leaf path value => exact Rlp.encodeTwo _ _
  | extension path child => exact Rlp.encodeTwo _ _
  | branch children value => rfl

theorem itemsFit {node : TrieNode} (sound : node.Sound) : Rlp.Fits node.items := by
  cases node with
  | empty => exact ⟨by simp [items],by simp [items]⟩
  | leaf path value =>
    have short := Nibbles.encodeHexPrefixLength path true
    refine ⟨by simp [items],?_⟩
    intro item mem
    simp only [items,mem_cons,not_mem_nil,or_false] at mem
    obtain ⟨_,bound,value⟩ := sound
    rcases mem with rfl | rfl
    · omega
    · exact value
  | extension path child =>
    have short := Nibbles.encodeHexPrefixLength path false
    refine ⟨by simp [items],?_⟩
    intro item mem
    simp only [items,mem_cons,not_mem_nil,or_false] at mem
    obtain ⟨_,bound⟩ := sound
    rcases mem with rfl | rfl
    · omega
    · rw [wordBytesLength]; decide
  | branch children value =>
    obtain ⟨sixteen,payload⟩ := sound
    refine ⟨by simp [items,sixteen],?_⟩
    intro item mem
    rcases mem_append.mp mem with child | last
    · obtain ⟨slot,_,rfl⟩ := mem_map.mp child
      cases slot with
      | none => decide
      | some hash => simp only [Option.map_some,Option.getD_some,wordBytesLength]; decide
    · cases mem_singleton.mp last
      cases value with
      | none => decide
      | some v => exact (payload v rfl).2

theorem childItemInj {a b : Option Hash}
    (same : (a.map wordBytes).getD [0x80] = (b.map wordBytes).getD ([0x80] : Bytes)) : a = b := by
  have size : ∀ h : Hash, wordBytes h ≠ [0x80] := fun h same => by
    have := congrArg length same
    rw [wordBytesLength] at this
    exact absurd this (by decide)
  cases a with
  | none =>
    cases b with
    | none => rfl
    | some h => exact absurd same.symm (size h)
  | some h =>
    cases b with
    | none => exact absurd same (size h)
    | some h' => rw [wordBytesInj (by decide) same]

theorem itemsInj {node other : TrieNode} (sound : node.Sound) (sound' : other.Sound) (some' : node ≠ .empty)
    (some'' : other ≠ .empty) (same : node.items = other.items) : node = other := by
  have count := congrArg length same
  cases node with
  | empty => exact absurd rfl some'
  | leaf path value =>
    cases other with
    | empty => exact absurd rfl some''
    | leaf path' value' =>
      obtain ⟨paths,values⟩ := List.cons.inj same
      rw [(Nibbles.encodeHexPrefixInj sound.1 sound'.1 paths).1,(List.cons.inj values).1]
    | extension path' child =>
      exact absurd (Nibbles.encodeHexPrefixInj sound.1 sound'.1 (List.cons.inj same).1).2 (by decide)
    | branch children payload => exact absurd count (by simp [items,sound'.1])
  | extension path child =>
    cases other with
    | empty => exact absurd rfl some''
    | leaf path' value' =>
      exact absurd (Nibbles.encodeHexPrefixInj sound.1 sound'.1 (List.cons.inj same).1).2 (by decide)
    | extension path' child' =>
      obtain ⟨paths,children⟩ := List.cons.inj same
      rw [(Nibbles.encodeHexPrefixInj sound.1 sound'.1 paths).1,wordBytesInj (by decide) (List.cons.inj children).1]
    | branch children payload => exact absurd count (by simp [items,sound'.1])
  | branch children value =>
    cases other with
    | empty => exact absurd rfl some''
    | leaf path' value' => exact absurd count (by simp [items,sound.1])
    | extension path' child => exact absurd count (by simp [items,sound.1])
    | branch children' value' =>
      obtain ⟨slots,last⟩ := append_inj same (by simp [sound.1,sound'.1])
      have sameChildren := map_injective_iff.mpr (fun _ _ => childItemInj) slots
      have sameValue : value = value' := by
        have payload := (List.cons.inj last).1
        cases value with
        | none =>
          cases value' with
          | none => rfl
          | some v => exact absurd payload.symm (sound'.2 v rfl).1
        | some v =>
          cases value' with
          | none => exact absurd payload (sound.2 v rfl).1
          | some v' => exact congrArg some payload
      rw [sameChildren,sameValue]

theorem encodedFirst {node : TrieNode} (occupied : node ≠ .empty) :
    ∃ first rest, node.rlpEncode = first::rest ∧ 192 ≤ first.toNat := by
  rw [encodedItems occupied]
  exact Rlp.encodeItemsFirst _

theorem encodedApart {node : TrieNode} (occupied : node ≠ .empty) : node.rlpEncode ≠ [0x80] := by
  rw [encodedItems occupied]
  exact Rlp.encodeItemsApart _

theorem rlpEncodeInj {node other : TrieNode} (sound : node.Sound) (sound' : other.Sound)
    (same : node.rlpEncode = other.rlpEncode) : node = other := by
  by_cases none' : node = .empty
  · subst none'
    by_contra other'
    exact encodedApart (Ne.symm other') same.symm
  · by_cases none'' : other = .empty
    · subst none''
      exact absurd same (encodedApart none')
    · rw [encodedItems none',encodedItems none''] at same
      exact itemsInj sound sound' none' none'' (Rlp.encodeItemsInj (itemsFit sound) (itemsFit sound') same)

end TrieNode
end QuantumChain.State
