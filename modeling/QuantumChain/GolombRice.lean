import QuantumChain.FixedWidth

/-! Golomb-Rice codes: the quotient in unary, the remainder in binary.
Bits are packed into bytes from the highest on. -/
namespace QuantumChain.GolombRice
open List

def msbBits (width value : Nat) : List Bool := (range width).reverse.map value.testBit

theorem msbBitsLength (width value) : (msbBits width value).length = width := by
  unfold msbBits
  rw [length_map,length_reverse,length_range]

theorem hornerMsb (width value) : horner (msbBits width value) = value % 2^width := by
  refine Nat.eq_of_testBit_eq fun i => ?_
  rw [hornerBit,Nat.testBit_mod_two_pow]
  unfold msbBits
  rw [← map_reverse,reverse_reverse,getElem?_map]
  by_cases inside : i < width
  · rw [getElem?_range inside]
    simp [inside]
  · rw [getElem?_eq_none (by rw [length_range]; omega)]
    simp [inside]

def code (p value : Nat) : List Bool := replicate (value / 2^p) true ++ false::msbBits p value

def quotient (bits : List Bool) : Nat := (bits.takeWhile id).length

def afterQuotient (bits : List Bool) : List Bool := (bits.dropWhile id).drop 1

theorem quotientCode (p value) (rest) : quotient (code p value ++ rest) = value / 2^p := by
  unfold quotient code
  rw [append_assoc,takeWhile_append_of_pos (p := id) fun b mem => (mem_replicate.mp mem).2]
  simp

theorem afterQuotientCode (p value) (rest) : afterQuotient (code p value ++ rest) = msbBits p value ++ rest := by
  unfold afterQuotient code
  rw [append_assoc,dropWhile_append_of_pos (p := id) fun b mem => (mem_replicate.mp mem).2]
  rfl

theorem codeNonempty (p value) (rest) : code p value ++ rest ≠ [] := by
  unfold code
  simp

section Pieces
variable {α : Type}

def piecesWithin (size : Nat) : (fuel : Nat) → List α → List (List α)
  | 0,_ => []
  | _+1,[] => []
  | fuel+1,x::xs => (x::xs).take size::piecesWithin size fuel ((x::xs).drop size)

def pieces (size : Nat) (xs : List α) : List (List α) := piecesWithin size xs.length xs

end Pieces

def bitAt (i : Nat) (bit : Bool) : UInt8 := if bit then 1 <<< (7 - i).toUInt8 else 0

def packByte (piece : List Bool) : UInt8 := piece.zipIdx.foldl (fun byte entry => byte ||| bitAt entry.2 entry.1) 0

def pack (bits : List Bool) : List UInt8 := (pieces 8 bits).map packByte

def unpackByte (byte : UInt8) : List Bool := (range 8).reverse.map fun i => (byte >>> i.toUInt8) &&& 1 == 1

def unpack (bytes : List UInt8) : List Bool := bytes.flatMap unpackByte

theorem unpackEight : ∀ a b c d e f g h, unpackByte (packByte [a,b,c,d,e,f,g,h]) = [a,b,c,d,e,f,g,h] := by
  decide +kernel

theorem unpackPackByte {piece} (eight : piece.length = 8) : unpackByte (packByte piece) = piece := by
  match piece,eight with
  | [a,b,c,d,e,f,g,h],_ => exact unpackEight a b c d e f g h

theorem packPadded (piece) (count) : packByte (piece ++ replicate count false) = packByte piece := by
  induction count with
  | zero => rw [replicate_zero,append_nil]
  | succ count ih =>
    rw [replicate_succ',← append_assoc]
    unfold packByte at *
    rw [zipIdx_append,foldl_append,ih]
    exact UInt8.or_zero

theorem unpackPackShort {piece} (short : piece.length ≤ 8) :
    unpackByte (packByte piece) = piece ++ replicate (8 - piece.length) false := by
  rw [← packPadded piece (8 - piece.length)]
  refine unpackPackByte ?_
  rw [length_append,length_replicate]
  omega

theorem unpackPackWithin {fuel bits} (enough : bits.length ≤ fuel) :
    ∃ count, unpack ((piecesWithin 8 fuel bits).map packByte) = bits ++ replicate count false := by
  induction fuel generalizing bits with
  | zero =>
    rw [length_eq_zero_iff.mp (Nat.le_zero.mp enough)]
    exact ⟨0,rfl⟩
  | succ fuel ih =>
    match bits with
    | [] => exact ⟨0,rfl⟩
    | b::rest =>
      have first := unpackPackShort (length_take_le 8 (b::rest))
      have fewer : ((b::rest).drop 8).length ≤ fuel := by
        rw [length_drop]
        omega
      obtain ⟨count,others⟩ := ih fewer
      rw [piecesWithin,map_cons]
      unfold unpack at others ⊢
      rw [flatMap_cons,first,others]
      by_cases long : 8 ≤ (b::rest).length
      · -- a whole byte has no padding of its own
        refine ⟨count,?_⟩
        rw [length_take_of_le long,Nat.sub_self,replicate_zero,append_nil,← append_assoc,take_append_drop]
      · refine ⟨8 - (b::rest).length + count,?_⟩
        rw [take_of_length_le (by omega),drop_eq_nil_of_le (by omega),nil_append,append_assoc,
          replicate_append_replicate]

theorem unpackPack (bits) : ∃ count, unpack (pack bits) = bits ++ replicate count false :=
  unpackPackWithin (Nat.le_refl bits.length)

end QuantumChain.GolombRice
