import Mathlib.Order.Basic
import Mathlib.Data.List.Basic
import Mathlib.Data.List.Induction
import Mathlib.Data.BitVec
import Mathlib.Tactic.Common

/-! Fixed-width words, their byte strings, outcomes that may panic.
Bytes are in both orders, as the source writes them. -/
namespace QuantumChain
open List BitVec

abbrev U64 := BitVec 64
abbrev U128 := BitVec 128
abbrev U256 := BitVec 256
abbrev Hash := BitVec 256
abbrev Address := BitVec 160
abbrev Bytes := List UInt8
abbrev ByteArrayOf (n : Nat) := {bytes : Bytes // bytes.length = n}

def tryIntoArray (n : Nat) (bytes : Bytes) : Option (ByteArrayOf n) :=
  if h : bytes.length = n then some ⟨bytes,h⟩ else none

instance wordOrder (n : Nat) : LinearOrder (BitVec n) where
  le_refl x := Nat.le_refl x.toNat
  le_trans x y z := Nat.le_trans (n := x.toNat) (m := y.toNat) (k := z.toNat)
  le_antisymm x y h h' := BitVec.eq_of_toNat_eq (Nat.le_antisymm h h')
  le_total x y := Nat.le_total x.toNat y.toNat
  lt_iff_le_not_ge x y := Nat.lt_iff_le_and_not_ge
  toDecidableLE := fun x y => inferInstanceAs (Decidable (x.toNat ≤ y.toNat))

def u128Max : Nat := 2^128 - 1

namespace U128

def saturatingAdd (a b : U128) : U128 :=
  if a.toNat + b.toNat ≤ u128Max then a + b else BitVec.allOnes 128

def saturatingMul (a b : U128) : U128 :=
  if a.toNat * b.toNat ≤ u128Max then a * b else BitVec.allOnes 128

def checkedMul (a b : U128) : Option U128 :=
  if a.toNat * b.toNat ≤ u128Max then some (a * b) else none

theorem toNatSaturatingAdd (a b) : (saturatingAdd a b).toNat = min (a.toNat + b.toNat) u128Max := by
  unfold saturatingAdd u128Max
  split
  · rw [toNat_add]; omega
  · rw [toNat_allOnes]; omega

theorem toNatSaturatingMul (a b) : (saturatingMul a b).toNat = min (a.toNat * b.toNat) u128Max := by
  unfold saturatingMul u128Max
  split
  · rename_i fits
    rw [toNat_mul,Nat.mod_eq_of_lt (by omega)]; omega
  · rw [toNat_allOnes]; omega

theorem checkedMulSome {a b c} (h : checkedMul a b = some c) : c.toNat = a.toNat * b.toNat := by
  unfold checkedMul at h
  split at h <;> try contradiction
  rename_i fits
  cases Option.some.inj h
  rw [toNat_mul,Nat.mod_eq_of_lt]
  unfold u128Max at fits
  omega

theorem checkedMulNone {a b} (h : checkedMul a b = none) : u128Max < a.toNat * b.toNat := by
  unfold checkedMul at h
  split at h <;> try contradiction
  omega

end U128

def U256.checkedMul (a b : U256) : Option U256 := if a.toNat * b.toNat < 2^256 then some (a * b) else none

namespace U256

def saturatingAdd (a b : U256) : U256 := if a.toNat + b.toNat < 2^256 then a + b else BitVec.allOnes 256

def saturatingMul (a b : U256) : U256 := if a.toNat * b.toNat < 2^256 then a * b else BitVec.allOnes 256

theorem toNatSaturatingAdd (a b) : (saturatingAdd a b).toNat = min (a.toNat + b.toNat) (2^256 - 1) := by
  unfold saturatingAdd
  split
  · rw [toNat_add]
    omega
  · rw [toNat_allOnes]
    omega

theorem toNatSaturatingMul (a b) : (saturatingMul a b).toNat = min (a.toNat * b.toNat) (2^256 - 1) := by
  unfold saturatingMul
  split
  · rename_i fits
    rw [toNat_mul,Nat.mod_eq_of_lt fits]
    omega
  · rw [toNat_allOnes]
    omega

end U256

namespace U64

def saturatingAdd (a b : U64) : U64 := if a.toNat + b.toNat < 2^64 then a + b else BitVec.allOnes 64

theorem toNatSaturatingAdd (a b) : (saturatingAdd a b).toNat = min (a.toNat + b.toNat) (2^64 - 1) := by
  unfold saturatingAdd
  split
  · rw [toNat_add]
    omega
  · rw [toNat_allOnes]
    omega

end U64

theorem toNatNext {w : U64} (room : w.toNat + 1 < 2^64) : (w + 1).toNat = w.toNat + 1 := by
  have one : (1 : U64).toNat = 1 := rfl
  rw [toNat_add,one,Nat.mod_eq_of_lt room]

def addWord {n : Nat} (checks : Bool) (a b : BitVec n) : Option (BitVec n) :=
  if checks && decide (2^n ≤ a.toNat + b.toNat) then none else some (a + b)

def mulWord {n : Nat} (checks : Bool) (a b : BitVec n) : Option (BitVec n) :=
  if checks && decide (2^n ≤ a.toNat * b.toNat) then none else some (a * b)

theorem addWordSome {n checks} {a b c : BitVec n} (h : addWord checks a b = some c) : c = a + b := by
  unfold addWord at h
  split at h <;> cases h
  rfl

theorem addWordFits {n} (checks) {a b : BitVec n} (fits : a.toNat + b.toNat < 2^n) :
    ∃ c, addWord checks a b = some c ∧ c.toNat = a.toNat + b.toNat := by
  refine ⟨a + b,?_,by rw [toNat_add,Nat.mod_eq_of_lt fits]⟩
  simp [addWord,Nat.not_le.mpr fits]

theorem mulWordFits {n} (checks) {a b : BitVec n} (fits : a.toNat * b.toNat < 2^n) :
    ∃ c, mulWord checks a b = some c ∧ c.toNat = a.toNat * b.toNat := by
  refine ⟨a * b,?_,by rw [toNat_mul,Nat.mod_eq_of_lt fits]⟩
  simp [mulWord,Nat.not_le.mpr fits]

def leBytes : Nat → Nat → Bytes
  | 0,_ => []
  | width+1,n => UInt8.ofNat (n % 256) :: leBytes width (n / 256)

def beBytes (width n : Nat) : Bytes := (leBytes width n).reverse

def wordBytes {n : Nat} (w : BitVec n) : Bytes := beBytes (n / 8) w.toNat

theorem leBytesLength (width n) : (leBytes width n).length = width := by
  induction width generalizing n with
  | zero => rfl
  | succ width ih => simp [leBytes,ih]

theorem wordBytesLength {n} (w : BitVec n) : (wordBytes w).length = n / 8 := by
  simp [wordBytes,beBytes,leBytesLength]

theorem leBytesInj {width m n} (boundM : m < 256^width) (boundN : n < 256^width)
    (same : leBytes width m = leBytes width n) : m = n := by
  induction width generalizing m n with
  | zero => omega
  | succ width ih =>
    simp only [leBytes,List.cons.injEq] at same
    obtain ⟨low,high⟩ := same
    rw [Nat.pow_succ] at boundM boundN
    have top := ih (Nat.div_lt_of_lt_mul (Nat.mul_comm _ 256 ▸ boundM))
      (Nat.div_lt_of_lt_mul (Nat.mul_comm _ 256 ▸ boundN)) high
    have bottom := congrArg UInt8.toNat low
    simp only [UInt8.toNat_ofNat'] at bottom
    omega

theorem byteCount {n} (whole : n % 8 = 0) : 256^(n / 8) = 2^n := by
  rw [show 256 = 2^8 by rfl,← Nat.pow_mul]
  congr 1
  omega

theorem wordBytesInj {n} (whole : n % 8 = 0) {a b : BitVec n} (same : wordBytes a = wordBytes b) : a = b := by
  apply eq_of_toNat_eq
  exact leBytesInj (byteCount whole ▸ a.isLt) (byteCount whole ▸ b.isLt) (reverse_injective same)

theorem wordFirst {n} (whole : n % 8 = 0) {a b : BitVec n} {s t} (same : wordBytes a ++ s = wordBytes b ++ t) :
    a = b ∧ s = t := by
  obtain ⟨first,rest⟩ := append_inj same (by rw [wordBytesLength,wordBytesLength])
  exact ⟨wordBytesInj whole first,rest⟩

theorem leWordFirst {width n} (size : 256^width = 2^n) {a b : BitVec n} {s t}
    (same : leBytes width a.toNat ++ s = leBytes width b.toNat ++ t) : a = b ∧ s = t := by
  obtain ⟨first,rest⟩ := append_inj same (by rw [leBytesLength,leBytesLength])
  exact ⟨eq_of_toNat_eq (leBytesInj (size ▸ a.isLt) (size ▸ b.isLt) first),rest⟩

def leNumber : Bytes → Nat
  | [] => 0
  | b::rest => b.toNat + 256 * leNumber rest

def beNumber (bytes : Bytes) : Nat := leNumber bytes.reverse

theorem leNumberAppend (low high) : leNumber (low ++ high) = leNumber low + 256^low.length * leNumber high := by
  induction low with
  | nil => simp [leNumber]
  | cons b rest ih =>
    simp only [List.cons_append,leNumber,ih,List.length_cons,Nat.pow_succ,Nat.mul_add]
    rw [Nat.mul_comm (256^rest.length) 256,Nat.mul_assoc]
    omega

theorem leNumberBytes (width n) : leNumber (leBytes width n) = n % 256^width := by
  induction width generalizing n with
  | zero => simp [leBytes,leNumber,Nat.mod_one]
  | succ width ih =>
    have low : (UInt8.ofNat (n % 256)).toNat = n % 256 := by
      rw [UInt8.toNat_ofNat']
      omega
    rw [leBytes,leNumber,ih,low,Nat.pow_succ,Nat.mul_comm (256^width) 256,Nat.mod_mul]

theorem leNumberWhole {width n} (bound : n < 256^width) : leNumber (leBytes width n) = n := by
  rw [leNumberBytes,Nat.mod_eq_of_lt bound]

theorem beNumberBytes (width n) : beNumber (beBytes width n) = n % 256^width := by
  rw [beNumber,beBytes,reverse_reverse,leNumberBytes]

theorem beNumberTrimmed (bytes : Bytes) : beNumber (bytes.dropWhile (· == 0)) = beNumber bytes := by
  induction bytes with
  | nil => rfl
  | cons b rest ih =>
    rw [dropWhile_cons]
    split
    · rename_i zero
      have zero : b = 0 := by simpa using zero
      rw [ih,beNumber,beNumber,reverse_cons,leNumberAppend]
      simp [leNumber,zero]
    · rfl

theorem beNumberWord {n} (whole : n % 8 = 0) (w : BitVec n) : beNumber (wordBytes w) = w.toNat := by
  rw [wordBytes,beNumberBytes,byteCount whole,Nat.mod_eq_of_lt w.isLt]

theorem beNumberCons (b) (rest : Bytes) : beNumber (b::rest) = beNumber rest + 256^rest.length * b.toNat := by
  unfold beNumber
  rw [reverse_cons,leNumberAppend,length_reverse]
  simp [leNumber]

theorem beNumberLt (bytes) : beNumber bytes < 256^bytes.length := by
  induction bytes with
  | nil => decide
  | cons b rest ih =>
    have byte := b.toNat_lt
    rw [beNumberCons,List.length_cons,Nat.pow_succ]
    calc beNumber rest + 256^rest.length * b.toNat
        < 256^rest.length * (b.toNat + 1) := by rw [Nat.mul_succ]; omega
      _ ≤ 256^rest.length * 256 := Nat.mul_le_mul_left _ byte

theorem beNumberWithin {bytes width} (short : bytes.length ≤ width) : beNumber bytes < 256^width :=
  Nat.lt_of_lt_of_le (beNumberLt bytes) (Nat.pow_le_pow_right (by decide) short)

theorem beNumberPadded (count) (bytes) : beNumber (List.replicate count 0 ++ bytes) = beNumber bytes := by
  rw [← beNumberTrimmed,dropWhile_append_of_pos (p := (· == 0)) fun b mem => by rw [(mem_replicate.mp mem).2]; rfl,
    beNumberTrimmed]

theorem leBytesNumber {width bytes} (short : bytes.length ≤ width) :
    leBytes width (leNumber bytes) = bytes ++ List.replicate (width - bytes.length) 0 := by
  induction width generalizing bytes with
  | zero =>
    rw [length_eq_zero_iff.mp (Nat.le_zero.mp short)]
    rfl
  | succ width ih =>
    cases bytes with
    | nil =>
      have later : leBytes width (leNumber []) = List.replicate width 0 := ih (Nat.zero_le width)
      rw [leBytes,leNumber,Nat.zero_div,← leNumber,later]
      rfl
    | cons b bytes =>
      have later := ih (Nat.le_of_succ_le_succ short)
      have low := b.toNat_lt
      have byte : UInt8.ofNat (leNumber (b::bytes) % 256) = b := by
        refine UInt8.toNat_inj.mp ?_
        rw [UInt8.toNat_ofNat',leNumber]
        omega
      have high : leNumber (b::bytes) / 256 = leNumber bytes := by
        rw [leNumber]
        omega
      rw [leBytes,high,later,byte,List.length_cons,Nat.add_sub_add_right]
      rfl

theorem leBytesExact {width bytes} (size : bytes.length = width) : leBytes width (leNumber bytes) = bytes := by
  rw [leBytesNumber (Nat.le_of_eq size),size,Nat.sub_self,List.replicate_zero,List.append_nil]

theorem wordBytesNumber {n} (whole : n % 8 = 0) {bytes} (size : bytes.length = n / 8) :
    wordBytes (BitVec.ofNat n (beNumber bytes)) = bytes := by
  have bound := beNumberWithin (Nat.le_of_eq size)
  rw [byteCount whole] at bound
  unfold wordBytes beBytes
  rw [toNat_ofNat,Nat.mod_eq_of_lt bound,beNumber,leBytesExact (by rw [length_reverse,size]),reverse_reverse]

def horner (bits : List Bool) : Nat := bits.foldl (fun acc b => 2*acc + b.toNat) 0

theorem hornerSnoc (bits) (b) : horner (bits ++ [b]) = 2*horner bits + b.toNat := by
  simp [horner]

theorem hornerLt (bits) : horner bits < 2^bits.length := by
  induction bits using List.reverseRecOn with
  | nil => exact Nat.one_pos
  | append_singleton rest b ih =>
    rw [hornerSnoc,length_append,length_singleton,Nat.pow_succ]
    have digit := b.toNat_le
    omega

theorem hornerBit (bits) (i) : (horner bits).testBit i = bits.reverse[i]?.getD false := by
  induction bits using List.reverseRecOn generalizing i with
  | nil => simp [horner]
  | append_singleton rest b ih =>
    rw [hornerSnoc,reverse_concat]
    cases i with
    | zero => cases b <;> simp
    | succ i =>
      have digit := b.toNat_le
      have half : (2*horner rest + b.toNat)/2 = horner rest := by omega
      rw [Nat.testBit_succ,half,getElem?_cons_succ]
      exact ih i

def numberHash (bytes : Bytes) : Hash := BitVec.ofNat 256 (bytes.foldl (fun n b => 256*n + b.toNat) 0)

def residue (bytes : Bytes) : Hash := BitVec.ofNat 256 (beNumber bytes % (2^256 - 189))

inductive Fault (ε : Type) where
  | error (e : ε)
  | panic
  deriving DecidableEq, Repr

def nextPowerOfTwo (n : Nat) : Nat := if n ≤ 1 then 1 else 2^(Nat.log2 (n - 1) + 1)

theorem nextPowerOfTwoCovers (n) : n ≤ nextPowerOfTwo n := by
  unfold nextPowerOfTwo
  split
  · omega
  · have := Nat.lt_log2_self (n := n - 1)
    omega

theorem nextPowerOfTwoPower (n) : ∃ d, nextPowerOfTwo n = 2^d := by
  unfold nextPowerOfTwo
  split
  · exact ⟨0,rfl⟩
  · exact ⟨_,rfl⟩

end QuantumChain
