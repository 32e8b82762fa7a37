import Mathlib.Data.BitVec
import Mathlib.Tactic.Common

/-! Words of two's complement beside the integers they stand for.
Division truncates towards zero. -/
namespace QuantumChain.SignedWords
variable {w : Nat}

theorem powSucc (wide : 0 < w) : 2^w = 2 * 2^(w - 1) := by
  rw [← Nat.pow_succ',Nat.succ_eq_add_one,Nat.sub_add_cancel wide]

theorem signedCases (wide : 0 < w) (a : BitVec w) : (∃ m, a.toNat = m ∧ a.toInt = m ∧ m < 2^(w - 1)) ∨
      ∃ m, a.toNat = 2^w - m ∧ a.toInt = -m ∧ 0 < m ∧ m ≤ 2^(w - 1) := by
  have double := powSucc wide
  have below := a.isLt
  by_cases positive : 2 * a.toNat < 2^w
  · refine .inl ⟨a.toNat,rfl,?_,by omega⟩
    rw [BitVec.toInt_eq_toNat_cond,if_pos positive]
  · refine .inr ⟨2^w - a.toNat,by omega,?_,by omega,by omega⟩
    rw [BitVec.toInt_eq_toNat_cond,if_neg positive]
    omega

theorem toNatOfNeg (n : Nat) (small : n ≤ 2^w) :
    (BitVec.ofInt w (-(n : Int))).toNat = if n = 0 then 0 else 2^w - n := by
  rw [BitVec.ofInt_neg,BitVec.ofInt_natCast,BitVec.toNat_neg,BitVec.toNat_ofNat]
  split
  · rename_i none
    subst none
    rw [Nat.zero_mod,Nat.sub_zero,Nat.mod_self]
  · rcases Nat.lt_or_eq_of_le small with less | same
    · rw [Nat.mod_eq_of_lt less,Nat.mod_eq_of_lt (by omega)]
    · rw [same,Nat.mod_self,Nat.sub_zero,Nat.mod_self,Nat.sub_self]

def QuotientAgrees (x y : Int) : Prop :=
  y = 0 ∨ (0 ≤ x ∧ (0 < y ∨ x < -y)) ∨ (x < 0 ∧ (y = 1 ∨ y = x))

def RemainderAgrees (w : Nat) (x y : Int) : Prop :=
  y = 0 ∨ (0 ≤ x ∧ (0 < y ∨ x < -y)) ∨ (x < 0 ∧ (y = x ∨ (0 < y ∧ y ∣ x ∧ y ∣ 2^w)))

instance (x y : Int) : Decidable (QuotientAgrees x y) := by unfold QuotientAgrees; infer_instance

theorem negativeOverPositive {half m n} (posM : 0 < m) (smallM : m ≤ half) (smallN : n < half) :
    (2 * half - m) / n = (if m / n = 0 then 0 else 2 * half - m / n) ↔ n = 0 ∨ n = 1 := by
  match n with
  | 0 => rw [Nat.div_zero,Nat.div_zero,if_pos rfl]; exact iff_of_true rfl (.inl rfl)
  | 1 => rw [Nat.div_one,Nat.div_one,if_neg (by omega)]; exact iff_of_true rfl (.inr rfl)
  | n+2 =>
    have least : 1 ≤ (2 * half - m) / (n + 2) := Nat.div_pos (by omega) (by omega)
    have most : (2 * half - m) / (n + 2) ≤ (2 * half - m) / 2 := Nat.div_le_div_left (by omega) (by omega)
    have size : m / (n + 2) ≤ m / 2 := Nat.div_le_div_left (by omega) (by omega)
    split <;> omega

theorem negativeOverNegative {half m n : Nat} (posM : 0 < m) (smallM : m ≤ half) (posN : 0 < n) (smallN : n ≤ half) :
    (2 * half - m) / (2 * half - n) = m / n ↔ m = n := by
  rcases Nat.lt_trichotomy m n with less | same | more
  · have one : (2 * half - m) / (2 * half - n) = 1 := Nat.div_eq_of_lt_le (by omega) (by omega)
    rw [one,Nat.div_eq_of_lt less]
    omega
  · rw [same,Nat.div_self (by omega),Nat.div_self posN]
    simp
  · have least : 1 ≤ m / n := Nat.div_pos (by omega) posN
    rw [Nat.div_eq_of_lt (by omega : 2 * half - m < 2 * half - n)]
    omega

theorem quotientExactIff (wide : 1 < w) (a b) :
    a / b = BitVec.ofInt w (a.toInt.tdiv b.toInt) ↔ QuotientAgrees a.toInt b.toInt := by
  have double := powSucc (by omega : 0 < w)
  rw [BitVec.toNat_eq,BitVec.toNat_udiv]
  unfold QuotientAgrees
  rcases signedCases (by omega) a with ⟨m,natA,intA,smallA⟩ | ⟨m,natA,intA,posA,smallA⟩ <;>
  rcases signedCases (by omega) b with ⟨n,natB,intB,smallB⟩ | ⟨n,natB,intB,posB,smallB⟩ <;>
  rw [natA,intA,natB,intB] <;>
  have less := Nat.div_le_self m n
  · rw [← Int.ofNat_tdiv,BitVec.ofInt_natCast,BitVec.toNat_ofNat,Nat.mod_eq_of_lt (by omega)]
    exact iff_of_true rfl (by omega)
  · rw [Int.tdiv_neg,← Int.ofNat_tdiv,toNatOfNeg _ (by omega),Nat.div_eq_of_lt (by omega : m < 2^w - n)]
    have quotient := @Nat.div_eq_zero_iff m n
    split <;> omega
  · rw [Int.neg_tdiv,← Int.ofNat_tdiv,toNatOfNeg _ (by omega),double,negativeOverPositive posA smallA smallB]
    omega
  · rw [Int.neg_tdiv,Int.tdiv_neg,neg_neg,← Int.ofNat_tdiv,BitVec.ofInt_natCast,BitVec.toNat_ofNat,
      Nat.mod_eq_of_lt (by omega),double,negativeOverNegative posA smallA posB smallB]
    omega

theorem negativeModPositive {half m n : Nat} (posM : 0 < m) (smallM : m ≤ half) (posN : 0 < n) (smallN : n < half) :
    (2 * half - m) % n = (if m % n = 0 then 0 else 2 * half - m % n) ↔ n ∣ m ∧ n ∣ 2 * half := by
  have below := Nat.mod_lt (2 * half - m) posN
  have size := Nat.mod_lt m posN
  split
  · rename_i none
    have divides := Nat.dvd_of_mod_eq_zero none
    rw [← Nat.dvd_iff_mod_eq_zero,Nat.dvd_sub_iff_left (by omega) divides]
    exact ⟨fun whole => ⟨divides,whole⟩,fun both => both.2⟩
  · rename_i some
    refine iff_of_false (by omega) fun both => some (Nat.mod_eq_zero_of_dvd both.1)

theorem negativeModNegative {half m n} (posM : 0 < m) (smallM : m ≤ half) (posN : 0 < n) (smallN : n ≤ half) :
    (2 * half - m) % (2 * half - n) = (if m % n = 0 then 0 else 2 * half - m % n) ↔ m = n := by
  have size := Nat.mod_lt m posN
  rcases Nat.lt_trichotomy m n with less | same | more
  · rw [Nat.mod_eq_sub_mod (by omega),Nat.mod_eq_of_lt (by omega),Nat.mod_eq_of_lt less]
    split <;> omega
  · rw [same,Nat.mod_self,Nat.mod_self,if_pos rfl]
    simp
  · rw [Nat.mod_eq_of_lt (by omega : 2 * half - m < 2 * half - n)]
    split <;> omega

theorem remainderExactIff (wide : 1 < w) (a b) :
    a % b = BitVec.ofInt w (a.toInt.tmod b.toInt) ↔ RemainderAgrees w a.toInt b.toInt := by
  have double := powSucc (by omega : 0 < w)
  rw [BitVec.toNat_eq,BitVec.toNat_umod]
  unfold RemainderAgrees
  rcases signedCases (by omega) a with ⟨m,natA,intA,smallA⟩ | ⟨m,natA,intA,posA,smallA⟩ <;>
  rcases signedCases (by omega) b with ⟨n,natB,intB,smallB⟩ | ⟨n,natB,intB,posB,smallB⟩ <;>
  rw [natA,intA,natB,intB] <;>
  have less := Nat.mod_le m n
  · rw [← Int.ofNat_tmod,BitVec.ofInt_natCast,BitVec.toNat_ofNat,Nat.mod_eq_of_lt (by omega : m % n < 2^w)]
    exact iff_of_true rfl (by omega)
  · rw [Int.tmod_neg,← Int.ofNat_tmod,BitVec.ofInt_natCast,BitVec.toNat_ofNat,Nat.mod_eq_of_lt (by omega : m % n < 2^w),
      Nat.mod_eq_of_lt (by omega : m < 2^w - n)]
    have size := Nat.mod_lt m posB
    have kept := @Nat.mod_eq_of_lt m n
    omega
  · rcases Nat.eq_zero_or_pos n with none | posB
    · subst none
      refine iff_of_true ?_ (.inl rfl)
      rw [Int.neg_tmod,← Int.ofNat_tmod,toNatOfNeg _ (by omega),Nat.mod_zero,Nat.mod_zero,if_neg (by omega)]
    rw [Int.neg_tmod,← Int.ofNat_tmod,toNatOfNeg _ (by omega),double,negativeModPositive posA smallA posB smallB]
    have part : (n : Int) ∣ -m ↔ n ∣ m := by rw [Int.dvd_neg,Int.natCast_dvd_natCast]
    have whole : (n : Int) ∣ 2^w ↔ n ∣ 2 * 2^(w - 1) := by
      rw [← double,← Int.natCast_dvd_natCast,Nat.cast_pow,Nat.cast_ofNat]
    rw [part,whole]
    constructor
    · exact fun both => .inr (.inr ⟨by omega,.inr ⟨by omega,both⟩⟩)
    · rintro (none | ⟨positive,_⟩ | ⟨_,same | ⟨_,both⟩⟩)
      · omega
      · omega
      · omega
      · exact both
  · rw [Int.neg_tmod,Int.tmod_neg,← Int.ofNat_tmod,toNatOfNeg _ (by omega),
      double,negativeModNegative posA smallA posB smallB]
    omega

def extended (x : BitVec w) (n : Nat) : BitVec w := BitVec.ofInt w ((x.toNat : Int).bmod (2^(n + 1)))

theorem extendedMask (x) (n) : extended x n =
      if x.getLsbD n then x ||| ~~~BitVec.ofNat w (2^(n + 1) - 1) else x &&& BitVec.ofNat w (2^(n + 1) - 1) := by
  have narrowed : extended x n = (x.setWidth (n + 1)).signExtend w := by
    unfold extended BitVec.signExtend
    rw [BitVec.toInt_setWidth]
  have sign : (x.setWidth (n + 1)).msb = x.getLsbD n := by
    rw [BitVec.msb_setWidth]
    simp
  rw [narrowed]
  apply BitVec.eq_of_getLsbD_eq
  intro i below
  have mask : (BitVec.ofNat w (2^(n + 1) - 1)).getLsbD i = decide (i < n + 1) := by
    rw [BitVec.getLsbD_ofNat,Nat.testBit_two_pow_sub_one,decide_eq_true below,Bool.true_and]
  rw [BitVec.getLsbD_signExtend,BitVec.getLsbD_setWidth,sign]
  cases bit : x.getLsbD n with
  | false =>
    rw [if_neg Bool.false_ne_true,BitVec.getLsbD_and,mask]
    by_cases low : i < n + 1 <;> simp [low,below]
  | true =>
    rw [if_pos rfl,BitVec.getLsbD_or,BitVec.getLsbD_not,mask]
    by_cases low : i < n + 1 <;> simp [low,below]

def shifted (x : BitVec w) (n : Nat) : BitVec w := BitVec.ofInt w (x.toInt / (2^n : Nat))

theorem shiftedBit (x : BitVec w) (n) {i} (below : i < w) :
    (shifted x n).getLsbD i = if n + i < w then x.getLsbD (n + i) else x.msb := by
  have same : shifted x n = x.sshiftRight n := by
    unfold shifted BitVec.sshiftRight
    rw [Int.shiftRight_eq_div_pow]
  rw [same,BitVec.getLsbD_sshiftRight,decide_eq_false (Nat.not_le_of_lt below),Bool.not_false,Bool.true_and]

end QuantumChain.SignedWords
