import QuantumChain.SignedWords
import QuantumChain.EvmSafety

/-! Signed and modular instructions beside what the EVM defines.
The operands are on the stack; too few of them is not treated. -/
namespace QuantumChain.Evm
open BitVec
open SignedWords

def defined : Opcode → List U256 → Option U256
  | .sDiv,[a,b] => some (if b = 0 then 0 else BitVec.ofInt 256 (a.toInt.tdiv b.toInt))
  | .sMod,[a,b] => some (if b = 0 then 0 else BitVec.ofInt 256 (a.toInt.tmod b.toInt))
  | .addMod,[a,b,c] => some (if c = 0 then 0 else BitVec.ofNat 256 ((a.toNat + b.toNat) % c.toNat))
  | .mulMod,[a,b,c] => some (if c = 0 then 0 else BitVec.ofNat 256 ((a.toNat * b.toNat) % c.toNat))
  | .signExtend,[k,x] => some (if k.toNat < 32 then extended x (8 * k.toNat + 7) else x)
  | .sLt,[a,b] => some (flag (a.toInt < b.toInt))
  | .sGt,[a,b] => some (flag (b.toInt < a.toInt))
  | .sar,[shift,value] => some (shifted value shift.toNat)
  | _,_ => none

/-- A byte number from 2^61 on, times eight, wraps without overflow checks and panics with them. -/
def byteLimit (checks : Bool) : Nat := if checks then 2^61 else 2^64

def ExtensionAgrees (checks : Bool) (k x : U256) : Prop :=
  k.toNat < byteLimit checks ∧ k.toNat % 2^61 ≠ 31 ∧
    (k.toNat < 31 ∨ 31 < k.toNat % 2^61 ∨ extended x (8 * (k.toNat % 2^61) + 7) = x)

def OperandsAgree (checks : Bool) : Opcode → List U256 → Prop
  | .sDiv,[a,b] => QuotientAgrees a.toInt b.toInt
  | .sMod,[a,b] => RemainderAgrees 256 a.toInt b.toInt
  | .addMod,[a,b,c] => c = 0 ∨ a.toNat + b.toNat < 2^256
  | .mulMod,[a,b,c] => c = 0 ∨ a.toNat * b.toNat < 2^256
  | .signExtend,[k,x] => ExtensionAgrees checks k x
  | _,_ => True

theorem wordZeroIff {b : U256} : b = 0 ↔ b.toInt = 0 := by
  rw [← toInt_inj]
  exact Iff.rfl

theorem sdivDefined (a b) :
    sdiv a b = (if b = 0 then 0 else BitVec.ofInt 256 (a.toInt.tdiv b.toInt)) ↔ QuotientAgrees a.toInt b.toInt := by
  unfold sdiv
  by_cases none : b = 0
  · rw [if_pos none,if_pos none]
    exact iff_of_true rfl (.inl (wordZeroIff.mp none))
  · rw [if_neg none,if_neg none]
    exact quotientExactIff (by decide) a b

theorem smodDefined (a b) : smod a b = (if b = 0 then 0 else BitVec.ofInt 256 (a.toInt.tmod b.toInt)) ↔
      RemainderAgrees 256 a.toInt b.toInt := by
  unfold smod
  by_cases none : b = 0
  · rw [if_pos none,if_pos none]
    exact iff_of_true rfl (.inl (wordZeroIff.mp none))
  · rw [if_neg none,if_neg none]
    exact remainderExactIff (by decide) a b

theorem reducedDefined {formed c n} (stands : n < 2^256 → formed.toNat = n) :
    (if c = 0 then .ok 0 else (if n < 2^256 then .ok formed else .error .panic) >>= fun word => .ok (word % c) :
      Except VmFault U256) = .ok (if c = 0 then 0 else BitVec.ofNat 256 (n % c.toNat)) ↔ c = 0 ∨ n < 2^256 := by
  by_cases none : c = 0
  · rw [if_pos none,if_pos none]
    exact iff_of_true rfl (.inl none)
  rw [if_neg none,if_neg none]
  by_cases fits : n < 2^256
  · rw [if_pos fits]
    refine iff_of_true (congrArg Except.ok ?_) (.inr fits)
    have less := Nat.mod_le n c.toNat
    rw [toNat_eq,toNat_umod,stands fits,toNat_ofNat,Nat.mod_eq_of_lt (by omega : n % c.toNat < 2^256)]
  · rw [if_neg fits]
    exact iff_of_false nofun fun agrees => agrees.elim none fits

theorem addmodDefined (a b c) :
    addmod a b c = .ok (if c = 0 then 0 else BitVec.ofNat 256 ((a.toNat + b.toNat) % c.toNat)) ↔
      c = 0 ∨ a.toNat + b.toNat < 2^256 :=
  reducedDefined fun fits => by rw [toNat_add,Nat.mod_eq_of_lt fits]

theorem mulmodDefined (a b c) :
    mulmod a b c = .ok (if c = 0 then 0 else BitVec.ofNat 256 ((a.toNat * b.toNat) % c.toNat)) ↔
      c = 0 ∨ a.toNat * b.toNat < 2^256 :=
  reducedDefined fun fits => by rw [toNat_mul,Nat.mod_eq_of_lt fits]

theorem fitEight (checks) {k} (word : k < 2^64) :
    fitWord checks (k * 8) = if k < byteLimit checks then .ok (8 * (k % 2^61)) else .error .panic := by
  unfold fitWord byteLimit
  cases checks with
  | false =>
    rw [if_neg Bool.false_ne_true,if_neg Bool.false_ne_true,if_pos word]
    split
    · exact congrArg Except.ok (by omega)
    · exact congrArg Except.ok (by omega)
  | true =>
    rw [if_pos rfl,if_pos rfl]
    split
    · rw [if_pos (by omega)]
      exact congrArg Except.ok (by omega)
    · rw [if_neg (by omega)]

theorem maskOk {bit} (inside : bit < 255) :
    subU256 ((1 : U256) <<< (bit + 1)) 1 = .ok (BitVec.ofNat 256 (2^(bit + 1) - 1)) := by
  have below : 2^(bit + 1) < 2^256 := Nat.pow_lt_pow_right (by decide) (by omega)
  have one : (1 : U256).toNat = 1 := rfl
  have power : ((1 : U256) <<< (bit + 1)).toNat = 2^(bit + 1) := by
    rw [toNat_shiftLeft,Nat.shiftLeft_eq,one,Nat.one_mul,Nat.mod_eq_of_lt below]
  have some : 1 ≤ 2^(bit + 1) := Nat.two_pow_pos _
  unfold subU256
  rw [power,one,if_pos some]
  refine congrArg Except.ok (eq_of_toNat_eq ?_)
  rw [toNat_sub_of_le (by rw [le_def,power,one]; exact some),power,one,toNat_ofNat,
    Nat.mod_eq_of_lt (by omega)]

theorem maskPanics : subU256 ((1 : U256) <<< (255 + 1)) 1 = .error .panic := by decide

theorem signExtendRun (checks) (k x) : signExtend checks k x =
      if k.toNat < byteLimit checks then
        if k.toNat % 2^61 = 31 then .error .panic
        else .ok (if 31 < k.toNat % 2^61 then x else extended x (8 * (k.toNat % 2^61) + 7))
      else .error .panic := by
  unfold signExtend asUsize
  by_cases word : k.toNat < 2^64
  · rw [if_pos word]
    change (fitWord checks (k.toNat * 8) >>= fun bits => _) = _
    rw [fitEight checks word]
    split
    · change (fitWord checks (8 * (k.toNat % 2^61) + 7) >>= fun bit => _) = _
      rw [fitWordSmall (by omega)]
      generalize k.toNat % 2^61 = j
      change (if 256 ≤ 8 * j + 7 then Except.ok x else _) = _
      rcases Nat.lt_trichotomy j 31 with low | last | high
      · rw [if_neg (by omega),if_neg (by omega),if_neg (by omega),maskOk (by omega),extendedMask]
        rfl
      · rw [last,if_pos rfl,if_neg (by decide),maskPanics]
        rfl
      · rw [if_pos (by omega),if_neg (by omega),if_pos high]
    · rfl
  · have outside : ¬k.toNat < byteLimit checks := by
      unfold byteLimit
      split <;> omega
    rw [if_neg word,if_neg outside]
    rfl

theorem signExtendDefined (checks) (k x) :
    signExtend checks k x = .ok (if k.toNat < 32 then extended x (8 * k.toNat + 7) else x) ↔
      ExtensionAgrees checks k x := by
  unfold ExtensionAgrees
  rw [signExtendRun]
  split
  · rename_i word
    rw [and_iff_right word]
    split
    · rename_i last
      exact iff_of_false nofun fun agrees => agrees.1 last
    · rename_i inside
      rw [and_iff_right inside,Except.ok.injEq]
      split
      · rename_i high
        rw [if_neg (by omega)]
        exact iff_of_true rfl (.inr (.inl high))
      · rename_i low
        by_cases small : k.toNat < 32
        · have same : k.toNat % 2^61 = k.toNat := by omega
          rw [if_pos small,same]
          exact iff_of_true rfl (.inl (by omega))
        · rw [if_neg small,or_iff_right (by omega),or_iff_right low]
  · rename_i outside
    exact iff_of_false nofun fun agrees => outside agrees.1

theorem signBit (a : U256) : a.getLsbD 255 = decide (a.toInt < 0) := by
  have sign : a.getLsbD 255 = decide (2^255 ≤ a.toNat) :=
    (msb_eq_getLsbD_last a).symm.trans (msb_eq_decide a)
  rw [sign,decide_eq_decide]
  rcases signedCases (by decide) a with ⟨m,nat,int,small⟩ | ⟨m,nat,int,pos,small⟩ <;>
  rw [nat,int] <;>
  omega

theorem sameSignOrder {a b : U256} (same : a.toInt < 0 ↔ b.toInt < 0) : a.toNat < b.toNat ↔ a.toInt < b.toInt := by
  revert same
  rcases signedCases (by decide) a with ⟨m,natA,intA,smallA⟩ | ⟨m,natA,intA,posA,smallA⟩ <;>
  rcases signedCases (by decide) b with ⟨n,natB,intB,smallB⟩ | ⟨n,natB,intB,posB,smallB⟩ <;>
  rw [natA,intA,natB,intB] <;>
  omega

theorem sltDefined (a b) : slt a b = true ↔ a.toInt < b.toInt := by
  unfold slt
  rw [signBit,signBit]
  by_cases negA : a.toInt < 0 <;> by_cases negB : b.toInt < 0 <;> simp only [negA,negB]
  · exact decide_eq_true_iff.trans (sameSignOrder (iff_of_true negA negB))
  · exact iff_of_true rfl (by omega)
  · exact iff_of_false Bool.false_ne_true (by omega)
  · exact decide_eq_true_iff.trans (sameSignOrder (iff_of_false negA negB))

theorem zeroBit (i) : (0 : U256).getLsbD i = false := getLsbD_zero

theorem onesBit {i} (below : i < 256) : (~~~(0 : U256)).getLsbD i = true := by
  rw [getLsbD_not,decide_eq_true below,zeroBit,Bool.not_false,Bool.and_self]

theorem sarDefined (value shift) : sar value shift = shifted value shift.toNat := by
  apply eq_of_getLsbD_eq
  intro i below
  rw [shiftedBit value shift.toNat below,msb_eq_getLsbD_last]
  unfold sar
  by_cases far : 256 ≤ shift.toNat
  · have outside : ¬shift.toNat + i < 256 := by omega
    rw [if_pos far,if_neg outside]
    cases value.getLsbD 255 with
    | false => rw [if_neg Bool.false_ne_true,zeroBit]
    | true => rw [if_pos rfl,onesBit below]
  · rw [if_neg far]
    by_cases inside : shift.toNat + i < 256
    · have kept : (~~~(0 : U256) <<< (256 - shift.toNat)).getLsbD i = false := by
        rw [getLsbD_shiftLeft,decide_eq_true (by omega : i < 256 - shift.toNat)]
        simp
      rw [if_pos inside]
      split
      · rw [getLsbD_or,kept,Bool.or_false,getLsbD_ushiftRight]
      · rw [getLsbD_ushiftRight]
    · have filled : (~~~(0 : U256) <<< (256 - shift.toNat)).getLsbD i = true := by
        rw [getLsbD_shiftLeft,decide_eq_true below,decide_eq_false (by omega : ¬i < 256 - shift.toNat),
          onesBit (by omega)]
        rfl
      rw [if_neg inside]
      cases value.getLsbD 255 with
      | false =>
        rw [if_neg Bool.false_ne_true,getLsbD_ushiftRight,getLsbD_of_ge _ _ (by omega)]
      | true => rw [if_pos rfl,getLsbD_or,filled,Bool.or_true]

section Dispatch
open Command Interpreter
variable {σ α : Type} {m : Interpreter σ α}

def Leaves (host : Host σ α) (opcode : Opcode) (m : Interpreter σ α) (value : U256) (rest : List U256) : Prop :=
  ∃ stack : Stack, stack.data = value::rest ∧ dispatch host opcode m = (.ok (),{m with stack := stack})

theorem liftPushLeaves {result value} (room : m.stack.data.length < maxStackSize) :
    (∃ stack, stack.data = value::m.stack.data ∧ (lift result >>= push) m = (.ok (),{m with stack := stack})) ↔
      result = .ok value := by
  cases result with
  | error e => exact iff_of_false (fun ⟨_,_,ran⟩ => nomatch (Prod.mk.inj ran).1) nofun
  | ok word =>
    change (∃ stack, _ ∧ push word m = _) ↔ _
    rw [pushRun room,Except.ok.injEq]
    constructor
    · rintro ⟨stack,data,ran⟩
      have same : (⟨word::m.stack.data,room⟩ : Stack) = stack := congrArg (fun out => out.2.stack) ran
      rw [← same] at data
      exact (List.cons.inj data).1
    · rintro rfl
      exact ⟨_,rfl,rfl⟩

theorem binaryLeaves {op a b value rest} (data : m.stack.data = a::b::rest) :
    (∃ stack, stack.data = value::rest ∧ binary op m = (.ok (),{m with stack := stack})) ↔ op a b = .ok value := by
  have bounded := m.stack.bounded
  have last := poppedData (poppedData data)
  rw [data] at bounded
  have popped : binary op m = (lift (op a b) >>= push) m.popped.popped := by
    unfold binary
    rw [popThen data,popThen (poppedData data)]
  rw [popped,← last]
  exact liftPushLeaves (by rw [last]; exact Nat.lt_of_succ_le (Nat.le_of_succ_le bounded))

theorem ternaryLeaves {op a b c value rest} (data : m.stack.data = a::b::c::rest) :
    (∃ stack, stack.data = value::rest ∧ ternary op m = (.ok (),{m with stack := stack})) ↔
      op a b c = .ok value := by
  have bounded := m.stack.bounded
  have last := poppedData (poppedData (poppedData data))
  rw [data] at bounded
  have popped : ternary op m = (lift (op a b c) >>= push) m.popped.popped.popped := by
    unfold ternary
    rw [popThen data,popThen (poppedData data),popThen (poppedData (poppedData data))]
  rw [popped,← last]
  exact liftPushLeaves (by rw [last]; simp only [List.length_cons] at bounded; omega)

theorem flagged {p q} [Decidable p] [Decidable q] (same : p ↔ q) : flag p = flag q := if_congr same rfl rfl

theorem definedExactIff (host : Host σ α) (m : Interpreter σ α) (opcode : Opcode) (operands rest : List U256) (value : U256)
    (given : defined opcode operands = some value) (data : m.stack.data = operands ++ rest) :
    Leaves host opcode m value rest ↔ OperandsAgree host.checks opcode operands := by
  unfold defined at given
  split at given <;> cases given
  · exact (binaryLeaves data).trans (by rw [Except.ok.injEq]; exact sdivDefined _ _)
  · exact (binaryLeaves data).trans (by rw [Except.ok.injEq]; exact smodDefined _ _)
  · exact (ternaryLeaves data).trans (addmodDefined _ _ _)
  · exact (ternaryLeaves data).trans (mulmodDefined _ _ _)
  · exact (binaryLeaves data).trans (signExtendDefined _ _ _)
  · exact (binaryLeaves data).trans (iff_of_true (congrArg Except.ok (flagged (sltDefined _ _))) trivial)
  · exact (binaryLeaves data).trans (iff_of_true (congrArg Except.ok (flagged (sltDefined _ _))) trivial)
  · exact (binaryLeaves data).trans (iff_of_true (congrArg Except.ok (sarDefined _ _)) trivial)

end Dispatch

section Cases
open Interpreter

def noCode : Buffer := ⟨[],Nat.two_pow_pos 63⟩

def holding (data : List U256) (short : data.length ≤ maxStackSize) : Interpreter Unit Unit :=
  {new plainContext noCode () () with stack := ⟨data,short⟩}

theorem positiveQuotientLeft : Leaves (emptyHost true) .sDiv (holding [7,2,5] (by decide)) 3 [5] := by
  have agree : QuotientAgrees (7 : U256).toInt (2 : U256).toInt := by decide
  exact (definedExactIff (emptyHost true) (holding [7,2,5] (by decide)) .sDiv [7,2] [5] 3 (by decide) rfl).mpr agree

def outcome (checks : Bool) (opcode : Opcode) (m : Interpreter Unit Unit) : Except VmFault Unit × List U256 :=
  let out := dispatch (emptyHost checks) opcode m
  (out.1,out.2.stack.data)

theorem definedMissed :
    (defined .sDiv [-4,2] = some (-2) ∧ outcome true .sDiv (holding [-4,2] (by decide)) = (.ok (),[2^255 - 2])) ∧
    (defined .sMod [-5,3] = some (-2) ∧ outcome true .sMod (holding [-5,3] (by decide)) = (.ok (),[2])) ∧
    (defined .addMod [-1,1,3] = some 1 ∧ outcome true .addMod (holding [-1,1,3] (by decide)) = (.error .panic,[])) ∧
    (defined .mulMod [2^255,2,3] = some 1 ∧ outcome true .mulMod (holding [2^255,2,3] (by decide)) = (.error .panic,[])) ∧
    (defined .signExtend [31,5] = some 5 ∧ outcome false .signExtend (holding [31,5] (by decide)) = (.error .panic,[])) ∧
    (defined .signExtend [2^61,128] = some 128 ∧
      outcome false .signExtend (holding [2^61,128] (by decide)) = (.ok (),[-128])) ∧
    defined .signExtend [2^64,5] = some 5 ∧ outcome true .signExtend (holding [2^64,5] (by decide)) = (.error .panic,[]) := by
  decide +kernel

end Cases

end QuantumChain.Evm
