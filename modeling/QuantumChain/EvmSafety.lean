import QuantumChain.EvmGas
import QuantumChain.EvmBuilds

/-! Panics of the interpreter with overflow checks.
The exact operands that panic; running out of memory is not modelled. -/
namespace QuantumChain.Evm
open List StepRun Memory
open Command

namespace Interpreter
variable {σ α β γ : Type} {m : Interpreter σ α}

def popped (m : Interpreter σ α) : Interpreter σ α := {m with stack := m.stack.popped}

def charged (m : Interpreter σ α) (amount : Nat) : Interpreter σ α :=
  {m with gasRemaining := m.gasRemaining - amount}

def expanded (m : Interpreter σ α) (size : Nat) : Interpreter σ α :=
  {m with memory := (Memory.expand size m.memory).2}

section Popping
variable {value : U256} {rest : List U256}

theorem poppedData (data : m.stack.data = value::rest) : m.popped.stack.data = rest := by
  simp [popped,Stack.popped,data]

theorem avoidsPopNil {next : U256 → Exec σ α β} (data : m.stack.data = []) : Avoids .panic (pop >>= next) m := by
  unfold Avoids
  rw [bindRun]
  unfold pop onStack focus Stack.pop
  simp [data,andThen]

theorem popThen (data : m.stack.data = value::rest) (next : U256 → Exec σ α β) :
    (pop >>= next) m = next value m.popped := by
  rw [bindRun]
  unfold pop onStack focus Stack.pop
  rw [data]
  rfl

theorem avoidsPopCons {next : U256 → Exec σ α β} (data : m.stack.data = value::rest) :
    Avoids .panic (pop >>= next) m ↔ Avoids .panic (next value) m.popped := by
  unfold Avoids
  rw [popThen data]

end Popping

theorem avoidsUsizeBind {v} {next : Nat → Exec σ α β} :
    Avoids .panic (lift (asUsize v) >>= next) m ↔ v.toNat < 2^64 ∧ Avoids .panic (next v.toNat) m :=
  avoidsLiftWhen (fun small => if_pos small) (fun large => if_neg large)

theorem avoidsFitBind {n} {next : Nat → Exec σ α β} :
    Avoids .panic (lift (fitWord true n) >>= next) m ↔ n < 2^64 ∧ Avoids .panic (next n) m :=
  avoidsLiftWhen (fun small => if_pos small) (fun large => if_neg large)

theorem avoidsRequireBind {holds} [Decidable holds] {e} {next : Unit → Exec σ α β} :
    Avoids .panic (ensure holds (.error e) >>= next) m ↔ (holds → Avoids .panic (next ()) m) :=
  avoidsEnsureBind nofun

theorem avoidsPopUsizeNil {next : Nat → Exec σ α β} (data : m.stack.data = []) :
    Avoids .panic (popUsize >>= next) m := by
  unfold popUsize
  rw [bindAssoc]
  exact avoidsPopNil data

theorem avoidsPopUsizeCons {next : Nat → Exec σ α β} {value rest} (data : m.stack.data = value::rest) :
    Avoids .panic (popUsize >>= next) m ↔ value.toNat < 2^64 ∧ Avoids .panic (next value.toNat) m.popped := by
  unfold popUsize
  rw [bindAssoc,avoidsPopCons data]
  exact avoidsUsizeBind

theorem pushRun {value} (room : m.stack.data.length < maxStackSize) :
    push value m = (.ok (),{m with stack := ⟨value::m.stack.data,room⟩}) := by
  unfold push onStack focus Stack.push
  rw [dif_pos room]

theorem pushRefused {value} (full : ¬m.stack.data.length < maxStackSize) :
    push value m = (.error (.error .stackOverflow),m) := by
  unfold push onStack focus Stack.push
  rw [dif_neg full]

theorem avoidsPush (value) : Avoids .panic (push value) m := by
  unfold Avoids
  by_cases room : m.stack.data.length < maxStackSize
  · rw [pushRun room]
    exact nofun
  · rw [pushRefused room]
    exact nofun

theorem avoidsPushRead (value) : Avoids .panic (pushRead value) m := avoidsPush _

theorem chargePaid {amount} (paid : amount ≤ m.gasRemaining) : chargeGas amount m = (.ok (),m.charged amount) := by
  unfold chargeGas
  rw [bindRun,consumeGas,if_pos paid]
  rfl

theorem chargeUnpaid {amount} (unpaid : ¬amount ≤ m.gasRemaining) :
    chargeGas amount m = (.error (.error .outOfGas),m) := by
  unfold chargeGas
  rw [bindRun,consumeGas,if_neg unpaid]
  rfl

theorem avoidsChargeBind {amount} {rest : Exec σ α β} : Avoids .panic (chargeGas amount >>= fun _ => rest) m ↔
      (amount ≤ m.gasRemaining → Avoids .panic rest (m.charged amount)) := by
  by_cases paid : amount ≤ m.gasRemaining
  · rw [avoidsOkBind (chargePaid paid)]
    exact ⟨fun h _ => h,fun h => h paid⟩
  · unfold Avoids
    rw [bindRun,chargeUnpaid paid]
    simp [paid,andThen]

theorem expandRun {size} (inside : size ≤ maxMemorySize) : ∃ words, expand size m = (.ok words,m.expanded size) := by
  unfold expand onMemory focus expanded Memory.expand
  split
  · exact ⟨_,rfl⟩
  · exact ⟨_,rfl⟩

theorem expandRefused {size} (outside : ¬size ≤ maxMemorySize) : ∃ e, expand size m = (.error (.error e),m) := by
  have above : ¬size ≤ m.memory.len := by
    have bounded := m.memory.bounded
    unfold Memory.len
    omega
  unfold expand onMemory focus Memory.expand
  simp only [above,outside,if_false,dif_neg,not_false_eq_true]
  exact ⟨_,rfl⟩

theorem avoidsExpandBind {size} {rest : Exec σ α β} : Avoids .panic (expand size >>= fun _ => rest) m ↔
      (size ≤ maxMemorySize → Avoids .panic rest (m.expanded size)) := by
  by_cases inside : size ≤ maxMemorySize
  · obtain ⟨words,ran⟩ := expandRun (m := m) inside
    rw [avoidsOkBind ran]
    exact ⟨fun h _ => h,fun h => h inside⟩
  · obtain ⟨e,ran⟩ := expandRefused (m := m) inside
    unfold Avoids
    rw [bindRun,ran]
    simp [inside,andThen]

theorem expandedLen {size} (inside : size ≤ maxMemorySize) : size ≤ (m.expanded size).memory.len := by
  unfold expanded Memory.expand
  split
  · assumption
  · simp only [Memory.resize,Memory.len,length_append,length_replicate,divCeil,wordLength]
    omega

theorem avoidsReadMemoryBind {offset size} {next : Bytes → Exec σ α β} (small : size < 2^63) :
    Avoids .panic (readMemory offset size >>= next) m ↔
      Avoids .panic (next ((List.range size).map (m.memory.byteAt offset))) m := by
  unfold readMemory
  rw [bindAssoc,avoidsReadBind,readBytes,if_pos small,avoidsLiftBind]
  simp

theorem avoidsUnary (op) : Avoids .panic (unary op) m := by
  cases data : m.stack.data with
  | nil => exact avoidsPopNil data
  | cons a rest => exact (avoidsPopCons data).mpr (avoidsPush _)

theorem avoidsBinary {op : U256 → U256 → Except VmFault U256} {P : U256 → U256 → Prop}
    (exact' : ∀ a b, op a b ≠ .error .panic ↔ P a b) :
    Avoids .panic (binary op) m ↔ match m.stack.data with
      | a::b::_ => P a b
      | _ => True := by
  unfold binary
  rcases data : m.stack.data with _ | ⟨a,_ | ⟨b,rest⟩⟩
  · exact iff_of_true (avoidsPopNil data) trivial
  · exact iff_of_true ((avoidsPopCons data).mpr (avoidsPopNil (poppedData data))) trivial
  · rw [avoidsPopCons data,avoidsPopCons (poppedData data),avoidsLiftBind,exact']
    exact and_iff_left fun value _ => avoidsPush value

theorem avoidsPlain (op : U256 → U256 → U256) : Avoids .panic (binary fun a b => .ok (op a b)) m := by
  have always a b : (.ok (op a b) : Except VmFault U256) ≠ .error .panic ↔ True := iff_of_true nofun trivial
  rw [avoidsBinary always]
  split <;> trivial

theorem avoidsTernary {op : U256 → U256 → U256 → Except VmFault U256} {P : U256 → U256 → U256 → Prop}
    (exact' : ∀ a b c, op a b c ≠ .error .panic ↔ P a b c) :
    Avoids .panic (ternary op) m ↔ match m.stack.data with
      | a::b::c::_ => P a b c
      | _ => True := by
  unfold ternary
  rcases data : m.stack.data with _ | ⟨a,_ | ⟨b,_ | ⟨c,rest⟩⟩⟩
  · exact iff_of_true (avoidsPopNil data) trivial
  · exact iff_of_true ((avoidsPopCons data).mpr (avoidsPopNil (poppedData data))) trivial
  · refine iff_of_true ?_ trivial
    rw [avoidsPopCons data,avoidsPopCons (poppedData data)]
    exact avoidsPopNil (poppedData (poppedData data))
  · rw [avoidsPopCons data,avoidsPopCons (poppedData data),avoidsPopCons (poppedData (poppedData data)),avoidsLiftBind,
      exact']
    exact and_iff_left fun value _ => avoidsPush value

/-- The operands on which an opcode does not panic. -/
def OperandsFit (m : Interpreter σ α) : Opcode → Prop
  | .addMod =>
    match m.stack.data with
    | a::b::c::_ => c = 0 ∨ a.toNat + b.toNat < 2^256
    | _ => True
  | .mulMod =>
    match m.stack.data with
    | a::b::c::_ => c = 0 ∨ a.toNat * b.toNat < 2^256
    | _ => True
  | .signExtend =>
    match m.stack.data with
    | k::_::_ => k.toNat * 8 + 7 < 2^64 ∧ k.toNat ≠ 31
    | _ => True
  | .shl | .shr =>
    match m.stack.data with
    | shift::_::_ => shift.toNat < 2^64
    | _ => True
  | .keccak256 =>
    match m.stack.data with
    | offset::size::_ => offset.toNat + size.toNat < 2^64 ∧ divCeil (offset.toNat + size.toNat) 32 < 2^32
    | _ => True
  | .callDataCopy | .codeCopy =>
    match m.stack.data with
    | [] => True
    | [dest] => dest.toNat < 2^64
    | [dest,src] => dest.toNat < 2^64 ∧ src.toNat < 2^64
    | dest::src::size::_ =>
      src.toNat < 2^64 ∧ dest.toNat + size.toNat < 2^64 ∧
        (dest.toNat + size.toNat ≤ maxMemorySize → size.toNat = 0 ∨ src.toNat + size.toNat ≤ 2^64)
  | .mLoad =>
    match m.stack.data with
    | [] => True
    | offset::_ => offset.toNat + 32 < 2^64
  | .mStore =>
    match m.stack.data with
    | [] => True
    | [offset] => offset.toNat < 2^64
    | offset::_::_ => offset.toNat + 32 < 2^64
  | .mStore8 =>
    match m.stack.data with
    | [] => True
    | [offset] => offset.toNat < 2^64
    | offset::_::_ => offset.toNat + 1 < 2^64
  | .jump | .jumpI =>
    match m.stack.data with
    | [] => True
    | dest::_ => dest.toNat < 2^64
  | .log n =>
    m.context.isStatic = false →
      match m.stack.data with
      | [] => True
      | [offset] => offset.toNat < 2^64
      | offset::size::_ =>
        offset.toNat < 2^64 ∧ 375 + 375 * n.val + 8 * size.toNat < 2^64 ∧
          (375 * n.val + 8 * size.toNat ≤ m.gasRemaining → offset.toNat + size.toNat < 2^64)
  | .return_ | .revert =>
    match m.stack.data with
    | [] => True
    | [offset] => offset.toNat < 2^64
    | offset::size::_ => offset.toNat + size.toNat < 2^64
  | _ => True

theorem guardBindExact {p} [Decidable p] {v} {f : β → Except VmFault γ} :
    ((if p then .ok v else .error .panic) >>= f) ≠ .error .panic ↔ p ∧ f v ≠ .error .panic := by
  split
  · rename_i holds
    exact (and_iff_right holds).symm
  · rename_i fails
    exact iff_of_false (fun h => h rfl) (fun h => fails h.1)

theorem guardExact {p} [Decidable p] {v} {f : β → Except VmFault γ} (calm : ∀ v, f v ≠ .error .panic) :
    ((if p then .ok v else .error .panic) >>= f) ≠ .error .panic ↔ p :=
  guardBindExact.trans (and_iff_left (calm v))

theorem fitBindExact {n} {f : Nat → Except VmFault β} :
    (fitWord true n >>= f) ≠ .error .panic ↔ n < 2^64 ∧ f n ≠ .error .panic := guardBindExact

theorem usizeBindExact {v} {f : Nat → Except VmFault β} :
    (asUsize v >>= f) ≠ .error .panic ↔ v.toNat < 2^64 ∧ f v.toNat ≠ .error .panic := guardBindExact

theorem zeroOrExact {c : U256} {p v} {rest : Except VmFault β} (exact' : rest ≠ .error .panic ↔ p) :
    (if c = 0 then .ok v else rest) ≠ .error .panic ↔ c = 0 ∨ p := by
  split
  · rename_i zero
    exact iff_of_true nofun (.inl zero)
  · rename_i nonzero
    rw [or_iff_right nonzero]
    exact exact'

theorem addmodExact {a b c} : addmod a b c ≠ .error .panic ↔ c = 0 ∨ a.toNat + b.toNat < 2^256 :=
  zeroOrExact (guardExact fun _ => nofun)

theorem mulmodExact {a b c} : mulmod a b c ≠ .error .panic ↔ c = 0 ∨ a.toNat * b.toNat < 2^256 :=
  zeroOrExact (guardExact fun _ => nofun)

theorem shlExact {shift value} : shl shift value ≠ .error .panic ↔ shift.toNat < 2^64 :=
  guardExact fun _ => nofun

theorem shrExact {shift value} : shr shift value ≠ .error .panic ↔ shift.toNat < 2^64 :=
  guardExact fun _ => nofun

theorem maskExact {bit : Nat} (inside : bit < 256) {f : U256 → U256} :
    (subU256 ((1 : U256) <<< (bit + 1)) 1 >>= fun mask => Except.ok (f mask)) ≠ .error .panic ↔ bit ≠ 255 := by
  have exact' : (subU256 ((1 : U256) <<< (bit + 1)) 1 >>= fun mask => Except.ok (f mask)) ≠ .error .panic ↔
      (1 : U256).toNat ≤ ((1 : U256) <<< (bit + 1)).toNat := guardExact fun _ => nofun
  rw [exact',BitVec.toNat_shiftLeft,Nat.shiftLeft_eq]
  by_cases last : bit = 255
  · subst last
    decide
  · have below : 2^(bit + 1) < 2^256 := Nat.pow_lt_pow_right (by decide) (by omega)
    have one : (1 : U256).toNat = 1 := rfl
    rw [one,Nat.one_mul,Nat.mod_eq_of_lt below]
    exact iff_of_true (Nat.two_pow_pos _) last

theorem signExtendExact {k x} : signExtend true k x ≠ .error .panic ↔ k.toNat * 8 + 7 < 2^64 ∧ k.toNat ≠ 31 := by
  unfold signExtend
  rw [usizeBindExact,fitBindExact,fitBindExact]
  split
  · exact ⟨fun h => ⟨h.2.2.1,by omega⟩,fun h => ⟨by omega,by omega,h.1,nofun⟩⟩
  · rename_i inside
    rw [maskExact (Nat.lt_of_not_le inside)]
    omega

theorem avoidsExp : Avoids .panic execExp m := by
  unfold execExp
  rcases data : m.stack.data with _ | ⟨a,_ | ⟨b,rest⟩⟩
  · exact avoidsPopNil data
  · exact (avoidsPopCons data).mpr (avoidsPopNil (poppedData data))
  · rw [avoidsPopCons data,avoidsPopCons (poppedData data),avoidsChargeBind]
    exact fun _ => avoidsPush _

theorem avoidsMLoad : Avoids .panic (execMLoad true) m ↔ OperandsFit m .mLoad := by
  unfold execMLoad OperandsFit
  rcases data : m.stack.data with _ | ⟨offset,rest⟩
  · exact iff_of_true (avoidsPopUsizeNil data) trivial
  · rw [avoidsPopUsizeCons data,avoidsFitBind,avoidsExpandBind]
    refine ⟨fun h => h.2.1,fun fits => ⟨?_,fits,fun _ => avoidsPushRead _⟩⟩
    dsimp only at fits
    omega

theorem insideSmall {memory : Memory} {n} (inside : n ≤ memory.len) : n < 2^32 :=
  Nat.lt_of_le_of_lt (Nat.le_trans inside memory.bounded) (by decide)

theorem writeInside {checks : Bool} {stop : Nat} {write : Nat → Command Memory VmFault Unit} {memory memory' : Memory}
    (inside : stop ≤ memory.len) (written : write stop memory = (.ok (),memory')) : (do
      let stop ← lift (fitWord checks stop)
      let wordsAdded ← Memory.expand stop
      write stop
      pure wordsAdded : Command Memory VmFault Nat) memory = (.ok 0,memory') := by
  have held : Memory.expand stop memory = (.ok 0,memory) := if_pos inside
  rw [fitWordSmall (Nat.lt_trans (insideSmall inside) (by decide))]
  simp only [bindRun,liftRun,andThen,held,written]
  rfl

theorem writeByteInside (checks) {offset} (value) {memory} (inside : offset < memory.len) :
    ∃ memory', writeByte checks offset value memory = (.ok 0,memory') ∧ memory'.len = memory.len :=
  ⟨_,writeInside inside (if_pos inside),length_set⟩

theorem writeWordInside (checks) {offset value memory} (width : value.length = 32) (inside : offset + 32 ≤ memory.len) :
    ∃ memory', writeWord checks offset value memory = (.ok 0,memory') :=
  ⟨_,writeInside inside (dif_pos ⟨Nat.le_add_right _ _,inside,by omega⟩)⟩

theorem avoidsOnMemoryBind {c b memory'} {next : β → Exec σ α γ} (ran : c m.memory = (.ok b,memory')) :
    Avoids .panic (onMemory c >>= next) m ↔ Avoids .panic (next b) {m with memory := memory'} := by
  refine avoidsOkBind ?_
  unfold onMemory focus
  simp only [ran]

theorem avoidsStore {width} {write : Nat → U256 → Command Memory VmFault Nat}
    (fits : ∀ offset value memory, offset + width ≤ Memory.len memory → ∃ memory', write offset value memory =
      (.ok 0,memory')) :
    Avoids .panic (do
      let offset ← popUsize
      let value ← pop
      let stop ← lift (fitWord true (offset + width))
      let _ ← expand stop
      let _ ← onMemory (write offset value) : Exec σ α Unit) m ↔
    match m.stack.data with
      | [] => True
      | [offset] => offset.toNat < 2^64
      | offset::_::_ => offset.toNat + width < 2^64 := by
  rcases data : m.stack.data with _ | ⟨offset,_ | ⟨value,rest⟩⟩
  · exact iff_of_true (avoidsPopUsizeNil data) trivial
  · rw [avoidsPopUsizeCons data]
    exact and_iff_left (avoidsPopNil (poppedData data))
  · rw [avoidsPopUsizeCons data,avoidsPopCons (poppedData data),avoidsFitBind,avoidsExpandBind]
    refine ⟨fun h => h.2.1,fun small => ⟨Nat.lt_of_le_of_lt (Nat.le_add_right _ _) small,small,fun inside => ?_⟩⟩
    obtain ⟨memory',written⟩ := fits offset.toNat value _ (expandedLen inside)
    exact (avoidsOnMemoryBind written).mpr (avoidsPure _)

theorem avoidsMStore : Avoids .panic (execMStore true) m ↔ OperandsFit m .mStore :=
  avoidsStore fun _ value _ inside => writeWordInside true (wordBytesLength value) inside

theorem avoidsMStore8 : Avoids .panic (execMStore8 true) m ↔ OperandsFit m .mStore8 :=
  avoidsStore fun _ _ _ inside => (writeByteInside true _ inside).imp fun _ written => written.1

theorem avoidsCopyBytes {source} {dest left i : Nat} (src : Nat) (inside : dest + i + left ≤ m.memory.len) :
    Avoids .panic (copyBytes true source dest src left i) m ↔ left = 0 ∨ src + i + left ≤ 2^64 := by
  induction left generalizing i m with
  | zero => exact iff_of_true (avoidsPure _) (.inl rfl)
  | succ left ih =>
    have small := insideSmall inside
    have within : dest + i < m.memory.len := by omega
    obtain ⟨memory',written,sameLen⟩ := writeByteInside true (source.getD (src + i) 0) within
    unfold copyBytes
    rw [avoidsFitBind,avoidsFitBind,avoidsOnMemoryBind written,ih (by simp only [sameLen]; omega)]
    omega

theorem avoidsCopy {source : Interpreter σ α → Bytes} :
    Avoids .panic (execCopy true source) m ↔ OperandsFit m .callDataCopy := by
  unfold execCopy OperandsFit
  rcases data : m.stack.data with _ | ⟨dest,_ | ⟨src,_ | ⟨size,rest⟩⟩⟩
  · exact iff_of_true (avoidsPopUsizeNil data) trivial
  · rw [avoidsPopUsizeCons data]
    exact and_iff_left (avoidsPopUsizeNil (poppedData data))
  · rw [avoidsPopUsizeCons data,avoidsPopUsizeCons (poppedData data)]
    exact and_congr_right fun _ => and_iff_left (avoidsPopUsizeNil (poppedData (poppedData data)))
  · rw [avoidsPopUsizeCons data,avoidsPopUsizeCons (poppedData data),avoidsPopUsizeCons (poppedData (poppedData data)),
      avoidsFitBind,avoidsExpandBind,avoidsReadBind]
    have copied (inside : dest.toNat + size.toNat ≤ maxMemorySize) (bytes : Bytes) :
        Avoids .panic (copyBytes true bytes dest.toNat src.toNat size.toNat 0)
          (m.popped.popped.popped.expanded (dest.toNat + size.toNat)) ↔
          size.toNat = 0 ∨ src.toNat + size.toNat ≤ 2^64 :=
      avoidsCopyBytes src.toNat (expandedLen inside)
    constructor
    · rintro ⟨_,srcSmall,_,fits,rest⟩
      exact ⟨srcSmall,fits,fun inside => (copied inside _).mp (rest inside)⟩
    · rintro ⟨srcSmall,fits,rest⟩
      exact ⟨by omega,srcSmall,by omega,fits,fun inside => (copied inside _).mpr (rest inside)⟩

def memoryGas (words : Nat) : Nat := words * words / 512 + 3 * words

theorem memoryGasCostOk {checks words} (small : words < 2^32) : memoryGasCost checks words = .ok (memoryGas words) := by
  have square : words * words < 2^64 := by
    calc words * words ≤ (2^32 - 1) * (2^32 - 1) := Nat.mul_le_mul (by omega) (by omega)
      _ < 2^64 := by decide
  unfold memoryGasCost
  rw [fitWordSmall square,fitWordSmall (show 3 * words < 2^64 by omega)]
  exact fitWordSmall (by omega)

theorem memoryGasCostPanics {words} (large : 2^32 ≤ words) : memoryGasCost true words = .error .panic := by
  have square : ¬words * words < 2^64 := by
    have := Nat.mul_le_mul large large
    omega
  have panics : fitWord true (words * words) = .error .panic := if_neg square
  unfold memoryGasCost
  rw [panics]
  rfl

theorem memoryGasMono {old new} (less : old ≤ new) : memoryGas old ≤ memoryGas new := by
  have square := Nat.mul_le_mul less less
  unfold memoryGas
  omega

theorem memoryExpansionCostOk {checks old new} (small : new < 2^32) :
    memoryExpansionCost checks old new = .ok (memoryGas new - memoryGas old) := by
  unfold memoryExpansionCost
  split
  · rename_i less
    rw [Nat.sub_eq_zero_of_le (memoryGasMono less)]
  · rename_i more
    rw [memoryGasCostOk small,memoryGasCostOk (show old < 2^32 by omega)]
    exact if_pos (memoryGasMono (Nat.le_of_not_le more))

theorem memoryExpansionCostPanics {old new} (within : old < 2^32) (large : ¬new < 2^32) :
    memoryExpansionCost true old new = .error .panic := by
  unfold memoryExpansionCost
  rw [if_neg (by omega),memoryGasCostPanics (Nat.le_of_not_lt large)]
  rfl

theorem keccak256GasCostOk {checks size} (small : size < 2^64) :
    keccak256GasCost checks size = .ok (30 + 6 * divCeil size 32) := by
  have words : divCeil size 32 ≤ 2^59 := by
    unfold divCeil
    omega
  unfold keccak256GasCost costs.keccak256Word costs.keccak256
  rw [fitWordSmall (show 6 * divCeil size 32 < 2^64 by omega)]
  exact fitWordSmall (by omega)

theorem logGasCostExact {size n : Nat} (few : n < 5) :
    logGasCost true size n = fitWord true (375 + 375 * n + 8 * size) := by
  unfold logGasCost costs.logTopic costs.log costs.logData
  rw [fitWordSmall (show 375 * n < 2^64 by omega)]
  simp only [bind,Except.bind]
  rw [fitWordSmall (show 375 + 375 * n < 2^64 by omega)]
  dsimp only
  by_cases data : 8 * size < 2^64
  · rw [fitWordSmall data]
  · have panics : fitWord true (8 * size) = .error .panic := if_neg data
    rw [panics]
    exact (if_neg (by omega)).symm

theorem wordSizeSmall : m.memory.wordSize < 2^32 := by
  have small := insideSmall (Nat.le_refl m.memory.len)
  unfold wordSize divCeil wordLength
  omega

theorem keccakCostSmall {size total : Nat} (less : size ≤ total) (words : divCeil total 32 < 2^32) :
    30 + 6 * divCeil size 32 + memoryGas (divCeil total 32) < 2^64 := by
  have hashed : divCeil size 32 ≤ divCeil total 32 := Nat.div_le_div_right (Nat.add_le_add_right less _)
  have square : divCeil total 32 * divCeil total 32 ≤ (2^32 - 1) * (2^32 - 1) :=
    Nat.mul_le_mul (by omega) (by omega)
  unfold memoryGas
  omega

theorem sizeInside {offset size} (inside : offset + size ≤ maxMemorySize) : size < 2^63 := by
  unfold maxMemorySize at inside
  omega

theorem avoidsKeccak256 (host : Host σ α) : Avoids .panic (execKeccak256 host.checked) m ↔ OperandsFit m .keccak256 := by
  unfold execKeccak256 OperandsFit
  simp only [checkedChecks]
  rcases data : m.stack.data with _ | ⟨offset,_ | ⟨size,rest⟩⟩
  · exact iff_of_true (avoidsPopNil data) trivial
  · exact iff_of_true ((avoidsPopCons data).mpr (avoidsPopNil (poppedData data))) trivial
  · rw [avoidsPopCons data,avoidsPopCons (poppedData data),avoidsUsizeBind,avoidsUsizeBind]
    by_cases small : size.toNat < 2^64
    · rw [keccak256GasCostOk small,avoidsLiftOk,avoidsReadBind,avoidsFitBind,
        avoidsLiftWhen memoryExpansionCostOk (memoryExpansionCostPanics wordSizeSmall),avoidsFitBind,avoidsChargeBind,
        avoidsExpandBind]
      constructor
      · rintro ⟨_,_,fits,words,_⟩
        exact ⟨fits,words⟩
      · rintro ⟨fits,words⟩
        have cost := keccakCostSmall (Nat.le_add_left size.toNat offset.toNat) words
        refine ⟨by omega,small,fits,words,Nat.lt_of_le_of_lt (Nat.add_le_add_left (Nat.sub_le _ _) _) cost,
          fun _ inside => ?_⟩
        rw [avoidsReadMemoryBind (sizeInside inside)]
        exact avoidsPush _
    · exact iff_of_false (fun h => small h.2.1) (fun h => small (by dsimp only at h; omega))

theorem avoidsPopTopics (n) : Avoids .panic (popTopics n) m := by
  induction n generalizing m with
  | zero => exact avoidsPure _
  | succ n ih =>
    cases data : m.stack.data with
    | nil => exact avoidsPopNil data
    | cons topic rest => exact (avoidsPopCons data).mpr (avoidsBoth ih fun _ _ => avoidsPure _)

theorem avoidsLog (n : Fin 5) : Avoids .panic (execLog true n) m ↔ OperandsFit m (.log n) := by
  unfold execLog OperandsFit
  rw [avoidsReadBind,avoidsRequireBind]
  refine imp_congr_right fun _ => ?_
  rcases data : m.stack.data with _ | ⟨offset,_ | ⟨size,rest⟩⟩
  · exact iff_of_true (avoidsPopUsizeNil data) trivial
  · rw [avoidsPopUsizeCons data]
    exact and_iff_left (avoidsPopUsizeNil (poppedData data))
  · have charge (cost : Nat) (least : costs.log ≤ cost) : subWord true cost costs.log = .ok (cost - costs.log) :=
      if_pos least
    rw [avoidsPopUsizeCons data,avoidsPopUsizeCons (poppedData data),logGasCostExact n.isLt,avoidsFitBind,
      charge _ (by unfold costs.log; omega),avoidsLiftOk,avoidsChargeBind,avoidsFitBind,avoidsExpandBind]
    have paid : 375 + 375 * n.val + 8 * size.toNat - costs.log = 375 * n.val + 8 * size.toNat := by
      unfold costs.log
      omega
    rw [paid]
    constructor
    · rintro ⟨offsetSmall,_,fits,rest⟩
      exact ⟨offsetSmall,fits,fun covers => (rest covers).1⟩
    · rintro ⟨offsetSmall,fits,rest⟩
      refine ⟨offsetSmall,by omega,fits,fun covers => ⟨rest covers,fun inside => ?_⟩⟩
      refine avoidsBoth (avoidsPopTopics _) fun topics _ => ?_
      rw [avoidsReadMemoryBind (sizeInside inside)]
      exact avoidsUpdate _

theorem avoidsOutputBind {next : Bytes → Exec σ α Unit} (calm : ∀ bytes m, Avoids .panic (next bytes) m) :
    Avoids .panic (readOutput true >>= next) m ↔ OperandsFit m .return_ := by
  unfold readOutput OperandsFit
  simp only [bindAssoc]
  rcases data : m.stack.data with _ | ⟨offset,_ | ⟨size,rest⟩⟩
  · exact iff_of_true (avoidsPopUsizeNil data) trivial
  · rw [avoidsPopUsizeCons data]
    exact and_iff_left (avoidsPopUsizeNil (poppedData data))
  · rw [avoidsPopUsizeCons data,avoidsPopUsizeCons (poppedData data),avoidsFitBind,avoidsExpandBind]
    refine ⟨fun h => h.2.2.1,fun fits => ?_⟩
    dsimp only at fits
    refine ⟨by omega,by omega,fits,fun inside => ?_⟩
    rw [avoidsReadMemoryBind (sizeInside inside)]
    exact calm _ _

theorem avoidsReturn : Avoids .panic (execReturn true) m ↔ OperandsFit m .return_ :=
  avoidsOutputBind fun _ _ => avoidsUpdate _

theorem avoidsRevert : Avoids .panic (execRevert true) m ↔ OperandsFit m .revert :=
  avoidsOutputBind fun _ _ => avoidsUpdateBind.mpr ((avoidsRaise _).mpr nofun)

theorem avoidsJumpTo (dest) : Avoids .panic (jump dest) m := by
  unfold jump
  rw [avoidsReadBind,avoidsRequireBind]
  exact fun _ => avoidsUpdate _

theorem avoidsJump : Avoids .panic execJump m ↔ OperandsFit m .jump := by
  unfold execJump OperandsFit
  rcases data : m.stack.data with _ | ⟨dest,rest⟩
  · exact iff_of_true (avoidsPopUsizeNil data) trivial
  · rw [avoidsPopUsizeCons data]
    exact and_iff_left (avoidsJumpTo _)

theorem avoidsJumpI : Avoids .panic execJumpI m ↔ OperandsFit m .jumpI := by
  unfold execJumpI OperandsFit
  rcases data : m.stack.data with _ | ⟨dest,_ | ⟨cond,rest⟩⟩
  · exact iff_of_true (avoidsPopUsizeNil data) trivial
  · rw [avoidsPopUsizeCons data]
    exact and_iff_left (avoidsPopNil (poppedData data))
  · rw [avoidsPopUsizeCons data,avoidsPopCons (poppedData data)]
    refine and_iff_left ?_
    split
    · exact avoidsPure _
    · exact avoidsJumpTo _

theorem sliceInside {bytes start stop} (order : start ≤ stop) (inside : stop ≤ bytes.length) :
    slice bytes start stop = .ok ((bytes.drop start).take (stop - start)) := if_pos ⟨order,inside⟩

theorem subWordOk {checks a b} (less : b ≤ a) : subWord checks a b = .ok (a - b) := if_pos less

def pushBytes (code : Bytes) (pc size : Nat) : Bytes :=
  (code.drop pc).take size ++ List.replicate (size - ((code.drop pc).take size).length) 0

theorem pushWordExact (checks : Bool) {code : Bytes} {pc : Nat} (inside : pc ≤ code.length) (size : Nat) :
    pushWord checks code pc size = .ok (fromBigEndian (pushBytes code pc size)) := by
  have order : pc ≤ min (pc + size) code.length := by omega
  have length : ((code.drop pc).take size).length = min (pc + size) code.length - pc := by
    rw [length_take,length_drop]
    omega
  have found : (code.drop pc).take (min (pc + size) code.length - pc) = (code.drop pc).take size := by
    rw [take_eq_take_iff,length_drop]
    omega
  unfold pushWord pushBytes fromBigEndian
  simp only [subWordOk order,bind,Except.bind]
  split
  · rw [sliceInside order (Nat.min_le_right _ _)]
    dsimp only
    rw [found,append_assoc,beNumberPadded,length]
  · rename_i none
    have empty : (code.drop pc).take size = [] := eq_nil_of_length_eq_zero (by omega)
    have zeros := beNumberPadded size []
    rw [append_nil] at zeros
    rw [empty,nil_append,length_nil,Nat.sub_zero,zeros]
    rfl

example : pushBytes [0x61,0xFF] 1 2 = [0xFF,0] := rfl

theorem avoidsPushCode (inside : m.pc ≤ m.code.1.length) (size) : Avoids .panic (execPush true size) m := by
  unfold execPush
  rw [avoidsReadBind,avoidsReadBind,pushWordExact true inside size,avoidsLiftOk]
  exact avoidsBoth (avoidsPush _) fun _ _ => avoidsUpdate _

theorem callDataWordOk (checks : Bool) (data : Buffer) (offset : U256) :
    ∃ word, callDataWord checks data.1 offset = .ok word := by
  have short := data.2
  unfold callDataWord
  split
  · exact ⟨_,rfl⟩
  · rename_i inside
    have word : asUsize offset = .ok offset.toNat := if_pos (by omega)
    have order : offset.toNat ≤ data.1.length := Nat.le_of_not_lt inside
    have stop : offset.toNat + min (data.1.length - offset.toNat) 32 ≤ data.1.length := by omega
    simp only [word,bind,Except.bind,subWordOk order]
    rw [fitWordSmall (by omega)]
    dsimp only
    rw [sliceInside (Nat.le_add_right _ _) stop]
    exact ⟨_,rfl⟩

theorem avoidsCallDataLoad : Avoids .panic (execCallDataLoad true) m := by
  unfold execCallDataLoad
  cases data : m.stack.data with
  | nil => exact avoidsPopNil data
  | cons offset rest =>
    obtain ⟨word,loaded⟩ := callDataWordOk true m.context.data offset
    rw [avoidsPopCons data,avoidsReadBind]
    change Avoids .panic (lift (callDataWord true m.context.data.1 offset) >>= _) _
    rw [loaded,avoidsLiftOk]
    exact avoidsPush _

theorem avoidsPop : Avoids .panic pop m := by
  unfold pop onStack
  rw [avoidsFocus]
  unfold Avoids Stack.pop
  split <;> simp

theorem avoidsChargeGas (amount) : Avoids .panic (chargeGas amount) m := by
  unfold chargeGas Avoids
  rw [bindRun]
  unfold consumeGas
  split <;> simp [ensure,andThen]

theorem avoidsOnState (c) : Avoids .panic (onState c : Exec σ α β) m := by
  unfold Avoids onState
  generalize c m.state = out
  obtain ⟨result,state⟩ := out
  cases result <;> simp [Except.mapError]

theorem avoidsOnAccessList (touch) : Avoids .panic (onAccessList touch : Exec σ α AccessStatus) m := by
  simp [Avoids,onAccessList]

theorem avoidsBalance (host) : Avoids .panic (execBalance host) m :=
  avoidsBoth avoidsPop fun _ _ => avoidsBoth (avoidsOnAccessList _) fun _ _ => avoidsBoth (avoidsChargeGas _) fun _ _ =>
    avoidsBoth (avoidsOnState _) fun _ _ => avoidsPush _

theorem avoidsSLoad (host) : Avoids .panic (execSLoad host) m :=
  avoidsBoth avoidsPop fun _ _ => avoidsBoth (avoidsRead _) fun _ _ => avoidsBoth (avoidsOnAccessList _) fun _ _ =>
    avoidsBoth (avoidsChargeGas _) fun _ _ => avoidsBoth (avoidsOnState _) fun _ _ => avoidsPush _

theorem avoidsSStore (host : Host σ α) : Avoids .panic (execSStore host) m := by
  unfold execSStore
  rw [avoidsReadBind,avoidsRequireBind]
  exact fun _ => avoidsBoth avoidsPop fun _ _ => avoidsBoth avoidsPop fun _ _ => avoidsBoth (avoidsRead _) fun _ _ =>
    avoidsBoth (avoidsOnAccessList _) fun _ _ => avoidsBoth (avoidsChargeGas _) fun _ _ =>
    avoidsBoth (avoidsOnState _) fun _ _ => avoidsUpdate _

theorem avoidsFail (e) : Avoids .panic (fail e : Exec σ α β) m := by simp [fail]

theorem avoidsDup (n) : Avoids .panic (onStack (Stack.dup n)) m := by
  unfold onStack
  rw [avoidsFocus]
  unfold Avoids Stack.dup
  split
  · simp
  · unfold Stack.push
    split <;> simp

theorem avoidsSwap (n) : Avoids .panic (onStack (Stack.swap n)) m := by
  unfold onStack
  rw [avoidsFocus]
  unfold Avoids Stack.swap
  split <;> simp

theorem dispatchExact (host : Host σ α) (opcode) (inside : m.pc ≤ m.code.1.length) :
    Avoids .panic (dispatch host.checked opcode) m ↔ OperandsFit m opcode := by
  cases opcode with
  | addMod => exact avoidsTernary fun _ _ _ => addmodExact
  | mulMod => exact avoidsTernary fun _ _ _ => mulmodExact
  | signExtend => exact avoidsBinary fun _ _ => signExtendExact
  | shl => exact avoidsBinary fun _ _ => shlExact
  | shr => exact avoidsBinary fun _ _ => shrExact
  | keccak256 => exact avoidsKeccak256 host
  | callDataCopy | codeCopy => exact avoidsCopy
  | mLoad => exact avoidsMLoad
  | mStore => exact avoidsMStore
  | mStore8 => exact avoidsMStore8
  | jump => exact avoidsJump
  | jumpI => exact avoidsJumpI
  | log n => exact avoidsLog n
  | return_ => exact avoidsReturn
  | revert => exact avoidsRevert
  | add | mul | sub | div | sDiv | mod | sMod | lt | gt | sLt | sGt | eq | and | or | xor | byte | sar =>
    exact iff_of_true (avoidsPlain _) trivial
  | isZero | not | blockHash => exact iff_of_true (avoidsUnary _) trivial
  | exp => exact iff_of_true avoidsExp trivial
  | balance => exact iff_of_true (avoidsBalance _) trivial
  | callDataLoad => exact iff_of_true avoidsCallDataLoad trivial
  | sLoad => exact iff_of_true (avoidsSLoad _) trivial
  | sStore => exact iff_of_true (avoidsSStore _) trivial
  | pop => exact iff_of_true (avoidsBoth avoidsPop fun _ _ => avoidsPure _) trivial
  | push n => exact iff_of_true (avoidsPushCode inside n) trivial
  | dup n => exact iff_of_true (avoidsDup _) trivial
  | swap n => exact iff_of_true (avoidsSwap _) trivial
  | jumpDest => exact iff_of_true (avoidsPure _) trivial
  | stop => exact iff_of_true (avoidsUpdate _) trivial
  | address | origin | caller | callValue | callDataSize | codeSize | gasPrice | coinbase | timestamp | number
  | gasLimit | chainId | baseFee | mSize | pc | gas => exact iff_of_true (avoidsPushRead _) trivial
  | _ => exact iff_of_true (avoidsFail _) trivial

def entered (m : Interpreter σ α) : Interpreter σ α :=
  {m.charged (opcodeGas m.opcode) with pc := m.pc + 1}

theorem followsEntered {R : Interpreter σ α → Interpreter σ α → Prop} [Steady R] {host : Host σ α}
    (runs : R m.entered (dispatch host m.opcode m.entered).2) : R m (turn host m).2 := by
  by_cases past : m.code.1.length ≤ m.pc
  · rw [turnPast host past]
    exact Steady.stop m
  · rw [turnInside host past,bindRun]
    by_cases paid : opcodeGas m.opcode ≤ m.gasRemaining
    · rw [chargePaid paid]
      exact trans_of R (trans_of R (Steady.gas m _) (Steady.counter _ _)) runs
    · rw [chargeUnpaid paid]
      exact refl_of R m

def TurnFits (m : Interpreter σ α) : Prop := m.runsOpcode = true → OperandsFit m.entered m.opcode

theorem turnExact (host : Host σ α) : Avoids .panic (turn host.checked) m ↔ TurnFits m := by
  unfold TurnFits runsOpcode
  by_cases past : m.code.1.length ≤ m.pc
  · refine iff_of_true ?_ fun h => absurd (of_decide_eq_true h).1 (Nat.not_lt_of_le past)
    unfold Avoids
    rw [turnPast host.checked past]
    exact nofun
  · have inside := Nat.lt_of_not_le past
    have body : Avoids .panic (turn host.checked) m ↔
        Avoids .panic (chargeGas (opcodeGas m.opcode) >>= fun _ => executeOpcode host.checked m.opcode) m := by
      unfold Avoids
      rw [turnInside host.checked past]
    rw [body,avoidsChargeBind,decide_eq_true_eq,and_iff_right inside]
    refine imp_congr_right fun _ => ?_
    unfold executeOpcode
    rw [avoidsUpdateBind]
    exact dispatchExact host m.opcode inside

structure Bounded (m : Interpreter σ α) : Prop where
  output : m.returnData.length ≤ maxMemorySize
  logs : ∀ entry ∈ m.logs, entry.data.length ≤ maxMemorySize

def KeepsBounded (m m' : Interpreter σ α) : Prop := Bounded m → Bounded m'

instance keepsBoundedFrame : Frame (KeepsBounded : Interpreter σ α → Interpreter σ α → Prop) where
  refl _ := id
  trans _ _ _ first second := second ∘ first
  stack _ _ bounded := ⟨bounded.output,bounded.logs⟩
  memory _ _ bounded := ⟨bounded.output,bounded.logs⟩
  state _ _ bounded := ⟨bounded.output,bounded.logs⟩
  accessList _ _ bounded := ⟨bounded.output,bounded.logs⟩
  gas _ _ bounded := ⟨bounded.output,bounded.logs⟩
  counter _ _ bounded := ⟨bounded.output,bounded.logs⟩
  changes _ _ bounded := ⟨bounded.output,bounded.logs⟩
  stop _ bounded := ⟨bounded.output,bounded.logs⟩

section
variable {R : Interpreter σ α → Interpreter σ α → Prop} [Frame R]

theorem followsWithin {n : Nat} {rest : Exec σ α β} (inside : n ≤ maxMemorySize → Follows R rest) :
    Follows R (lift (fitWord true n) >>= fun stop => expand stop >>= fun _ => rest) := by
  intro m
  refine followsBindAt (refl_of R m) fun stop m' fitted => ?_
  refine followsBindAt (followsExpand stop m') fun words last expanded => ?_
  have same : stop = n := fitWordOk (Prod.mk.inj fitted).1
  subst same
  by_cases fits : stop ≤ maxMemorySize
  · exact inside fits last
  · obtain ⟨e,refused⟩ := expandRefused (m := m') fits
    rw [refused] at expanded
    cases expanded

theorem followsRange {offset size : Nat} {next : Bytes → Exec σ α β}
    (each : ∀ bytes, bytes.length = size → Follows R (next bytes)) : Follows R (readMemory offset size >>= next) := by
  intro m
  refine followsBindAt (followsReadMemory offset size m) fun bytes m' readBack => ?_
  have given : m.memory.readBytes offset size = .ok bytes := (Prod.mk.inj readBack).1
  unfold readBytes at given
  split at given
  · cases given
    exact each _ (by rw [length_map,length_range]) m'
  · cases given

theorem followsOutput {next : Bytes → Exec σ α Unit} (each : ∀ bytes, bytes.length ≤ maxMemorySize → Follows R (next bytes)) :
    Follows R (readOutput true >>= next) := by
  unfold readOutput
  simp only [bindAssoc]
  exact followsBind followsPopUsize fun offset => followsBind followsPopUsize fun size =>
    followsWithin fun inside => followsRange fun bytes length => each bytes (by omega)

end

theorem boundedUpdate {f} (keeps : ∀ m, KeepsBounded m (f m)) : Follows KeepsBounded (update f : Exec σ α Unit) := keeps

theorem boundedEmits : Emits (KeepsBounded : Interpreter σ α → Interpreter σ α → Prop) true where
  log _ :=
    followsBind (followsRead _) fun _ => followsBind (followsEnsure _ _) fun _ =>
      followsBind followsPopUsize fun _ => followsBind followsPopUsize fun _ =>
      followsBind (followsLift _) fun _ => followsBind (followsLift _) fun _ => followsBind (followsChargeGas _) fun _ =>
      followsWithin fun inside => followsBind (followsPopTopics _) fun _ => followsRange fun bytes length =>
      boundedUpdate fun m bounded => by
        refine ⟨bounded.output,fun entry mem => ?_⟩
        rcases mem_append.mp mem with older | own
        · exact bounded.logs entry older
        · cases mem_singleton.mp own
          dsimp only
          omega
  return_ := followsOutput fun _ short => boundedUpdate fun _ bounded => ⟨short,bounded.logs⟩
  revert := followsOutput fun _ short =>
    followsBind (boundedUpdate fun _ bounded => ⟨short,bounded.logs⟩) fun _ => followsRaise _

theorem finishOk (checks) {m : Interpreter σ α} (within : m.gasRemaining ≤ m.context.gasLimit.toNat) :
    ∃ result, finish checks m = .ok result ∧ finish true m = .ok result := by
  unfold finish
  rw [subWordOk within,subWordOk within]
  exact ⟨_,rfl,rfl⟩

section Runs
variable (host : Host σ α) (context : ExecutionContext) (code : Buffer) (state : σ) (accessList : α)

theorem loopWithin {turns result last}
    (ran : loop (fun m => m.stopped) (turn host) turns (new context code state accessList) = some (result,last)) :
    last.gasRemaining ≤ last.context.gasLimit.toNat := by
  have across := loopFollows (turnAdvances host) ran
  rw [across.context]
  exact across.gas

theorem outputsBounded {turns : Nat} {result : ExecutionResult} {last : Interpreter σ α}
    (returned : execute host.checked turns (new context code state accessList) = some (.ok result,last)) :
    result.output.length ≤ maxMemorySize ∧ ∀ entry ∈ result.logs, entry.data.length ≤ maxMemorySize := by
  obtain ⟨⟨ended,final⟩,ran,rest⟩ := Option.map_eq_some_iff.mp returned
  have start : Bounded (new context code state accessList) := ⟨Nat.zero_le _,nofun⟩
  have bounded : Bounded final := loopFollows (R := KeepsBounded) (followsTurn boundedEmits) ran start
  obtain ⟨value,_,finished⟩ := finishOk true (loopWithin host.checked context code state accessList ran)
  cases ended with
  | error e => cases rest
  | ok done =>
    have same : value = result := Except.ok.inj (finished.symm.trans (Prod.mk.inj rest).1)
    unfold finish at finished
    rw [subWordOk (loopWithin host.checked context code state accessList ran)] at finished
    cases finished
    subst same
    exact ⟨bounded.output,bounded.logs⟩

theorem returnsIffFits :
    ((∃ out last, execute host.checked (context.gasLimit.toNat + 1) (new context code state accessList) =
        some (out,last) ∧ out ≠ .error .panic) ↔
      EachTurn (fun m => m.stopped) (turn host.checked) TurnFits (context.gasLimit.toNat + 1)
        (new context code state accessList)) ∧
    (EachTurn (fun m => m.stopped) (turn host.checked) TurnFits (context.gasLimit.toNat + 1)
        (new context code state accessList) →
      execute host (context.gasLimit.toNat + 1) (new context code state accessList) =
        execute host.checked (context.gasLimit.toNat + 1) (new context code state accessList)) ∧
    ∀ turns result last, execute host.checked turns (new context code state accessList) = some (.ok result,last) →
      result.output.length ≤ maxMemorySize ∧ ∀ entry ∈ result.logs, entry.data.length ≤ maxMemorySize := by
  have fits : (TurnFits : Interpreter σ α → Prop) = Avoids .panic (turn host.checked) :=
    funext fun _ => propext (turnExact host).symm
  obtain ⟨⟨result,last⟩,ran⟩ := loopEndsAt turnsLeftPositive (turnDescends host.checked)
    (s := new context code state accessList) (Nat.le_refl (context.gasLimit.toNat + 1))
  have within := loopWithin host.checked context code state accessList ran
  obtain ⟨value,unchecked,checked⟩ := finishOk host.checks within
  refine ⟨?_,?_,fun _ _ _ returned => outputsBounded host context code state accessList returned⟩
  · rw [fits,← loopAvoids (P := Avoids .panic (turn host.checked)) (I := fun _ => True) (fun _ _ _ _ => trivial)
      (fun _ _ _ => Iff.rfl) trivial,execute,ran]
    cases result with
    | error e => simp [andThen]
    | ok done => simp [andThen,checked]
  · intro each
    rw [fits] at each
    have same := loopRefines (refinesTurn host) each
    rw [execute,execute,same,ran]
    cases result with
    | error e => rfl
    | ok done => simp [andThen,checked,unchecked]

end Runs

def emptyHost (checks : Bool) : Host Unit Unit where
  checks := checks
  state := ⟨fun _ => pure 0,fun _ _ => pure 0,fun _ _ _ => pure ()⟩
  access := ⟨fun _ list => (.warm,list),fun _ _ list => (.warm,list)⟩
  keccak256 := residue

def plainContext : ExecutionContext :=
  ⟨1,1,2,0,⟨[],by decide⟩,100,0,⟨0,0,0,0,0,0⟩,false⟩

def panics (checks : Bool) (code : Bytes) : Bool :=
  if short : code.length < 2^63 then
    match execute (emptyHost checks) 101 (new plainContext ⟨code,short⟩ () ()) with
    | some (.error .panic,_) => true
    | _ => false
  else false

def pushMax : Bytes := 0x7F::List.replicate 32 0xFF

def panicking : List Bytes :=
  [pushMax ++ [0x51],pushMax ++ [0x56],0x5F::pushMax ++ [0xF3],0x5F::pushMax ++ [0x1B],
    0x60::1::pushMax ++ pushMax ++ [0x08],0x60::1::pushMax ++ pushMax ++ [0x09],[0x5F,0x60,0x1F,0x0B]]

/-- RETURN of 2^40 bytes from 2^64 - 2^40 on: the end of the range wraps to zero. -/
def wrapping : Buffer := ⟨[0x65,1,0,0,0,0,0,0x67,0xFF,0xFF,0xFF,0,0,0,0,0,0xF3],by decide⟩

theorem programsPanic : panicking.all (fun code => panics true code && panics false code) = true ∧
    panics true wrapping.1 = true ∧
    ∃ result last, execute (emptyHost false) 101 (new plainContext wrapping () ()) = some (.ok result,last) ∧
      result.output.length = 2^40 := by
  refine ⟨by decide +kernel,by decide +kernel,_,_,rfl,?_⟩
  rw [length_map,length_range]
  decide +kernel

end Interpreter

end QuantumChain.Evm
