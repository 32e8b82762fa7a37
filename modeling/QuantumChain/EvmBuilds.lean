import QuantumChain.EvmInterpreter

/-! Builds with and without overflow checks.
The two agree wherever the checked one does not panic. -/
namespace QuantumChain.Evm
open Command

def Host.checked {σ α : Type} (host : Host σ α) : Host σ α := {host with checks := true}

@[simp] theorem checkedChecks {σ α} {host : Host σ α} : host.checked.checks = true := rfl

section Results
variable {β γ : Type}

/-- The second result is the first wherever the first does not panic. -/
def Agrees (result result' : Except VmFault β) : Prop := result ≠ .error .panic → result' = result

theorem agreesRefl (result : Except VmFault β) : Agrees result result := fun _ => rfl

theorem agreesChecked {p} [Decidable p] (checks : Bool) (kept wrapped : Except VmFault β) :
    Agrees (if p then kept else .error .panic) (if p then kept else if checks then .error .panic else wrapped) := by
  intro calm
  split
  · rfl
  · rename_i large
    rw [if_neg large] at calm
    exact absurd rfl calm

theorem agreesFit (checks) (n) : Agrees (fitWord true n) (fitWord checks n) := agreesChecked checks _ _

theorem agreesSub (checks) (a b) : Agrees (subWord true a b) (subWord checks a b) := agreesChecked checks _ _

theorem agreesBind {result result'} {next next' : β → Except VmFault γ}
    (first : Agrees result result') (rest : ∀ b, Agrees (next b) (next' b)) :
    Agrees (result >>= next) (result' >>= next') := by
  intro calm
  have starts : result ≠ .error .panic := by
    rintro rfl
    exact calm rfl
  rw [first starts]
  cases result with
  | ok b => exact rest b calm
  | error e => rfl

theorem agreesIf {p} [Decidable p] {left right right' : Except VmFault β} (other : Agrees right right') :
    Agrees (if p then left else right) (if p then left else right') := by
  split
  · exact agreesRefl left
  · exact other

theorem agreesSignExtend (checks) (k x) : Agrees (signExtend true k x) (signExtend checks k x) :=
  agreesBind (agreesRefl _) fun _ => agreesBind (agreesFit checks _) fun _ => agreesBind (agreesFit checks _) fun _ =>
    agreesRefl _

theorem agreesKeccak256GasCost (checks) (size) :
    Agrees (keccak256GasCost true size) (keccak256GasCost checks size) :=
  agreesBind (agreesFit checks _) fun _ => agreesFit checks _

theorem agreesLogGasCost (checks) (size topics) :
    Agrees (logGasCost true size topics) (logGasCost checks size topics) :=
  agreesBind (agreesFit checks _) fun _ => agreesBind (agreesFit checks _) fun _ => agreesBind (agreesFit checks _) fun _ =>
    agreesFit checks _

theorem agreesMemoryGasCost (checks) (words) :
    Agrees (memoryGasCost true words) (memoryGasCost checks words) :=
  agreesBind (agreesFit checks _) fun _ => agreesBind (agreesFit checks _) fun _ => agreesFit checks _

theorem agreesMemoryExpansionCost (checks) (old new) :
    Agrees (memoryExpansionCost true old new) (memoryExpansionCost checks old new) :=
  agreesIf (agreesBind (agreesMemoryGasCost checks _) fun _ => agreesBind (agreesMemoryGasCost checks _) fun _ =>
    agreesSub checks _ _)

end Results

namespace Memory

theorem refinesWriteByte (checks) (offset) (value) :
    Refines .panic (writeByte true offset value) (writeByte checks offset value) :=
  refinesBind (refinesLift (agreesFit checks _)) fun _ => refinesRefl _

theorem refinesWriteWord (checks) (offset) (value) :
    Refines .panic (writeWord true offset value) (writeWord checks offset value) :=
  refinesBind (refinesLift (agreesFit checks _)) fun _ => refinesRefl _

end Memory

namespace Interpreter
variable {σ α β : Type}

theorem refinesLiftBind {result result'} {next next' : β → Exec σ α Unit}
    (first : Agrees result result') (rest : ∀ b, Refines .panic (next b) (next' b)) :
    Refines .panic (lift result >>= next) (lift result' >>= next') :=
  refinesBind (refinesLift first) rest

theorem refinesBinary {op op'} (same : ∀ a b, Agrees (op a b) (op' a b)) :
    Refines .panic (binary op : Exec σ α Unit) (binary op') :=
  refinesThen fun _ => refinesThen fun _ => refinesLiftBind (same _ _) fun _ => refinesRefl _

theorem refinesKeccak256 (host : Host σ α) : Refines .panic (execKeccak256 host.checked) (execKeccak256 host) :=
  refinesThen fun _ => refinesThen fun _ => refinesThen fun _ => refinesThen fun _ =>
    refinesLiftBind (agreesKeccak256GasCost _ _) fun _ => refinesThen fun _ =>
    refinesLiftBind (agreesFit _ _) fun _ => refinesLiftBind (agreesMemoryExpansionCost _ _ _) fun _ =>
    refinesLiftBind (agreesFit _ _) fun _ => refinesRefl _

theorem refinesCopyBytes (checks) (source) (dest src left i) :
    Refines .panic (copyBytes true source dest src left i : Exec σ α Unit) (copyBytes checks source dest src left i) := by
  induction left generalizing i with
  | zero => exact refinesRefl _
  | succ left ih =>
    exact refinesLiftBind (agreesFit _ _) fun _ => refinesLiftBind (agreesFit _ _) fun _ =>
      refinesBind (refinesFocus (Memory.refinesWriteByte _ _ _)) fun _ => ih _

theorem refinesCopy (checks) (source : Interpreter σ α → Bytes) :
    Refines .panic (execCopy true source) (execCopy checks source) :=
  refinesThen fun _ => refinesThen fun _ => refinesThen fun _ => refinesLiftBind (agreesFit _ _) fun _ =>
    refinesThen fun _ => refinesThen fun _ => refinesCopyBytes _ _ _ _ _ _

theorem refinesCallDataLoad (checks) :
    Refines .panic (execCallDataLoad true : Exec σ α Unit) (execCallDataLoad checks) :=
  refinesThen fun _ => refinesThen fun _ =>
    refinesLiftBind (agreesIf (agreesBind (agreesRefl _) fun _ => agreesBind (agreesSub checks _ _) fun _ =>
      agreesBind (agreesFit checks _) fun _ => agreesRefl _)) fun _ => refinesRefl _

theorem refinesMLoad (checks) : Refines .panic (execMLoad true : Exec σ α Unit) (execMLoad checks) :=
  refinesThen fun _ => refinesLiftBind (agreesFit _ _) fun _ => refinesRefl _

theorem refinesMStore (checks) : Refines .panic (execMStore true : Exec σ α Unit) (execMStore checks) :=
  refinesThen fun _ => refinesThen fun _ => refinesLiftBind (agreesFit _ _) fun _ => refinesThen fun _ =>
    refinesBind (refinesFocus (Memory.refinesWriteWord _ _ _)) fun _ => refinesRefl _

theorem refinesMStore8 (checks) : Refines .panic (execMStore8 true : Exec σ α Unit) (execMStore8 checks) :=
  refinesThen fun _ => refinesThen fun _ => refinesLiftBind (agreesFit _ _) fun _ => refinesThen fun _ =>
    refinesBind (refinesFocus (Memory.refinesWriteByte _ _ _)) fun _ => refinesRefl _

theorem refinesPush (checks) (size) :
    Refines .panic (execPush true size : Exec σ α Unit) (execPush checks size) :=
  refinesThen fun _ => refinesThen fun _ =>
    refinesLiftBind (agreesBind (agreesSub checks _ _) fun _ => agreesRefl _) fun _ => refinesRefl _

theorem refinesLog (checks) (topicCount) :
    Refines .panic (execLog true topicCount : Exec σ α Unit) (execLog checks topicCount) :=
  refinesThen fun _ => refinesThen fun _ => refinesThen fun _ => refinesThen fun _ =>
    refinesLiftBind (agreesLogGasCost _ _ _) fun _ => refinesLiftBind (agreesSub _ _ _) fun _ => refinesThen fun _ =>
    refinesLiftBind (agreesFit _ _) fun _ => refinesRefl _

theorem refinesOutput (checks) : Refines .panic (readOutput true : Exec σ α Bytes) (readOutput checks) :=
  refinesThen fun _ => refinesThen fun _ => refinesBind (refinesLift (agreesFit _ _)) fun _ => refinesRefl _

theorem refinesDispatch (host : Host σ α) (opcode) :
    Refines .panic (dispatch host.checked opcode) (dispatch host opcode) := by
  cases opcode with
  | signExtend => exact refinesBinary fun _ _ => agreesSignExtend _ _ _
  | keccak256 => exact refinesKeccak256 host
  | callDataCopy | codeCopy => exact refinesCopy _ _
  | callDataLoad => exact refinesCallDataLoad _
  | mLoad => exact refinesMLoad _
  | mStore => exact refinesMStore _
  | mStore8 => exact refinesMStore8 _
  | push n => exact refinesPush _ _
  | log n => exact refinesLog _ _
  | return_ | revert => exact refinesBind (refinesOutput _) fun _ => refinesRefl _
  | _ => exact refinesRefl _

theorem refinesTurn (host : Host σ α) : Refines .panic (turn host.checked) (turn host) := by
  intro m avoids
  by_cases past : m.code.1.length ≤ m.pc
  · rw [turnPast host past,turnPast host.checked past]
  · unfold Avoids at avoids
    rw [turnInside host.checked past] at avoids ⊢
    rw [turnInside host past]
    exact refinesThen (fun _ => refinesThen fun _ => refinesDispatch host _) m avoids

end Interpreter

end QuantumChain.Evm
