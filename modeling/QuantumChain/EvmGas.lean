import QuantumChain.EvmFrame

/-! Gas and termination of the interpreter.
A turn that goes on pays gas, so the gas left bounds the turns. -/
namespace QuantumChain.Evm.Interpreter
open Command
variable {σ α β γ : Type}

structure Advances (m m' : Interpreter σ α) : Prop where
  context : m'.context = m.context
  code : m'.code = m.code
  gas : m'.gasRemaining ≤ m.gasRemaining

instance advancesFrame : Frame (Advances : Interpreter σ α → Interpreter σ α → Prop) where
  refl _ := ⟨rfl,rfl,Nat.le_refl _⟩
  trans _ _ _ first second :=
    ⟨second.context.trans first.context,second.code.trans first.code,Nat.le_trans second.gas first.gas⟩
  stack _ _ := ⟨rfl,rfl,Nat.le_refl _⟩
  memory _ _ := ⟨rfl,rfl,Nat.le_refl _⟩
  state _ _ := ⟨rfl,rfl,Nat.le_refl _⟩
  accessList _ _ := ⟨rfl,rfl,Nat.le_refl _⟩
  gas _ _ := ⟨rfl,rfl,Nat.sub_le _ _⟩
  counter _ _ := ⟨rfl,rfl,Nat.le_refl _⟩
  changes _ _ := ⟨rfl,rfl,Nat.le_refl _⟩
  stop _ := ⟨rfl,rfl,Nat.le_refl _⟩

theorem advancesEmits (checks) : Emits (Advances : Interpreter σ α → Interpreter σ α → Prop) checks := by
  have reports : Reports fun β (c : Exec σ α β) => Follows Advances c := {
    remembersFollows Advances Frame.memory with
    logs := fun _ _ _ => ⟨rfl,rfl,Nat.le_refl _⟩
    returns := fun _ _ => ⟨rfl,rfl,Nat.le_refl _⟩
    reverts := fun _ _ => ⟨rfl,rfl,Nat.le_refl _⟩
  }
  exact emitsFollows reports checks

theorem turnAdvances (host : Host σ α) : Follows Advances (turn host) := followsTurn (advancesEmits host.checks)

def Spends (n : Nat) (c : Exec σ α β) : Prop :=
  ∀ m b m', c m = (.ok b,m') → m'.gasRemaining + n ≤ m.gasRemaining

theorem spendsCharge (n : Nat) : Spends n (chargeGas n : Exec σ α Unit) := by
  intro m b m' h
  obtain ⟨paid,mid,consumed,rest⟩ := bindOk h
  unfold consumeGas at consumed
  split at consumed
  · cases consumed
    cases rest
    simp only
    omega
  · cases consumed
    cases rest

theorem spendsNothing {c : Exec σ α β} (follows : Follows Advances c) : Spends 0 c := by
  intro m b m' h
  have less := (follows m).gas
  rw [h] at less
  exact less

theorem spendsBind {n k c} {next : β → Exec σ α γ} (first : Spends n c)
    (rest : ∀ b, Spends k (next b)) : Spends (n + k) (c >>= next) := by
  intro m b m' h
  obtain ⟨a,mid,ran,ended⟩ := bindOk h
  have before := first m a mid ran
  have after := rest a mid b m' ended
  omega

theorem spendsLater {n} {c : Exec σ α β} {next : β → Exec σ α γ} (first : Follows Advances c)
    (rest : ∀ b, Spends n (next b)) : Spends n (c >>= next) :=
  Nat.zero_add n ▸ spendsBind (spendsNothing first) rest

theorem spendsFirst {n c} {next : β → Exec σ α γ} (first : Spends n c)
    (rest : ∀ b, Follows Advances (next b)) : Spends n (c >>= next) :=
  spendsBind first fun b => spendsNothing (rest b)

theorem spendsLess {n k} {c : Exec σ α β} (spends : Spends n c) (less : k ≤ n) : Spends k c := by
  intro m b m' h
  have paid := spends m b m' h
  omega

variable (host : Host σ α)

theorem balanceSpends : Spends 1 (execBalance host) :=
  spendsLater followsPop fun _ => spendsLater (followsOnAccessList _) fun status =>
    spendsFirst (spendsLess (spendsCharge _) (by cases status <;> decide)) fun _ =>
      followsBind (followsOnState _) fun _ => followsPush _

theorem sLoadSpends : Spends 1 (execSLoad host) :=
  spendsLater followsPop fun _ => spendsLater (followsRead _) fun _ => spendsLater (followsOnAccessList _) fun status =>
    spendsFirst (spendsLess (spendsCharge _) (by cases status <;> decide)) fun _ =>
      followsBind (followsOnState _) fun _ => followsPush _

theorem sStoreSpends : Spends 1 (execSStore host) :=
  spendsLater (followsRead _) fun _ => spendsLater (followsEnsure _ _) fun _ => spendsLater followsPop fun _ =>
    spendsLater followsPop fun _ => spendsLater (followsRead _) fun _ => spendsLater (followsOnAccessList _) fun status =>
    spendsFirst (spendsLess (spendsCharge _) (by cases status <;> decide)) fun _ =>
      followsBind (followsOnState _) fun _ => fun _ => ⟨rfl,rfl,Nat.le_refl _⟩

theorem returnStops {checks} {m m' : Interpreter σ α} (h : execReturn checks m = (.ok (),m')) : m'.stopped = true := by
  obtain ⟨data,mid,_,ended⟩ := bindOk h
  cases ended
  rfl

theorem revertFails {checks} {m m' : Interpreter σ α} : execRevert checks m ≠ (.ok (),m') := by
  intro h
  obtain ⟨data,mid,_,rest⟩ := bindOk h
  obtain ⟨value,last,_,ended⟩ := bindOk rest
  cases ended

theorem pushCosts (n) : opcodeGas (.push n) ≠ 0 := by
  change (if n = 0 then costs.base else costs.veryLow) ≠ 0
  split <;> decide

theorem freeOpcode {host} {opcode : Opcode} (free : opcodeGas opcode = 0) {m m' : Interpreter σ α}
    (h : dispatch host opcode m = (.ok (),m')) : m'.stopped = true ∨ m'.gasRemaining + 1 ≤ m.gasRemaining := by
  cases opcode with
  | stop =>
    cases h
    exact .inl rfl
  | return_ => exact .inl (returnStops h)
  | balance => exact .inr (balanceSpends host m () m' h)
  | sLoad => exact .inr (sLoadSpends host m () m' h)
  | sStore => exact .inr (sStoreSpends host m () m' h)
  | revert => exact absurd h revertFails
  | extCodeSize | extCodeCopy | extCodeHash | call | callCode | delegateCall | staticCall | invalid => cases h
  | push n => exact absurd free (pushCosts n)
  | _ => cases free

theorem turnSpends {host} {m m' : Interpreter σ α} (h : turn host m = (.ok (),m')) :
    m'.stopped = true ∨ m'.gasRemaining < m.gasRemaining := by
  by_cases past : m.code.1.length ≤ m.pc
  · rw [turnPast host past] at h
    cases h
    exact .inl rfl
  · rw [turnInside host past] at h
    obtain ⟨paid,mid,charged,ran⟩ := bindOk h
    have base := spendsCharge _ m paid mid charged
    by_cases free : opcodeGas m.opcode = 0
    · rcases freeOpcode free ran with stopped | spent
      · exact .inl stopped
      · refine .inr ?_
        simp only at spent
        omega
    · refine .inr ?_
      have less := spendsNothing (followsExecuteOpcode (advancesEmits host.checks) m.opcode) mid () m' ran
      omega

def turnsLeft (m : Interpreter σ α) : Nat := if m.stopped then 0 else m.gasRemaining + 1

theorem turnsLeftPositive (m : Interpreter σ α) (running : m.stopped = false) : 0 < m.turnsLeft := by
  simp [turnsLeft,running]

variable (host : Host σ α)

theorem turnDescends (m m') (running : m.stopped = false)
    (h : turn host m = (.ok (),m')) : m'.turnsLeft < m.turnsLeft := by
  unfold turnsLeft
  rw [running]
  rcases turnSpends h with stopped | spent
  · simp [stopped]
  · split
    · simp
    · simp only [Bool.false_eq_true,if_false]
      omega

theorem executeLoop (m : Interpreter σ α) : ∃ out,
    loop (fun m => m.stopped) (turn host) m.turnsLeft m = some out ∧
      execute host m.turnsLeft m = some (StepRun.andThen out fun _ m => (finish host.checks m,m)) := by
  obtain ⟨out,ended⟩ := loopEndsAt turnsLeftPositive (turnDescends host) (Nat.le_refl m.turnsLeft)
  refine ⟨out,ended,?_⟩
  rw [execute,ended]
  rfl

theorem executeEnds (m) : (execute host m.turnsLeft m).isSome = true := by
  obtain ⟨out,_,returned⟩ := executeLoop host m
  rw [returned]
  rfl

def run (m : Interpreter σ α) : Except VmFault ExecutionResult × Interpreter σ α :=
  (execute host m.turnsLeft m).get (executeEnds host m)

theorem runLoop (m : Interpreter σ α) : ∃ out,
    loop (fun m => m.stopped) (turn host) m.turnsLeft m = some out ∧
      run host m = StepRun.andThen out fun _ m => (finish host.checks m,m) := by
  obtain ⟨out,ended,returned⟩ := executeLoop host m
  exact ⟨out,ended,Option.get_of_mem _ returned⟩

theorem runFollows {R : Interpreter σ α → Interpreter σ α → Prop} [IsPreorder (Interpreter σ α) R] {host : Host σ α}
    {P : Interpreter σ α → Prop} (moves : ∀ m, P m → R m (turn host m).2) {m : Interpreter σ α}
    (each : EachTurn (fun m => m.stopped) (turn host) P m.turnsLeft m) : R m (run host m).2 := by
  obtain ⟨⟨result,last⟩,ended,same⟩ := runLoop host m
  have across := eachTurnFollows moves each ended
  rw [same]
  cases result with
  | ok done => exact across
  | error e => exact across

theorem gasUsedBound {checks} {m : Interpreter σ α} {result}
    (within : m.gasRemaining ≤ m.context.gasLimit.toNat) (h : finish checks m = .ok result) :
    result.gasUsed ≤ m.context.gasLimit.toNat := by
  unfold finish subWord at h
  rw [if_pos within] at h
  cases h
  simp only
  omega

theorem executionWithinGas (host : Host σ α) (context : ExecutionContext) (code : Buffer) (state : σ) (accessList : α) :
    (∃ out, ∀ turns, context.gasLimit.toNat + 1 ≤ turns →
      execute host turns (new context code state accessList) = some out) ∧
    (∀ turns, opcodesRun host turns (new context code state accessList) ≤ context.gasLimit.toNat + 1) ∧
    (∀ m : Interpreter σ α, (turn host m).2.gasRemaining ≤ m.gasRemaining) ∧
    ∀ turns result m', execute host turns (new context code state accessList) = some (.ok result,m') →
      result.gasUsed ≤ context.gasLimit.toNat := by
  refine ⟨?_,fun turns => ?_,fun m => (turnAdvances host m).gas,fun turns result m' h => ?_⟩
  · obtain ⟨out,ended⟩ := loopEnds turnsLeftPositive (turnDescends host) (new context code state accessList)
    refine ⟨StepRun.andThen out fun _ m => (finish host.checks m,m),fun turns enough => ?_⟩
    rw [execute,ended turns enough]
    rfl
  · exact turnsBounded turnsLeftPositive (turnDescends host) runsOpcode turns _
  · obtain ⟨⟨ended,last⟩,ran,rest⟩ := Option.map_eq_some_iff.mp h
    have across := loopFollows (turnAdvances host) ran
    cases ended with
    | error e => cases rest
    | ok value =>
      obtain ⟨finished,rfl⟩ := Prod.mk.inj rest
      have bound := gasUsedBound (across.context ▸ across.gas) finished
      rwa [across.context] at bound

end QuantumChain.Evm.Interpreter
