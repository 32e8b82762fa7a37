import Mathlib.Data.List.Induction

/-! Finite runs of a step function, and conditions along them.
Invariants go from one step to every run. -/
namespace QuantumChain.StepRun
variable {σ ε : Type}

def run (step : σ → ε → σ) (s : σ) (events : List ε) : σ := events.foldl step s

@[simp] theorem runNil (step : σ → ε → σ) (s) : run step s [] = s := rfl

@[simp] theorem runCons (step) (s : σ) (e) (rest : List ε) :
    run step s (e::rest) = run step (step s e) rest := rfl

theorem runAppend (step) (s : σ) (first second : List ε) :
    run step s (first ++ second) = run step (run step s first) second :=
  List.foldl_append

def Along (step : σ → ε → σ) (P : σ → ε → Prop) : σ → List ε → Prop
  | _,[] => True
  | s,e::rest => P s e ∧ Along step P (step s e) rest

instance decideAlong (step : σ → ε → σ) (P : σ → ε → Prop) [∀ s e, Decidable (P s e)] :
    (s : σ) → (events : List ε) → Decidable (Along step P s events)
  | _,[] => isTrue trivial
  | s,e::rest =>
    have := decideAlong step P (step s e) rest
    inferInstanceAs (Decidable (P s e ∧ Along step P (step s e) rest))

theorem alongAppend {step P} {s : σ} {first second : List ε} :
    Along step P s (first ++ second) ↔ Along step P s first ∧ Along step P (run step s first) second := by
  induction first generalizing s with
  | nil => simp [Along]
  | cons e rest ih => simp [Along,ih,and_assoc]

theorem alongAlways {step P} (always : ∀ s e, P s e)
    (s : σ) (events : List ε) : Along step P s events := by
  induction events generalizing s with
  | nil => trivial
  | cons e rest ih => exact ⟨always s e,ih _⟩

theorem alongAnd {step P Q} {s : σ} {events : List ε} (left : Along step P s events)
    (right : Along step Q s events) : Along step (fun s e => P s e ∧ Q s e) s events := by
  induction events generalizing s with
  | nil => trivial
  | cons e rest ih => exact ⟨⟨left.1,right.1⟩,ih left.2 right.2⟩

theorem alongEach {step : σ → ε → σ} {Q : ε → Prop} (s) {events : List ε} (each : ∀ e ∈ events, Q e) :
    Along step (fun _ e => Q e) s events := by
  induction events generalizing s with
  | nil => trivial
  | cons e rest ih => exact ⟨each e List.mem_cons_self,ih _ (fun e mem => each e (List.mem_cons_of_mem _ mem))⟩

theorem runKeeps {step P} {I : σ → Prop}
    (keeps : ∀ s e, I s → P s e → I (step s e)) {s} {events : List ε}
    (start : I s) (meets : Along step P s events) : I (run step s events) := by
  induction events generalizing s with
  | nil => exact start
  | cons e rest ih => exact ih (keeps s e start meets.1) meets.2

theorem runInvariant {step} {I : σ → Prop} (keeps : ∀ s e, I s → I (step s e))
    {s} (start : I s) (events : List ε) : I (run step s events) :=
  runKeeps (P := fun _ _ => True) (fun s e inv _ => keeps s e inv) start
    (alongAlways (fun _ _ => trivial) s events)

theorem runFrame {β : Type} (view : σ → β) {step} (keeps : ∀ s e, view (step s e) = view s) (s)
    (events : List ε) : view (run step s events) = view s :=
  runInvariant (I := fun t => view t = view s) (fun t e same => (keeps t e).trans same) rfl events

theorem runExact {step P} {I Good : σ → Prop} (keeps : ∀ s e, I s → I (step s e))
    (oneStep : ∀ s e, I s → (Good (step s e) ↔ Good s ∧ P s e)) {s} (start : I s) (events : List ε) :
    Good (run step s events) ↔ Good s ∧ Along step P s events := by
  induction events using List.reverseRecOn with
  | nil => simp [Along]
  | append_singleton before e ih =>
    rw [runAppend,alongAppend,runCons,runNil,oneStep _ _ (runInvariant keeps start before),ih]
    simp [Along,and_assoc]

theorem alongUnder {step P Q} {I : σ → Prop}
    (keeps : ∀ s e, I s → P s e → I (step s e)) (implies : ∀ s e, I s → P s e → Q s e)
    {s} (start : I s) {events : List ε} (meets : Along step P s events) : Along step Q s events := by
  induction events generalizing s with
  | nil => trivial
  | cons e rest ih => exact ⟨implies s e start meets.1,ih (keeps s e start meets.1) meets.2⟩

theorem alongImplies {step P Q} {I : σ → Prop}
    (keeps : ∀ s e, I s → I (step s e)) (implies : ∀ s e, I s → P s e → Q s e)
    {s} (start : I s) {events : List ε} (meets : Along step P s events) : Along step Q s events :=
  alongUnder (fun s e inv _ => keeps s e inv) implies start meets

theorem alongKeeps {step P} {I Good : σ → Prop}
    (keeps : ∀ s e, I s → P s e → I (step s e)) (good : ∀ s, I s → Good s) {s} (start : I s)
    {events : List ε} (meets : Along step P s events) : Along step (fun s e => Good (step s e)) s events :=
  alongUnder keeps (fun s e inv meets => good _ (keeps s e inv meets)) start meets

theorem alongExactWithin {step D P} {I Good : σ → Prop}
    (keeps : ∀ s e, I s → D s e → P s e → I (step s e)) (good : ∀ s, I s → Good s)
    (needs : ∀ s e, I s → D s e → Good (step s e) → P s e) {s} (start : I s) {events : List ε}
    (within : Along step D s events) : Along step (fun s e => Good (step s e)) s events ↔ Along step P s events := by
  induction events generalizing s with
  | nil => exact Iff.rfl
  | cons e rest ih =>
    constructor
    · intro across
      have meets := needs s e start within.1 across.1
      exact ⟨meets,(ih (keeps s e start within.1 meets) within.2).mp across.2⟩
    · intro meets
      have next := keeps s e start within.1 meets.1
      exact ⟨good _ next,(ih next within.2).mpr meets.2⟩

theorem alongExact {step P} {I Good : σ → Prop}
    (keeps : ∀ s e, I s → P s e → I (step s e)) (good : ∀ s, I s → Good s)
    (needs : ∀ s e, I s → Good (step s e) → P s e) {s} (start : I s) {events : List ε} :
    Along step (fun s e => Good (step s e)) s events ↔ Along step P s events :=
  alongExactWithin (D := fun _ _ => True) (fun s e inv _ => keeps s e inv) good (fun s e inv _ => needs s e inv) start
    (alongAlways (fun _ _ => trivial) s events)

theorem runRelates {step} {R : σ → σ → Prop} (refl : ∀ s, R s s)
    (trans : ∀ a b c, R a b → R b c → R a c) {s} {events : List ε}
    (across : Along step (fun s e => R s (step s e)) s events) : R s (run step s events) := by
  induction events generalizing s with
  | nil => exact refl s
  | cons e rest ih => exact trans _ _ _ across.1 (ih across.2)

theorem alongMap {τ step step'} {f : σ → τ} {P}
    (commutes : ∀ s e, f (step s e) = step' (f s) e) {s} {events : List ε} :
    Along step (fun s e => P (f s) e) s events ↔ Along step' P (f s) events := by
  induction events generalizing s with
  | nil => exact Iff.rfl
  | cons e rest ih =>
    unfold Along
    rw [ih,commutes]

def reached (step : σ → ε → σ) (s : σ) (events : List ε) (i : Nat) : σ := run step s (events.take i)

theorem reachedNext {step} {s : σ} {events i} {e : ε} (at' : events[i]? = some e) :
    reached step s events (i + 1) = step (reached step s events i) e := by
  obtain ⟨inside,rfl⟩ := List.getElem?_eq_some_iff.mp at'
  unfold reached
  rw [List.take_succ_eq_append_getElem inside,runAppend,runCons,runNil]

theorem reachedPast {step} {s : σ} {events : List ε} {i} (past : events[i]? = none) :
    reached step s events (i + 1) = reached step s events i := by
  have short := List.getElem?_eq_none_iff.mp past
  unfold reached
  rw [List.take_of_length_le short,List.take_of_length_le (Nat.le_succ_of_le short)]

theorem alongReached {step P} {s : σ} {events : List ε} :
    Along step P s events ↔ ∀ i e, events[i]? = some e → P (reached step s events i) e := by
  induction events generalizing s with
  | nil => simp [Along]
  | cons first rest ih =>
    rw [Along,ih]
    constructor
    · rintro ⟨now,later⟩ i e at'
      cases i with
      | zero =>
        cases at'
        exact now
      | succ i => exact later i e at'
    · intro each
      exact ⟨each 0 first rfl,fun i e at' => each (i + 1) e at'⟩

theorem reachedKeeps {step} {I : σ → Prop} {s} {events : List ε}
    (keeps : ∀ i e, events[i]? = some e → I (reached step s events i) → I (step (reached step s events i) e))
    {i j} (later : i ≤ j) (holds : I (reached step s events i)) : I (reached step s events j) := by
  induction later with
  | refl => exact holds
  | @step j _ ih =>
    cases at' : events[j]? with
    | none => exact reachedPast at' ▸ ih
    | some e => exact reachedNext at' ▸ keeps j e at' ih

theorem finalReached {β : Type} (view : σ → β) {step} {F : β → Prop} {s} {events : List ε} :
    (∀ i j, i ≤ j → F (view (reached step s events i)) → view (reached step s events j) = view (reached step s events i)) ↔
      Along step (fun s e => F (view s) → view (step s e) = view s) s events := by
  rw [alongReached]
  constructor
  · intro final i e at' holds
    have next := final i (i + 1) (Nat.le_succ i) holds
    rw [reachedNext at'] at next
    exact next
  · intro each i j later holds
    refine reachedKeeps (I := fun t => view t = view (reached step s events i)) (fun k e at' same => ?_) later rfl
    rw [each k e at' (same ▸ holds)]
    exact same

section
variable {τ α β : Type}

def andThen (first : Except ε α × σ) (next : α → σ → Except ε β × σ) : Except ε β × σ :=
  match first with
  | (.ok a,s) => next a s
  | (.error e,s) => (.error e,s)

@[simp] theorem andThenOk (a) (s) (next : α → σ → Except ε β × σ) : andThen (.ok a,s) next = next a s := rfl

@[simp] theorem andThenError (e) (s) (next : α → σ → Except ε β × σ) :
    andThen (.error e,s) next = (.error e,s) := rfl

theorem andThenAssoc {γ} (first) (second : α → σ → Except ε β × σ)
    (third : β → σ → Except ε γ × σ) :
    andThen (andThen first second) third = andThen first (fun a s => andThen (second a s) third) := by
  obtain ⟨result,s⟩ := first
  cases result <;> rfl

theorem andThenKeeps {I : σ → Prop} {first} {next : α → σ → Except ε β × σ} (start : I first.2)
    (keeps : ∀ a s, I s → I (next a s).2) : I (andThen first next).2 := by
  obtain ⟨result,s⟩ := first
  cases result with
  | ok a => exact keeps a s start
  | error e => exact start

def Agree (R : σ → τ → Prop) (left : Except ε α × σ) (right : Except ε α × τ) : Prop :=
  left.1 = right.1 ∧ R left.2 right.2

theorem andThenAgree {R left right}
    {next : α → σ → Except ε β × σ} {next' : α → τ → Except ε β × τ} (agree : Agree R left right)
    (rest : ∀ a s t, R s t → Agree R (next a s) (next' a t)) : Agree R (andThen left next) (andThen right next') := by
  obtain ⟨result,s⟩ := left
  obtain ⟨result',t⟩ := right
  obtain ⟨same,related⟩ := agree
  cases same
  cases result with
  | ok a => exact rest a s t related
  | error e => exact ⟨rfl,related⟩

theorem boundOk {first} {next : α → Except ε β} {b : β} :
    (first >>= next) = .ok b ↔ ∃ a, first = .ok a ∧ next a = .ok b := by
  cases first <;> simp [bind,Except.bind]

theorem boundSwap {γ first} {second : Except ε β} {next : α → β → Except ε γ} {c} :
    (first >>= fun a => second >>= fun b => next a b) = .ok c ↔ (second >>= fun b => first >>= fun a => next a b) =
      .ok c := by
  cases first <;> cases second <;> simp [bind,Except.bind]

theorem boundFails {first : Except ε α} {next : α → Except ε β} {a e} (ok : first = .ok a)
    (fails : next a = .error e) : (first >>= next) = .error e := by
  rw [ok]
  exact fails

theorem mapErrorOk {δ : Type} {f : ε → δ} {read : Except ε α} {a : α} : read.mapError f = .ok a ↔ read = .ok a := by
  constructor
  · intro mapped
    cases read with
    | error e => cases mapped
    | ok b =>
      cases mapped
      rfl
  · rintro rfl
    rfl

end

end QuantumChain.StepRun
