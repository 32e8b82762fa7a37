import QuantumChain.StepRun
import Mathlib.Order.Defs.Unbundled
import Mathlib.Tactic.Common

/-! Commands on a state that may fail, with the state a failure leaves.
Loops run on fuel; that it suffices is shown where a loop is used. -/
namespace QuantumChain
open StepRun (andThen)

def Command (σ ε α : Type) : Type := σ → Except ε α × σ

namespace Command
variable {σ τ ε α β : Type}

instance monad : Monad (Command σ ε) where
  pure a := fun s => (.ok a,s)
  bind c next := fun s => andThen (c s) next

def read (f : σ → α) : Command σ ε α := fun s => (.ok (f s),s)

def update (f : σ → σ) : Command σ ε Unit := fun s => (.ok (),f s)

def raise (e : ε) : Command σ ε α := fun s => (.error e,s)

def lift (result : Except ε α) : Command σ ε α := fun s => (result,s)

def ensure (holds : Prop) [Decidable holds] (e : ε) : Command σ ε Unit := if holds then pure () else raise e

def focus (get : σ → τ) (set : τ → σ → σ) (c : Command τ ε α) : Command σ ε α := fun s =>
  let out := c (get s)
  (out.1,set out.2 s)

@[simp] theorem pureRun (a) (s) : (pure a : Command σ ε α) s = (.ok a,s) := rfl

@[simp] theorem bindRun (c) (next : α → Command σ ε β) (s) : (c >>= next) s = andThen (c s) next := rfl

@[simp] theorem readRun (f) (s) : (read f : Command σ ε α) s = (.ok (f s),s) := rfl

@[simp] theorem updateRun (f) (s) : (update f : Command σ ε Unit) s = (.ok (),f s) := rfl

@[simp] theorem raiseRun (e) (s) : (raise e : Command σ ε α) s = (.error e,s) := rfl

@[simp] theorem liftRun (result) (s) : (lift result : Command σ ε α) s = (result,s) := rfl

theorem bindAssoc {γ} (c) (next : α → Command σ ε β) (last : β → Command σ ε γ) :
    c >>= next >>= last = c >>= fun a => next a >>= last :=
  funext fun s => StepRun.andThenAssoc (c s) next last

theorem bindOk {c} {next : α → Command σ ε β} {s s' b}
    (h : (c >>= next) s = (.ok b,s')) : ∃ a mid, c s = (.ok a,mid) ∧ next a mid = (.ok b,s') := by
  rw [bindRun] at h
  generalize first : c s = out at h
  obtain ⟨result,mid⟩ := out
  cases result with
  | ok a => exact ⟨a,mid,rfl,h⟩
  | error e => cases h

section Follows
variable {R : σ → σ → Prop} [IsPreorder σ R]

def Follows (R : σ → σ → Prop) (c : Command σ ε α) : Prop := ∀ s, R s (c s).2

theorem followsPure (a) : Follows R (pure a : Command σ ε α) := refl_of R

theorem followsRead (f) : Follows R (read f : Command σ ε α) := refl_of R

theorem followsRaise (e) : Follows R (raise e : Command σ ε α) := refl_of R

theorem followsLift (result) : Follows R (lift result : Command σ ε α) := refl_of R

theorem followsEnsure (holds) [Decidable holds] (e) : Follows R (ensure holds e : Command σ ε Unit) := by
  unfold ensure
  split
  · exact followsPure ()
  · exact followsRaise e

theorem followsBindAt {c} {next : α → Command σ ε β} {s} (first : R s (c s).2)
    (rest : ∀ a s', c s = (.ok a,s') → R s' (next a s').2) : R s ((c >>= next) s).2 := by
  rw [bindRun]
  generalize c s = out at first rest ⊢
  obtain ⟨result,mid⟩ := out
  cases result with
  | ok a => exact trans_of R first (rest a mid rfl)
  | error e => exact first

theorem followsLiftAt {result} {next : α → Command σ ε β} {s}
    (rest : ∀ a, result = .ok a → R s (next a s).2) : R s ((lift result >>= next) s).2 := by
  cases result with
  | ok a => exact rest a rfl
  | error e => exact refl_of R s

omit [IsPreorder σ R] in
theorem followsReadAt {f} {next : α → Command σ ε β} {s} (rest : R s (next (f s) s).2) :
    R s ((read f >>= next) s).2 := rest

theorem followsBind {c} {next : α → Command σ ε β} (first : Follows R c)
    (rest : ∀ a, Follows R (next a)) : Follows R (c >>= next) :=
  fun s => followsBindAt (first s) fun a s' _ => rest a s'

omit [IsPreorder σ R] in
theorem followsFocus {get set} (keeps : ∀ s t, R s (set t s)) (c : Command τ ε α) : Follows R (focus get set c) :=
  fun s => keeps s _

end Follows

section Avoids
variable {e : ε} {s : σ}

def Avoids (e : ε) (c : Command σ ε α) (s : σ) : Prop := (c s).1 ≠ .error e

@[simp] theorem avoidsPure (a) : Avoids e (pure a : Command σ ε α) s := by simp [Avoids]

@[simp] theorem avoidsRead (f) : Avoids e (read f : Command σ ε α) s := by simp [Avoids]

@[simp] theorem avoidsUpdate (f) : Avoids e (update f : Command σ ε Unit) s := by simp [Avoids]

@[simp] theorem avoidsRaise (e') : Avoids e (raise e' : Command σ ε α) s ↔ e' ≠ e := by simp [Avoids]

@[simp] theorem avoidsLift (result) : Avoids e (lift result : Command σ ε α) s ↔ result ≠ .error e :=
  Iff.rfl

theorem avoidsFocus {get set} {c : Command τ ε α} : Avoids e (focus get set c) s ↔ Avoids e c (get s) := Iff.rfl

theorem avoidsBind {c} {next : α → Command σ ε β} :
    Avoids e (c >>= next) s ↔ Avoids e c s ∧ ∀ a s', c s = (.ok a,s') → Avoids e (next a) s' := by
  unfold Avoids
  rw [bindRun]
  generalize c s = out
  obtain ⟨result,mid⟩ := out
  cases result with
  | ok a => simp [andThen]
  | error e' => simp [andThen]

theorem avoidsOkBind {c} {next : α → Command σ ε β} {a s'} (ran : c s = (.ok a,s')) :
    Avoids e (c >>= next) s ↔ Avoids e (next a) s' := by
  unfold Avoids
  rw [bindRun,ran]
  exact Iff.rfl

theorem avoidsReadBind {f} {next : α → Command σ ε β} :
    Avoids e (read f >>= next) s ↔ Avoids e (next (f s)) s := Iff.rfl

theorem avoidsUpdateBind {f} {next : Unit → Command σ ε β} :
    Avoids e (update f >>= next) s ↔ Avoids e (next ()) (f s) := Iff.rfl

theorem avoidsLiftBind {result} {next : α → Command σ ε β} :
    Avoids e (lift result >>= next) s ↔ result ≠ .error e ∧ ∀ a, result = .ok a → Avoids e (next a) s := by
  rw [avoidsBind,avoidsLift]
  simp only [liftRun,Prod.mk.injEq]
  exact and_congr_right' ⟨fun each a same => each a s ⟨same,rfl⟩,fun each a s' same => same.2 ▸ each a same.1⟩

theorem avoidsLiftOk {a} {next : α → Command σ ε β} :
    Avoids e (lift (.ok a) >>= next) s ↔ Avoids e (next a) s := Iff.rfl

theorem avoidsLiftWhen {p result a} {next : α → Command σ ε β} (ok : p → result = .ok a)
    (fails : ¬p → result = .error e) : Avoids e (lift result >>= next) s ↔ p ∧ Avoids e (next a) s := by
  by_cases holds : p
  · rw [ok holds]
    exact (and_iff_right holds).symm
  · rw [fails holds]
    exact iff_of_false (fun avoids => avoids rfl) (fun h => holds h.1)

theorem avoidsBoth {c} {next : α → Command σ ε β} (first : Avoids e c s)
    (rest : ∀ a s', Avoids e (next a) s') : Avoids e (c >>= next) s :=
  avoidsBind.mpr ⟨first,fun a s' _ => rest a s'⟩

theorem avoidsEnsureBind {holds} [Decidable holds] {e'} {next : Unit → Command σ ε β} (other : e' ≠ e) :
    Avoids e (ensure holds e' >>= next) s ↔ (holds → Avoids e (next ()) s) := by
  unfold ensure
  split
  · rename_i met
    exact ⟨fun h _ => h,fun h => h met⟩
  · rename_i unmet
    refine ⟨fun _ met => absurd met unmet,fun _ same => other ?_⟩
    exact Except.error.inj same

end Avoids

section Refines
variable {e : ε}

def Refines (e : ε) (c c' : Command σ ε α) : Prop := ∀ s, Avoids e c s → c' s = c s

theorem refinesRefl (c : Command σ ε α) : Refines e c c := fun _ _ => rfl

theorem refinesLift {result result'} (same : result ≠ .error e → result' = result) :
    Refines e (lift result : Command σ ε α) (lift result') := by
  intro s avoids
  rw [liftRun,liftRun,same avoids]

theorem refinesFocus {get} {set : τ → σ → σ} {c c' : Command τ ε α} (same : Refines e c c') :
    Refines e (focus get set c) (focus get set c') := by
  intro s avoids
  unfold focus
  rw [same (get s) avoids]

theorem refinesBind {c c'} {next next' : α → Command σ ε β} (first : Refines e c c')
    (rest : ∀ a, Refines e (next a) (next' a)) : Refines e (c >>= next) (c' >>= next') := by
  intro s avoids
  obtain ⟨starts,ends⟩ := avoidsBind.mp avoids
  rw [bindRun,bindRun,first s starts]
  generalize c s = out at ends ⊢
  obtain ⟨result,mid⟩ := out
  cases result with
  | ok a => exact rest a mid (ends a mid rfl)
  | error e' => rfl

theorem refinesThen {c} {next next' : α → Command σ ε β}
    (rest : ∀ a, Refines e (next a) (next' a)) : Refines e (c >>= next) (c >>= next') :=
  refinesBind (refinesRefl c) rest

end Refines

section Matches
variable {S : σ → σ → Prop}

def MatchesAt (S : σ → σ → Prop) (c : Command σ ε α) (s t : σ) : Prop := (c s).1 = (c t).1 ∧ S (c s).2 (c t).2

def Matches (S : σ → σ → Prop) (c : Command σ ε α) : Prop := ∀ s t, S s t → MatchesAt S c s t

theorem matchesLift (result) : Matches S (lift result : Command σ ε α) := fun _ _ related => ⟨rfl,related⟩

theorem matchesRead {f} (same : ∀ s t, S s t → f s = f t) : Matches S (read f : Command σ ε α) :=
  fun s t related => ⟨congrArg Except.ok (same s t related),related⟩

theorem matchesBindAt {c} {next : α → Command σ ε β} {s t} (first : MatchesAt S c s t)
    (rest : ∀ a s' t', c s = (.ok a,s') → S s' t' → MatchesAt S (next a) s' t') : MatchesAt S (c >>= next) s t := by
  unfold MatchesAt at first ⊢
  rw [bindRun,bindRun]
  generalize c s = out at first rest ⊢
  generalize c t = out' at first ⊢
  obtain ⟨result,s'⟩ := out
  obtain ⟨result',t'⟩ := out'
  obtain ⟨rfl,related⟩ := first
  cases result with
  | ok a => exact rest a s' t' rfl related
  | error e => exact ⟨rfl,related⟩

theorem matchesBind {c} {next : α → Command σ ε β} (first : Matches S c)
    (rest : ∀ a, Matches S (next a)) : Matches S (c >>= next) :=
  fun s t related => matchesBindAt (first s t related) fun a s' t' _ => rest a s' t'

end Matches

section Loop
variable (done : σ → Bool) (body : Command σ ε Unit)

def loop : Nat → σ → Option (Except ε Unit × σ)
  | 0,s => if done s then some (.ok (),s) else none
  | turns+1,s =>
    if done s then some (.ok (),s) else
      match body s with
      | (.ok (),s') => loop turns s'
      | (.error e,s') => some (.error e,s')

def turnsWhere (test : σ → Bool) : Nat → σ → Nat
  | 0,_ => 0
  | turns+1,s =>
    if done s then 0 else
      (if test s then 1 else 0) +
        match body s with
        | (.ok (),s') => turnsWhere test turns s'
        | (.error _,_) => 0

def noted {ν : Type} (note : σ → List ν) : Nat → σ → List ν
  | 0,_ => []
  | turns+1,s =>
    if done s then [] else
      note s ++
        match body s with
        | (.ok (),s') => noted note turns s'
        | (.error _,_) => []

def EachTurn (P : σ → Prop) : Nat → σ → Prop
  | 0,_ => True
  | turns+1,s => done s = true ∨ P s ∧ ∀ s', body s = (.ok (),s') → EachTurn P turns s'

inductive Reached (s : σ) : σ → Prop
  | start : Reached s s
  | turn {t t' : σ} (before : Reached s t) (going : done t = false) (ran : body t = (.ok (),t')) : Reached s t'

variable {done body}

theorem loopMore {turns more s out} (ended : loop done body turns s = some out)
    (atLeast : turns ≤ more) : loop done body more s = some out := by
  induction turns generalizing s more with
  | zero =>
    unfold loop at ended
    split at ended
    · rename_i finished
      cases more <;> rw [loop,if_pos finished,ended]
    · cases ended
  | succ turns ih =>
    obtain ⟨more,rfl⟩ : ∃ rest, more = rest + 1 := ⟨more - 1,by omega⟩
    unfold loop at ended ⊢
    cases finished : done s with
    | true =>
      rw [if_pos finished] at ended
      rw [if_pos rfl,ended]
    | false =>
      simp only [finished,Bool.false_eq_true,if_false] at ended ⊢
      generalize body s = turn at ended ⊢
      obtain ⟨result,s'⟩ := turn
      cases result with
      | error e => exact ended
      | ok value => exact ih ended (Nat.le_of_succ_le_succ atLeast)

section Measure
variable {left : σ → Nat} (positive : ∀ s, done s = false → 0 < left s)
  (descends : ∀ s s', done s = false → body s = (.ok (),s') → left s' < left s)
include positive descends

theorem loopEndsAt {turns : Nat} {s} (enough : left s ≤ turns) : ∃ out, loop done body turns s = some out := by
  induction turns generalizing s with
  | zero =>
    cases finished : done s with
    | true => exact ⟨_,by simp only [loop,finished]; rfl⟩
    | false =>
      have some := positive s finished
      omega
  | succ turns ih =>
    cases finished : done s with
    | true => exact ⟨_,by simp only [loop,finished]; rfl⟩
    | false =>
      simp only [loop,finished]
      generalize turn : body s = out
      obtain ⟨result,s'⟩ := out
      cases result with
      | error e => exact ⟨_,rfl⟩
      | ok value =>
        have lower := descends s s' finished turn
        exact ih (by omega)

theorem loopEnds (s) : ∃ out, ∀ turns, left s ≤ turns → loop done body turns s = some out := by
  obtain ⟨out,ended⟩ := loopEndsAt positive descends (Nat.le_refl (left s))
  exact ⟨out,fun turns enough => loopMore ended enough⟩

theorem turnsBounded (test : σ → Bool) (turns : Nat) (s : σ) : turnsWhere done body test turns s ≤ left s := by
  induction turns generalizing s with
  | zero => exact Nat.zero_le _
  | succ turns ih =>
    cases finished : done s with
    | true => simp [turnsWhere,finished]
    | false =>
      have some := positive s finished
      have counted : (if test s then 1 else 0) ≤ 1 := by split <;> omega
      simp only [turnsWhere,finished]
      generalize turn : body s = out
      obtain ⟨result,s'⟩ := out
      cases result with
      | error e =>
        simp only [Bool.false_eq_true,if_false]
        omega
      | ok value =>
        have lower := descends s s' finished turn
        have rest := ih s'
        simp only [Bool.false_eq_true,if_false]
        omega

end Measure

theorem eachTurnCons {P : σ → Prop} {turns : Nat} {s} (now : P s) (later : EachTurn done body P turns (body s).2) :
    EachTurn done body P (turns + 1) s := by
  refine .inr ⟨now,fun s' ran => ?_⟩
  rw [ran] at later
  exact later

theorem eachTurnUnder {P Q I : σ → Prop} (keeps : ∀ s s', I s → P s → body s = (.ok (),s') → I s')
    (gives : ∀ s, I s → P s → Q s) {turns : Nat} {s} (start : I s) (each : EachTurn done body P turns s) :
    EachTurn done body Q turns s := by
  induction turns generalizing s with
  | zero => trivial
  | succ turns ih =>
    rcases each with finished | ⟨now,later⟩
    · exact .inl finished
    · exact .inr ⟨gives s start now,fun s' ran => ih (keeps s s' start now ran) (later s' ran)⟩

theorem eachTurnAlways {P : σ → Prop} (always : ∀ s, P s) (turns s) : EachTurn done body P turns s := by
  induction turns generalizing s with
  | zero => trivial
  | succ turns ih => exact .inr ⟨always s,fun s' _ => ih s'⟩

theorem eachTurnFollows {R : σ → σ → Prop} [IsPreorder σ R] {P : σ → Prop} (moves : ∀ s, P s → R s (body s).2)
    {turns s} {out : Except ε Unit × σ} (each : EachTurn done body P turns s)
    (ended : loop done body turns s = some out) : R s out.2 := by
  induction turns generalizing s with
  | zero =>
    unfold loop at ended
    split at ended <;> cases ended
    exact refl_of R s
  | succ turns ih =>
    unfold loop at ended
    cases finished : done s with
    | true =>
      rw [if_pos finished] at ended
      cases ended
      exact refl_of R s
    | false =>
      obtain ⟨now,later⟩ := each.resolve_left (by rw [finished]; exact Bool.false_ne_true)
      simp only [finished,Bool.false_eq_true,if_false] at ended
      have moved := moves s now
      generalize ran : body s = turn at ended moved
      obtain ⟨first,s'⟩ := turn
      cases first with
      | error e =>
        cases ended
        exact moved
      | ok value => exact trans_of R moved (ih (later s' ran) ended)

theorem loopFollows {R : σ → σ → Prop} [IsPreorder σ R] (each : Follows R body) {turns s} {out : Except ε Unit × σ}
    (ended : loop done body turns s = some out) : R s out.2 :=
  eachTurnFollows (P := fun _ => True) (fun s _ => each s) (eachTurnAlways (fun _ => trivial) turns s) ended

theorem loopAvoids {P I : σ → Prop} {e : ε} (keeps : ∀ s s', I s → body s = (.ok (),s') → I s')
    (exact' : ∀ s, I s → done s = false → (Avoids e body s ↔ P s)) {turns : Nat} {s : σ} (start : I s) :
    (∀ s', loop done body turns s ≠ some (.error e,s')) ↔ EachTurn done body P turns s := by
  induction turns generalizing s with
  | zero =>
    refine ⟨fun _ => trivial,fun _ s' => ?_⟩
    unfold loop
    split <;> simp
  | succ turns ih =>
    cases finished : done s with
    | true =>
      refine ⟨fun _ => .inl finished,fun _ s' => ?_⟩
      simp [loop,finished]
    | false =>
      have one := exact' s start finished
      unfold Avoids at one
      simp only [loop,EachTurn,finished,Bool.false_eq_true,if_false,false_or,← one]
      generalize turn : body s = out
      obtain ⟨result,mid⟩ := out
      cases result with
      | error e' => simp
      | ok value =>
        have rest := ih (keeps s mid start turn)
        simp [rest]

theorem loopRefines {body' e} (same : Refines e body body') {turns s}
    (avoids : EachTurn done body (Avoids e body) turns s) : loop done body' turns s = loop done body turns s := by
  induction turns generalizing s with
  | zero => rfl
  | succ turns ih =>
    unfold loop
    rcases avoids with finished | ⟨now,later⟩
    · rw [if_pos finished,if_pos finished]
    · rw [same s now]
      generalize body s = turn at later
      obtain ⟨result,s'⟩ := turn
      cases result with
      | ok value =>
        dsimp only
        rw [ih (later s' rfl)]
      | error e' => rfl

theorem loopMatches {ν : Type} {note : σ → List ν} {T : ν → Prop} {S : σ → σ → Prop}
    (ends : ∀ s t, S s t → done s = done t)
    (each : ∀ s t, S s t → (∀ n ∈ note s, T n) → MatchesAt S body s t) {turns s t} (start : S s t)
    (inside : ∀ n ∈ noted done body note turns s, T n) {out} (ran : loop done body turns s = some out) :
    ∃ out', loop done body turns t = some out' ∧ out.1 = out'.1 ∧ S out.2 out'.2 := by
  induction turns generalizing s t with
  | zero =>
    unfold loop at ran ⊢
    rw [← ends s t start]
    split at ran
    · rename_i finished
      cases ran
      exact ⟨_,if_pos finished,rfl,start⟩
    · cases ran
  | succ turns ih =>
    unfold loop at ran ⊢
    unfold noted at inside
    rw [← ends s t start]
    split at ran
    · rename_i finished
      cases ran
      exact ⟨_,if_pos finished,rfl,start⟩
    · rename_i going
      rw [if_neg going] at inside ⊢
      obtain ⟨here,later⟩ := List.forall_mem_append.mp inside
      obtain ⟨alike,related⟩ := each s t start here
      generalize body s = turn at ran later alike related
      generalize body t = turn' at alike related ⊢
      obtain ⟨result,s'⟩ := turn
      obtain ⟨result',t'⟩ := turn'
      cases alike
      cases result with
      | error e =>
        cases ran
        exact ⟨_,rfl,rfl,related⟩
      | ok value => exact ih related later ran

theorem reachedHolds {I : σ → Prop} (keeps : ∀ t t', I t → done t = false → body t = (.ok (),t') → I t') {s t}
    (start : I s) (reached : Reached done body s t) : I t := by
  induction reached with
  | start => exact start
  | turn before going ran ih => exact keeps _ _ ih going ran

theorem reachedAfter {s s' t} (going : done s = false) (ran : body s = (.ok (),s'))
    (reached : Reached done body s' t) : Reached done body s t :=
  reachedHolds (fun _ _ => .turn) (.turn .start going ran) reached

theorem loopReached {turns : Nat} {s last : σ} {result : Except ε Unit}
    (ended : loop done body turns s = some (result,last)) :
    match result with
    | .ok () => Reached done body s last
    | .error e => ∃ t, Reached done body s t ∧ done t = false ∧ body t = (.error e,last) := by
  induction turns generalizing s with
  | zero =>
    unfold loop at ended
    split at ended <;> cases ended
    exact .start
  | succ turns ih =>
    unfold loop at ended
    cases finished : done s with
    | true =>
      rw [if_pos finished] at ended
      cases ended
      exact .start
    | false =>
      simp only [finished,Bool.false_eq_true,if_false] at ended
      generalize ran : body s = turn at ended
      obtain ⟨first,s'⟩ := turn
      cases first with
      | error e =>
        cases ended
        exact ⟨s,.start,finished,ran⟩
      | ok value =>
        have rest := ih ended
        cases result with
        | ok value => exact reachedAfter finished ran rest
        | error e =>
          obtain ⟨t,reached,going,failed⟩ := rest
          exact ⟨t,reachedAfter finished ran reached,going,failed⟩

end Loop

end Command

end QuantumChain
