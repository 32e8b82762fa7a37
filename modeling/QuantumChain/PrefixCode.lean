import Mathlib.Data.List.Basic

/-! Self-delimiting codes.
Only uniqueness of reading; no lengths. -/
namespace QuantumChain.PrefixCode
open List
variable {α β : Type}

def Delimited (P : α → Prop) (code : α → List β) : Prop :=
  ∀ a b, P a → P b → ∀ s t, code a ++ s = code b ++ t → a = b ∧ s = t

variable {P : α → Prop} {code : α → List β}

theorem Delimited.injective (delimited : Delimited P code) {a b} (left : P a) (right : P b)
    (same : code a = code b) : a = b :=
  (delimited a b left right [] [] (by rw [same])).1

theorem framed {bound} {head : Nat → List β} (delimited : Delimited (· < bound) head) :
    Delimited (fun body : List β => body.length < bound) (fun body => head body.length ++ body) := by
  intro a b left right s t same
  simp only [append_assoc] at same
  obtain ⟨size,rest⟩ := delimited _ _ left right _ _ same
  exact append_inj rest size

theorem Delimited.list (delimited : Delimited P code) (occupied : ∀ a, P a → code a ≠ []) {l m : List α}
    (left : ∀ a ∈ l, P a) (right : ∀ a ∈ m, P a) (same : l.flatMap code = m.flatMap code) : l = m := by
  induction l generalizing m with
  | nil =>
    cases m with
    | nil => rfl
    | cons b rest =>
      rw [flatMap_nil,flatMap_cons] at same
      exact absurd (append_eq_nil_iff.mp same.symm).1 (occupied b (right b mem_cons_self))
  | cons a l ih =>
    cases m with
    | nil =>
      rw [flatMap_nil,flatMap_cons] at same
      exact absurd (append_eq_nil_iff.mp same).1 (occupied a (left a mem_cons_self))
    | cons b m =>
      obtain ⟨first,rest⟩ := delimited a b (left a mem_cons_self) (right b mem_cons_self) _ _
        (by simpa only [flatMap_cons] using same)
      rw [first,ih (fun c mem => left c (mem_cons_of_mem _ mem))
        (fun c mem => right c (mem_cons_of_mem _ mem)) rest]

end QuantumChain.PrefixCode
