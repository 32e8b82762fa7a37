import Mathlib.Data.List.Sort

/-! Stable sorting by a comparison with ties.
Ties keep the order they came in. -/
namespace QuantumChain.StableSort
open List
variable {α : Type} {r : α → α → Prop} [DecidableRel r]

theorem sortedClass {P} (tied : ∀ a b, P a = true → P b = true → r a b) (l : List α) :
    (l.insertionSort r).filter P = l.filter P := by
  have ordered : (l.filter P).Pairwise r :=
    pairwise_iff_forall_sublist.mpr fun pair =>
      tied _ _ (mem_filter.mp (pair.subset mem_cons_self)).2
        (mem_filter.mp (pair.subset (mem_cons_of_mem _ mem_cons_self))).2
  have inside := (sublist_insertionSort ordered filter_sublist).filter P
  rw [filter_filter] at inside
  simp only [Bool.and_self] at inside
  exact (inside.eq_of_length ((perm_insertionSort r l).filter P).length_eq.symm).symm

theorem sortedRefines [Std.Total r] [IsTrans α r] {R : α → α → Prop} {l : List α}
    (strict : ∀ a ∈ l, ∀ b ∈ l, r a b → ¬r b a → R a b) :
    (l.insertionSort r).Pairwise R ↔ l.Pairwise (fun a b => r a b → r b a → R a b) := by
  rw [pairwise_iff_forall_sublist,pairwise_iff_forall_sublist]
  constructor
  · intro sorted a b pair before _
    exact sorted (pair_sublist_insertionSort before pair)
  · intro ties a b pair
    have before := pairwise_iff_forall_sublist.mp (pairwise_insertionSort r l) pair
    have memA := (mem_insertionSort r).mp (pair.subset mem_cons_self)
    have memB := (mem_insertionSort r).mp (pair.subset (mem_cons_of_mem _ mem_cons_self))
    by_cases after : r b a
    · -- The members tied with `a` stand in the sorted list as they stood before.
      have self : r a a := (Std.Total.total a a).elim id id
      have tied x y (px : decide (r a x ∧ r x a) = true) (py : decide (r a y ∧ r y a) = true) : r x y :=
        IsTrans.trans x a y (of_decide_eq_true px).2 (of_decide_eq_true py).1
      have both : [a,b].filter (fun x => decide (r a x ∧ r x a)) = [a,b] := by simp [self,before,after]
      have kept := pair.filter (fun x => decide (r a x ∧ r x a))
      rw [both,sortedClass tied] at kept
      exact ties (kept.trans filter_sublist) before after
    · exact strict a memA b memB before after

end QuantumChain.StableSort
