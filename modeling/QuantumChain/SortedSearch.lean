import Mathlib.Data.List.Basic
import Mathlib.Tactic.Common

/-! Search in a sorted list.
Any search that finds an equal entry will do; halving is one. -/
namespace QuantumChain.SortedSearch

structure Searcher (α : Type) [LE α] where
  find : List α → α → Option Nat
  finds : ∀ {xs : List α} {x : α}, xs.Pairwise (· ≤ ·) → x ∈ xs → ∃ i, find xs x = some i
  found : ∀ {xs : List α} {x : α} {i : Nat}, find xs x = some i → xs[i]? = some x

theorem Searcher.findsIff {α} [LE α] (searcher : Searcher α) {xs : List α} (sorted : xs.Pairwise (· ≤ ·)) (x) :
    (searcher.find xs x).isSome ↔ x ∈ xs := by
  constructor
  · intro some'
    obtain ⟨i,at'⟩ := Option.isSome_iff_exists.mp some'
    exact List.mem_of_getElem? (searcher.found at')
  · intro mem
    obtain ⟨i,at'⟩ := searcher.finds sorted mem
    rw [at']
    rfl

theorem orderedAt {α : Type} [LE α] [Std.IsLinearOrder α] {xs : List α} (sorted : xs.Pairwise (· ≤ ·)) {i j : Nat}
    {y z} (before : i ≤ j)
    (atI : xs[i]? = some y) (atJ : xs[j]? = some z) : y ≤ z := by
  obtain ⟨inI,rfl⟩ := List.getElem?_eq_some_iff.mp atI
  obtain ⟨inJ,rfl⟩ := List.getElem?_eq_some_iff.mp atJ
  rcases Nat.lt_or_eq_of_le before with earlier | rfl
  · exact List.pairwise_iff_getElem.mp sorted i j inI inJ earlier
  · exact Std.le_refl _

section Halving
variable {α : Type} [LT α] [DecidableEq α] [DecidableLT α]

def halve (xs : List α) (x : α) : (fuel left right : Nat) → Option Nat
  | 0,_,_ => none
  | fuel+1,left,right =>
    if left < right then
      let mid := left + (right - left) / 2
      match xs[mid]? with
      | none => none
      | some y => if y = x then some mid else if y < x then halve xs x fuel (mid + 1) right else halve xs x fuel left mid
    else none

theorem halveFound {xs} {x : α} {fuel left right i} (found : halve xs x fuel left right = some i) :
    xs[i]? = some x := by
  induction fuel generalizing left right with
  | zero => cases found
  | succ fuel ih =>
    unfold halve at found
    split at found
    · dsimp only at found
      split at found
      · cases found
      · rename_i y at'
        split at found
        · rename_i same
          cases found
          rw [at',same]
        · split at found
          · exact ih found
          · exact ih found
    · cases found

variable [LE α] [Std.IsLinearOrder α] [Std.LawfulOrderLT α]

theorem halveFinds {xs : List α} {x} (sorted : xs.Pairwise (· ≤ ·)) {fuel left right k} (bound : right ≤ xs.length)
    (enough : right < left + fuel) (behind : left ≤ k) (ahead : k < right) (here : xs[k]? = some x) :
    ∃ i, halve xs x fuel left right = some i := by
  induction fuel generalizing left right with
  | zero => omega
  | succ fuel ih =>
    unfold halve
    have middle := List.getElem?_eq_getElem (l := xs) (i := left + (right - left) / 2) (by omega)
    generalize xs[left + (right - left) / 2] = y at middle
    rw [if_pos (by omega)]
    dsimp only
    rw [middle]
    dsimp only
    split
    · exact ⟨_,rfl⟩
    · rename_i differs
      split
      · rename_i low
        -- everything up to the middle is smaller than the value
        have above : left + (right - left) / 2 < k := by
          by_contra early
          exact Std.not_le.mpr low (orderedAt sorted (Nat.not_lt.mp early) here middle)
        exact ih bound (by omega) above ahead
      · rename_i high
        have below : k < left + (right - left) / 2 := by
          by_contra late
          have least := orderedAt sorted (Nat.not_lt.mp late) middle here
          exact differs (Std.le_antisymm least (Std.not_lt.mp high))
        exact ih (by omega) (by omega) behind below

def halving : Searcher α where
  find xs x := halve xs x (xs.length + 1) 0 xs.length
  finds {xs x} sorted mem := by
    obtain ⟨k,here⟩ := List.mem_iff_getElem?.mp mem
    obtain ⟨inside,_⟩ := List.getElem?_eq_some_iff.mp here
    exact halveFinds sorted (Nat.le_refl xs.length) (by omega) (Nat.zero_le k) inside here
  found found := halveFound found

end Halving
end QuantumChain.SortedSearch
