import Mathlib.Algebra.Order.BigOperators.Group.Finset
import Mathlib.Algebra.BigOperators.Group.Finset.Basic
import Mathlib.Data.Finset.Lattice.Basic

/-! Weighted voting over one finite electorate.
Weights are natural numbers. -/
namespace QuantumChain.WeightedQuorum
open Finset
variable {ι : Type}

def weight (w : ι → Nat) (voters : Finset ι) : Nat := ∑ v ∈ voters, w v

def Supermajority (total : Nat) (part : Nat) : Prop := 2*total < 3*part
instance (total part) : Decidable (Supermajority total part) := by
  unfold Supermajority; infer_instance

theorem weightMono (w) {smaller larger : Finset ι} (subset : smaller ⊆ larger) :
    weight w smaller ≤ weight w larger := sum_le_sum_of_subset subset

variable [DecidableEq ι]

theorem weightInsert (w) {voters} {v : ι} (fresh : v ∉ voters) :
    weight w (insert v voters) = w v + weight w voters := sum_insert fresh

theorem weightOverlap (w) {electorate left right : Finset ι}
    (inLeft : left ⊆ electorate) (inRight : right ⊆ electorate) :
    weight w left + weight w right ≤ weight w electorate + weight w (left ∩ right) := by
  have sum : (∑ v ∈ left ∪ right, w v) + ∑ v ∈ left ∩ right, w v = (∑ v ∈ left, w v) + ∑ v ∈ right, w v :=
    sum_union_inter
  have union := weightMono w (union_subset inLeft inRight)
  unfold weight at *
  omega

theorem supermajoritiesOverlap (w) {electorate left right : Finset ι}
    (inLeft : left ⊆ electorate) (inRight : right ⊆ electorate)
    (manyLeft : Supermajority (weight w electorate) (weight w left))
    (manyRight : Supermajority (weight w electorate) (weight w right)) :
    weight w electorate < 3*weight w (left ∩ right) := by
  have overlap := weightOverlap w inLeft inRight
  unfold Supermajority at manyLeft manyRight
  omega

theorem cardOverlap {electorate left right : Finset ι} (inLeft : left ⊆ electorate) (inRight : right ⊆ electorate) :
    left.card + right.card ≤ electorate.card + (left ∩ right).card := by
  have h := weightOverlap (fun _ => 1) inLeft inRight
  simpa [weight] using h

end QuantumChain.WeightedQuorum
