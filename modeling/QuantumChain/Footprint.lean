import Mathlib.Data.Set.Basic
import Mathlib.Data.List.Perm.Basic
import Mathlib.Tactic.Common

/-! Effects on a store that are confined to the cells they name.
Nothing is asked of the effects beyond that. -/
namespace QuantumChain.Footprint
open List
variable {κ V ι : Type}

structure Confined (reads writes : Set κ) (effect : (κ → V) → κ → V) : Prop where
  frame : ∀ s c, c ∉ writes → effect s c = s c
  reads : ∀ s t, (∀ c ∈ reads, s c = t c) → ∀ c ∈ writes, effect s c = effect t c

def Commutes (f g : (κ → V) → κ → V) : Prop := ∀ s, f (g s) = g (f s)

theorem confinedCommutes {reads writes reads' writes'} {f g : (κ → V) → κ → V} (first : Confined reads writes f)
    (second : Confined reads' writes' g) (apart : ∀ c ∈ writes, c ∉ reads' ∧ c ∉ writes')
    (apart' : ∀ c ∈ writes', c ∉ reads) : Commutes f g := by
  intro s
  funext c
  by_cases mine : c ∈ writes
  · rw [second.frame _ c (apart c mine).2]
    exact first.reads _ _ (fun d read => second.frame s d fun wrote => apart' d wrote read) c mine
  · rw [first.frame _ c mine]
    by_cases other : c ∈ writes'
    · exact (second.reads _ _ (fun d read => first.frame s d fun wrote => (apart d wrote).1 read) c other).symm
    · rw [second.frame _ c other,second.frame _ c other,first.frame _ c mine]

variable (effect : ι → (κ → V) → κ → V)

def run (items : List ι) (s : κ → V) : κ → V := items.foldl (fun s item => effect item s) s

theorem runFlatten (groups : List (List ι)) (s) :
    groups.foldl (fun s group => run effect group s) s = run effect groups.flatten s :=
  foldl_flatten.symm

variable {effect}

theorem runMoved {front item} (free : ∀ x ∈ front, Commutes (effect x) (effect item)) (back)
    (s) : run effect (front ++ item::back) s = run effect (item::(front ++ back)) s := by
  induction front generalizing s with
  | nil => rfl
  | cons x rest ih =>
    have moved := ih (fun y mem => free y (mem_cons_of_mem _ mem)) (effect x s)
    calc run effect (x::rest ++ item::back) s
        = run effect (rest ++ back) (effect item (effect x s)) := moved
      _ = run effect (rest ++ back) (effect x (effect item s)) := by rw [free x mem_cons_self s]

theorem runPermuted {R : ι → ι → Prop} {first second} (perm : first.Perm second)
    (ordered : first.Pairwise fun a b => ¬R b a) (ordered' : second.Pairwise fun a b => ¬R b a)
    (free : ∀ a ∈ first, ∀ b ∈ first, ¬R a b → ¬R b a → Commutes (effect a) (effect b)) (s) :
    run effect first s = run effect second s := by
  induction first generalizing second s with
  | nil => rw [List.Perm.nil_eq perm]
  | cons item rest ih =>
    obtain ⟨front,back,rfl⟩ := append_of_mem (perm.subset mem_cons_self)
    have perm' := (perm.trans perm_middle).cons_inv
    obtain ⟨ahead,ordered⟩ := pairwise_cons.mp ordered
    obtain ⟨orderedFront,orderedBack,across⟩ := pairwise_append.mp ordered'
    -- what the second order puts before the item, the first puts after it
    have moved : ∀ x ∈ front, Commutes (effect x) (effect item) := by
      intro x mem
      have later := perm'.mem_iff.mpr (mem_append_left _ mem)
      exact free x (mem_cons_of_mem _ later) item mem_cons_self (ahead x later) (across x mem item mem_cons_self)
    have ordered'' : (front ++ back).Pairwise fun a b => ¬R b a :=
      pairwise_append.mpr ⟨orderedFront,orderedBack.of_cons,fun a memA b memB => across a memA b (mem_cons_of_mem _ memB)⟩
    rw [runMoved moved back s]
    exact ih perm' ordered ordered''
      (fun a memA b memB => free a (mem_cons_of_mem _ memA) b (mem_cons_of_mem _ memB)) (effect item s)

end QuantumChain.Footprint
