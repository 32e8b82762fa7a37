import Mathlib.Data.List.Count
import Mathlib.Logic.Function.Basic

/-! Tables whose entries have two possible buckets.
The other bucket is any function of entry and bucket. -/
namespace QuantumChain.PairedBuckets
open List
variable {ι F : Type} [DecidableEq ι] [DecidableEq F] (alt : F → ι → ι)

def Near (i : ι) (f : F) (p : ι × F) : Prop := p.2 = f ∧ (p.1 = i ∨ p.1 = alt f i)

instance (i : ι) (f : F) (p : ι × F) : Decidable (Near alt i f p) := by unfold Near; infer_instance

def near (placed : List (ι × F)) (i : ι) (f : F) : Nat := placed.countP (fun p => Near alt i f p)

def copies (held : ι → F → Nat) (i : ι) (f : F) : Nat := held i f + if alt f i = i then 0 else held (alt f i) f

variable {alt}

theorem nearCons (p) (placed) (i) (f) :
    near alt (p::placed) i f = near alt placed i f + near alt [p] i f := by
  unfold near
  rw [countP_cons,countP_singleton]

theorem copiesCount (placed) (i) (f) :
    copies alt (fun j g => placed.count (j,g)) i f = near alt placed i f := by
  induction placed with
  | nil => simp [copies,near]
  | cons p rest ih =>
    obtain ⟨j,g⟩ := p
    rw [nearCons,← ih]
    unfold copies near Near
    simp only [count_cons,countP_singleton]
    rcases eq_or_ne g f with rfl | apart
    · rcases eq_or_ne (alt g i) i with fixed | away
      · simp [fixed]
      · rcases eq_or_ne j i with rfl | other
        · simp [away,Ne.symm away,Nat.add_right_comm]
        · simp [away,other,Nat.add_assoc]
    · simp [apart]

theorem copiesBalance {held held' out into f}
    (moved : ∀ j, held' j f + out.count (j,f) = held j f + into.count (j,f)) (i) :
    copies alt held' i f + near alt out i f = copies alt held i f + near alt into i f := by
  have here := moved i
  have there := moved (alt f i)
  rw [← copiesCount,← copiesCount]
  unfold copies
  dsimp only
  split <;> omega

theorem nearAlt (involutive : ∀ f, Function.Involutive (alt f)) (j) (g) (i) (f) :
    near alt [(alt g j,g)] i f = near alt [(j,g)] i f := by
  have same : Near alt i f (alt g j,g) ↔ Near alt i f (j,g) := by
    unfold Near
    refine and_congr_right fun here => ?_
    dsimp only at here ⊢
    subst here
    rw [(involutive g).injective.eq_iff,or_comm,(involutive g).eq_iff]
  unfold near
  rw [countP_singleton,countP_singleton]
  simp only [same]

def Covered (alt : F → ι → ι) (empty : F) (held : ι → F → Nat) (homes : List (ι × F)) : Prop :=
  ∀ i f, f ≠ empty → near alt homes i f ≤ copies alt held i f

theorem coveredHeld {empty held homes} (covered : Covered alt empty held homes)
    {i f} (real : f ≠ empty) (mem : (i,f) ∈ homes) : 0 < held i f ∨ 0 < held (alt f i) f := by
  have some : 0 < near alt homes i f := countP_pos_iff.mpr ⟨(i,f),mem,decide_eq_true ⟨rfl,.inl rfl⟩⟩
  have enough := Nat.lt_of_lt_of_le some (covered i f real)
  unfold copies at enough
  split at enough <;> omega

theorem coveredPut {empty held held' homes p}
    (covered : Covered alt empty held homes)
    (more : ∀ i f, f ≠ empty → copies alt held' i f = copies alt held i f + near alt [p] i f) :
    Covered alt empty held' (p::homes) := by
  intro i f real
  rw [nearCons,more i f real]
  exact Nat.add_le_add_right (covered i f real) _

theorem coveredTake {empty held held' homes homes' p}
    (covered : Covered alt empty held homes) (rest : homes.Perm (p::homes'))
    (fewer : ∀ i f, f ≠ empty → copies alt held' i f + near alt [p] i f = copies alt held i f) :
    Covered alt empty held' homes' := by
  intro i f real
  have all : near alt homes i f = near alt homes' i f + near alt [p] i f := (rest.countP_eq _).trans (nearCons p homes' i f)
  have before := covered i f real
  have after := fewer i f real
  omega

end QuantumChain.PairedBuckets
