import QuantumChain.FixedWidth
import QuantumChain.KeyedMap
import QuantumChain.StepRun
import QuantumChain.TreeWalk

/-! The shield against the reversion of finalized blocks.
Parent links are as recorded; a walk stops after 1000 of them. -/
namespace QuantumChain.Finality
open TreeWalk (meets meetsIff Ancestor)
open List

structure ReversionShield where
  lastFinalized : Option Hash
  lastFinalizedHeight : U64
  finalizedAncestors : Finset Hash
  blockTree : KeyedMap Hash Hash

namespace ReversionShield

def new : ReversionShield := ⟨none,0,∅,∅⟩

variable (s : ReversionShield)

def setFinalized (blockHash : Hash) (height : U64) : ReversionShield :=
  {s with
    lastFinalized := some blockHash
    lastFinalizedHeight := height
    finalizedAncestors := insert blockHash s.finalizedAncestors}

def recordBlock (blockHash parentHash : Hash) : ReversionShield :=
  {s with blockTree := s.blockTree.insert blockHash parentHash}

def parent (block : Hash) : Option Hash := s.blockTree.lookup block

def maxDepth : Nat := 1000

def isDescendant (s : ReversionShield) (blockA blockB : Hash) : Bool :=
  if blockA = blockB then true else meets s.parent blockB maxDepth blockA

def isValidBlock (s : ReversionShield) (blockHash : Hash) (blockHeight : U64) : Bool :=
  match s.lastFinalized with
  | none => true
  | some finalized =>
    if blockHash = finalized then true
    else if blockHeight ≤ s.lastFinalizedHeight then decide (blockHash ∈ s.finalizedAncestors)
    else s.isDescendant blockHash finalized

end ReversionShield

inductive ShieldCall where
  | setFinalized (blockHash : Hash) (height : U64)
  | recordBlock (blockHash parentHash : Hash)

def ReversionShield.call (s : ReversionShield) : ShieldCall → ReversionShield
  | .setFinalized blockHash height => s.setFinalized blockHash height
  | .recordBlock blockHash parentHash => s.recordBlock blockHash parentHash

structure Graded (height : Hash → U64) (s : ReversionShield) : Prop where
  links : ∀ block parent, s.parent block = some parent → (height block).toNat = (height parent).toNat + 1
  finalized : ∀ block, s.lastFinalized = some block → s.lastFinalizedHeight = height block

namespace ShieldCall

def Graded (height : Hash → U64) : ShieldCall → Prop
  | .setFinalized blockHash own => own = height blockHash
  | .recordBlock blockHash parentHash => (height blockHash).toNat = (height parentHash).toNat + 1

end ShieldCall

section
variable {height : Hash → U64} {s : ReversionShield}

theorem Graded.call (graded : Graded height s) {c} (own : c.Graded height) : Graded height (s.call c) := by
  cases c with
  | setFinalized blockHash h =>
    refine ⟨graded.links,fun block same => ?_⟩
    cases same
    exact own
  | recordBlock blockHash parentHash =>
    refine ⟨fun block parent link => ?_,graded.finalized⟩
    change (s.blockTree.insert blockHash parentHash).lookup block = some parent at link
    rw [KeyedMap.lookupInsert] at link
    split at link
    · rename_i here
      cases link
      rw [here]
      exact own
    · exact graded.links block parent link

theorem Graded.run {calls} (each : ∀ c ∈ calls, c.Graded height) :
    Graded height (StepRun.run ReversionShield.call .new calls) :=
  StepRun.runKeeps (fun _ _ graded own => graded.call own) ⟨fun _ _ link => (nomatch link),fun _ same => (nomatch same)⟩
    (StepRun.alongEach _ each)

theorem validBlockIff (graded : Graded height s) {f b} (finalized : s.lastFinalized = some f)
    (higher : height f < height b) : s.isValidBlock b (height b) = true ↔
      Ancestor s.parent f b ∧ (height b).toNat ≤ (height f).toNat + ReversionShield.maxDepth := by
  have other : b ≠ f := by
    rintro rfl
    exact absurd higher (lt_irrefl _)
  have above : ¬ height b ≤ s.lastFinalizedHeight := by
    rw [graded.finalized f finalized]
    exact not_le.mpr higher
  simp only [ReversionShield.isValidBlock,finalized,if_neg other,if_neg above,ReversionShield.isDescendant]
  exact meetsIff graded.links f ReversionShield.maxDepth b

end

theorem shieldReachesThousand (height : Hash → U64) (s : ReversionShield) (graded : Graded height s) (f b : Hash)
    (finalized : s.lastFinalized = some f) (higher : height f < height b) : (s.isValidBlock b (height b) = true ↔
      Ancestor s.parent f b ∧ (height b).toNat ≤ (height f).toNat + ReversionShield.maxDepth) ∧
    ((s.isValidBlock b (height b) = true ↔ Ancestor s.parent f b) ↔
      ¬ (Ancestor s.parent f b ∧ (height f).toNat + ReversionShield.maxDepth < (height b).toNat)) := by
  have valid := validBlockIff graded finalized higher
  refine ⟨valid,?_⟩
  rw [valid,← Nat.not_le]
  tauto

def straightCalls (n : Nat) : List ShieldCall :=
  .setFinalized 0 0 :: (range n).map fun i => .recordBlock (BitVec.ofNat 256 (i + 1)) (BitVec.ofNat 256 i)

def straight (n : Nat) : ReversionShield := StepRun.run ReversionShield.call .new (straightCalls n)

def ownHeight (block : Hash) : U64 := block.setWidth 64

theorem toNatOwnHeight {i} (small : i < 2^64) : (ownHeight (BitVec.ofNat 256 i)).toNat = i := by
  rw [ownHeight,BitVec.toNat_setWidth,BitVec.toNat_ofNat]
  omega

theorem straightGraded {n} (small : n < 2^64) : Graded ownHeight (straight n) := by
  refine Graded.run fun c mem => ?_
  rcases mem_cons.mp mem with rfl | mem
  · rfl
  obtain ⟨i,inside,rfl⟩ := mem_map.mp mem
  have below := mem_range.mp inside
  change (ownHeight _).toNat = (ownHeight _).toNat + 1
  rw [toNatOwnHeight (by omega),toNatOwnHeight (by omega)]

theorem straightNext (n) :
    straight (n + 1) = (straight n).recordBlock (BitVec.ofNat 256 (n + 1)) (BitVec.ofNat 256 n) := by
  rw [straight,straightCalls,range_succ,map_append,← cons_append,StepRun.runAppend]
  rfl

theorem straightFinalized (n) : (straight n).lastFinalized = some 0 := by
  induction n with
  | zero => rfl
  | succ n ih =>
    rw [straightNext]
    exact ih

theorem straightParent {n i} (small : n < 2^64) (inside : i < n) :
    (straight n).parent (BitVec.ofNat 256 (i + 1)) = some (BitVec.ofNat 256 i) := by
  induction n with
  | zero => omega
  | succ n ih =>
    rw [straightNext]
    change ((straight n).blockTree.insert _ _).lookup _ = _
    rw [KeyedMap.lookupInsert]
    by_cases last : i = n
    · rw [last,if_pos rfl]
    · have other : BitVec.ofNat 256 (i + 1) ≠ BitVec.ofNat 256 (n + 1) := by
        intro same
        have numbers := congrArg BitVec.toNat same
        rw [BitVec.toNat_ofNat,BitVec.toNat_ofNat] at numbers
        omega
      rw [if_neg other]
      exact ih (by omega) (by omega)

theorem straightAncestor {n i} (small : n < 2^64) (inside : i < n) :
    Ancestor (straight n).parent 0 (BitVec.ofNat 256 (i + 1)) := by
  induction i with
  | zero => exact .single (straightParent small inside)
  | succ i ih => exact .head (straightParent small inside) (ih (by omega))

theorem thousandthDescendantValid :
    Graded ownHeight (straight 1001) ∧ (straight 1001).isValidBlock 1000 (ownHeight 1000) = true := by
  have graded : Graded ownHeight (straight 1001) := straightGraded (by decide)
  have ancestor : Ancestor (straight 1001).parent 0 (BitVec.ofNat 256 (999 + 1)) := straightAncestor (by decide) (by decide)
  have exact' := shieldReachesThousand ownHeight (straight 1001) graded 0 1000 (straightFinalized 1001) (by decide)
  exact ⟨graded,exact'.1.mpr ⟨ancestor,by decide⟩⟩

theorem laterDescendantInvalid :
    Ancestor (straight 1001).parent 0 1001 ∧ (straight 1001).isValidBlock 1001 (ownHeight 1001) = false := by
  have ancestor : Ancestor (straight 1001).parent 0 (BitVec.ofNat 256 (1000 + 1)) := straightAncestor (by decide) (by decide)
  refine ⟨ancestor,Bool.eq_false_iff.mpr fun valid => ?_⟩
  have near := ((validBlockIff (straightGraded (by decide)) (straightFinalized 1001) (by decide)).mp valid).2
  exact absurd near (by decide)

end QuantumChain.Finality
