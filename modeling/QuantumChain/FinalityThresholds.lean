import QuantumChain.FinalityService

/-! The three tests for two thirds of the stake.
They are compared on all words, with and without overflow checks. -/
namespace QuantumChain.Finality
open BitVec Checkpoint

def TwoThirds (total attested : U128) : Prop := 0 < total.toNat ∧ 2 * total.toNat < 3 * attested.toNat
instance (total attested) : Decidable (TwoThirds total attested) := by
  unfold TwoThirds; infer_instance

def FinalityProof.isValidThreshold (checks : Bool) (proof : FinalityProof) : Option Bool :=
  if proof.totalStake = 0 then some false
  else (mulWord checks proof.totalStake 2).map fun doubled => decide (doubled / 3 + 1 ≤ proof.participatingStake)

def Undercut (total attested : U128) : Prop :=
  2^127 ≤ total.toNat ∧ total.toNat % 3 = 2 ∧ attested.toNat = total.toNat / 3 * 2 + 1

section
variable (total attested : U128)

theorem requiredReached (positive : 0 < total.toNat) :
    (Checkpoint.requiredStake total ≤ attested ↔ TwoThirds total attested) ↔ ¬ Undercut total attested := by
  rw [le_def,toNatRequiredStake,TwoThirds,Undercut]
  split <;> omega

theorem requiredWithoutStake (empty : total.toNat = 0) :
    (Checkpoint.requiredStake total ≤ attested ↔ TwoThirds total attested) ↔ attested.toNat = 0 := by
  rw [le_def,toNatRequiredStake,TwoThirds,empty,if_pos (by decide)]
  omega

theorem notUndercutEmpty (empty : total.toNat = 0) : ¬ Undercut total attested := by
  unfold Undercut
  omega

theorem doubledTotal (checks) : mulWord checks total 2 =
    if checks && decide (2^127 ≤ total.toNat) then none else some (total * 2) := by
  have two : (2 : U128).toNat = 2 := rfl
  have same : 2^128 ≤ total.toNat * 2 ↔ 2^127 ≤ total.toNat := by omega
  rw [mulWord,two,decide_eq_decide.mpr same]

theorem toNatDoubled : (total * 2 / 3 + 1).toNat = total.toNat * 2 % 2^128 / 3 + 1 := by
  have two : (2 : U128).toNat = 2 := rfl
  have three : (3 : U128).toNat = 3 := rfl
  have one : (1 : U128).toNat = 1 := rfl
  rw [toNat_add,toNat_udiv,toNat_mul,two,three,one]
  omega

end

theorem toNatZeroIff {n} {w : BitVec n} : w = 0 ↔ w.toNat = 0 := by
  rw [← toNat_inj]
  exact Iff.rfl

theorem checkpointExact (cp : Checkpoint) :
    cp.checkJustificationThreshold = decide (TwoThirds cp.totalStake cp.attestedStake) ↔
      ¬ Undercut cp.totalStake cp.attestedStake := by
  unfold checkJustificationThreshold
  split
  · rename_i empty
    have empty := toNatZeroIff.mp empty
    simp [TwoThirds,empty,notUndercutEmpty _ _ empty]
  · rename_i occupied
    rw [decide_eq_decide]
    exact requiredReached _ _ (Nat.pos_of_ne_zero fun empty => occupied (toNatZeroIff.mpr empty))

theorem validatorsExact (vs : ValidatorSet) (attested) :
    decide (vs.requiredStake ≤ attested) = decide (TwoThirds vs.totalStake attested) ↔
      ¬ Undercut vs.totalStake attested ∧ (vs.totalStake = 0 → attested = 0) := by
  rw [decide_eq_decide,toNatZeroIff,toNatZeroIff]
  by_cases empty : vs.totalStake.toNat = 0
  · rw [ValidatorSet.requiredStake,requiredWithoutStake _ _ empty]
    simp [empty,notUndercutEmpty _ _ empty]
  · rw [ValidatorSet.requiredStake,requiredReached _ _ (Nat.pos_of_ne_zero empty)]
    simp [empty]

theorem proofExact (checks) (proof : FinalityProof) :
    proof.isValidThreshold checks = some (decide (TwoThirds proof.totalStake proof.participatingStake)) ↔
      proof.totalStake.toNat < 2^127 ∨ checks = false ∧
        (proof.participatingStake.toNat ≤ (proof.totalStake.toNat * 2 - 2^128) / 3 ∨
          TwoThirds proof.totalStake proof.participatingStake) := by
  unfold FinalityProof.isValidThreshold
  split
  · rename_i empty
    have empty := toNatZeroIff.mp empty
    simp [TwoThirds,empty]
  rename_i occupied
  have positive := Nat.pos_of_ne_zero fun empty => occupied (toNatZeroIff.mpr empty)
  have bound := proof.totalStake.isLt
  rw [doubledTotal]
  by_cases large : 2^127 ≤ proof.totalStake.toNat
  · cases checks with
    | true =>
      rw [Bool.true_and,decide_eq_true large,if_pos rfl,Option.map_none]
      simp only [reduceCtorEq,Bool.true_eq_false,false_and,or_false,false_iff]
      omega
    | false =>
      have wrapped : proof.totalStake.toNat * 2 % 2^128 = proof.totalStake.toNat * 2 - 2^128 := by omega
      rw [Bool.false_and,if_neg Bool.false_ne_true,Option.map_some,Option.some.injEq,decide_eq_decide,le_def,toNatDoubled,
        wrapped,TwoThirds]
      simp only [true_and]
      omega
  · rw [decide_eq_false large,Bool.and_false,if_neg Bool.false_ne_true,Option.map_some,Option.some.injEq,decide_eq_decide,
      le_def,toNatDoubled,TwoThirds]
    omega

theorem twoThirdsExactIff (cp : Checkpoint) (vs : ValidatorSet) (attested : U128) (checks : Bool) (proof : FinalityProof) :
    (cp.checkJustificationThreshold = decide (TwoThirds cp.totalStake cp.attestedStake) ↔
      ¬ Undercut cp.totalStake cp.attestedStake) ∧
    (decide (vs.requiredStake ≤ attested) = decide (TwoThirds vs.totalStake attested) ↔
      ¬ Undercut vs.totalStake attested ∧ (vs.totalStake = 0 → attested = 0)) ∧
    (proof.isValidThreshold checks = some (decide (TwoThirds proof.totalStake proof.participatingStake)) ↔
      proof.totalStake.toNat < 2^127 ∨ checks = false ∧
        (proof.participatingStake.toNat ≤ (proof.totalStake.toNat * 2 - 2^128) / 3 ∨
          TwoThirds proof.totalStake proof.participatingStake)) :=
  ⟨checkpointExact cp,validatorsExact vs attested,proofExact checks proof⟩

def undercutStake : U128 := 2^127 / 3 * 2 + 1

def largeProof (participating : U128) : FinalityProof := ⟨⟨0,0,0⟩,⟨1,0,0⟩,[],[],participating,2^127⟩

theorem thresholdsMissed : ¬ TwoThirds (2^127) undercutStake ∧
    (((Checkpoint.new 1 0 32).withTotalStake (2^127)).addAttestationStake undercutStake).checkJustificationThreshold = true ∧
    ((ValidatorSet.new 1).addValidator 0 (2^127)).requiredStake ≤ undercutStake ∧
    ¬ TwoThirds 0 1 ∧ (ValidatorSet.new 1).requiredStake ≤ 1 ∧
    ¬ TwoThirds (2^127) 1 ∧ (largeProof 1).isValidThreshold false = some true ∧
    (largeProof (2^128 - 1)).isValidThreshold true = none := by
  refine ⟨?_,?_,?_,?_,?_,?_,?_,?_⟩ <;> decide +kernel

end QuantumChain.Finality
