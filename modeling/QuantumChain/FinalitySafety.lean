import QuantumChain.FinalityJustification

/-! Two services that finalize different blocks.
Each has its own run of votes; how votes travel is not modelled. -/
namespace QuantumChain.Finality
open Observed Finset
open WeightedQuorum (weight Supermajority)

def Observed.call (env : Env) (vs : ValidatorSet) (o : Observed) (call : Call) : Observed :=
  ⟨(processAttestations env o.service call).2,
    (StepRun.run (Observed.act env vs) o (callActions o.service call)).accepted⟩

def CallOwnBlock (env : Env) (vs : ValidatorSet) (o : Observed) (call : Call) : Prop :=
  StepRun.Along (Observed.act env vs) (OwnBlock env vs) o (callActions o.service call)
instance (env vs o call) : Decidable (CallOwnBlock env vs o call) := by
  unfold CallOwnBlock; infer_instance

def FinalizedIn (svc : Service) (id : CheckpointId) : Prop :=
  (∃ cp ∈ svc.state.checkpoints.lookup id.epoch, cp.isFinalized = true ∧ cp.blockHash = id.blockHash) ∨
  (∃ cp ∈ svc.state.lastFinalized, cp.id = id) ∨
  (∃ r ∈ svc.sent, r.finalizedEpoch = id.epoch ∧ r.blockHash = id.blockHash)

structure Accounted (vs : ValidatorSet) (o : Observed) : Prop where
  supported : Supported vs o.accepted o.service.state
  final : ∀ cp ∈ o.service.state.lastFinalized, cp.isJustified = true
  sent : ∀ r ∈ o.service.sent, ∃ cp, cp.id = ⟨r.finalizedEpoch,r.blockHash⟩ ∧ cp.isJustified = true ∧
    Carried vs o.accepted cp

theorem serviceOfRun (env) (vs) (o) (actions) :
    (StepRun.run (Observed.act env vs) o actions).service =
      StepRun.run (Service.act env vs) o.service actions := by
  induction actions generalizing o with
  | nil => rfl
  | cons action rest ih => exact ih _

theorem callObserved {env vs} (provided : ∀ e, env.validatorSetAt e = .ok vs) (o) (call) :
    o.call env vs call = StepRun.run (Observed.act env vs) o (callActions o.service call) := by
  have same := callActs o.service call (fun first _ => provided first.targetCheckpoint.epoch)
  unfold Observed.call
  rw [same,← serviceOfRun]

theorem newAccounted (vs) : Accounted vs Observed.new :=
  ⟨newSupported vs,by simp [new,Service.new,FinalityServiceState.new],
    by simp [new,Service.new]⟩

theorem acceptedGrows (env) (vs) (o : Observed) (action) :
    ∀ a ∈ o.accepted, a ∈ (o.act env vs action).accepted := by
  intro a present
  cases action with
  | attest b =>
    simp only [act,logged]
    split
    · exact List.mem_append_left _ present
    · exact present
  | settle | collect | resetFromHalted => exact present

theorem settleAccounted {env vs o} (accounted : Accounted vs o) (epoch) (reply) :
    Accounted vs (o.act env vs (.settle epoch reply)) := by
  have supported := settleSupported accounted.supported env epoch reply
  have last := settleLastFinalized env o.service epoch reply
  obtain ⟨st,sent⟩ := settleSent env o.service epoch reply
  refine ⟨supported,?_,?_⟩
  · intro cp present
    change cp ∈ (o.service.settle env epoch reply).state.lastFinalized at present
    rw [last] at present
    cases found : finalizable o.service.state with
    | none => exact accounted.final cp (by simpa [found] using present)
    | some prev =>
      obtain ⟨_,_,just,_⟩ := finalizationSome found
      have same : prev.finalize.2 = cp := by simpa [found] using present
      rw [← same,prev.finalizeFields.2.2.2.2]
      exact just
  · intro r present
    change r ∈ (o.service.settle env epoch reply).sent at present
    rw [sent] at present
    rcases List.mem_append.mp present with before | new
    · exact accounted.sent r before
    · cases found : finalizable o.service.state with
      | none => simp [found] at new
      | some prev =>
        obtain ⟨_,_,just,_⟩ := finalizationSome found
        have same : r = finalizationRequest st prev.finalize.2 := by simpa [found] using new
        subst r
        have kept : (o.service.settle env epoch reply).state.lastFinalized = some prev.finalize.2 := by
          simp [last,found]
        exact ⟨prev.finalize.2,rfl,by rw [prev.finalizeFields.2.2.2.2]; exact just,
          supported.kept _ (.inr kept)⟩

theorem stepAccounted {env vs} (indexed : vs.Indexed) (o) (action)
    (accounted : Accounted vs o) (meets : OwnBlock env vs o action) : Accounted vs (o.act env vs action) := by
  have supported := stepSupported indexed o action accounted.supported meets
  have grows := acceptedGrows env vs o action
  have sent : ∀ r ∈ o.service.sent, ∃ cp, cp.id = ⟨r.finalizedEpoch,r.blockHash⟩ ∧ cp.isJustified = true ∧
      Carried vs (o.act env vs action).accepted cp := by
    intro r present
    obtain ⟨cp,id,just,carried⟩ := accounted.sent r present
    exact ⟨cp,id,just,carriedMono carried grows⟩
  cases action with
  | attest a =>
    refine ⟨supported,?_,sent⟩
    intro cp present
    exact accounted.final cp (updateLastFinalized env vs o.service.state a ▸ present)
  | settle epoch reply => exact settleAccounted accounted epoch reply
  | collect => exact ⟨supported,accounted.final,sent⟩
  | resetFromHalted =>
    refine ⟨supported,?_,?_⟩ <;> simp only [act,Service.act,resetFromHalted] at * <;> split
    · exact accounted.final
    · exact accounted.final
    · exact sent
    · exact sent

theorem callAccounted {env vs} (indexed : vs.Indexed)
    (provided : ∀ e, env.validatorSetAt e = .ok vs) (o) (call)
    (accounted : Accounted vs o) (meets : CallOwnBlock env vs o call) : Accounted vs (o.call env vs call) := by
  rw [callObserved provided]
  exact StepRun.runKeeps (fun o action inv own => stepAccounted indexed o action inv own) accounted meets

theorem finalizedBacked {vs o} (accounted : Accounted vs o)
    (sound : Checkpoint.ThresholdExact vs.totalStake) {id} (finalized : FinalizedIn o.service id) :
    Backed vs o.accepted id := by
  rcases finalized with ⟨cp,stored,final,block⟩ | ⟨cp,last,rfl⟩ | ⟨r,present,epoch,block⟩
  · have counted := accounted.supported.counted id.epoch cp stored
    have same : cp.id = id := by
      unfold Checkpoint.id
      rw [counted.epoch,block]
    have just : cp.isJustified = true := by
      have state := of_decide_eq_true final
      simp [Checkpoint.isJustified,state]
    rw [← same]
    exact carriedBacked (countedCarried accounted.supported.votes counted) sound just
  · exact carriedBacked (accounted.supported.kept cp (.inr last)) sound (accounted.final cp last)
  · obtain ⟨cp,same,just,carried⟩ := accounted.sent r present
    have target : cp.id = id := by rw [same,epoch,block]
    rw [← target]
    exact carriedBacked carried sound just

theorem doubleSupporters {vs first second e h₁ h₂} (apart : h₁ ≠ h₂) {v}
    (member : v ∈ supporters vs first ⟨e,h₁⟩ ∩ supporters vs second ⟨e,h₂⟩) :
    ∃ a ∈ first, ∃ b ∈ second, a.validatorId = v ∧ b.validatorId = v ∧ a.conflictsWith b = true := by
  simp only [supporters,mem_inter,mem_filter] at member
  obtain ⟨⟨_,a,ina,voterA,targetA⟩,_,b,inb,voterB,targetB⟩ := member
  refine ⟨a,ina,b,inb,voterA,voterB,doubleVoteConflicts (voterA.trans voterB.symm) ?_ ?_⟩
  · rw [targetA,targetB]
  · rw [targetA,targetB]
    exact apart

theorem backedOverlap {vs} (indexed : vs.Indexed) (unsaturated : vs.fullStake ≤ u128Max)
    {first second id₁ id₂} (backed₁ : Backed vs first id₁) (backed₂ : Backed vs second id₂) :
    vs.totalStake.toNat ≤ 3 * weight vs.stakeOf (supporters vs first id₁ ∩ supporters vs second id₂) := by
  have total : vs.totalStake.toNat = weight vs.stakeOf vs.ids := by
    have stored := indexed.total
    unfold ValidatorSet.fullStake at *
    omega
  unfold Backed at backed₁ backed₂
  rw [total] at backed₁ backed₂ ⊢
  exact Nat.le_of_lt (WeightedQuorum.supermajoritiesOverlap vs.stakeOf
    (filter_subset _ _) (filter_subset _ _) backed₁ backed₂)

theorem conflictingFinalityAccountable {env₁ env₂ : Env} {vs : ValidatorSet} (distinct : vs.DistinctIds)
    (provided₁ : ∀ e, env₁.validatorSetAt e = .ok vs) (provided₂ : ∀ e, env₂.validatorSetAt e = .ok vs)
    (unsaturated : vs.fullStake ≤ u128Max) (sound : Checkpoint.ThresholdExact vs.totalStake) {calls₁ calls₂ : List Call}
    (meets₁ : StepRun.Along (Observed.call env₁ vs) (CallOwnBlock env₁ vs) Observed.new calls₁)
    (meets₂ : StepRun.Along (Observed.call env₂ vs) (CallOwnBlock env₂ vs) Observed.new calls₂)
    {e : Nat} {h₁ h₂ : Hash} (apart : h₁ ≠ h₂)
    (final₁ : FinalizedIn (StepRun.run (Observed.call env₁ vs) Observed.new calls₁).service ⟨e,h₁⟩)
    (final₂ : FinalizedIn (StepRun.run (Observed.call env₂ vs) Observed.new calls₂).service ⟨e,h₂⟩) :
    ∃ guilty ⊆ vs.ids, vs.totalStake.toNat ≤ 3 * weight vs.stakeOf guilty ∧
      ∀ v ∈ guilty, ∃ a ∈ (StepRun.run (Observed.call env₁ vs) Observed.new calls₁).accepted,
        ∃ b ∈ (StepRun.run (Observed.call env₂ vs) Observed.new calls₂).accepted,
          a.validatorId = v ∧ b.validatorId = v ∧ a.conflictsWith b = true := by
  have indexed := ValidatorSet.distinctIndexed distinct
  have accounted₁ := StepRun.runKeeps (callAccounted indexed provided₁) (newAccounted vs) meets₁
  have accounted₂ := StepRun.runKeeps (callAccounted indexed provided₂) (newAccounted vs) meets₂
  have backed₁ := finalizedBacked accounted₁ sound final₁
  have backed₂ := finalizedBacked accounted₂ sound final₂
  exact ⟨_,inter_subset_left.trans (filter_subset _ _),
    backedOverlap indexed unsaturated backed₁ backed₂,fun v member => doubleSupporters apart member⟩

def twoEpochCalls (votes : List (ValidatorId × Hash)) : List Call :=
  [⟨votes.map (fun v => voteFor v.1 ⟨0,0⟩ ⟨1,v.2⟩),.ok ()⟩,
    ⟨votes.map (fun v => voteFor v.1 ⟨1,0⟩ ⟨2,9⟩),.ok ()⟩]

def twoEpochRun (votes : List (ValidatorId × Hash)) : Observed :=
  StepRun.run (Observed.call openEnv fourValidators) Observed.new (twoEpochCalls votes)

theorem splitFinalityAccountable : ∃ guilty ⊆ fourValidators.ids, 4 ≤ 3 * weight fourValidators.stakeOf guilty ∧
      ∀ v ∈ guilty, ∃ a ∈ (twoEpochRun [(1,7),(2,7),(3,7)]).accepted,
        ∃ b ∈ (twoEpochRun [(2,8),(3,8),(4,8)]).accepted,
          a.validatorId = v ∧ b.validatorId = v ∧ a.conflictsWith b = true :=
  conflictingFinalityAccountable fourDistinct (fun _ => rfl) (fun _ => rfl) (by decide +kernel) (by decide)
    (by decide +kernel) (by decide +kernel) (by decide : (7 : Hash) ≠ 8)
    (.inr (.inl ⟨⟨1,7,0,.finalized,3,4⟩,by decide +kernel,rfl⟩))
    (.inr (.inl ⟨⟨1,8,0,.finalized,3,4⟩,by decide +kernel,rfl⟩))

theorem mixedFinalityUnaccountable : FinalizedIn (twoEpochRun [(1,7),(2,8),(3,8)]).service ⟨1,7⟩ ∧
    FinalizedIn (twoEpochRun [(2,8),(3,8),(4,8)]).service ⟨1,8⟩ ∧
    ∀ a ∈ (twoEpochRun [(1,7),(2,8),(3,8)]).accepted ++ (twoEpochRun [(2,8),(3,8),(4,8)]).accepted,
    ∀ b ∈ (twoEpochRun [(1,7),(2,8),(3,8)]).accepted ++ (twoEpochRun [(2,8),(3,8),(4,8)]).accepted,
      a.conflictsWith b = false :=
  ⟨.inr (.inl ⟨⟨1,7,0,.finalized,3,4⟩,by decide +kernel,rfl⟩),
    .inr (.inl ⟨⟨1,8,0,.finalized,3,4⟩,by decide +kernel,rfl⟩),by decide +kernel⟩

end QuantumChain.Finality
