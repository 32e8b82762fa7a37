import QuantumChain.FinalityJustification
import QuantumChain.SecondaryIndex

/-! The order in which finalizations are announced.
That announcements rise is tied to a condition on each step. -/
namespace QuantumChain.Finality
open FinalityServiceState
open List StepRun
open SecondaryIndex (keyedInsert)

def FinalizesAhead (st : FinalityServiceState) : Prop :=
  ∀ last ∈ st.lastJustified, ∀ prev ∈ st.checkpoints.lookup (last.epoch - 1), 1 ≤ last.epoch →
    prev.isJustified = true → ∀ final ∈ st.lastFinalized, final.epoch < last.epoch - 1

def EpochKeyed (st : FinalityServiceState) : Prop :=
  ∀ e cp, st.checkpoints.lookup e = some cp → cp.epoch = e

def announced (svc : Service) : List Nat := svc.sent.map MarkFinalizedRequest.finalizedEpoch

structure Announcing (svc : Service) : Prop where
  keyed : EpochKeyed svc.state
  last : svc.state.lastFinalized.map Checkpoint.epoch = (announced svc).getLast?

theorem openKeyed {vs st} (keyed : EpochKeyed st) (a) : EpochKeyed (openTarget vs st a).2 := by
  have created : EpochKeyed ((st.recordAttestation a).getOrCreateCheckpoint
      (Checkpoint.new a.targetCheckpoint.epoch a.targetCheckpoint.blockHash 0) vs.totalStake).2 := by
    unfold getOrCreateCheckpoint
    split
    · exact keyed
    · exact keyedInsert keyed rfl
  simp only [openTarget,getOrCreateAggregate]
  split <;> exact created

theorem countKeyed {st} (keyed : EpochKeyed st) (epoch) (stake) :
    EpochKeyed (st.countStake epoch stake).2 := by
  unfold countStake
  split
  · rename_i cp stored
    have own : (cp.addAttestationStake stake).tryJustify.2.epoch = epoch :=
      (cp.addAttestationStake stake).tryJustifyFields.1.trans (keyed epoch cp stored)
    dsimp only
    split <;> exact keyedInsert keyed own
  · exact keyed

theorem updateKeyed {st} (keyed : EpochKeyed st) (env) (vs)
    (a) : EpochKeyed (processAttestationUpdate env vs st a).2 := by
  rcases updateCases env vs st a with ⟨stake,i,_,_,_,_,_,_,done⟩ | ⟨_,next,done,rfl | frame⟩
  · have marked : EpochKeyed (markVote (openTarget vs st a).2 a (openTarget vs st a).1 i stake) :=
      openKeyed keyed a
    rw [done]
    exact countKeyed marked _ _
  · rw [done]
    exact openKeyed keyed a
  · rw [done]
    intro e cp found
    exact keyed e cp (frame.1 ▸ found)

theorem pruneKeyed {st} (keyed : EpochKeyed st) : EpochKeyed st.pruneOldCheckpoints := by
  unfold pruneOldCheckpoints
  split
  · exact keyed
  · exact fun e cp found => keyed e cp (KeyedMap.lookupRetainSome.mp found).1

theorem checkKeyed {st} (keyed : EpochKeyed st) (config) (epoch) :
    EpochKeyed (st.checkAndProcessFinalization config epoch).2 := by
  rcases checkCases config st epoch with ⟨moved,_,done,beside⟩ | ⟨prev,settled,found,done,beside⟩
  · rw [done]
    exact fun e cp present => keyed e cp (beside.checkpoints ▸ present)
  · obtain ⟨prevEpoch,stored,_,reached⟩ := finalizationSome found
    rw [done]
    apply pruneKeyed
    intro e cp present
    rw [beside.checkpoints,reached] at present
    exact keyedInsert keyed (prev.finalizeFields.1.trans (keyed prevEpoch prev stored)) e cp present

theorem settleKeyed {svc : Service} (keyed : EpochKeyed svc.state) (env) (epoch)
    (reply) : EpochKeyed (svc.settle env epoch reply).state := by
  have checked := checkKeyed keyed env.config epoch
  unfold Service.settle
  dsimp only
  split
  · cases reply <;> exact checked
  · exact checked

theorem settleAnnounced (env) (svc) (epoch) (reply) :
    announced (svc.settle env epoch reply) =
      announced svc ++ ((finalizable svc.state).map Checkpoint.epoch).toList := by
  obtain ⟨st,sent⟩ := settleSent env svc epoch reply
  unfold announced
  rw [sent,map_append]
  cases finalizable svc.state with
  | none => rfl
  | some prev =>
    have same := prev.finalizeFields.1
    simp [finalizationRequest,same]

theorem resetFields (svc) : (resetFromHalted svc).state.checkpoints = svc.state.checkpoints ∧
    (resetFromHalted svc).state.lastFinalized = svc.state.lastFinalized ∧ (resetFromHalted svc).sent = svc.sent := by
  unfold resetFromHalted
  split <;> exact ⟨rfl,rfl,rfl⟩

theorem actAnnouncing (env) (vs) (svc) (action)
    (inv : Announcing svc) : Announcing (svc.act env vs action) := by
  cases action with
  | attest a =>
    refine ⟨updateKeyed inv.keyed env vs a,?_⟩
    simp only [Service.act,updateLastFinalized]
    exact inv.last
  | settle epoch reply =>
    refine ⟨settleKeyed inv.keyed env epoch reply,?_⟩
    simp only [Service.act,settleAnnounced,settleLastFinalized]
    cases finalizable svc.state with
    | none => simpa using inv.last
    | some prev => simp [prev.finalizeFields.1]
  | collect => exact ⟨inv.keyed,inv.last⟩
  | resetFromHalted =>
    obtain ⟨checkpoints,last,sent⟩ := resetFields svc
    refine ⟨?_,?_⟩
    · intro e cp found
      exact inv.keyed e cp (checkpoints ▸ found)
    · simp only [Service.act,announced,last,sent]
      exact inv.last

theorem aheadIff {svc} (inv : Announcing svc) : FinalizesAhead svc.state ↔
      ∀ prev ∈ finalizable svc.state, ∀ final ∈ svc.state.lastFinalized, final.epoch < prev.epoch := by
  constructor
  · intro ahead prev found final present
    obtain ⟨last,prevEpoch,justified,epoch,stored,just⟩ := finalizableSource found
    have before : last.epoch - 1 = prevEpoch := by omega
    have bound := ahead last justified prev (before ▸ stored) (by omega) just final present
    rw [inv.keyed _ prev stored]
    omega
  · intro ahead last justified prev stored positive just final present
    obtain ⟨prevEpoch,epoch⟩ : ∃ k, last.epoch = k+1 := ⟨last.epoch - 1,by omega⟩
    have before : last.epoch - 1 = prevEpoch := by omega
    have found : finalizable svc.state = some prev := by
      have at' : svc.state.checkpoints.lookup prevEpoch = some prev := before ▸ stored
      have lastJustified : svc.state.lastJustified = some last := justified
      simp [finalizable,lastJustified,epoch,at',just]
    have bound := ahead prev found final present
    rw [inv.keyed _ prev stored] at bound
    exact bound

def ActionAhead (svc : Service) : Action → Prop
  | .settle _ _ => FinalizesAhead svc.state
  | _ => True

def Increasing (svc : Service) : Prop := (announced svc).Pairwise (· < ·)

theorem pairwiseSnoc {epochs : List Nat} {next : Nat} : (epochs ++ [next]).Pairwise (· < ·) ↔
      epochs.Pairwise (· < ·) ∧ ∀ last ∈ epochs.getLast?, last < next := by
  rw [pairwise_append]
  constructor
  · rintro ⟨sorted,_,below⟩
    exact ⟨sorted,fun last present => below last (mem_of_getLast? present) next (by simp)⟩
  · rintro ⟨sorted,below⟩
    refine ⟨sorted,pairwise_singleton _ _,?_⟩
    intro e present n single
    cases mem_singleton.mp single
    obtain ⟨front,last,rfl⟩ : ∃ front last, epochs = front ++ [last] := by
      refine ⟨epochs.dropLast,epochs.getLast (ne_nil_of_mem present),?_⟩
      rw [dropLast_append_getLast]
    have bound := below last (by simp)
    rcases mem_append.mp present with earlier | final
    · exact Nat.lt_trans ((pairwise_append.mp sorted).2.2 e earlier last (by simp)) bound
    · cases mem_singleton.mp final
      exact bound

theorem actIncreasing (env) (vs) (svc) (action) (inv : Announcing svc) :
    Increasing (svc.act env vs action) ↔ Increasing svc ∧ ActionAhead svc action := by
  cases action with
  | attest a => simp [Increasing,ActionAhead,Service.act,announced]
  | settle epoch reply =>
    simp only [Increasing,ActionAhead,Service.act,settleAnnounced,aheadIff inv]
    cases found : finalizable svc.state with
    | none => simp
    | some prev =>
      simp only [Option.map_some,Option.toList_some,pairwiseSnoc,← inv.last]
      simp
  | collect => simp [Increasing,ActionAhead,Service.act,announced]
  | resetFromHalted =>
    have sent := (resetFields svc).2.2
    simp [Increasing,ActionAhead,Service.act,announced,sent]

def NotBehind (before after : Service) : Prop :=
  ∀ old ∈ before.state.lastFinalized, ∃ new ∈ after.state.lastFinalized, old.epoch ≤ new.epoch

theorem notBehindSame {before after}
    (same : after.state.lastFinalized = before.state.lastFinalized) : NotBehind before after :=
  fun old present => ⟨old,same ▸ present,Nat.le_refl _⟩

theorem notBehindTrans (a b c) (first : NotBehind a b) (second : NotBehind b c) : NotBehind a c := by
  intro old present
  obtain ⟨middle,found,below⟩ := first old present
  obtain ⟨new,last,above⟩ := second middle found
  exact ⟨new,last,below.trans above⟩

theorem actNotBehind (env) (vs) (svc) (action) (inv : Announcing svc)
    (ahead : ActionAhead svc action) : NotBehind svc (svc.act env vs action) := by
  cases action with
  | attest a => exact notBehindSame (updateLastFinalized env vs svc.state a)
  | settle epoch reply =>
    intro old present
    simp only [Service.act,settleLastFinalized]
    cases found : finalizable svc.state with
    | none => exact ⟨old,by simpa using present,Nat.le_refl _⟩
    | some prev =>
      have below := (aheadIff inv).mp ahead prev found old present
      exact ⟨prev.finalize.2,by simp,by rw [prev.finalizeFields.1]; exact Nat.le_of_lt below⟩
  | collect => exact notBehindSame rfl
  | resetFromHalted => exact notBehindSame (resetFields svc).2.1

def callEntries (env : Env) (svc : Service) (call : Call) : List (ValidatorSet × Action) :=
  match call.attestations with
  | [] => []
  | first::_ =>
    match env.validatorSetAt first.targetCheckpoint.epoch with
    | .error _ => []
    | .ok vs => (callActions svc call).map (fun action => (vs,action))

def Service.perform (env : Env) (svc : Service) (entry : ValidatorSet × Action) : Service :=
  svc.act env entry.1 entry.2

def Service.call (env : Env) (svc : Service) (call : Call) : Service := (processAttestations env svc call).2

theorem callPerformed (env) (svc) (call) :
    svc.call env call = StepRun.run (Service.perform env) svc (callEntries env svc call) := by
  unfold Service.call callEntries
  cases batch : call.attestations with
  | nil =>
    simp only [processAttestations,batch,runNil]
    split <;> rfl
  | cons first rest =>
    cases provided : env.validatorSetAt first.targetCheckpoint.epoch with
    | error e =>
      simp only [processAttestations,batch,provided,runNil]
      split <;> rfl
    | ok vs =>
      have acts : (processAttestations env svc call).2 =
          run (Service.act env vs) svc (callActions svc call) :=
        callActs svc call (by simp [batch,provided])
      rw [acts]
      simp only [provided,run,foldl_map,Service.perform]

def CallAhead (env : Env) (svc : Service) (call : Call) : Prop :=
  StepRun.Along (Service.perform env) (fun svc entry => ActionAhead svc entry.2) svc (callEntries env svc call)

theorem callAnnouncing (env) (svc) (call) (inv : Announcing svc) :
    Announcing (svc.call env call) := by
  rw [callPerformed]
  exact runInvariant (fun svc entry inv => actAnnouncing env entry.1 svc entry.2 inv) inv _

theorem callIncreasing (env) (svc) (call) (inv : Announcing svc) :
    Increasing (svc.call env call) ↔ Increasing svc ∧ CallAhead env svc call := by
  rw [callPerformed]
  exact runExact (fun svc entry inv => actAnnouncing env entry.1 svc entry.2 inv)
    (fun svc entry inv => actIncreasing env entry.1 svc entry.2 inv) inv _

theorem callNotBehind (env) (svc) (call) (inv : Announcing svc)
    (ahead : CallAhead env svc call) : NotBehind svc (svc.call env call) := by
  rw [callPerformed]
  refine runRelates (fun svc => notBehindSame rfl) notBehindTrans ?_
  exact alongImplies (fun svc entry inv => actAnnouncing env entry.1 svc entry.2 inv)
    (fun svc entry inv ahead => actNotBehind env entry.1 svc entry.2 inv ahead) inv ahead

theorem newAnnouncing : Announcing Service.new := by
  refine ⟨?_,rfl⟩
  intro e cp found
  simp [Service.new,new] at found

theorem announcementsIncreaseIff (env : Env) (calls : List Call) :
    ((announced (StepRun.run (Service.call env) Service.new calls)).Pairwise (· < ·) ∧
      StepRun.Along (Service.call env) (fun svc call => NotBehind svc (svc.call env call)) Service.new calls) ↔
    StepRun.Along (Service.call env) (CallAhead env) Service.new calls := by
  have exact' := runExact (callAnnouncing env) (callIncreasing env) newAnnouncing calls
  constructor
  · rintro ⟨increasing,_⟩
    exact (exact'.mp increasing).2
  · intro ahead
    refine ⟨exact'.mpr ⟨List.Pairwise.nil,ahead⟩,?_⟩
    exact alongImplies (callAnnouncing env) (callNotBehind env) newAnnouncing ahead

def quorumCall (epoch : Nat) : Call :=
  ⟨[voteFor 1 ⟨0,0⟩ ⟨epoch,7⟩,voteFor 2 ⟨0,0⟩ ⟨epoch,7⟩,voteFor 3 ⟨0,0⟩ ⟨epoch,7⟩],.ok ()⟩

theorem lateQuorumsAnnounceBack : announced (StepRun.run (Service.call openEnv) Service.new
      [quorumCall 4,quorumCall 5,quorumCall 1,quorumCall 2,quorumCall 2]) = [4,1,1] ∧
    (StepRun.run (Service.call openEnv) Service.new
      [quorumCall 4,quorumCall 5]).state.lastFinalized.map Checkpoint.epoch = some 4 ∧
    (StepRun.run (Service.call openEnv) Service.new
      [quorumCall 4,quorumCall 5,quorumCall 1,quorumCall 2]).state.lastFinalized.map Checkpoint.epoch = some 1 := by
  refine ⟨?_,?_,?_⟩ <;> decide +kernel

end QuantumChain.Finality
