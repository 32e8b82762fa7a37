import QuantumChain.FinalityUpdate

/-! Which votes a justified checkpoint rests on.
The validator set stays fixed; signatures are an input. -/
namespace QuantumChain.Finality
open FinalityServiceState Checkpoint Finset WeightedQuorum
open KeyedMap
open WeightedQuorum (weight Supermajority)

variable (vs : ValidatorSet)

def voters (st : FinalityServiceState) (id : CheckpointId) : Finset ValidatorId :=
  vs.ids.filter (fun v => hasVoted vs st id v = true)

def supporters (accepted : List Attestation) (id : CheckpointId) : Finset ValidatorId :=
  vs.ids.filter (fun v => ∃ a ∈ accepted, a.validatorId = v ∧ a.targetCheckpoint = id)

def Backed (accepted : List Attestation) (id : CheckpointId) : Prop :=
  Supermajority vs.totalStake.toNat (weight vs.stakeOf (supporters vs accepted id))
instance (vs accepted id) : Decidable (Backed vs accepted id) := by
  unfold Backed; infer_instance

def CountsForOtherBlock (env : Env) (vs : ValidatorSet) (st : FinalityServiceState) (a : Attestation) : Prop :=
  countable env vs st a = true ∧ 0 < vs.stakeOf a.validatorId ∧
  (st.checkpoints.lookup a.targetCheckpoint.epoch).any
    (fun cp => decide (cp.blockHash ≠ a.targetCheckpoint.blockHash)) = true
instance (env vs st a) : Decidable (CountsForOtherBlock env vs st a) := by
  unfold CountsForOtherBlock; infer_instance

theorem supportersMono (vs) {old new} (subset : ∀ a ∈ old, a ∈ new)
    (id) : supporters vs old id ⊆ supporters vs new id := by
  intro v member
  simp only [supporters,mem_filter] at *
  obtain ⟨inside,a,present,voter,target⟩ := member
  exact ⟨inside,a,subset a present,voter,target⟩

structure Counted (vs : ValidatorSet) (st : FinalityServiceState) (e : Nat) (cp : Checkpoint) : Prop where
  epoch : cp.epoch = e
  total : cp.totalStake = vs.totalStake
  stake : cp.attestedStake.toNat ≤ weight vs.stakeOf (voters vs st ⟨e,cp.blockHash⟩)
  threshold : cp.isJustified = true → cp.checkJustificationThreshold = true

structure Carried (vs : ValidatorSet) (accepted : List Attestation) (cp : Checkpoint) : Prop where
  total : cp.totalStake = vs.totalStake
  stake : cp.attestedStake.toNat ≤ weight vs.stakeOf (supporters vs accepted cp.id)
  threshold : cp.isJustified = true → cp.checkJustificationThreshold = true

structure Supported (vs : ValidatorSet) (accepted : List Attestation) (st : FinalityServiceState) : Prop where
  width : ∀ id agg, st.attestations.lookup id = some agg → agg.participationBitmap.length = vs.len
  votes : ∀ id v, hasVoted vs st id v = true → ∃ a ∈ accepted, a.validatorId = v ∧ a.targetCheckpoint = id
  counted : ∀ e cp, st.checkpoints.lookup e = some cp → Counted vs st e cp
  kept : ∀ cp, st.lastJustified = some cp ∨ st.lastFinalized = some cp → Carried vs accepted cp

theorem carriedMono {vs old new cp} (carried : Carried vs old cp) (subset : ∀ a ∈ old, a ∈ new) : Carried vs new cp :=
  ⟨carried.total,
    carried.stake.trans (weightMono _ (supportersMono vs subset cp.id)),
    carried.threshold⟩

theorem countedCarried {vs accepted st}
    (votes : ∀ id v, hasVoted vs st id v = true → ∃ a ∈ accepted, a.validatorId = v ∧ a.targetCheckpoint = id)
    {e cp} (counted : Counted vs st e cp) : Carried vs accepted cp := by
  obtain ⟨epoch,total,stake,threshold⟩ := counted
  subst e
  have subset : voters vs st cp.id ⊆ supporters vs accepted cp.id := by
    intro v member
    simp only [voters,supporters,mem_filter] at *
    exact ⟨member.1,votes _ v member.2⟩
  exact ⟨total,stake.trans (weightMono _ subset),threshold⟩

theorem carriedBacked {vs accepted cp}
    (carried : Carried vs accepted cp) (sound : Checkpoint.ThresholdExact vs.totalStake)
    (justified : cp.isJustified = true) : Backed vs accepted cp.id := by
  have exact' := carried.total ▸ sound
  have many := thresholdSupermajority exact' (carried.threshold justified)
  have stake := carried.stake
  unfold Backed Supermajority
  rw [carried.total] at many
  omega

theorem newSupported (vs) : Supported vs [] FinalityServiceState.new := by
  refine ⟨?_,?_,?_,?_⟩
  · intro id agg found
    simp [FinalityServiceState.new] at found
  · intro id v voted
    simp [hasVoted,FinalityServiceState.new] at voted
  · intro e cp found
    simp [FinalityServiceState.new] at found
  · intro cp found
    simp [FinalityServiceState.new] at found

theorem countedMono {vs st next e cp} (counted : Counted vs st e cp)
    (more : ∀ v, hasVoted vs st ⟨e,cp.blockHash⟩ v = true → hasVoted vs next ⟨e,cp.blockHash⟩ v = true) :
    Counted vs next e cp := by
  have subset : voters vs st ⟨e,cp.blockHash⟩ ⊆ voters vs next ⟨e,cp.blockHash⟩ := by
    intro v member
    simp only [voters,mem_filter] at *
    exact ⟨member.1,more v member.2⟩
  exact ⟨counted.epoch,counted.total,
    counted.stake.trans (weightMono _ subset),counted.threshold⟩

theorem supportedFrame {vs accepted st next}
    (supported : Supported vs accepted st) (checkpoints : next.checkpoints = st.checkpoints)
    (attestations : next.attestations = st.attestations) (lastJustified : next.lastJustified = st.lastJustified)
    (lastFinalized : next.lastFinalized = st.lastFinalized) : Supported vs accepted next := by
  have same : ∀ id v, hasVoted vs next id v = hasVoted vs st id v := by
    intro id v
    simp only [hasVoted,attestations]
  refine ⟨?_,?_,?_,?_⟩
  · intro id agg found
    exact supported.width id agg (attestations ▸ found)
  · intro id v voted
    exact supported.votes id v (same id v ▸ voted)
  · intro e cp found
    exact countedMono (supported.counted e cp (checkpoints ▸ found)) (fun v voted => same _ v ▸ voted)
  · intro cp found
    rw [lastJustified,lastFinalized] at found
    exact supported.kept cp found

theorem recordSupported {vs accepted st} (supported : Supported vs accepted st) (a) :
    Supported vs accepted (st.recordAttestation a) :=
  supportedFrame supported rfl rfl rfl rfl

theorem createSupported {vs accepted st} (supported : Supported vs accepted st) (target) :
    Supported vs accepted (st.getOrCreateCheckpoint target vs.totalStake).2 := by
  unfold getOrCreateCheckpoint
  split
  · exact supported
  · refine ⟨supported.width,supported.votes,?_,supported.kept⟩
    intro e cp found
    rw [lookupInsert] at found
    split at found
    · rename_i same
      cases Option.some.inj found
      subst e
      exact ⟨rfl,rfl,by simp [Checkpoint.new,Checkpoint.withTotalStake],fun justified => by contradiction⟩
    · exact countedMono (supported.counted e cp found) (fun _ voted => voted)

theorem aggregateSupported {vs accepted st} (supported : Supported vs accepted st) (a) :
    Supported vs accepted (st.getOrCreateAggregate a vs.len).2 := by
  have fields : (st.getOrCreateAggregate a vs.len).2.checkpoints = st.checkpoints ∧
      (st.getOrCreateAggregate a vs.len).2.lastJustified = st.lastJustified ∧
      (st.getOrCreateAggregate a vs.len).2.lastFinalized = st.lastFinalized := by
    unfold getOrCreateAggregate
    split <;> exact ⟨rfl,rfl,rfl⟩
  refine ⟨?_,?_,?_,?_⟩
  · intro id agg found
    rw [aggregateLookup] at found
    split at found
    · cases Option.some.inj found
      unfold getOrCreateAggregate
      split
      · rename_i agg stored; exact supported.width _ agg stored
      · simp [AggregatedAttestations.new]
    · exact supported.width id agg found
  · intro id v voted
    rw [aggregateVoted] at voted
    exact supported.votes id v voted
  · intro e cp found
    rw [fields.1] at found
    exact countedMono (supported.counted e cp found) (fun v voted => by rw [aggregateVoted]; exact voted)
  · intro cp found
    rw [fields.2.1,fields.2.2] at found
    exact supported.kept cp found

theorem votersMarked {vs st next} {a : Attestation} (member : vs.contains a.validatorId = true)
    (voted : ∀ id v, hasVoted vs next id v = true ↔
      hasVoted vs st id v = true ∨ id = a.targetCheckpoint ∧ v = a.validatorId) :
    voters vs next a.targetCheckpoint = insert a.validatorId (voters vs st a.targetCheckpoint) := by
  ext v
  simp only [voters,mem_filter,mem_insert,voted,true_and]
  constructor
  · rintro ⟨inside,old | new⟩
    · exact .inr ⟨inside,old⟩
    · exact .inl new
  · rintro (rfl | ⟨inside,old⟩)
    · exact ⟨ValidatorSet.memIds.mpr member,.inr rfl⟩
    · exact ⟨inside,.inl old⟩

theorem votedCounted {vs st next} {a : Attestation} {cp stake} (counted : Counted vs st a.targetCheckpoint.epoch cp)
    (member : vs.contains a.validatorId = true) (own : vs.stakeOf a.validatorId = stake.toNat)
    (fresh : hasVoted vs st a.targetCheckpoint a.validatorId = false) (voted : ∀ id v, hasVoted vs next id v = true ↔
      hasVoted vs st id v = true ∨ id = a.targetCheckpoint ∧ v = a.validatorId)
    (block : cp.blockHash = a.targetCheckpoint.blockHash ∨ vs.stakeOf a.validatorId = 0) :
    Counted vs next a.targetCheckpoint.epoch (cp.addAttestationStake stake).tryJustify.2 := by
  obtain ⟨epoch,hash,attested,total⟩ := (cp.addAttestationStake stake).tryJustifyFields
  refine ⟨epoch.trans counted.epoch,total.trans counted.total,?_,?_⟩
  · rw [attested,hash]
    simp only [addAttestationStake,U128.toNatSaturatingAdd]
    have old := counted.stake
    rcases block with same | zero
    · have target : (⟨a.targetCheckpoint.epoch,cp.blockHash⟩ : CheckpointId) = a.targetCheckpoint := by
        rw [same]
      have absent : a.validatorId ∉ voters vs st a.targetCheckpoint := by
        simp [voters,fresh]
      rw [target] at old ⊢
      rw [votersMarked member voted,weightInsert _ absent,own]
      omega
    · have kept : Counted vs next a.targetCheckpoint.epoch cp :=
        countedMono counted (fun v h => (voted _ v).mpr (.inl h))
      have stake := kept.stake
      omega
  · intro justified
    rw [tryJustifyThreshold]
    rcases tryJustifyJustified justified with before | met
    · exact thresholdStays (counted.threshold before) stake
    · exact met

theorem countedState {st a agg i stake cp next} (stored : st.checkpoints.lookup a.targetCheckpoint.epoch = some cp)
    (reached : ((markVote st a agg i stake).countStake a.targetCheckpoint.epoch stake).2 = next) :
    next.attestations = st.attestations.insert a.targetCheckpoint (agg.addAttestation a i stake) ∧
    next.checkpoints = st.checkpoints.insert a.targetCheckpoint.epoch (cp.addAttestationStake stake).tryJustify.2 ∧
    next.lastFinalized = st.lastFinalized ∧
    (next.lastJustified = some (cp.addAttestationStake stake).tryJustify.2 ∨ next.lastJustified = st.lastJustified) := by
  simp only [markVote,countStake,stored] at reached
  subst reached
  split
  · exact ⟨rfl,rfl,rfl,.inl rfl⟩
  · exact ⟨rfl,rfl,rfl,.inr rfl⟩

theorem countSupported {vs} (indexed : vs.Indexed) {accepted st} (supported : Supported vs accepted st) {a agg i stake cp}
    (member : vs.contains a.validatorId = true) (own : vs.getStake a.validatorId = some stake)
    (stored : st.checkpoints.lookup a.targetCheckpoint.epoch = some cp)
    (found : st.attestations.lookup a.targetCheckpoint = some agg) (index : vs.getIndex a.validatorId = some i)
    (fresh : hasVoted vs st a.targetCheckpoint a.validatorId = false)
    (block : cp.blockHash = a.targetCheckpoint.blockHash ∨ vs.stakeOf a.validatorId = 0) :
    Supported vs (accepted ++ [a])
      ((markVote st a agg i stake).countStake a.targetCheckpoint.epoch stake).2 := by
  have width := supported.width _ agg found
  have amount : vs.stakeOf a.validatorId = stake.toNat := by simp [ValidatorSet.stakeOf,own]
  generalize reached : ((markVote st a agg i stake).countStake a.targetCheckpoint.epoch stake).2 = next
  obtain ⟨marked,checkpoints,finalized,last⟩ := countedState stored reached
  have voted := markedVoted indexed stake found index width marked
  have votes : ∀ id v, hasVoted vs next id v = true →
      ∃ b ∈ accepted ++ [a], b.validatorId = v ∧ b.targetCheckpoint = id := by
    intro id v now
    rcases (voted id v).mp now with before | ⟨target,voter⟩
    · obtain ⟨b,present,same⟩ := supported.votes id v before
      exact ⟨b,List.mem_append_left _ present,same⟩
    · exact ⟨a,by simp,voter.symm,target.symm⟩
  have updated := votedCounted (supported.counted _ cp stored) member amount fresh voted block
  refine ⟨?_,votes,?_,?_⟩
  · intro id other present
    rw [marked,lookupInsert] at present
    split at present
    · cases Option.some.inj present
      rw [AggregatedAttestations.addAttestationLength,width]
    · exact supported.width id other present
  · intro e other present
    rw [checkpoints,lookupInsert] at present
    split at present
    · rename_i same
      cases Option.some.inj present
      subst e
      exact updated
    · exact countedMono (supported.counted e other present) (fun v h => (voted _ v).mpr (.inl h))
  · intro other present
    have kept : st.lastJustified = some other ∨ st.lastFinalized = some other → Carried vs (accepted ++ [a]) other :=
      fun h => carriedMono (supported.kept other h) (fun b m => List.mem_append_left _ m)
    rw [finalized] at present
    rcases present with justified | before
    · rcases last with new | same
      · cases Option.some.inj (new.symm.trans justified)
        exact countedCarried votes updated
      · exact kept (.inl (same ▸ justified))
    · exact kept (.inr before)

theorem openSupported {vs accepted st}
    (supported : Supported vs accepted st) (a) : Supported vs accepted (openTarget vs st a).2 :=
  aggregateSupported (createSupported (recordSupported supported a) _) a

theorem openOwnBlock {env vs st a} (counts : countable env vs st a = true) (meets : ¬ CountsForOtherBlock env vs st a) :
    ∃ cp, (openTarget vs st a).2.checkpoints.lookup a.targetCheckpoint.epoch = some cp ∧
      (cp.blockHash = a.targetCheckpoint.blockHash ∨ vs.stakeOf a.validatorId = 0) := by
  obtain ⟨cp,stored,origin⟩ := openCheckpoint vs st a
  refine ⟨cp,stored,?_⟩
  rcases origin with before | same
  · by_contra other
    push Not at other
    exact meets ⟨counts,Nat.pos_of_ne_zero other.2,by simp [before,other.1]⟩
  · exact .inl same

def logged (accepted : List Attestation) (a : Attestation) : Except Unit (Option Checkpoint) → List Attestation
  | .ok _ => accepted ++ [a]
  | .error _ => accepted

theorem updateSupported {env vs} (indexed : vs.Indexed) {accepted st} (supported : Supported vs accepted st) {a}
    (meets : ¬ CountsForOtherBlock env vs st a) :
    Supported vs (logged accepted a (processAttestationUpdate env vs st a).1)
      (processAttestationUpdate env vs st a).2 := by
  have opened := openSupported supported a
  rcases updateCases env vs st a with
    ⟨stake,i,counts,member,own,index,fresh,justified,done⟩ | ⟨_,next,done,rfl | frame⟩
  · obtain ⟨cp,stored,block⟩ := openOwnBlock counts meets
    rw [done]
    exact countSupported indexed opened member own stored (openAggregate vs st a) index
      (by rw [openVoted]; exact fresh) block
  · rw [done]
    exact opened
  · rw [done]
    exact supportedFrame supported frame.1 frame.2.1 frame.2.2.1 frame.2.2.2

theorem finalizationSupported {vs accepted st}
    (supported : Supported vs accepted st) : Supported vs accepted st.checkFinalization.2 := by
  cases found : finalizable st with
  | none =>
    rw [finalizationNone found]
    exact supported
  | some prev =>
    obtain ⟨prevEpoch,stored,_,done⟩ := finalizationSome found
    rw [done]
    have counted := supported.counted _ prev stored
    obtain ⟨epoch,hash,attested,total,just⟩ := prev.finalizeFields
    have final : Counted vs st prevEpoch prev.finalize.2 :=
      ⟨epoch.trans counted.epoch,total.trans counted.total,by rw [attested,hash]; exact counted.stake,
        fun h => by rw [prev.finalizeThreshold]; exact counted.threshold (just ▸ h)⟩
    refine ⟨supported.width,supported.votes,?_,?_⟩
    · intro e cp present
      rw [lookupInsert] at present
      split at present
      · cases Option.some.inj present
        subst e
        exact countedMono final (fun _ voted => voted)
      · exact countedMono (supported.counted e cp present) (fun _ voted => voted)
    · intro cp present
      rcases present with justified | finalized
      · exact supported.kept cp (.inl justified)
      · cases Option.some.inj finalized
        exact countedCarried supported.votes final

theorem prunedVotes (vs) {st next : FinalityServiceState} {minKeepEpoch}
    (pruned : next.attestations = st.attestations.retain (fun id _ => decide (id.epoch ≥ minKeepEpoch))) (id) (v) :
    hasVoted vs next id v = (decide (id.epoch ≥ minKeepEpoch) && hasVoted vs st id v) := by
  unfold hasVoted
  rw [pruned,lookupRetain]
  cases st.attestations.lookup id with
  | none => simp
  | some agg =>
    by_cases recent : id.epoch ≥ minKeepEpoch
    · simp [Option.filter_some,recent]
    · simp [Option.filter_some,recent]

theorem supportedBeside {vs accepted st next}
    (supported : Supported vs accepted st) (beside : Beside st next) : Supported vs accepted next :=
  supportedFrame supported beside.checkpoints beside.attestations beside.lastJustified beside.lastFinalized

theorem pruneSupported {vs accepted st}
    (supported : Supported vs accepted st) : Supported vs accepted st.pruneOldCheckpoints := by
  unfold pruneOldCheckpoints
  split
  · exact supported
  generalize ((st.lastFinalized.map epoch).getD 0) - 2 = minKeepEpoch
  refine ⟨?_,?_,?_,supported.kept⟩
  · intro id agg found
    exact supported.width id agg (lookupRetainSome.mp found).1
  · intro id v voted
    rw [prunedVotes vs rfl,Bool.and_eq_true] at voted
    exact supported.votes id v voted.2
  · intro e cp found
    obtain ⟨stored,recent⟩ := lookupRetainSome.mp found
    refine countedMono (supported.counted e cp stored) ?_
    intro v voted
    rw [prunedVotes vs rfl,Bool.and_eq_true]
    exact ⟨recent,voted⟩

theorem checkSupported {vs accepted st} (supported : Supported vs accepted st) (config) (epoch) :
    Supported vs accepted (st.checkAndProcessFinalization config epoch).2 := by
  rcases checkCases config st epoch with ⟨moved,_,done,beside⟩ | ⟨cp,settled,_,done,beside⟩
  · rw [done]
    exact supportedBeside supported beside
  · rw [done]
    exact pruneSupported (supportedBeside (finalizationSupported supported) beside)

theorem settleSupported {vs accepted} {svc : Service}
    (supported : Supported vs accepted svc.state) (env) (epoch) (reply) :
    Supported vs accepted (svc.settle env epoch reply).state := by
  have checked := checkSupported supported env.config epoch
  unfold Service.settle
  dsimp only
  split
  · cases reply with
    | ok _ => exact checked
    | error _ => exact supportedFrame checked rfl rfl rfl rfl
  · exact checked

structure Observed where
  service : Service
  accepted : List Attestation
  deriving DecidableEq

def Observed.new : Observed := ⟨Service.new,[]⟩

def Observed.act (env : Env) (vs : ValidatorSet) (o : Observed) (action : Action) : Observed :=
  ⟨o.service.act env vs action,
    match action with
    | .attest a => logged o.accepted a (processAttestationUpdate env vs o.service.state a).1
    | _ => o.accepted⟩

def OwnBlock (env : Env) (vs : ValidatorSet) (o : Observed) : Action → Prop
  | .attest a => ¬ CountsForOtherBlock env vs o.service.state a
  | _ => True
instance (env vs o action) : Decidable (OwnBlock env vs o action) := by
  cases action <;> (unfold OwnBlock; infer_instance)

def Holds (st : FinalityServiceState) (cp : Checkpoint) : Prop :=
  (∃ e, st.checkpoints.lookup e = some cp) ∨ st.lastJustified = some cp ∨ st.lastFinalized = some cp

theorem stepSupported {env vs} (indexed : vs.Indexed) (o) (action)
    (supported : Supported vs o.accepted o.service.state) (meets : OwnBlock env vs o action) :
    Supported vs (o.act env vs action).accepted (o.act env vs action).service.state := by
  cases action with
  | attest a => exact updateSupported indexed supported meets
  | settle epoch reply => exact settleSupported supported env epoch reply
  | collect => exact supportedFrame supported rfl rfl rfl rfl
  | resetFromHalted =>
    simp only [Observed.act,Service.act,resetFromHalted]
    split
    · exact supportedFrame supported rfl rfl rfl rfl
    · exact supported

theorem runSupported {env vs} (indexed : vs.Indexed) {o actions} (supported : Supported vs o.accepted o.service.state)
    (meets : StepRun.Along (Observed.act env vs) (OwnBlock env vs) o actions) :
    Supported vs (StepRun.run (Observed.act env vs) o actions).accepted
      (StepRun.run (Observed.act env vs) o actions).service.state :=
  StepRun.runKeeps (fun o action inv own => stepSupported indexed o action inv own) supported meets

theorem heldCarried {vs accepted st}
    (supported : Supported vs accepted st) {cp} (held : Holds st cp) : Carried vs accepted cp := by
  rcases held with ⟨e,stored⟩ | last
  · exact countedCarried supported.votes (supported.counted e cp stored)
  · exact supported.kept cp last

theorem justifiedCheckpointsBacked {env : Env} {vs : ValidatorSet} (distinct : vs.DistinctIds)
    (sound : Checkpoint.ThresholdExact vs.totalStake) {actions : List Action}
    (meets : StepRun.Along (Observed.act env vs) (OwnBlock env vs) Observed.new actions) {cp : Checkpoint}
    (held : Holds (StepRun.run (Observed.act env vs) Observed.new actions).service.state cp) : cp.attestedStake.toNat ≤
        weight vs.stakeOf (supporters vs (StepRun.run (Observed.act env vs) Observed.new actions).accepted cp.id) ∧
      (cp.isJustified = true → Backed vs (StepRun.run (Observed.act env vs) Observed.new actions).accepted cp.id) := by
  have carried := heldCarried (runSupported (ValidatorSet.distinctIndexed distinct) (newSupported vs) meets) held
  exact ⟨carried.stake,fun justified => carriedBacked carried sound justified⟩

def fourValidators : ValidatorSet :=
  ((((ValidatorSet.new 0).addValidator 1 1).addValidator 2 1).addValidator 3 1).addValidator 4 1

theorem fourDistinct : fourValidators.DistinctIds :=
  .add (.add (.add (.add (.new 0) 1 1 (by decide)) 2 1 (by decide)) 3 1 (by decide)) 4 1 (by decide)

def openEnv : Env := ⟨{alwaysReverifySignatures := true},fun _ => true,fun _ => .ok fourValidators⟩

def voteFor (v : ValidatorId) (source target : CheckpointId) : Attestation := ⟨v,source,target,[],0⟩

def oneBlockVotes : List Action :=
  [.attest (voteFor 1 ⟨0,0⟩ ⟨1,7⟩),.attest (voteFor 2 ⟨0,0⟩ ⟨1,7⟩),.attest (voteFor 3 ⟨0,0⟩ ⟨1,7⟩)]

theorem oneBlockVotesBacked :
    (StepRun.run (Observed.act openEnv fourValidators) Observed.new oneBlockVotes).service.state.lastJustified =
      some ⟨1,7,0,.justified,3,4⟩ ∧
    Backed fourValidators (StepRun.run (Observed.act openEnv fourValidators) Observed.new oneBlockVotes).accepted ⟨1,7⟩ := by
  have last : (StepRun.run (Observed.act openEnv fourValidators) Observed.new oneBlockVotes).service.state.lastJustified =
      some ⟨1,7,0,.justified,3,4⟩ := by decide +kernel
  exact ⟨last,(justifiedCheckpointsBacked fourDistinct (by decide) (by decide +kernel) (.inr (.inl last))).2 rfl⟩

def twoBlockVotes : List Action :=
  [.attest (voteFor 1 ⟨0,0⟩ ⟨1,7⟩),.attest (voteFor 2 ⟨0,0⟩ ⟨1,8⟩),.attest (voteFor 3 ⟨0,0⟩ ⟨1,8⟩)]

theorem twoBlockVotesJustify :
    (StepRun.run (Observed.act openEnv fourValidators) Observed.new twoBlockVotes).service.state.checkpoints.lookup 1 =
      some ⟨1,7,0,.justified,3,4⟩ ∧
    ¬ Backed fourValidators (StepRun.run (Observed.act openEnv fourValidators) Observed.new twoBlockVotes).accepted ⟨1,7⟩ ∧
    weight fourValidators.stakeOf (supporters fourValidators
      (StepRun.run (Observed.act openEnv fourValidators) Observed.new twoBlockVotes).accepted ⟨1,7⟩) = 1 := by
  refine ⟨?_,?_,?_⟩ <;> decide +kernel

end QuantumChain.Finality
