import QuantumChain.FinalityService

/-! What one update, check and call of the service can do.
These steps carry every invariant of the service. -/
namespace QuantumChain.Finality
open FinalityServiceState AggregatedAttestations ValidatorSet

def hasVoted (vs : ValidatorSet) (st : FinalityServiceState) (id : CheckpointId) (v : ValidatorId) : Bool :=
  match st.attestations.lookup id,vs.getIndex v with
  | some agg,some i => agg.hasAttested i
  | _,_ => false

def countable (env : Env) (vs : ValidatorSet) (st : FinalityServiceState) (a : Attestation) : Bool :=
  vs.contains a.validatorId && (!env.config.alwaysReverifySignatures || env.verifyAttestation a) &&
    (st.conflicting a).isNone && !hasVoted vs st a.targetCheckpoint a.validatorId

theorem createdLookup (st : FinalityServiceState) (target) (total) :
    (st.getOrCreateCheckpoint target total).2.checkpoints.lookup target.epoch =
      some ((st.checkpoints.lookup target.epoch).getD
        ((Checkpoint.new target.epoch target.blockHash 0).withTotalStake total)) := by
  unfold getOrCreateCheckpoint
  split
  · rename_i cp found; simp [found]
  · rename_i absent; simp [absent]

theorem aggregateLookup (st : FinalityServiceState) (a) (count) (id) :
    (st.getOrCreateAggregate a count).2.attestations.lookup id =
      if id = a.targetCheckpoint then some (st.getOrCreateAggregate a count).1
      else st.attestations.lookup id := by
  unfold getOrCreateAggregate
  split
  · rename_i agg found
    split
    · rename_i same; rw [same,found]
    · rfl
  · exact KeyedMap.lookupInsert _ _ _ _

theorem aggregateVoted (vs) (st) (a) (id) (v) :
    hasVoted vs (st.getOrCreateAggregate a vs.len).2 id v = hasVoted vs st id v := by
  unfold hasVoted
  rw [aggregateLookup]
  split
  · rename_i agg i found index
    split at found
    · rename_i same
      cases Option.some.inj found
      subst id
      unfold getOrCreateAggregate
      cases stored : st.attestations.lookup a.targetCheckpoint with
      | some agg => rw [index]
      | none => exact newHasAttested _ _ _ _
    · rw [found,index]
  · rename_i absent
    split at absent
    · cases index : vs.getIndex v with
      | some i => exact absurd index (absent _ i rfl)
      | none => split <;> trivial
    · split
      · rename_i agg i found index
        exact absurd index (absent agg i found)
      · rfl

def openTarget (vs : ValidatorSet) (st : FinalityServiceState) (a : Attestation) :
    AggregatedAttestations × FinalityServiceState :=
  let temp := Checkpoint.new a.targetCheckpoint.epoch a.targetCheckpoint.blockHash 0
  ((st.recordAttestation a).getOrCreateCheckpoint temp vs.totalStake).2.getOrCreateAggregate a vs.len

theorem openVoted (vs) (st) (a) (id) (v) : hasVoted vs (openTarget vs st a).2 id v = hasVoted vs st id v := by
  unfold openTarget
  rw [aggregateVoted]
  unfold getOrCreateCheckpoint
  split <;> rfl

theorem openAggregate (vs) (st) (a) :
    (openTarget vs st a).2.attestations.lookup a.targetCheckpoint = some (openTarget vs st a).1 := by
  unfold openTarget
  rw [aggregateLookup,if_pos rfl]

theorem openCheckpoint (vs) (st) (a) :
    ∃ cp, (openTarget vs st a).2.checkpoints.lookup a.targetCheckpoint.epoch = some cp ∧
      (st.checkpoints.lookup a.targetCheckpoint.epoch = some cp ∨
        cp.blockHash = a.targetCheckpoint.blockHash) := by
  have created := createdLookup (st.recordAttestation a)
    (Checkpoint.new a.targetCheckpoint.epoch a.targetCheckpoint.blockHash 0) vs.totalStake
  have same : (openTarget vs st a).2.checkpoints = ((st.recordAttestation a).getOrCreateCheckpoint
      (Checkpoint.new a.targetCheckpoint.epoch a.targetCheckpoint.blockHash 0) vs.totalStake).2.checkpoints := by
    simp only [openTarget,getOrCreateAggregate]
    split <;> rfl
  refine ⟨_,same ▸ created,?_⟩
  cases before : st.checkpoints.lookup a.targetCheckpoint.epoch with
  | some cp => exact .inl (by simp [recordAttestation,Checkpoint.new,before])
  | none => exact .inr (by simp [recordAttestation,Checkpoint.new,
      Checkpoint.withTotalStake,before])

def markVote (st : FinalityServiceState) (a : Attestation) (agg : AggregatedAttestations) (i : Nat)
    (stake : U128) : FinalityServiceState :=
  {st with attestations := st.attestations.insert a.targetCheckpoint (agg.addAttestation a i stake)}

theorem markedVoted {vs} (indexed : vs.Indexed) {st next a agg i} (stake)
    (found : st.attestations.lookup a.targetCheckpoint = some agg)
    (index : vs.getIndex a.validatorId = some i) (width : agg.participationBitmap.length = vs.len)
    (marked : next.attestations =
      st.attestations.insert a.targetCheckpoint (agg.addAttestation a i stake)) (id) (v) :
    hasVoted vs next id v = true ↔
      hasVoted vs st id v = true ∨ id = a.targetCheckpoint ∧ v = a.validatorId := by
  have inside : i < agg.participationBitmap.length := by
    rw [width]; exact indexBound indexed index
  unfold hasVoted
  rw [marked,KeyedMap.lookupInsert]
  by_cases target : id = a.targetCheckpoint
  · subst id
    rw [if_pos rfl,found]
    cases other : vs.getIndex v with
    | none =>
      have apart : v ≠ a.validatorId := by
        rintro rfl
        simp [index] at other
      simp [apart]
    | some j =>
      have same : v = a.validatorId ↔ j = i := by
        constructor
        · rintro rfl
          exact Option.some.inj (other.symm.trans index)
        · rintro rfl
          exact indexInjective indexed other index
      simp only [addAttestationHasAttested inside,same,true_and]
      split <;> simp [*]
  · simp [target]

theorem applyCases {vs} (st) {a i} (stake) (index : vs.getIndex a.validatorId = some i) :
    st.applyAttestation a vs stake =
      if hasVoted vs st a.targetCheckpoint a.validatorId then ((false,none),(openTarget vs st a).2)
      else (markVote (openTarget vs st a).2 a (openTarget vs st a).1 i stake).countStake
        a.targetCheckpoint.epoch stake := by
  have voted : hasVoted vs st a.targetCheckpoint a.validatorId = (openTarget vs st a).1.hasAttested i := by
    rw [← openVoted vs st a]
    simp only [hasVoted,openAggregate,index]
  rw [voted]
  simp only [applyAttestation,index]
  rfl

theorem countAccepts (st : FinalityServiceState) (epoch) (stake) : (st.countStake epoch stake).1.1 = true := by
  unfold countStake
  split
  · dsimp only
    split <;> rfl
  · rfl

theorem singleCases (env) (vs) (st) (a) : (∃ stake, processSingleAttestation env vs st a = (.ok (some stake),st) ∧
      vs.contains a.validatorId = true ∧ vs.getStake a.validatorId = some stake ∧
      countable env vs st a = !hasVoted vs st a.targetCheckpoint a.validatorId) ∨
    (∃ error next, processSingleAttestation env vs st a = (.error error,next) ∧
      countable env vs st a = false ∧ next.checkpoints = st.checkpoints ∧
      next.attestations = st.attestations ∧ next.lastJustified = st.lastJustified ∧
      next.lastFinalized = st.lastFinalized) := by
  unfold processSingleAttestation countable checkSlashableConditions
  split
  · rename_i stranger
    exact .inr ⟨_,st,rfl,by simp [stranger],rfl,rfl,rfl,rfl⟩
  · rename_i known
    have member : vs.contains a.validatorId = true := by simpa using known
    obtain ⟨stake,own,_⟩ := stakeOfMember member
    split
    · rename_i forged
      have unsigned : (!env.config.alwaysReverifySignatures || env.verifyAttestation a) = false := by
        simp only [Bool.and_eq_true,Bool.not_eq_true'] at forged
        simp [forged.1,forged.2]
      exact .inr ⟨_,st,rfl,by simp [unsigned],rfl,rfl,rfl,rfl⟩
    · rename_i genuine
      have signed : (!env.config.alwaysReverifySignatures || env.verifyAttestation a) = true := by
        revert genuine
        cases env.config.alwaysReverifySignatures <;> cases env.verifyAttestation a <;> decide
      cases conflict : st.conflicting a with
      | some prev => exact .inr ⟨_,_,rfl,by simp,rfl,rfl,rfl,rfl⟩
      | none => exact .inl ⟨stake,by simp only [own],member,own,by simp [member,signed]⟩

theorem updateCases (env) (vs) (st) (a) : (∃ stake i, countable env vs st a = true ∧ vs.contains a.validatorId = true ∧
      vs.getStake a.validatorId = some stake ∧ vs.getIndex a.validatorId = some i ∧
      hasVoted vs st a.targetCheckpoint a.validatorId = false ∧
      ∃ justified, processAttestationUpdate env vs st a = (.ok justified,
        ((markVote (openTarget vs st a).2 a (openTarget vs st a).1 i stake).countStake
          a.targetCheckpoint.epoch stake).2)) ∨
    (countable env vs st a = false ∧ ∃ next, processAttestationUpdate env vs st a = (.error (),next) ∧
      (next = (openTarget vs st a).2 ∨
        next.checkpoints = st.checkpoints ∧ next.attestations = st.attestations ∧
        next.lastJustified = st.lastJustified ∧ next.lastFinalized = st.lastFinalized)) := by
  unfold processAttestationUpdate
  rcases singleCases env vs st a with ⟨stake,single,member,own,counts⟩ | ⟨error,next,single,refused,frame⟩
  · obtain ⟨i,index⟩ := indexOfMember member
    have applied := applyCases st stake index
    simp only [single]
    cases voted : hasVoted vs st a.targetCheckpoint a.validatorId with
    | true =>
      rw [voted,if_pos rfl] at applied
      simp only [applied]
      exact .inr ⟨by simp [counts,voted],_,rfl,.inl rfl⟩
    | false =>
      rw [voted,if_neg (by decide)] at applied
      have accepts := countAccepts (markVote (openTarget vs st a).2 a (openTarget vs st a).1 i stake)
        a.targetCheckpoint.epoch stake
      rw [applied]
      refine .inl ⟨stake,i,by simp [counts,voted],member,own,index,rfl,?_⟩
      split
      · rename_i justified next reached
        exact ⟨justified,by rw [reached]⟩
      · rename_i justified next reached
        rw [reached] at accepts
        contradiction
  · simp only [single]
    exact .inr ⟨refused,next,rfl,.inr frame⟩

def finalizable (st : FinalityServiceState) : Option Checkpoint :=
  match st.lastJustified with
  | none => none
  | some last =>
    match last.epoch with
    | 0 => none
    | prevEpoch+1 => (st.checkpoints.lookup prevEpoch).filter Checkpoint.isJustified

theorem finalizableSource {st cp} (found : finalizable st = some cp) :
    ∃ last prevEpoch, st.lastJustified = some last ∧ last.epoch = prevEpoch+1 ∧
      st.checkpoints.lookup prevEpoch = some cp ∧ cp.isJustified = true := by
  unfold finalizable at found
  split at found <;> try contradiction
  rename_i last justified
  split at found <;> try contradiction
  rename_i prevEpoch epoch
  rw [Option.filter_eq_some_iff] at found
  exact ⟨last,prevEpoch,justified,epoch,found.1,found.2⟩

theorem finalizationNone {st} (none' : finalizable st = none) : st.checkFinalization = (none,st) := by
  unfold finalizable at none'
  unfold checkFinalization
  split
  · rfl
  rename_i last justified
  simp only [justified] at none'
  split
  · rfl
  rename_i prevEpoch epoch
  simp only [epoch] at none'
  split
  · rfl
  rename_i prev stored
  rw [stored,Option.filter_some] at none'
  split
  · rename_i just
    simp [just] at none'
  · rfl

theorem finalizationSome {st cp} (found : finalizable st = some cp) :
    ∃ prevEpoch, st.checkpoints.lookup prevEpoch = some cp ∧ cp.isJustified = true ∧
      st.checkFinalization = (some cp.finalize.2,{st with
        checkpoints := st.checkpoints.insert prevEpoch cp.finalize.2
        finalizedBlocks := st.finalizedBlocks.insert cp.finalize.2.blockHash cp.finalize.2.blockHeight
        lastFinalized := some cp.finalize.2}) := by
  obtain ⟨last,prevEpoch,justified,epoch,stored,just⟩ := finalizableSource found
  refine ⟨prevEpoch,stored,just,?_⟩
  simp only [checkFinalization,justified,epoch,stored,just,if_true]

theorem updateLastFinalized (env) (vs) (st) (a) :
    (processAttestationUpdate env vs st a).2.lastFinalized = st.lastFinalized := by
  have opened : (openTarget vs st a).2.lastFinalized = st.lastFinalized := by
    simp only [openTarget,getOrCreateAggregate,getOrCreateCheckpoint]
    split <;> split <;> rfl
  rcases updateCases env vs st a with ⟨stake,i,_,_,_,_,_,_,done⟩ | ⟨_,next,done,rfl | frame⟩
  · rw [done,← opened]
    simp only [countStake]
    split
    · split <;> rfl
    · rfl
  · rw [done]
    exact opened
  · rw [done]
    exact frame.2.2.2

theorem pruneLastFinalized (st : FinalityServiceState) : st.pruneOldCheckpoints.lastFinalized = st.lastFinalized := by
  unfold pruneOldCheckpoints
  split <;> rfl

structure Beside (st next : FinalityServiceState) : Prop where
  checkpoints : next.checkpoints = st.checkpoints
  attestations : next.attestations = st.attestations
  lastJustified : next.lastJustified = st.lastJustified
  lastFinalized : next.lastFinalized = st.lastFinalized
  attestationHistory : next.attestationHistory = st.attestationHistory
  slashableOffenses : next.slashableOffenses = st.slashableOffenses

theorem checkCases (config) (st) (epoch) :
    (∃ moved, finalizable st = none ∧ st.checkAndProcessFinalization config epoch = (none,moved) ∧ Beside st moved) ∨
      ∃ cp settled, finalizable st = some cp ∧
        st.checkAndProcessFinalization config epoch = (some cp.finalize.2,settled.pruneOldCheckpoints) ∧
        Beside st.checkFinalization.2 settled := by
  unfold checkAndProcessFinalization
  cases found : finalizable st with
  | none =>
    rw [finalizationNone found]
    dsimp only
    left
    split
    · split <;> exact ⟨_,rfl,rfl,rfl,rfl,rfl,rfl,rfl,rfl⟩
    · exact ⟨_,rfl,rfl,rfl,rfl,rfl,rfl,rfl,rfl⟩
  | some cp =>
    obtain ⟨prevEpoch,_,_,done⟩ := finalizationSome found
    rw [done]
    exact .inr ⟨cp,_,rfl,rfl,rfl,rfl,rfl,rfl,rfl,rfl⟩

theorem checkResult (config) (st) (epoch) :
    (st.checkAndProcessFinalization config epoch).1 = (finalizable st).map (fun cp => cp.finalize.2) := by
  rcases checkCases config st epoch with ⟨moved,found,done,_⟩ | ⟨cp,settled,found,done,_⟩
  · rw [done,found,Option.map_none]
  · rw [done,found,Option.map_some]

theorem checkLastFinalized (config) (st) (epoch) : (st.checkAndProcessFinalization config epoch).2.lastFinalized =
      ((finalizable st).map (fun cp => cp.finalize.2)).or st.lastFinalized := by
  rcases checkCases config st epoch with ⟨moved,found,done,beside⟩ | ⟨cp,settled,found,done,beside⟩
  · rw [done,found,beside.lastFinalized]
    rfl
  · obtain ⟨prevEpoch,_,_,reached⟩ := finalizationSome found
    rw [done,found,pruneLastFinalized,beside.lastFinalized,reached]
    rfl

inductive Action where
  | attest (a : Attestation)
  | settle (epoch : Nat) (reply : Except FinalityError Unit)
  | collect
  | resetFromHalted

def Service.settle (env : Env) (svc : Service) (epoch : Nat) (reply : Except FinalityError Unit) : Service :=
  let checked := svc.state.checkAndProcessFinalization env.config epoch
  match checked.1 with
  | some finalized => handleFinalizationNotification ⟨checked.2,svc.sent⟩ finalized reply
  | none => ⟨checked.2,svc.sent⟩

def Service.act (env : Env) (vs : ValidatorSet) (svc : Service) : Action → Service
  | .attest a => {svc with state := (processAttestationUpdate env vs svc.state a).2}
  | .settle epoch reply => svc.settle env epoch reply
  | .collect => {svc with state := takeEvents svc.state}
  | .resetFromHalted => resetFromHalted svc

theorem settleSent (env) (svc : Service) (epoch) (reply) : ∃ st, (svc.settle env epoch reply).sent = svc.sent ++
      ((finalizable svc.state).map (fun cp => finalizationRequest st cp.finalize.2)).toList := by
  refine ⟨(svc.state.checkAndProcessFinalization env.config epoch).2,?_⟩
  simp only [Service.settle,checkResult]
  cases finalizable svc.state with
  | none => simp
  | some cp => rfl

theorem settleLastFinalized (env) (svc : Service) (epoch) (reply) : (svc.settle env epoch reply).state.lastFinalized =
      ((finalizable svc.state).map (fun cp => cp.finalize.2)).or svc.state.lastFinalized := by
  rw [← checkLastFinalized env.config svc.state epoch]
  unfold Service.settle
  dsimp only
  split
  · cases reply <;> rfl
  · rfl

def callActions (svc : Service) (call : Call) : List Action :=
  if svc.state.circuitBreaker.isHalted then []
  else
    match call.attestations with
    | [] => []
    | first::rest =>
      (first::rest).map .attest ++ [.settle first.targetCheckpoint.epoch call.markFinalized,.collect]

theorem batchActs (env) (vs) (svc) (batch) (counts) : StepRun.run (Service.act env vs) svc (batch.map .attest) =
      {svc with state := (processAttestationBatch env vs counts svc.state batch).2} := by
  induction batch generalizing svc counts with
  | nil => rfl
  | cons a rest ih =>
    simp only [List.map_cons,StepRun.runCons,processAttestationBatch,Service.act]
    split <;> (rename_i reached; rw [reached]; exact ih _ _)

theorem callActs {env vs} (svc) (call)
    (provided : ∀ first ∈ call.attestations.head?, env.validatorSetAt first.targetCheckpoint.epoch = .ok vs) :
    (processAttestations env svc call).2 = StepRun.run (Service.act env vs) svc (callActions svc call) := by
  unfold processAttestations callActions
  split
  · rfl
  cases batch : call.attestations with
  | nil => rfl
  | cons first rest =>
    have validators := provided first (by simp [batch])
    simp only [validators,StepRun.runAppend,batchActs env vs svc (first::rest) ⟨0,0,none⟩]
    rfl

end QuantumChain.Finality
