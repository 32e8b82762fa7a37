import QuantumChain.FinalitySafety
import QuantumChain.FinalityProgress
import Mathlib.Tactic.FinCases

/-! What a finality proof says of the votes it stands for.
Sums must not saturate; the proof carries no votes itself. -/
namespace QuantumChain.Finality
open List KeyedMap ValidatorSet FinalityServiceState Checkpoint
open WeightedQuorum (weight Supermajority)

def FinalityProof.marks (proof : FinalityProof) (i : Nat) : Bool :=
  (proof.participationBitmap[i/8]?.getD 0).toNat.testBit (7 - i%8)

def marked (vs : ValidatorSet) (proof : FinalityProof) : Finset ValidatorId :=
  vs.ids.filter (fun v => (vs.getIndex v).any proof.marks = true)

def byteOf (bit : Nat → Bool) : UInt8 := (range 8).foldl (fun acc k => 2*acc + (if bit k then 1 else 0)) 0

theorem byteOfHorner (bit : Nat → Bool) {n} (small : n ≤ 8) :
    ((range n).foldl (fun acc k => 2*acc + (if bit k then 1 else 0)) (0 : UInt8)).toNat =
      horner ((range n).map bit) := by
  induction n with
  | zero => rfl
  | succ n ih =>
    have least := hornerLt ((range n).map bit)
    have most : 2^((range n).map bit).length ≤ 2^7 := by
      rw [length_map,length_range]
      exact Nat.pow_le_pow_right Nat.two_pos (by omega)
    have digit : (if bit n then (1 : UInt8) else 0).toNat = (bit n).toNat := by cases bit n <;> rfl
    have bound := (bit n).toNat_le
    rw [range_succ,foldl_append,map_append,map_singleton,hornerSnoc,foldl_cons,foldl_nil,
      UInt8.toNat_add,UInt8.toNat_mul,ih (by omega),digit]
    change (2*horner ((range n).map bit) % 256 + (bit n).toNat) % 256 = _
    omega

theorem byteOfBit (bit) (k : Fin 8) : (byteOf bit).toNat.testBit (7 - k) = bit k := by
  rw [byteOf,byteOfHorner bit (Nat.le_refl 8),hornerBit,← map_reverse]
  fin_cases k <;> rfl

theorem packedBit (bits) (i) : ((packMsb0 bits)[i/8]?.getD 0).toNat.testBit (7 - i%8) = bits[i]?.getD false := by
  have packed : packMsb0 bits =
      (range ((bits.length + 7)/8)).map (fun byte => byteOf (fun k => bits[8*byte + k]?.getD false)) := rfl
  rw [packed,getElem?_map]
  by_cases inside : i/8 < (bits.length + 7)/8
  · rw [getElem?_range inside,Option.map_some,Option.getD_some]
    have read := byteOfBit (fun k => bits[8*(i/8) + k]?.getD false) ⟨i%8,Nat.mod_lt _ (by decide)⟩
    have whole := Nat.div_add_mod i 8
    simp only [whole] at read
    exact read
  · have beyond : (range ((bits.length + 7)/8))[i/8]? = none := by
      rw [getElem?_eq_none_iff,length_range]
      omega
    have past : bits[i]? = none := by
      rw [getElem?_eq_none_iff]
      omega
    rw [beyond,past]
    simp

theorem ValidatorSet.indexReached {vs : ValidatorSet} (indexed : vs.Indexed) {i} (bound : i < vs.len) :
    ∃ v, vs.getIndex v = some i := by
  have each : ∀ v ∈ vs.ids, vs.getIndex v = some ((vs.getIndex v).getD 0) := by
    intro v member
    obtain ⟨j,found⟩ := indexOfMember (memIds.mp member)
    simp [found]
  have inside : vs.ids.image (fun v => (vs.getIndex v).getD 0) ⊆ Finset.range vs.len := by
    intro j mem
    obtain ⟨v,member,rfl⟩ := Finset.mem_image.mp mem
    exact Finset.mem_range.mpr (indexBound indexed (each v member))
  have apart : Set.InjOn (fun v => (vs.getIndex v).getD 0) vs.ids := by
    intro v left w right same
    have right' := each w right
    rw [← show (vs.getIndex v).getD 0 = (vs.getIndex w).getD 0 from same] at right'
    exact indexInjective indexed (each v left) right'
  have all := Finset.eq_of_subset_of_card_le inside (by
    rw [Finset.card_image_of_injOn apart,Finset.card_range]
    exact Nat.le_refl _)
  obtain ⟨v,member,rfl⟩ := Finset.mem_image.mp (all ▸ Finset.mem_range.mpr bound)
  exact ⟨v,each v member⟩

structure SelfConsistent (vs : ValidatorSet) (o : Observed) (r : MarkFinalizedRequest) : Prop where
  marks : ∀ i, r.finalityProof.marks i = true ↔
    ∃ v ∈ supporters vs o.accepted ⟨r.finalizedEpoch,r.blockHash⟩, vs.getIndex v = some i
  stake : r.finalityProof.participatingStake.toNat = weight vs.stakeOf (marked vs r.finalityProof)
  majority : Supermajority r.finalityProof.totalStake.toNat r.finalityProof.participatingStake.toNat
  source : ∃ e cp, o.service.state.checkpoints.lookup e = some cp ∧ cp.isJustified = true ∧
    r.finalityProof.sourceCheckpoint = .ofCheckpoint cp

structure Tally (vs : ValidatorSet) (st : FinalityServiceState) (e : Nat) (cp : Checkpoint) : Prop where
  epoch : cp.epoch = e
  total : cp.totalStake = vs.totalStake
  collected : ∃ agg, st.attestations.lookup ⟨e,cp.blockHash⟩ = some agg
  stake : cp.attestedStake.toNat = weight vs.stakeOf (voters vs st ⟨e,cp.blockHash⟩)
  threshold : cp.isJustified = true → cp.checkJustificationThreshold = true

structure Tallied (vs : ValidatorSet) (accepted : List Attestation) (st : FinalityServiceState) : Prop where
  members : ∀ a ∈ accepted, vs.contains a.validatorId = true
  width : ∀ id agg, st.attestations.lookup id = some agg → agg.participationBitmap.length = vs.len
  voted : ∀ id agg, st.attestations.lookup id = some agg → ∀ v,
    hasVoted vs st id v = true ↔ ∃ a ∈ accepted, a.validatorId = v ∧ a.targetCheckpoint = id
  opened : ∀ id agg, st.attestations.lookup id = some agg → ∃ cp, st.checkpoints.lookup id.epoch = some cp
  tally : ∀ e cp, st.checkpoints.lookup e = some cp → Tally vs st e cp

def Reopens (o : Observed) (a : Attestation) : Prop :=
  o.service.state.attestations.lookup a.targetCheckpoint = none ∧ ∃ b ∈ o.accepted, b.targetCheckpoint = a.targetCheckpoint
instance (o a) : Decidable (Reopens o a) := by
  unfold Reopens; infer_instance

def SourceJustified (st : FinalityServiceState) : Prop :=
  ∀ last ∈ st.lastJustified, ∀ prev ∈ st.checkpoints.lookup (last.epoch - 1), 1 ≤ last.epoch →
    prev.isJustified = true → ∀ source ∈ st.checkpoints.lookup (last.epoch - 2), source.isJustified = true
instance (st) : Decidable (SourceJustified st) := by
  unfold SourceJustified; infer_instance

def Provable (env : Env) (vs : ValidatorSet) (o : Observed) : Action → Prop
  | .attest a => ¬ CountsForOtherBlock env vs o.service.state a ∧ ¬ Reopens o a
  | .settle _ _ => SourceJustified o.service.state
  | .collect | .resetFromHalted => True
instance (env vs o) : (action : Action) → Decidable (Provable env vs o action)
  | .attest a => inferInstanceAs (Decidable (¬ CountsForOtherBlock env vs o.service.state a ∧ ¬ Reopens o a))
  | .settle _ _ => inferInstanceAs (Decidable (SourceJustified o.service.state))
  | .collect => isTrue trivial
  | .resetFromHalted => isTrue trivial

namespace Tally
variable {vs : ValidatorSet} {st next : FinalityServiceState} {e : Nat} {cp : Checkpoint}

theorem sameVotes (tally : Tally vs st e cp) (collected : ∃ agg, next.attestations.lookup ⟨e,cp.blockHash⟩ = some agg)
    (same : ∀ v, hasVoted vs next ⟨e,cp.blockHash⟩ v = hasVoted vs st ⟨e,cp.blockHash⟩ v) : Tally vs next e cp := by
  refine ⟨tally.epoch,tally.total,collected,?_,tally.threshold⟩
  have votes : voters vs next ⟨e,cp.blockHash⟩ = voters vs st ⟨e,cp.blockHash⟩ := by
    simp only [voters,same]
  rw [votes]
  exact tally.stake

theorem otherVotes {a : Attestation} {id} (other : id ≠ a.targetCheckpoint)
    (voted : ∀ id v, hasVoted vs next id v = true ↔
      hasVoted vs st id v = true ∨ id = a.targetCheckpoint ∧ v = a.validatorId) (v) :
    hasVoted vs next id v = hasVoted vs st id v := by
  rw [Bool.eq_iff_iff,voted]
  simp [other]

theorem weightBound (vs) (st) (id) : weight vs.stakeOf (voters vs st id) ≤ vs.fullStake :=
  WeightedQuorum.weightMono _ (Finset.filter_subset _ _)

theorem vote {a : Attestation} {stake} (tally : Tally vs st a.targetCheckpoint.epoch cp)
    (unsaturated : vs.fullStake ≤ u128Max) (member : vs.contains a.validatorId = true)
    (own : vs.stakeOf a.validatorId = stake.toNat) (fresh : hasVoted vs st a.targetCheckpoint a.validatorId = false)
    (collected : ∃ agg, next.attestations.lookup ⟨a.targetCheckpoint.epoch,cp.blockHash⟩ = some agg)
    (voted : ∀ id v, hasVoted vs next id v = true ↔
      hasVoted vs st id v = true ∨ id = a.targetCheckpoint ∧ v = a.validatorId)
    (block : cp.blockHash = a.targetCheckpoint.blockHash ∨ vs.stakeOf a.validatorId = 0) :
    Tally vs next a.targetCheckpoint.epoch (cp.addAttestationStake stake).tryJustify.2 := by
  obtain ⟨epoch,hash,attested,total⟩ := (cp.addAttestationStake stake).tryJustifyFields
  have before := tally.stake
  have now : cp.attestedStake.toNat + stake.toNat =
      weight vs.stakeOf (voters vs next ⟨a.targetCheckpoint.epoch,cp.blockHash⟩) := by
    by_cases same : cp.blockHash = a.targetCheckpoint.blockHash
    · have target : (⟨a.targetCheckpoint.epoch,cp.blockHash⟩ : CheckpointId) = a.targetCheckpoint := by rw [same]
      have absent : a.validatorId ∉ voters vs st a.targetCheckpoint := by simp [voters,fresh]
      rw [target] at before ⊢
      rw [votersMarked member voted,WeightedQuorum.weightInsert _ absent,own]
      omega
    · have target : (⟨a.targetCheckpoint.epoch,cp.blockHash⟩ : CheckpointId) ≠ a.targetCheckpoint :=
        fun equal => same (congrArg CheckpointId.blockHash equal)
      have votes : voters vs next ⟨a.targetCheckpoint.epoch,cp.blockHash⟩ =
          voters vs st ⟨a.targetCheckpoint.epoch,cp.blockHash⟩ := by
        simp only [voters,otherVotes target voted]
      have zero := block.resolve_left same
      rw [votes]
      omega
  have bound := weightBound vs next ⟨a.targetCheckpoint.epoch,cp.blockHash⟩
  refine ⟨epoch.trans tally.epoch,total.trans tally.total,hash ▸ collected,?_,?_⟩
  · rw [attested,hash]
    simp only [addAttestationStake,U128.toNatSaturatingAdd]
    omega
  · intro justified
    rw [tryJustifyThreshold]
    rcases tryJustifyJustified justified with earlier | met
    · exact thresholdStays (tally.threshold earlier) stake
    · exact met

end Tally

namespace Tallied
variable {vs : ValidatorSet} {accepted : List Attestation} {st next : FinalityServiceState}

theorem new (vs) : Tallied vs [] FinalityServiceState.new := by
  refine ⟨fun _ mem => (nomatch mem),?_,?_,?_,?_⟩
  all_goals
    intro _ _ found
    simp [FinalityServiceState.new] at found

theorem framed (tallied : Tallied vs accepted st) (checkpoints : next.checkpoints = st.checkpoints)
    (attestations : next.attestations = st.attestations) : Tallied vs accepted next := by
  have same : ∀ id v, hasVoted vs next id v = hasVoted vs st id v := by
    intro id v
    simp only [hasVoted,attestations]
  refine ⟨tallied.members,fun id agg found => ?_,fun id agg found v => ?_,fun id agg found => ?_,fun e cp found => ?_⟩
  · exact tallied.width id agg (attestations ▸ found)
  · rw [same]
    exact tallied.voted id agg (attestations ▸ found) v
  · rw [checkpoints]
    exact tallied.opened id agg (attestations ▸ found)
  · have tally := tallied.tally e cp (checkpoints ▸ found)
    exact tally.sameVotes (attestations ▸ tally.collected) (same _)

theorem newVotes (tallied : Tallied vs accepted st) {id} (absent : st.checkpoints.lookup id.epoch = none)
    (v) : hasVoted vs st id v = false := by
  cases found : st.attestations.lookup id with
  | none => simp [hasVoted,found]
  | some agg =>
    obtain ⟨cp,stored⟩ := tallied.opened id agg found
    rw [absent] at stored
    contradiction

theorem openLookup (vs) (st) (a) (e) : (openTarget vs st a).2.checkpoints.lookup e =
      if e = a.targetCheckpoint.epoch then some ((st.checkpoints.lookup e).getD
        ((Checkpoint.new e a.targetCheckpoint.blockHash 0).withTotalStake vs.totalStake))
      else st.checkpoints.lookup e := by
  have kept : (openTarget vs st a).2.checkpoints = ((st.recordAttestation a).getOrCreateCheckpoint
      (Checkpoint.new a.targetCheckpoint.epoch a.targetCheckpoint.blockHash 0) vs.totalStake).2.checkpoints := by
    simp only [openTarget,getOrCreateAggregate]
    split <;> rfl
  rw [kept]
  split
  · rename_i same
    subst same
    exact createdLookup _ _ _
  · rename_i other
    unfold getOrCreateCheckpoint
    split
    · rfl
    · exact Finmap.lookup_insert_of_ne _ other

theorem openAttestations (vs) (st) (a) (id) : (openTarget vs st a).2.attestations.lookup id =
      if id = a.targetCheckpoint then some (openTarget vs st a).1 else st.attestations.lookup id := by
  unfold openTarget
  rw [aggregateLookup]
  split
  · rfl
  · unfold getOrCreateCheckpoint
    split <;> rfl

theorem openOrigin (vs) (st) (a) : st.attestations.lookup a.targetCheckpoint = some (openTarget vs st a).1 ∨
    st.attestations.lookup a.targetCheckpoint = none ∧ (openTarget vs st a).1.participationBitmap.length = vs.len := by
  have kept : ((st.recordAttestation a).getOrCreateCheckpoint
      (Checkpoint.new a.targetCheckpoint.epoch a.targetCheckpoint.blockHash 0) vs.totalStake).2.attestations =
        st.attestations := by
    unfold getOrCreateCheckpoint
    split <;> rfl
  simp only [openTarget,getOrCreateAggregate,kept]
  cases stored : st.attestations.lookup a.targetCheckpoint with
  | some agg => exact .inl rfl
  | none => exact .inr ⟨rfl,by simp [AggregatedAttestations.new]⟩

theorem opening {o} (tallied : Tallied vs o.accepted o.service.state) {a}
    (kept : ¬ Reopens o a) : Tallied vs o.accepted (openTarget vs o.service.state a).2 := by
  have present : ∀ id agg, o.service.state.attestations.lookup id = some agg →
      ∃ agg, (openTarget vs o.service.state a).2.attestations.lookup id = some agg := by
    intro id agg found
    rw [openAttestations]
    split
    · exact ⟨_,rfl⟩
    · exact ⟨agg,found⟩
  refine ⟨tallied.members,fun id agg found => ?_,fun id agg found v => ?_,fun id agg found => ?_,fun e cp found => ?_⟩
  · rw [openAttestations] at found
    split at found
    · cases Option.some.inj found
      rcases openOrigin vs o.service.state a with stored | fresh
      · exact tallied.width _ _ stored
      · exact fresh.2
    · exact tallied.width id agg found
  · rw [openVoted]
    rw [openAttestations] at found
    split at found
    · rename_i same
      subst same
      cases stored : o.service.state.attestations.lookup a.targetCheckpoint with
      | some before => exact tallied.voted _ before stored v
      | none =>
        have unvoted : hasVoted vs o.service.state a.targetCheckpoint v = false := by simp [hasVoted,stored]
        rw [unvoted]
        refine ⟨fun impossible => absurd impossible Bool.false_ne_true,?_⟩
        rintro ⟨b,inside,_,target⟩
        exact absurd ⟨stored,b,inside,target⟩ kept
    · exact tallied.voted id agg found v
  · rw [openLookup]
    rw [openAttestations] at found
    split
    · exact ⟨_,rfl⟩
    · rename_i other
      rw [if_neg (fun same => other (congrArg CheckpointId.epoch same))] at found
      exact tallied.opened id agg found
  · rw [openLookup] at found
    have same := fun v => openVoted vs o.service.state a ⟨e,cp.blockHash⟩ v
    split at found
    · rename_i own
      cases before : o.service.state.checkpoints.lookup e with
      | some old =>
        rw [before] at found
        cases Option.some.inj found
        have tally := tallied.tally e old before
        obtain ⟨agg,stored⟩ := tally.collected
        exact tally.sameVotes (present _ agg stored) same
      | none =>
        rw [before] at found
        cases Option.some.inj found
        subst own
        refine ⟨rfl,rfl,?_,?_,fun justified => absurd justified Bool.false_ne_true⟩
        · exact ⟨_,openAggregate vs o.service.state a⟩
        · have nobody : voters vs (openTarget vs o.service.state a).2 a.targetCheckpoint = ∅ := by
            simp only [voters,openVoted,tallied.newVotes before]
            simp
          exact (congrArg (weight vs.stakeOf) nobody).symm
    · have tally := tallied.tally e cp found
      obtain ⟨agg,stored⟩ := tally.collected
      exact tally.sameVotes (present _ agg stored) same

theorem countTallied (indexed : vs.Indexed) (unsaturated : vs.fullStake ≤ u128Max)
    (tallied : Tallied vs accepted st) {a agg i stake cp} (member : vs.contains a.validatorId = true)
      (own : vs.getStake a.validatorId = some stake)
    (stored : st.checkpoints.lookup a.targetCheckpoint.epoch = some cp)
    (found : st.attestations.lookup a.targetCheckpoint = some agg) (index : vs.getIndex a.validatorId = some i)
    (fresh : hasVoted vs st a.targetCheckpoint a.validatorId = false)
    (block : cp.blockHash = a.targetCheckpoint.blockHash ∨ vs.stakeOf a.validatorId = 0) :
    Tallied vs (accepted ++ [a]) ((markVote st a agg i stake).countStake a.targetCheckpoint.epoch stake).2 := by
  have width := tallied.width _ agg found
  have amount : vs.stakeOf a.validatorId = stake.toNat := by simp [ValidatorSet.stakeOf,own]
  generalize reached : ((markVote st a agg i stake).countStake a.targetCheckpoint.epoch stake).2 = next
  obtain ⟨marked,checkpoints,_,_⟩ := countedState stored reached
  have voted := markedVoted indexed stake found index width marked
  have present : ∀ id agg, st.attestations.lookup id = some agg → ∃ agg, next.attestations.lookup id = some agg := by
    intro id agg stored
    rw [marked]
    exact presentInsert ⟨agg,stored⟩ _ _
  have before : ∀ id agg, next.attestations.lookup id = some agg → ∃ old, st.attestations.lookup id = some old := by
    intro id agg stored
    rw [marked,lookupInsert] at stored
    split at stored
    · rename_i same
      rw [same]
      exact ⟨_,found⟩
    · exact ⟨agg,stored⟩
  refine ⟨fun b inside => ?_,fun id other there => ?_,fun id other there v => ?_,fun id other there => ?_,
    fun e other there => ?_⟩
  · rcases mem_append.mp inside with old | last
    · exact tallied.members b old
    · cases mem_singleton.mp last
      exact member
  · rw [marked,lookupInsert] at there
    split at there
    · cases Option.some.inj there
      rw [AggregatedAttestations.addAttestationLength,width]
    · exact tallied.width id other there
  · obtain ⟨old,stored⟩ := before id other there
    rw [voted,tallied.voted id old stored v]
    constructor
    · rintro (⟨b,inside,same⟩ | ⟨target,voter⟩)
      · exact ⟨b,mem_append_left _ inside,same⟩
      · exact ⟨a,mem_append_right _ (mem_singleton.mpr rfl),voter.symm,target.symm⟩
    · rintro ⟨b,inside,voter,target⟩
      rcases mem_append.mp inside with earlier | last
      · exact .inl ⟨b,earlier,voter,target⟩
      · cases mem_singleton.mp last
        exact .inr ⟨target.symm,voter.symm⟩
  · obtain ⟨old,stored⟩ := before id other there
    rw [checkpoints]
    exact presentInsert (tallied.opened id old stored) _ _
  · rw [checkpoints,lookupInsert] at there
    split at there
    · rename_i same
      cases Option.some.inj there
      subst same
      have tally := tallied.tally _ cp stored
      obtain ⟨agg,collected⟩ := tally.collected
      exact tally.vote unsaturated member amount fresh (present _ agg collected) voted block
    · rename_i elsewhere
      have tally := tallied.tally e other there
      obtain ⟨agg,collected⟩ := tally.collected
      exact tally.sameVotes (present _ agg collected)
        (Tally.otherVotes (fun same => elsewhere (congrArg CheckpointId.epoch same)) voted)

theorem update {env} (indexed : vs.Indexed) (unsaturated : vs.fullStake ≤ u128Max) {o}
    (tallied : Tallied vs o.accepted o.service.state) {a}
    (own : ¬ CountsForOtherBlock env vs o.service.state a) (kept : ¬ Reopens o a) :
    Tallied vs (logged o.accepted a (processAttestationUpdate env vs o.service.state a).1)
      (processAttestationUpdate env vs o.service.state a).2 := by
  have opened := tallied.opening kept
  rcases updateCases env vs o.service.state a with
    ⟨stake,i,counts,member,amount,index,fresh,justified,done⟩ | ⟨_,next,done,rfl | frame⟩
  · obtain ⟨cp,stored,block⟩ := openOwnBlock counts own
    rw [done]
    exact opened.countTallied indexed unsaturated member amount stored (openAggregate vs o.service.state a) index
      (by rw [openVoted]; exact fresh) block
  · rw [done]
    exact opened
  · rw [done]
    exact tallied.framed frame.1 frame.2.1

theorem finalization (tallied : Tallied vs accepted st) : Tallied vs accepted st.checkFinalization.2 := by
  cases found : finalizable st with
  | none =>
    rw [finalizationNone found]
    exact tallied
  | some prev =>
    obtain ⟨prevEpoch,stored,_,done⟩ := finalizationSome found
    rw [done]
    have tally := tallied.tally _ prev stored
    obtain ⟨epoch,hash,attested,total,just⟩ := prev.finalizeFields
    refine ⟨tallied.members,tallied.width,tallied.voted,fun id agg collected => ?_,fun e cp present => ?_⟩
    · exact presentInsert (tallied.opened id agg collected) _ _
    · rw [lookupInsert] at present
      split at present
      · rename_i same
        cases Option.some.inj present
        subst same
        exact ⟨epoch.trans tally.epoch,total.trans tally.total,by rw [hash]; exact tally.collected,
          by rw [attested,hash]; exact tally.stake,
          fun h => by rw [prev.finalizeThreshold]; exact tally.threshold (just ▸ h)⟩
      · have other := tallied.tally e cp present
        exact other.sameVotes other.collected (fun _ => rfl)

theorem prune (tallied : Tallied vs accepted st) : Tallied vs accepted st.pruneOldCheckpoints := by
  unfold pruneOldCheckpoints
  split
  · exact tallied
  dsimp only
  generalize ((st.lastFinalized.map Checkpoint.epoch).getD 0) - 2 = minKeepEpoch
  refine ⟨tallied.members,fun id agg found => ?_,fun id agg found v => ?_,fun id agg found => ?_,fun e cp found => ?_⟩
  · exact tallied.width id agg (lookupRetainSome.mp found).1
  · obtain ⟨stored,recent⟩ := lookupRetainSome.mp found
    rw [prunedVotes vs rfl,recent,Bool.true_and]
    exact tallied.voted id agg stored v
  · obtain ⟨before,recent⟩ := lookupRetainSome.mp found
    obtain ⟨cp,stored⟩ := tallied.opened id agg before
    exact ⟨cp,lookupRetainSome.mpr ⟨stored,recent⟩⟩
  · obtain ⟨stored,recent⟩ := lookupRetainSome.mp found
    have tally := tallied.tally e cp stored
    obtain ⟨agg,collected⟩ := tally.collected
    refine tally.sameVotes ⟨agg,lookupRetainSome.mpr ⟨collected,recent⟩⟩ (fun v => ?_)
    rw [prunedVotes vs rfl,recent,Bool.true_and]

theorem check (tallied : Tallied vs accepted st) (config) (epoch) :
    Tallied vs accepted (st.checkAndProcessFinalization config epoch).2 := by
  rcases checkCases config st epoch with ⟨moved,_,done,beside⟩ | ⟨cp,settled,_,done,beside⟩
  · rw [done]
    exact tallied.framed beside.checkpoints beside.attestations
  · rw [done]
    exact (tallied.finalization.framed beside.checkpoints beside.attestations).prune

theorem act {env} (indexed : vs.Indexed) (unsaturated : vs.fullStake ≤ u128Max) (o) (action)
    (tallied : Tallied vs o.accepted o.service.state) (provable : Provable env vs o action) :
    Tallied vs (o.act env vs action).accepted (o.act env vs action).service.state := by
  cases action with
  | attest a => exact tallied.update indexed unsaturated provable.1 provable.2
  | settle epoch reply =>
    have checked := tallied.check env.config epoch
    simp only [Observed.act,Service.act,Service.settle]
    split
    · cases reply with
      | ok _ => exact checked
      | error _ => exact checked.framed rfl rfl
    · exact checked
  | collect => exact tallied.framed rfl rfl
  | resetFromHalted =>
    simp only [Observed.act,Service.act,resetFromHalted]
    split
    · exact tallied.framed rfl rfl
    · exact tallied

end Tallied

theorem bitmapOf {st} (cp) {agg} (collected : st.attestations.lookup cp.id = some agg) (i) :
    (finalizationRequest st cp).finalityProof.marks i = agg.hasAttested i := by
  have bitmap : (finalizationRequest st cp).finalityProof.participationBitmap = packMsb0 agg.participationBitmap := by
    simp only [finalizationRequest,collected]
  rw [FinalityProof.marks,bitmap]
  exact packedBit _ i

theorem requestConsistent {vs} (indexed : vs.Indexed) (sound : Checkpoint.ThresholdExact vs.totalStake)
    {o st} (checkpoints : o.service.state.checkpoints = st.checkpoints)
    (tallied : Tallied vs o.accepted st) {cp} (held : st.checkpoints.lookup cp.epoch = some cp)
    (justified : cp.isJustified = true)
    (source : ∀ src ∈ st.checkpoints.lookup (cp.epoch - 1), src.isJustified = true) :
    SelfConsistent vs o (finalizationRequest st cp) := by
  have tally := tallied.tally _ cp held
  obtain ⟨agg,collected⟩ := tally.collected
  have bit := bitmapOf cp collected
  have votes : ∀ v i, vs.getIndex v = some i → hasVoted vs st cp.id v = agg.hasAttested i := by
    intro v i index
    simp only [hasVoted,show st.attestations.lookup cp.id = some agg from collected,index]
  refine ⟨fun i => ?_,?_,?_,?_⟩
  · rw [bit]
    constructor
    · intro attested
      have bound : i < vs.len := by
        rw [← tallied.width _ agg collected]
        by_contra past
        rw [AggregatedAttestations.hasAttested,getElem?_eq_none (Nat.le_of_not_lt past)] at attested
        contradiction
      obtain ⟨v,index⟩ := indexReached indexed bound
      obtain ⟨a,inside,voter,target⟩ := (tallied.voted _ agg collected v).mp ((votes v i index).trans attested)
      refine ⟨v,?_,index⟩
      simp only [supporters,Finset.mem_filter]
      exact ⟨memIds.mpr (voter ▸ tallied.members a inside),a,inside,voter,target⟩
    · rintro ⟨v,supports,index⟩
      simp only [supporters,Finset.mem_filter] at supports
      rw [← votes v i index]
      exact (tallied.voted _ agg collected v).mpr supports.2
  · have same : marked vs (finalizationRequest st cp).finalityProof = voters vs st cp.id := by
      apply Finset.filter_congr
      intro v member
      obtain ⟨i,index⟩ := indexOfMember (memIds.mp member)
      rw [index,Option.any_some,bit,votes v i index]
    rw [same]
    exact tally.stake
  · exact thresholdSupermajority (tally.total ▸ sound) (tally.threshold justified)
  · rw [checkpoints]
    cases found : st.checkpoints.lookup (cp.epoch - 1) with
    | some src => exact ⟨_,src,found,source src found,by simp [finalizationRequest,found]⟩
    | none => exact ⟨_,cp,held,justified,by simp [finalizationRequest,found]⟩

theorem pruneLookup (st : FinalityServiceState) {e cp} :
    st.pruneOldCheckpoints.checkpoints.lookup e = some cp → st.checkpoints.lookup e = some cp := by
  unfold pruneOldCheckpoints
  split
  · exact id
  · exact fun found => (lookupRetainSome.mp found).1

theorem pruneKeeps (st : FinalityServiceState) {e cp} (found : st.checkpoints.lookup e = some cp)
    (recent : (st.lastFinalized.map Checkpoint.epoch).getD 0 - 2 ≤ e) :
    st.pruneOldCheckpoints.checkpoints.lookup e = some cp := by
  unfold pruneOldCheckpoints
  split
  · exact found
  · exact lookupRetainSome.mpr ⟨found,decide_eq_true recent⟩

theorem checkHolds (config) {st} (keyed : EpochKeyed st) (epoch)
    (sources : SourceJustified st) {prev} (found : finalizable st = some prev) :
    (st.checkAndProcessFinalization config epoch).2.checkpoints.lookup prev.finalize.2.epoch = some prev.finalize.2 ∧
    prev.finalize.2.isJustified = true ∧
    ∀ src ∈ (st.checkAndProcessFinalization config epoch).2.checkpoints.lookup (prev.finalize.2.epoch - 1),
      src.isJustified = true := by
  obtain ⟨last,prevEpoch,justified,next,stored,just⟩ := finalizableSource found
  obtain ⟨key,at',_,done⟩ := finalizationSome found
  have same := (keyed key prev at').symm.trans (keyed prevEpoch prev stored)
  subst same
  obtain ⟨own,_,_,_,still⟩ := prev.finalizeFields
  have final := own.trans (keyed key prev stored)
  have justFinal := still.trans just
  unfold checkAndProcessFinalization
  simp only [done]
  refine ⟨?_,justFinal,?_⟩
  · apply pruneKeeps
    · rw [lookupInsert,if_pos final]
    · simp only [Option.map_some,Option.getD_some]
      omega
  · intro src present
    have before := pruneLookup _ present
    rw [lookupInsert] at before
    split at before
    · cases Option.some.inj before
      exact justFinal
    · have prior : last.epoch - 1 = key := by omega
      have earlier : last.epoch - 2 = key - 1 := by omega
      rw [final,← earlier] at before
      exact sources last justified prev (by rw [prior]; exact stored) (by omega) just src before

def newRequests (before after : Service) : List MarkFinalizedRequest := after.sent.drop before.sent.length

theorem settleConsistent {env vs} (indexed : vs.Indexed)
    (sound : Checkpoint.ThresholdExact vs.totalStake) {o : Observed} (tallied : Tallied vs o.accepted o.service.state)
    (sources : SourceJustified o.service.state) (epoch) (reply) :
    ∀ r ∈ newRequests o.service (o.act env vs (.settle epoch reply)).service,
      SelfConsistent vs (o.act env vs (.settle epoch reply)) r := by
  have keyed : EpochKeyed o.service.state := fun e cp found => (tallied.tally e cp found).epoch
  have checked := tallied.check env.config epoch
  have result := checkResult env.config o.service.state epoch
  intro r new
  cases found : finalizable o.service.state with
  | none =>
    rw [found,Option.map_none] at result
    simp [newRequests,Observed.act,Service.act,Service.settle,result] at new
  | some prev =>
    obtain ⟨held,justified,source⟩ := checkHolds env.config keyed epoch sources found
    rw [found,Option.map_some] at result
    have request : r = finalizationRequest (o.service.state.checkAndProcessFinalization env.config epoch).2
        prev.finalize.2 := by
      simpa [newRequests,Observed.act,Service.act,Service.settle,result,handleFinalizationNotification] using new
    rw [request]
    refine requestConsistent (o := o.act env vs (.settle epoch reply)) indexed sound ?_ checked held justified source
    simp only [Observed.act,Service.act,Service.settle,result,handleFinalizationNotification]
    cases reply <;> rfl

theorem actConsistent {env vs} (indexed : vs.Indexed) (sound : Checkpoint.ThresholdExact vs.totalStake) (o) (action)
    (tallied : Tallied vs o.accepted o.service.state) (provable : Provable env vs o action) :
    ∀ r ∈ newRequests o.service (o.act env vs action).service, SelfConsistent vs (o.act env vs action) r := by
  cases action with
  | attest a => simp [newRequests,Observed.act,Service.act]
  | settle epoch reply => exact settleConsistent indexed sound tallied provable epoch reply
  | collect => simp [newRequests,Observed.act,Service.act]
  | resetFromHalted =>
    have sent := (resetFields o.service).2.2
    simp [newRequests,Observed.act,Service.act,sent]

def CallProvable (env : Env) (vs : ValidatorSet) (o : Observed) (call : Call) : Prop :=
  StepRun.Along (Observed.act env vs) (Provable env vs) o (callActions o.service call)
instance (env vs o call) : Decidable (CallProvable env vs o call) := by
  unfold CallProvable; infer_instance

def CallProves (env : Env) (vs : ValidatorSet) (o : Observed) (call : Call) : Prop :=
  StepRun.Along (Observed.act env vs) (fun o action =>
    ∀ r ∈ newRequests o.service (o.act env vs action).service, SelfConsistent vs (o.act env vs action) r)
    o (callActions o.service call)

theorem finalityProofsConsistent {env : Env} {vs : ValidatorSet} (distinct : vs.DistinctIds)
    (provided : ∀ e, env.validatorSetAt e = .ok vs) (unsaturated : vs.fullStake ≤ u128Max)
    (sound : Checkpoint.ThresholdExact vs.totalStake) {calls : List Call}
    (provable : StepRun.Along (Observed.call env vs) (CallProvable env vs) Observed.new calls) :
    StepRun.Along (Observed.call env vs) (CallProves env vs) Observed.new calls := by
  have indexed := distinctIndexed distinct
  refine StepRun.alongUnder (I := fun o : Observed => Tallied vs o.accepted o.service.state)
    (fun o call tallied provable => ?_) (fun o call tallied provable => ?_) (Tallied.new vs) provable
  · rw [callObserved provided]
    exact StepRun.runKeeps (Tallied.act indexed unsaturated) tallied provable
  · exact StepRun.alongUnder (Tallied.act indexed unsaturated) (actConsistent indexed sound) tallied provable

theorem oneBlockProof :
    StepRun.Along (Observed.call openEnv fourValidators) (CallProves openEnv fourValidators) Observed.new
      (twoEpochCalls [(1,7),(2,7),(3,7)]) ∧
    (twoEpochRun [(1,7),(2,7),(3,7)]).service.sent.map (fun r => r.finalityProof.participationBitmap) = [[224]] :=
  ⟨finalityProofsConsistent fourDistinct (fun _ => rfl) (by decide +kernel) (by decide) (by decide +kernel),
    by decide +kernel⟩

def lateSourceRun : Observed :=
  StepRun.run (Observed.call openEnv fourValidators) Observed.new
    [⟨[voteFor 1 ⟨0,0⟩ ⟨1,7⟩],.ok ()⟩,quorumCall 2,quorumCall 3]

theorem mixedProofInconsistent :
    (twoEpochRun [(1,7),(2,8),(3,8)]).service.sent.map (fun r =>
      (r.finalizedEpoch,r.blockHash,r.finalityProof.participatingStake.toNat,
        weight fourValidators.stakeOf (marked fourValidators r.finalityProof))) = [(1,7,3,1)] ∧
    lateSourceRun.service.sent.map (fun r => (r.finalizedEpoch,r.finalityProof.sourceCheckpoint)) = [(2,⟨1,7,0⟩)] ∧
    lateSourceRun.service.state.checkpoints.lookup 1 = some ⟨1,7,0,.pending,1,4⟩ := by
  refine ⟨?_,?_,?_⟩ <;> decide +kernel

end QuantumChain.Finality
