import QuantumChain.FinalityProgress

/-! Which conflicting votes are caught.
Only votes that reach one service are compared. -/
namespace QuantumChain.Finality
open FinalityServiceState Attestation StepRun
open List

theorem conflictsSymm {a b : Attestation} (conflict : a.conflictsWith b = true) : b.conflictsWith a = true := by
  unfold conflictsWith at *
  grind

theorem conflictsSelf (a : Attestation) : a.conflictsWith a = false := by
  simp [conflictsWith]

theorem conflictsVoter {a b : Attestation} (conflict : a.conflictsWith b = true) : a.validatorId = b.validatorId := by
  unfold conflictsWith at conflict
  split at conflict
  · contradiction
  · rename_i same
    exact not_not.mp same

def genuine (env : Env) (vs : ValidatorSet) (a : Attestation) : Bool :=
  vs.contains a.validatorId && (!env.config.alwaysReverifySignatures || env.verifyAttestation a)

def lastRecorded (recorded : List Attestation) (v : ValidatorId) : List Attestation :=
  let own := recorded.filter (fun a => decide (a.validatorId = v))
  own.drop (own.length - maxHistory)

theorem popFullDrops (history) : popFull history = history.drop (history.length - 63) := by
  induction history with
  | nil => rfl
  | cons first rest ih =>
    unfold popFull maxHistory
    split
    · rename_i full
      rw [ih,length_cons,show rest.length + 1 - 63 = (rest.length - 63) + 1 by
        simp only [length_cons] at full; omega]
      rfl
    · rename_i short
      rw [show (first::rest).length - 63 = 0 by omega]
      rfl

theorem windowSnoc {α : Type} (n) (log) (a : α) : (log ++ [a]).drop ((log ++ [a]).length - (n+1)) =
      (log.drop (log.length - (n+1))).drop ((log.drop (log.length - (n+1))).length - n) ++ [a] := by
  rw [drop_drop,length_drop,length_append,length_singleton,
    drop_append_of_le_length (by omega)]
  congr 2
  omega

theorem lastRecordedOwn (recorded) (a : Attestation) :
    lastRecorded (recorded ++ [a]) a.validatorId = popFull (lastRecorded recorded a.validatorId) ++ [a] := by
  have own : (recorded ++ [a]).filter (fun b => decide (b.validatorId = a.validatorId)) =
      recorded.filter (fun b => decide (b.validatorId = a.validatorId)) ++ [a] := by simp
  unfold lastRecorded
  rw [popFullDrops,own]
  exact windowSnoc 63 _ a

theorem lastRecordedOther (recorded) {a : Attestation} {v} (other : v ≠ a.validatorId) :
    lastRecorded (recorded ++ [a]) v = lastRecorded recorded v := by
  unfold lastRecorded
  rw [filter_append,filter_singleton,decide_eq_false (fun same => other same.symm)]
  simp

theorem applyRecords (st : FinalityServiceState) (a) {vs i} (stake) (index : vs.getIndex a.validatorId = some i) :
    (st.applyAttestation a vs stake).2.attestationHistory = (st.recordAttestation a).attestationHistory ∧
    (st.applyAttestation a vs stake).2.slashableOffenses = st.slashableOffenses := by
  have opened : (openTarget vs st a).2.attestationHistory = (st.recordAttestation a).attestationHistory ∧
      (openTarget vs st a).2.slashableOffenses = st.slashableOffenses := by
    simp only [openTarget,getOrCreateAggregate,getOrCreateCheckpoint]
    split <;> split <;> exact ⟨rfl,rfl⟩
  rw [applyCases st stake index]
  split
  · exact opened
  · rw [← opened.1,← opened.2]
    simp only [countStake]
    split
    · split <;> exact ⟨rfl,rfl⟩
    · exact ⟨rfl,rfl⟩

inductive Handled (env : Env) (vs : ValidatorSet) (st : FinalityServiceState) (a : Attestation) :
    Except Unit (Option Checkpoint) × FinalityServiceState → Prop where
  | ignored {next} (stranger : genuine env vs a = false) (history : next.attestationHistory = st.attestationHistory)
      (offenses : next.slashableOffenses = st.slashableOffenses) : Handled env vs st a (.error (),next)
  | caught {next prev} (valid : genuine env vs a = true) (conflict : st.conflicting a = some prev)
      (history : next.attestationHistory = st.attestationHistory)
      (offenses : ∃ offense, offense.validatorId = a.validatorId ∧
        next.slashableOffenses = st.slashableOffenses ++ [offense]) : Handled env vs st a (.error (),next)
  | recorded {result next} (valid : genuine env vs a = true) (clean : st.conflicting a = none)
      (history : next.attestationHistory = (st.recordAttestation a).attestationHistory)
      (offenses : next.slashableOffenses = st.slashableOffenses) : Handled env vs st a (result,next)

theorem singleStranger {env vs a} (stranger : genuine env vs a = false)
    (st) : ∃ e, processSingleAttestation env vs st a = (.error e,st) := by
  unfold processSingleAttestation
  split
  · exact ⟨_,rfl⟩
  · rename_i known
    have forged : (env.config.alwaysReverifySignatures && !env.verifyAttestation a) = true := by
      simpa [genuine,known] using stranger
    rw [if_pos forged]
    exact ⟨_,rfl⟩

theorem singleGenuine {env vs a} (valid : genuine env vs a = true) (st) : processSingleAttestation env vs st a =
      match st.checkSlashableConditions a with
      | (.error e,marked) => (.error e,marked)
      | (.ok _,clean) =>
        match vs.getStake a.validatorId with
        | none => (.error (.unknownValidator a.validatorId),clean)
        | some stake => (.ok (some stake),clean) := by
  rw [genuine,Bool.and_eq_true] at valid
  have signed : ¬ (env.config.alwaysReverifySignatures && !env.verifyAttestation a) = true := by
    obtain ⟨_,either⟩ := valid
    revert either
    cases env.config.alwaysReverifySignatures <;> cases env.verifyAttestation a <;> decide
  have member : ¬ vs.contains a.validatorId = false := by
    rw [valid.1]
    decide
  unfold processSingleAttestation
  exact (if_neg member).trans (if_neg signed)

theorem updateHandled (env) (vs) (st) (a) : Handled env vs st a (processAttestationUpdate env vs st a) := by
  unfold processAttestationUpdate
  cases valid : genuine env vs a with
  | false =>
    obtain ⟨e,refused⟩ := singleStranger valid st
    rw [refused]
    exact .ignored valid rfl rfl
  | true =>
    have member := (Bool.and_eq_true _ _ ▸ valid : _ ∧ _).1
    obtain ⟨stake,own,_⟩ := ValidatorSet.stakeOfMember member
    obtain ⟨i,index⟩ := ValidatorSet.indexOfMember member
    rw [singleGenuine valid,checkSlashableConditions]
    cases conflict : st.conflicting a with
    | some prev => exact .caught valid conflict rfl ⟨_,rfl,rfl⟩
    | none =>
      obtain ⟨history,offenses⟩ := applyRecords st a stake index
      simp only [own]
      generalize st.applyAttestation a vs stake = out at history offenses
      obtain ⟨⟨accepted,justified⟩,next⟩ := out
      cases accepted <;> exact .recorded valid conflict history offenses

structure Watched where
  service : Service
  submitted : List Attestation
  recorded : List Attestation
  counted : List Attestation
  deriving DecidableEq

namespace Watched

def new : Watched := ⟨Service.new,[],[],[]⟩

def perform (env : Env) (w : Watched) (entry : ValidatorSet × Action) : Watched :=
  let service := w.service.perform env entry
  match entry.2 with
  | .attest a =>
    { service := service
      submitted := if genuine env entry.1 a then w.submitted ++ [a] else w.submitted
      recorded := if genuine env entry.1 a && (w.service.state.conflicting a).isNone then w.recorded ++ [a] else w.recorded
      counted := logged w.counted a (processAttestationUpdate env entry.1 w.service.state a).1 }
  | _ => {w with service := service}

def call (env : Env) (w : Watched) (call : Call) : Watched :=
  {StepRun.run (perform env) w (callEntries env w.service call) with service := w.service.call env call}

theorem serviceOfRun (env) (w) (entries) :
    (StepRun.run (perform env) w entries).service = StepRun.run (Service.perform env) w.service entries := by
  induction entries generalizing w with
  | nil => rfl
  | cons entry rest ih =>
    rw [runCons,runCons,ih]
    congr 1
    unfold perform
    dsimp only
    split <;> rfl

theorem callPerforms (env) (w) (call) :
    w.call env call = StepRun.run (perform env) w (callEntries env w.service call) := by
  unfold Watched.call
  rw [callPerformed,← serviceOfRun]

end Watched

def Slashed (w : Watched) : Prop :=
  ∀ a ∈ w.submitted, ∀ b ∈ w.submitted, a.conflictsWith b = true →
    ¬ (a ∈ w.counted ∧ b ∈ w.counted) ∧ ∃ offense ∈ w.service.state.slashableOffenses, offense.validatorId = a.validatorId

def Remembers (env : Env) (w : Watched) (entry : ValidatorSet × Action) : Prop :=
  match entry.2 with
  | .attest a => genuine env entry.1 a = true → ∀ prev ∈ w.recorded, a.conflictsWith prev = true →
      prev ∈ lastRecorded w.recorded a.validatorId
  | _ => True
instance (env w) : (entry : ValidatorSet × Action) → Decidable (Remembers env w entry)
  | (vs,.attest a) => inferInstanceAs (Decidable (genuine env vs a = true → ∀ prev ∈ w.recorded,
      a.conflictsWith prev = true → prev ∈ lastRecorded w.recorded a.validatorId))
  | (_,.settle _ _) => isTrue trivial
  | (_,.collect) => isTrue trivial
  | (_,.resetFromHalted) => isTrue trivial

structure Consistent (w : Watched) : Prop where
  history : ∀ v, (w.service.state.attestationHistory.lookup v).getD [] = lastRecorded w.recorded v
  counted : ∀ a ∈ w.counted, a ∈ w.recorded
  apart : ∀ a ∈ w.recorded, ∀ b ∈ w.recorded, a.conflictsWith b = false
  named : ∀ a ∈ w.submitted, a ∈ w.recorded ∨
    ∃ offense ∈ w.service.state.slashableOffenses, offense.validatorId = a.validatorId

namespace Consistent

theorem new : Consistent .new := by
  refine ⟨fun v => ?_,?_,?_,?_⟩
  · simp [Watched.new,Service.new,FinalityServiceState.new,lastRecorded]
  all_goals simp [Watched.new]

theorem slashed {w} (consistent : Consistent w) : Slashed w := by
  intro a inA b inB conflict
  have both : ¬ (a ∈ w.recorded ∧ b ∈ w.recorded) := by
    rintro ⟨recordedA,recordedB⟩
    rw [consistent.apart a recordedA b recordedB] at conflict
    contradiction
  refine ⟨fun counted => both ⟨consistent.counted a counted.1,consistent.counted b counted.2⟩,?_⟩
  rcases consistent.named a inA with recordedA | named
  · rcases consistent.named b inB with recordedB | named
    · exact absurd ⟨recordedA,recordedB⟩ both
    · rw [conflictsVoter conflict]
      exact named
  · exact named

theorem history' {w} (consistent : Consistent w) (a) (v) :
    ((w.service.state.recordAttestation a).attestationHistory.lookup v).getD [] = lastRecorded (w.recorded ++ [a]) v := by
  simp only [recordAttestation,KeyedMap.lookupInsert]
  split
  · rename_i own
    rw [own,lastRecordedOwn,← consistent.history]
    rfl
  · rename_i other
    rw [lastRecordedOther _ other]
    exact consistent.history v

theorem unconflicted {env vs w} (consistent : Consistent w) {a}
    (valid : genuine env vs a = true) (clean : w.service.state.conflicting a = none)
    (remembers : Remembers env w (vs,.attest a)) : ∀ prev ∈ w.recorded, a.conflictsWith prev = false := by
  intro prev present
  cases conflict : a.conflictsWith prev with
  | false => rfl
  | true =>
    have inside := remembers valid prev present conflict
    rw [← consistent.history] at inside
    have missed := find?_eq_none.mp clean prev inside
    rw [conflict] at missed
    contradiction

theorem apartSnoc {w} (consistent : Consistent w) {a : Attestation}
    (fresh : ∀ prev ∈ w.recorded, a.conflictsWith prev = false) :
    ∀ b ∈ w.recorded ++ [a], ∀ c ∈ w.recorded ++ [a], b.conflictsWith c = false := by
  intro b recordedB c recordedC
  rcases mem_append.mp recordedB with oldB | newB <;> rcases mem_append.mp recordedC with oldC | newC
  · exact consistent.apart b oldB c oldC
  · cases mem_singleton.mp newC
    cases conflict : b.conflictsWith a with
    | false => rfl
    | true =>
      rw [← fresh b oldB]
      exact (conflictsSymm conflict).symm
  · cases mem_singleton.mp newB
    exact fresh c oldC
  · cases mem_singleton.mp newB
    cases mem_singleton.mp newC
    exact conflictsSelf a

theorem attest {env vs w} (consistent : Consistent w) {a}
    (remembers : Remembers env w (vs,.attest a)) : Consistent (w.perform env (vs,.attest a)) := by
  have handled := updateHandled env vs w.service.state a
  simp only [Watched.perform,Service.perform,Service.act]
  generalize processAttestationUpdate env vs w.service.state a = out at handled
  cases handled with
  | ignored stranger history offenses =>
    simp only [stranger,Bool.false_and,Bool.false_eq_true,if_false,logged]
    refine ⟨fun v => ?_,consistent.counted,consistent.apart,?_⟩
    · rw [history]
      exact consistent.history v
    · rw [offenses]
      exact consistent.named
  | caught valid conflict history offenses =>
    obtain ⟨offense,names,offenses⟩ := offenses
    simp only [valid,conflict,Option.isNone_some,Bool.and_false,Bool.false_eq_true,if_false,if_true,logged]
    refine ⟨fun v => ?_,consistent.counted,consistent.apart,fun b submitted => ?_⟩
    · rw [history]
      exact consistent.history v
    · rw [offenses]
      rcases mem_append.mp submitted with before | last
      · rcases consistent.named b before with kept | ⟨old,present,own⟩
        · exact .inl kept
        · exact .inr ⟨old,mem_append_left _ present,own⟩
      · cases mem_singleton.mp last
        exact .inr ⟨offense,mem_append_right _ (mem_singleton.mpr rfl),names⟩
  | @recorded result next valid clean history offenses =>
    simp only [valid,clean,Option.isNone_none,Bool.and_true,if_true]
    -- No conflict is found in the window, and no recorded conflict is outside of it.
    have fresh := consistent.unconflicted valid clean remembers
    refine ⟨fun v => ?_,fun b counted => ?_,consistent.apartSnoc fresh,fun b submitted => ?_⟩
    · rw [history]
      exact consistent.history' a v
    · cases result with
      | error _ => exact mem_append_left _ (consistent.counted b counted)
      | ok _ =>
        rcases mem_append.mp counted with before | last
        · exact mem_append_left _ (consistent.counted b before)
        · exact mem_append_right _ last
    · rw [offenses]
      rcases mem_append.mp submitted with before | last
      · rcases consistent.named b before with kept | named
        · exact .inl (mem_append_left _ kept)
        · exact .inr named
      · exact .inl (mem_append_right _ last)

theorem framed {w next} (consistent : Consistent w)
    (history : next.service.state.attestationHistory = w.service.state.attestationHistory)
    (offenses : next.service.state.slashableOffenses = w.service.state.slashableOffenses)
    (submitted : next.submitted = w.submitted) (recorded : next.recorded = w.recorded)
    (counted : next.counted = w.counted) : Consistent next := by
  obtain ⟨past,votes,apart,named⟩ := consistent
  rw [← history,← recorded] at past
  rw [← counted,← recorded] at votes
  rw [← recorded] at apart
  rw [← submitted,← recorded,← offenses] at named
  exact ⟨past,votes,apart,named⟩

end Consistent

theorem settleRecords (env) (svc : Service) (epoch) (reply) :
    (svc.settle env epoch reply).state.attestationHistory = svc.state.attestationHistory ∧
    (svc.settle env epoch reply).state.slashableOffenses = svc.state.slashableOffenses := by
  have checked : (svc.state.checkAndProcessFinalization env.config epoch).2.attestationHistory =
      svc.state.attestationHistory ∧
      (svc.state.checkAndProcessFinalization env.config epoch).2.slashableOffenses = svc.state.slashableOffenses := by
    rcases checkCases env.config svc.state epoch with ⟨moved,_,done,beside⟩ | ⟨cp,settled,found,done,beside⟩
    · rw [done]
      exact ⟨beside.attestationHistory,beside.slashableOffenses⟩
    · obtain ⟨prevEpoch,_,_,reached⟩ := finalizationSome found
      rw [reached] at beside
      rw [done,pruneOldCheckpoints]
      split <;> exact ⟨beside.attestationHistory,beside.slashableOffenses⟩
  unfold Service.settle
  dsimp only
  split
  · cases reply <;> exact checked
  · exact checked

theorem performConsistent (env) (w) (entry) (consistent : Consistent w)
    (remembers : Remembers env w entry) : Consistent (w.perform env entry) := by
  obtain ⟨vs,action⟩ := entry
  cases action with
  | attest a => exact consistent.attest remembers
  | settle epoch reply =>
    obtain ⟨history,offenses⟩ := settleRecords env w.service epoch reply
    exact consistent.framed history offenses rfl rfl rfl
  | collect => exact consistent.framed rfl rfl rfl rfl rfl
  | resetFromHalted =>
    have same : (resetFromHalted w.service).state.attestationHistory = w.service.state.attestationHistory ∧
        (resetFromHalted w.service).state.slashableOffenses = w.service.state.slashableOffenses := by
      unfold resetFromHalted
      split <;> exact ⟨rfl,rfl⟩
    exact consistent.framed same.1 same.2 rfl rfl rfl

def CallRemembers (env : Env) (w : Watched) (call : Call) : Prop :=
  StepRun.Along (Watched.perform env) (Remembers env) w (callEntries env w.service call)
instance (env w call) : Decidable (CallRemembers env w call) := by
  unfold CallRemembers; infer_instance

def CallSlashed (env : Env) (w : Watched) (call : Call) : Prop :=
  StepRun.Along (Watched.perform env) (fun w entry => Slashed (w.perform env entry)) w (callEntries env w.service call)

theorem conflictsSlashed (env : Env) {calls : List Call}
    (remembers : StepRun.Along (Watched.call env) (CallRemembers env) Watched.new calls) :
    StepRun.Along (Watched.call env) (CallSlashed env) Watched.new calls := by
  refine alongUnder (I := Consistent) (fun w call consistent remembers => ?_)
    (fun w call consistent remembers => ?_) Consistent.new remembers
  · rw [w.callPerforms env call]
    exact runKeeps (performConsistent env) consistent remembers
  · exact alongKeeps (performConsistent env) (fun w consistent => consistent.slashed) consistent remembers

def manyVotesBetween (count : Nat) : List Call :=
  [⟨[voteFor 1 ⟨0,0⟩ ⟨1,7⟩],.ok ()⟩,⟨List.replicate count (voteFor 1 ⟨0,0⟩ ⟨2,9⟩),.ok ()⟩,
    ⟨[voteFor 1 ⟨0,0⟩ ⟨1,8⟩],.ok ()⟩]

theorem doubleVoteMissed : (voteFor 1 ⟨0,0⟩ ⟨1,7⟩).conflictsWith (voteFor 1 ⟨0,0⟩ ⟨1,8⟩) = true ∧
    voteFor 1 ⟨0,0⟩ ⟨1,7⟩ ∈ (StepRun.run (Watched.call openEnv) Watched.new (manyVotesBetween 64)).counted ∧
    voteFor 1 ⟨0,0⟩ ⟨1,8⟩ ∈ (StepRun.run (Watched.call openEnv) Watched.new (manyVotesBetween 64)).counted ∧
    (StepRun.run (Watched.call openEnv) Watched.new (manyVotesBetween 64)).service.state.slashableOffenses = [] := by
  refine ⟨?_,?_,?_,?_⟩ <;> decide +kernel

theorem doubleVoteCaught :
    StepRun.Along (Watched.call openEnv) (CallSlashed openEnv) Watched.new (manyVotesBetween 63) ∧
    (StepRun.run (Watched.call openEnv) Watched.new (manyVotesBetween 63)).service.state.slashableOffenses.length = 1 :=
  ⟨conflictsSlashed openEnv (by decide +kernel),by decide +kernel⟩

end QuantumChain.Finality
