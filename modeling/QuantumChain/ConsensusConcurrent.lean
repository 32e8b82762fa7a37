import QuantumChain.ConsensusService

/-! Calls of the validation that run at the same time, one lock section a step.
Whether a run avoids the race is a condition, not a result. -/
namespace QuantumChain.Consensus
open StepRun (Along)
open scoped List

inductive Stage where
  | arrived
  | unknown
  | parented
  | heighted
  | timed
  | proposed
  | proved
  | recorded
  | finished (result : ConsensusResult ValidatedBlock)

def Stage.inFlight : Stage → Bool
  | .arrived => false
  | .finished _ => false
  | _ => true

def Stage.isArrived : Stage → Bool
  | .arrived => true
  | _ => false

def Stage.after (checked : ConsensusResult Unit) (next : Stage) : Stage :=
  match checked with
  | .ok _ => next
  | .error e => .finished (.error e)

def advance (keccak : Bytes → Hash) (block : Block) (around : Surroundings) :
    ConsensusService × Stage → ConsensusService × Stage
  | (svc,.arrived) =>
    let blockHash := block.hash keccak
    (svc,if svc.chain.hasBlock blockHash then .finished (refuse (.alreadyValidated blockHash)) else .unknown)
  | (svc,.unknown) =>
    (svc,.after (do validateStructure block around.env.config; validateParent block.header svc.chain) .parented)
  | (svc,.parented) => (svc,.after (validateHeight block.header svc.chain) .heighted)
  | (svc,.heighted) => (svc,.after (validateTimestamp block.header svc.chain around.now around.env.config) .timed)
  | (svc,.timed) => (svc,.after (validateProposer around.env block.header block.proof) .proposed)
  | (svc,.proposed) => (svc,.after (validateConsensusProof around.env block.proof (block.hash keccak)) .proved)
  | (svc,.proved) => (svc.addToChain keccak block around,.recorded)
  | (svc,.recorded) => (svc.publish keccak block around,.finished (published block around))
  | (svc,.finished result) => (svc,.finished result)

section Alone
variable (keccak : Bytes → Hash) (svc : ConsensusService) (block : Block) (around : Surroundings)

theorem finishedStays (turns) (result) :
    (advance keccak block around)^[turns] (svc,.finished result) = (svc,.finished result) :=
  Function.iterate_fixed rfl turns

variable {keccak svc block around}

theorem afterThen (first) {turns} {second : ConsensusResult Unit} {next last}
    (rest : (advance keccak block around)^[turns] (svc,next) = (svc,.after second last)) :
    (advance keccak block around)^[turns] (svc,.after first next) = (svc,.after (do first; second) last) := by
  cases first with
  | ok _ => exact rest
  | error e => exact finishedStays keccak svc block around turns _

variable (keccak svc block around)

theorem checksAlone : (advance keccak block around)^[5] (svc,.unknown) =
    (svc,.after (verifyBlockLogic svc.chain block (block.hash keccak) around) .proved) := by
  -- From the last check to the first, each one is put before the checks that follow it.
  have proved : (advance keccak block around)^[1] (svc,.proposed) =
      (svc,.after (validateConsensusProof around.env block.proof (block.hash keccak)) .proved) := rfl
  have proposed : (advance keccak block around)^[2] (svc,.timed) = _ :=
    afterThen (validateProposer around.env block.header block.proof) proved
  have timed : (advance keccak block around)^[3] (svc,.heighted) = _ :=
    afterThen (validateTimestamp block.header svc.chain around.now around.env.config) proposed
  have heighted : (advance keccak block around)^[4] (svc,.parented) = _ :=
    afterThen (validateHeight block.header svc.chain) timed
  refine (afterThen _ heighted).trans ?_
  rw [bind_assoc]
  rfl

theorem validateBlockAlone : (advance keccak block around)^[8] (svc,.arrived) =
    ((validateBlock keccak svc block around).2,.finished (validateBlock keccak svc block around).1) := by
  rw [Function.iterate_succ_apply,advance,validateBlock]
  cases svc.chain.hasBlock (block.hash keccak) with
  | true => exact finishedStays keccak svc block around 7 _
  | false =>
    refine (Function.iterate_add_apply _ 2 5 _).trans ?_
    simp only [Bool.false_eq_true,if_false,checksAlone]
    cases verifyBlockLogic svc.chain block (block.hash keccak) around with
    | error e => exact finishedStays keccak svc block around 2 _
    | ok _ => rfl

end Alone

structure Call where
  block : Block
  stage : Stage

def Call.mark (keccak : Bytes → Hash) (call : Call) : List Hash :=
  if call.stage.inFlight then [call.block.hash keccak] else []

structure System where
  service : ConsensusService
  calls : List Call

inductive SystemEvent where
  | call (block : Block)
  | advance (index : Nat) (around : Surroundings)

namespace System

def start (chain : ChainState) : System := ⟨⟨chain,[]⟩,[]⟩

def step (keccak : Bytes → Hash) (s : System) : SystemEvent → System
  | .call block => {s with calls := s.calls ++ [⟨block,.arrived⟩]}
  | .advance index around =>
    match s.calls[index]? with
    | none => s
    | some call =>
      let next := Consensus.advance keccak call.block around (s.service,call.stage)
      ⟨next.1,s.calls.set index ⟨call.block,next.2⟩⟩

def publishedHashes (s : System) : List Hash := s.service.published.map BlockValidatedEvent.blockHash

def flyingHashes (keccak : Bytes → Hash) (s : System) : List Hash := s.calls.flatMap (Call.mark keccak)

def PublishedOnce (s : System) : Prop := s.publishedHashes.Nodup

def Shown (keccak : Bytes → Hash) (s : System) (h : Hash) : Prop :=
  h ∈ s.publishedHashes ++ s.flyingHashes keccak → s.service.chain.hasBlock h = true
instance (keccak s h) : Decidable (Shown keccak s h) := inferInstanceAs (Decidable (_ → _))

def Unraced (keccak : Bytes → Hash) (s : System) : SystemEvent → Prop
  | .call _ => True
  | .advance index _ =>
    (s.calls[index]?).all (fun call => !call.stage.isArrived || decide (s.Shown keccak (call.block.hash keccak))) = true

instance decideUnraced (keccak : Bytes → Hash) (s : System) : (e : SystemEvent) → Decidable (s.Unraced keccak e)
  | .call _ => isTrue trivial
  | .advance _ _ => inferInstanceAs (Decidable (_ = _))

end System

inductive Moved (keccak : Bytes → Hash) (svc : ConsensusService) (block : Block) (before : Stage) :
    ConsensusService → Stage → Prop where
  | entered (arrived : before = .arrived) (fresh : svc.chain.hasBlock (block.hash keccak) = false) :
      Moved keccak svc block before svc .unknown
  | went {next : ConsensusService} {after : Stage} (same : next.published = svc.published)
      (flying : after.inFlight = before.inFlight) : Moved keccak svc block before next after
  | refused {after : Stage} (landed : after.inFlight = false) : Moved keccak svc block before svc after
  | published {around : Surroundings} {after : Stage} (flying : before.inFlight = true)
      (landed : after.inFlight = false) : Moved keccak svc block before (svc.publish keccak block around) after

namespace Moved
variable {keccak : Bytes → Hash} {svc : ConsensusService} {block : Block} {before : Stage}

theorem checked (checked) {next} (flying : next.inFlight = before.inFlight) :
    Moved keccak svc block before svc (.after checked next) := by
  cases checked with
  | ok _ => exact .went rfl flying
  | error e => exact .refused rfl

theorem advance (keccak) (svc) (block) (around) (before) :
    Moved keccak svc block before (Consensus.advance keccak block around (svc,before)).1
      (Consensus.advance keccak block around (svc,before)).2 := by
  cases before with
  | arrived =>
    simp only [Consensus.advance]
    split
    · exact .refused rfl
    · rename_i fresh
      exact .entered rfl (Bool.eq_false_iff.mpr fresh)
  | unknown => exact .checked _ rfl
  | parented => exact .checked _ rfl
  | heighted => exact .checked _ rfl
  | timed => exact .checked _ rfl
  | proposed => exact .checked _ rfl
  | proved => exact .went rfl rfl
  | recorded => exact .published rfl rfl
  | finished result => exact .went rfl rfl

end Moved

namespace System
variable {keccak : Bytes → Hash} {s : System}

theorem stepAdvance (keccak) {index call} (found : s.calls[index]? = some call) (around) :
    ∃ before rest, s.calls = before ++ call::rest ∧ s.step keccak (.advance index around) =
      ⟨(advance keccak call.block around (s.service,call.stage)).1,
        before ++ ⟨call.block,(advance keccak call.block around (s.service,call.stage)).2⟩::rest⟩ := by
  obtain ⟨inside,here⟩ := getElem?_eq_some_iff.mp found
  refine ⟨s.calls.take index,s.calls.drop (index + 1),?_,?_⟩
  · rw [← here,List.getElem_cons_drop,List.take_append_drop]
  · simp only [step,found]
    rw [List.set_eq_take_append_cons_drop,if_pos inside]

/-- No hash is both published and in flight, and none is either of them twice. -/
def Single (keccak : Bytes → Hash) (s : System) : Prop := (s.publishedHashes ++ s.flyingHashes keccak).Nodup

theorem Single.once (single : Single keccak s) : s.PublishedOnce := (List.nodup_append.mp single).1

theorem nodupMoved {published before rest mark} (added mark' : List Hash)
    (single : (published ++ (before ++ (mark ++ rest))).Nodup)
    (moved : (added ++ mark').Sublist mark) : (published ++ added ++ (before ++ (mark' ++ rest))).Nodup := by
  have shuffled : published ++ added ++ (before ++ (mark' ++ rest)) ~
      published ++ (before ++ ((added ++ mark') ++ rest)) := by
    calc published ++ added ++ (before ++ (mark' ++ rest))
      _ = published ++ ((added ++ before) ++ (mark' ++ rest)) := by simp only [List.append_assoc]
      _ ~ published ++ ((before ++ added) ++ (mark' ++ rest)) :=
        List.Perm.append_left _ (List.Perm.append_right _ List.perm_append_comm)
      _ = published ++ (before ++ ((added ++ mark') ++ rest)) := by simp only [List.append_assoc]
  refine shuffled.nodup_iff.mpr (single.sublist ?_)
  exact List.Sublist.append_left (List.Sublist.append_left (List.Sublist.append_right moved rest) before) published

theorem nodupEntered {published before rest} {h : Hash} (single : (published ++ (before ++ rest)).Nodup)
    (fresh : h ∉ published ++ (before ++ rest)) : (published ++ (before ++ ([h] ++ rest))).Nodup := by
  rw [← List.append_assoc] at single fresh ⊢
  exact List.nodup_middle.mpr (List.nodup_cons.mpr ⟨fresh,single⟩)

theorem Single.step (single : Single keccak s) {e} (unraced : s.Unraced keccak e) :
    Single keccak (s.step keccak e) := by
  cases e with
  | call block => simpa [Single,System.step,publishedHashes,flyingHashes,Call.mark,Stage.inFlight] using single
  | advance index around =>
    cases found : s.calls[index]? with
    | none => simpa [System.step,found] using single
    | some call =>
      obtain ⟨before,rest,split,stepped⟩ := stepAdvance keccak found around
      have moved := Moved.advance keccak s.service call.block around call.stage
      rw [stepped]
      simp only [Single,flyingHashes,split,List.flatMap_append,List.flatMap_cons] at single ⊢
      generalize advance keccak call.block around (s.service,call.stage) = next at moved ⊢
      obtain ⟨svc,after⟩ := next
      cases moved with
      | entered arrived fresh =>
        have shown : s.Shown keccak (call.block.hash keccak) := by
          simpa [Unraced,found,arrived,Stage.isArrived] using unraced
        have absent := fun mem => Bool.false_ne_true (fresh.symm.trans (shown mem))
        have landed : call.mark keccak = [] := by simp [Call.mark,arrived,Stage.inFlight]
        simp only [flyingHashes,split,List.flatMap_append,List.flatMap_cons,landed,List.nil_append] at single absent
        exact nodupEntered single absent
      | went same flying =>
        have kept := nodupMoved [] (Call.mark keccak ⟨call.block,after⟩) single
          (by simp [Call.mark,flying])
        dsimp only at same
        simpa [publishedHashes,same] using kept
      | refused landed =>
        have kept := nodupMoved [] (Call.mark keccak ⟨call.block,after⟩) single
          (by simp [Call.mark,landed])
        simpa [publishedHashes] using kept
      | published flying landed =>
        have kept := nodupMoved [call.block.hash keccak] (Call.mark keccak ⟨call.block,after⟩) single
          (by simp [Call.mark,landed,flying])
        simpa [publishedHashes,ConsensusService.publish,BlockValidatedEvent.new,validated,Block.hash] using kept

end System

theorem publishedAtMostOnce (keccak : Bytes → Hash) (chain : ChainState) (events : List SystemEvent)
    (unraced : Along (System.step keccak) (System.Unraced keccak) (.start chain) events) :
    Along (System.step keccak) (fun s e => (s.step keccak e).PublishedOnce) (.start chain) events := by
  have fresh : System.Single keccak (.start chain) := List.nodup_nil
  exact StepRun.alongKeeps (fun _ _ single unraced => single.step unraced) (fun _ single => single.once) fresh unraced

def calmly : Surroundings := ⟨trustingEnv (members 1),2000,.upwards,2000,.ok ()⟩

def attestedGenesis : Block := ⟨linked 0 0 1,[],.poS (posProofBy [1] 1)⟩

def racedEvents : List SystemEvent :=
  [.call attestedGenesis,.call attestedGenesis] ++ List.replicate 3 (.advance 0 calmly) ++
    List.replicate 8 (.advance 1 calmly) ++
    List.replicate 5 (.advance 0 calmly)

theorem racedTwice :
    (StepRun.run (System.step gasDigest) (.start .new) racedEvents).publishedHashes = [1,1] := by decide +kernel

def servedEvents : List SystemEvent :=
  [.call attestedGenesis,.call attestedGenesis] ++ List.replicate 8 (.advance 0 calmly) ++
    List.replicate 8 (.advance 1 calmly)

theorem servedOnce : (StepRun.run (System.step gasDigest) (.start .new) servedEvents).publishedHashes = [1] ∧
    Along (System.step gasDigest) (fun s e => (s.step gasDigest e).PublishedOnce) (.start .new) servedEvents :=
  ⟨by decide +kernel,publishedAtMostOnce gasDigest .new servedEvents (by decide +kernel)⟩

end QuantumChain.Consensus
