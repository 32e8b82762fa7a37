import Mathlib.Data.Fintype.Basic
import QuantumChain.PropagationRuns

/-! Blocks handled at the same time, one lock section a step.
Fairness is not assumed: a call may stop anywhere. -/
namespace QuantumChain.Propagation
open List Function KeyedMap
open StepRun BlockPropagationService

inductive Kind where
  | compact
  | full
  deriving DecidableEq

structure Request where
  kind : Kind
  peerId : Hash
  data : Bytes

inductive Stage where
  | arrived
  | known (peer : PeerPropagationState)
  | passed (hash : Hash)
  | recorded (hash : Hash)
  | seen (hash : Hash)
  | received (hash : Hash)
  | completed (hash : Hash) (data : Bytes)
  | finished (result : Except PropagationError Unit)

def Stage.hash : Stage → Option Hash
  | .passed hash => some hash
  | .recorded hash => some hash
  | .seen hash => some hash
  | .received hash => some hash
  | .completed hash _ => some hash
  | _ => none

def Stage.marked : Stage → Option Hash
  | .seen hash => some hash
  | .received hash => some hash
  | .completed hash _ => some hash
  | _ => none

def Stage.fresh : Stage → Option Hash
  | .passed hash => some hash
  | _ => none

def afterCheck (hash : Hash) : Except PropagationError (Option Bytes) × BlockPropagationService →
    BlockPropagationService × Stage
  | (.error e,s) => (s,.finished (.error e))
  | (.ok none,s) => (s,.finished (.ok ()))
  | (.ok (some data),s) => (s.updateState hash .complete,.completed hash data)

def advance (r : Request) (outside : Gateways) : BlockPropagationService × Stage → BlockPropagationService × Stage
  | (s,.arrived) =>
    match s.validateSender r.peerId with
    | .error e => (s,.finished (.error e))
    | .ok peer => (s,.known peer)
  | (s,.known peer) =>
    match s.validateBlockPreliminaries r.data peer with
    | .error e => (s,.finished (.error e))
    | .ok hash => (s,.passed hash)
  | (s,.passed hash) => (s.recordAnnouncement r.peerId outside.now,.recorded hash)
  | (s,.recorded hash) => (s.markSeen hash,.seen hash)
  | (s,.seen hash) =>
    match r.kind with
    | .compact => (s.updateState hash .compactReceived,.received hash)
    | .full => afterCheck hash (s.verifyFullBlock hash r.data outside)
  | (s,.received hash) => afterCheck hash (s.reconstructAndVerify hash r.data outside)
  | (s,.completed hash data) =>
    let (result,s) := s.submit hash data r.peerId outside.submitBlockForValidation
    (s,.finished result)
  | (s,.finished result) => (s,.finished result)

def Request.handle (r : Request) (s : BlockPropagationService) (outside : Gateways) :
    Except PropagationError Unit × BlockPropagationService :=
  match r.kind with
  | .compact => s.handleCompactBlock r.peerId r.data outside
  | .full => s.handleFullBlock r.peerId r.data outside

section Alone
variable (r : Request) (outside : Gateways)

theorem finishedStays (turns) (s) (result) : (advance r outside)^[turns] (s,.finished result) = (s,.finished result) :=
  iterate_fixed rfl turns

theorem checkedAlone (turns) (hash) (checked) : (advance r outside)^[turns + 1] (afterCheck hash checked) =
      let out := andThen checked fun found s => s.completeAndSubmit hash r.peerId outside found
      (out.2,.finished out.1) := by
  obtain ⟨result,s⟩ := checked
  cases result with
  | error e => exact finishedStays r outside (turns + 1) s (.error e)
  | ok found =>
    cases found with
    | none => exact finishedStays r outside (turns + 1) s (.ok ())
    | some data =>
      rw [iterate_succ_apply]
      exact finishedStays r outside turns _ _

theorem requestAlone (s) :
    (advance r outside)^[7] (s,.arrived) = ((r.handle s outside).2,.finished (r.handle s outside).1) := by
  obtain ⟨kind,p,data⟩ := r
  rw [iterate_succ_apply,advance]
  cases known : s.validateSender p with
  | error e =>
    refine (finishedStays _ outside 6 s _).trans ?_
    cases kind <;>
      simp only [Request.handle,handleCompactBlock,validateAndRegisterCompactBlock,handleFullBlock,known,andThenError]
  | ok peer =>
    dsimp only
    rw [iterate_succ_apply,advance]
    cases fresh : s.validateBlockPreliminaries data peer with
    | error e =>
      refine (finishedStays _ outside 5 s _).trans ?_
      cases kind <;>
        simp only [Request.handle,handleCompactBlock,validateAndRegisterCompactBlock,handleFullBlock,known,fresh,andThenError]
    | ok hash =>
      cases kind with
      | compact =>
        simp only [Request.handle,handleCompactBlock,validateAndRegisterCompactBlock,known,fresh,andThenOk]
        exact checkedAlone ⟨.compact,p,data⟩ outside 0 hash _
      | full =>
        simp only [Request.handle,handleFullBlock,known,fresh]
        exact checkedAlone ⟨.full,p,data⟩ outside 1 hash _

end Alone

structure Touched (hash : Hash) (c c' : SeenBlockCache) : Prop where
  size : c'.maxSize = c.maxSize
  apart : ∀ k, k ≠ hash → c'.getState k = c.getState k
  kept : c.hasSeen hash → c'.hasSeen hash

def acceptedHashes (s : BlockPropagationService) : List Hash :=
    (s.submissions.filter Submission.accepted).map Submission.blockHash

inductive Moved (s : BlockPropagationService) (data : Bytes) (before : Stage) : BlockPropagationService → Stage → Prop where
  | idle {s' : BlockPropagationService} {after : Stage} (cache : s'.seenCache = s.seenCache)
      (log : acceptedHashes s' = acceptedHashes s) (free : after.hash = none) : Moved s data before s' after
  | passed {hash : Hash} (free : before.hash = none) (named : hashOf data = hash)
      (fresh : invariantNoDuplicateProcessing s.seenCache hash = true) : Moved s data before s (.passed hash)
  | within {hash : Hash} {s' : BlockPropagationService} {after : Stage} (held : before.hash = some hash)
      (holds : after.hash = some hash) (touched : Touched hash s.seenCache s'.seenCache)
      (log : acceptedHashes s' = acceptedHashes s) (marked : after.marked = some hash → s'.seenCache.hasSeen hash)
      (completed : ∀ block, after = .completed hash block → s'.seenCache.getState hash = some .complete) :
        Moved s data before s' after
  | left {hash : Hash} {s' : BlockPropagationService} {after : Stage} (held : before.hash = some hash)
      (touched : Touched hash s.seenCache s'.seenCache) (log : acceptedHashes s' = acceptedHashes s)
      (free : after.hash = none) : Moved s data before s' after
  | submitted {hash : Hash} {block : Bytes} {s' : BlockPropagationService} {after : Stage}
      (held : before = .completed hash block)
      (cache : s'.seenCache = s.seenCache) (log : acceptedHashes s' = acceptedHashes s ++ [hash])
      (free : after.hash = none) : Moved s data before s' after

section Access
variable {s : BlockPropagationService} {hash : Hash}

theorem touchedSelf (hash) (c) : Touched hash c c := ⟨rfl,fun _ _ => rfl,id⟩

theorem updateTouched (hash) (c) (state) : Touched hash c (c.updateState hash state) := by
  refine ⟨?_,fun k other => ?_,fun seen => ?_⟩
  · unfold SeenBlockCache.updateState
    split <;> rfl
  · rw [updatedState,if_neg other]
  · have after := updatedState c hash hash state
    rw [if_pos rfl] at after
    change ((c.updateState hash state).getState hash).isSome = true
    rw [after,Option.isSome_map]
    exact seen

theorem updateSeen {c : SeenBlockCache} (seen : c.hasSeen hash) (state) :
    (c.updateState hash state).getState hash = some state := by
  obtain ⟨old,found⟩ := Option.isSome_iff_exists.mp seen
  have after := updatedState c hash hash state
  rw [if_pos rfl] at after
  rw [after]
  change (c.cache.lookup hash).map _ = _
  rw [found]
  rfl

theorem markTouched {c} (room : KeyedMap.size c.cache < c.maxSize) (hash) :
    Touched hash c (c.markSeen hash) ∧ (c.markSeen hash).hasSeen hash := by
  have stays : c.evicted hash = c := by
    unfold SeenBlockCache.evicted
    exact if_neg fun full => absurd full.1 (not_le.mpr room)
  unfold SeenBlockCache.markSeen
  rw [stays]
  by_cases seen : c.hasSeen hash = true
  · dsimp only
    rw [if_pos seen]
    exact ⟨touchedSelf hash c,seen⟩
  · dsimp only
    rw [if_neg seen]
    have here : (c.cache.insert hash .announced).lookup hash = some .announced := by rw [lookupInsert,if_pos rfl]
    refine ⟨⟨rfl,fun k other => ?_,fun seen' => absurd seen' seen⟩,?_⟩
    · change (c.cache.insert hash .announced).lookup k = c.cache.lookup k
      rw [lookupInsert,if_neg other]
    · change ((c.cache.insert hash .announced).lookup hash).isSome = true
      rw [here]
      rfl

theorem acceptedSubmit (s) (hash) (data) (peer) (answer : Except PropagationError Unit) :
    acceptedHashes (s.submit hash data peer answer).2 = acceptedHashes s ++
      (if answer matches .ok _ then [hash] else []) := by
  unfold submit acceptedHashes
  rw [filter_append,map_append]
  cases answer <;> rfl

theorem checkMoved (data) {before checked} (held : before.hash = some hash) (seen : s.seenCache.hasSeen hash)
    (effect : checked.2 = s ∨ ∃ state, checked.2 = s.updateState hash state) :
    Moved s data before (afterCheck hash checked).1 (afterCheck hash checked).2 := by
  obtain ⟨result,s'⟩ := checked
  have touched : Touched hash s.seenCache s'.seenCache := by
    rcases effect with rfl | ⟨state,rfl⟩
    · exact touchedSelf hash s'.seenCache
    · exact updateTouched hash s.seenCache state
  have log : acceptedHashes s' = acceptedHashes s := by
    rcases effect with rfl | ⟨state,rfl⟩ <;> rfl
  cases result with
  | error e => exact .left held touched log rfl
  | ok found =>
    cases found with
    | none => exact .left held touched log rfl
    | some block =>
      have again := updateTouched hash s'.seenCache .complete
      refine .within held rfl ⟨again.size.trans touched.size,?_,fun seen => again.kept (touched.kept seen)⟩ log ?_ ?_
      · exact fun k other => (again.apart k other).trans (touched.apart k other)
      · exact fun _ => again.kept (touched.kept seen)
      · exact fun _ _ => updateSeen (touched.kept seen) .complete

theorem verifyEffect (data) (outside) : (s.verifyFullBlock hash data outside).2 = s ∨
    ∃ state, (s.verifyFullBlock hash data outside).2 = s.updateState hash state := by
  unfold verifyFullBlock
  split
  · exact .inl rfl
  · split
    · exact .inl rfl
    · exact .inr ⟨_,rfl⟩
    · exact .inl rfl

theorem reconstructEffect (data) (outside) : (s.reconstructAndVerify hash data outside).2 = s ∨
    ∃ state, (s.reconstructAndVerify hash data outside).2 = s.updateState hash state := by
  unfold reconstructAndVerify
  split
  · exact .inl rfl
  · split
    · exact .inr ⟨_,rfl⟩
    · split
      · exact .inl rfl
      · exact .inr ⟨_,rfl⟩
      · exact .inl rfl

theorem preliminariesOk {data peer} (ok : s.validateBlockPreliminaries data peer = .ok hash) :
    hashOf data = hash ∧ invariantNoDuplicateProcessing s.seenCache hash = true := by
  unfold validateBlockPreliminaries at ok
  split at ok
  · cases ok
  · split at ok
    · cases ok
    · rename_i named
      unfold extractBlockHash at named
      split at named
      · cases named
      · cases named
        split at ok
        · rename_i checked
          cases ok
          refine ⟨rfl,?_⟩
          unfold checkAllInvariants at checked
          split at checked
          · cases checked
          · rename_i fresh
            simpa using fresh
        · cases ok
        · cases ok
        · cases ok

theorem advanceMoved (r) (outside) {before} (room : KeyedMap.size s.seenCache.cache < s.seenCache.maxSize)
    (marked : ∀ hash, before.marked = some hash → s.seenCache.hasSeen hash) :
    Moved s r.data before (advance r outside (s,before)).1 (advance r outside (s,before)).2 := by
  cases before with
  | arrived =>
    dsimp only [advance]
    split
    · exact .idle rfl rfl rfl
    · exact .idle rfl rfl rfl
  | known peer =>
    dsimp only [advance]
    split
    · exact .idle rfl rfl rfl
    · rename_i hash ok
      exact .passed rfl (preliminariesOk ok).1 (preliminariesOk ok).2
  | passed hash => exact .within rfl rfl (touchedSelf hash _) rfl (fun none' => by cases none') fun _ none' => by cases none'
  | recorded hash =>
    obtain ⟨touched,seen⟩ := markTouched room hash
    exact .within rfl rfl touched rfl (fun _ => seen) fun _ none' => by cases none'
  | seen hash =>
    obtain ⟨kind,p,data⟩ := r
    cases kind with
    | compact =>
      have touched := updateTouched hash s.seenCache .compactReceived
      exact .within rfl rfl touched rfl (fun _ => touched.kept (marked hash rfl)) fun _ none' => by cases none'
    | full => exact checkMoved data rfl (marked hash rfl) (verifyEffect data outside)
  | received hash => exact checkMoved r.data rfl (marked hash rfl) (reconstructEffect r.data outside)
  | completed hash data =>
    have log := acceptedSubmit s hash data r.peerId outside.submitBlockForValidation
    dsimp only [advance]
    cases given : outside.submitBlockForValidation with
    | ok u =>
      rw [given] at log
      exact .submitted rfl rfl log rfl
    | error e =>
      rw [given] at log
      exact .idle rfl (log.trans (append_nil _)) rfl
  | finished result => exact .idle rfl rfl rfl

end Access

variable {n : Nat}

structure System (n : Nat) where
  service : BlockPropagationService
  stages : Fin n → Stage

def started (config : PropagationConfig) (peers : List PeerPropagationState) : System n :=
  ⟨{BlockPropagationService.new config with peerStates := peers},fun _ => .arrived⟩

def turn (requests : Fin n → Request) (s : System n) (e : Fin n × Gateways) : System n :=
  let next := advance (requests e.1) e.2 (s.service,s.stages e.1)
  ⟨next.1,Function.update s.stages e.1 next.2⟩

def AcceptedOnce (s : System n) : Prop := (acceptedHashes s.service).Nodup

/-- When a call passes its look at a hash, no call with that hash is on its way. -/
def Unraced (requests : Fin n → Request) (s : System n) (e : Fin n × Gateways) : Prop :=
  ∀ hash ∈ ((turn requests s e).stages e.1).fresh, ∀ i, (s.stages i).hash ≠ some hash

def handledHashes (requests : Fin n → Request) : Finset Hash := Finset.univ.image fun i => hashOf (requests i).data

structure Orderly (requests : Fin n → Request) (size : Nat) (s : System n) : Prop where
  room : s.service.seenCache.maxSize = size
  keyed : ∀ hash, s.service.seenCache.hasSeen hash → hash ∈ handledHashes requests
  own : ∀ i hash, (s.stages i).hash = some hash → hashOf (requests i).data = hash
  single : ∀ i j hash, (s.stages i).hash = some hash → (s.stages j).hash = some hash → i = j
  marked : ∀ i hash, (s.stages i).marked = some hash → s.service.seenCache.hasSeen hash
  completed : ∀ i hash data, s.stages i = .completed hash data → s.service.seenCache.getState hash = some .complete
  done : ∀ hash ∈ acceptedHashes s.service,
    s.service.seenCache.getState hash = some .complete ∧ ∀ i, (s.stages i).hash ≠ some hash
  once : (acceptedHashes s.service).Nodup

theorem markedHash {stage : Stage} {hash} (marked : stage.marked = some hash) : stage.hash = some hash := by
  cases stage <;> first | exact marked | cases marked

section Turns
variable {requests : Fin n → Request} {size : Nat} {s : System n} {i : Fin n}

theorem orderlyRoom (few : (handledHashes requests).card < size) (orderly : Orderly requests size s) :
    KeyedMap.size s.service.seenCache.cache < s.service.seenCache.maxSize := by
  rw [orderly.room]
  refine lt_of_le_of_lt (Finset.card_le_card fun hash mem => orderly.keyed hash ?_) few
  obtain ⟨state,found⟩ := memKeys.mp mem
  change (s.service.seenCache.cache.lookup hash).isSome = true
  rw [found]
  rfl

theorem updatedStage (stages : Fin n → Stage) (i j) (after) :
    (j = i ∧ Function.update stages i after j = after) ∨ (j ≠ i ∧ Function.update stages i after j = stages j) := by
  by_cases same : j = i
  · exact .inl ⟨same,same ▸ update_self _ _ _⟩
  · exact .inr ⟨same,update_of_ne same _ _⟩

theorem orderlyIdle {after s'} (orderly : Orderly requests size s)
    (cache : s'.seenCache = s.service.seenCache) (log : acceptedHashes s' = acceptedHashes s.service)
      (free : after.hash = none) :
    Orderly requests size ⟨s',Function.update s.stages i after⟩ := by
  have same {j : Fin n} {hash : Hash} (held : (Function.update s.stages i after j).hash = some hash) :
      Function.update s.stages i after j = s.stages j := by
    rcases updatedStage s.stages i j after with ⟨_,here⟩ | ⟨_,there⟩
    · rw [here,free] at held
      cases held
    · exact there
  constructor
  · rw [cache]
    exact orderly.room
  · rw [cache]
    exact orderly.keyed
  · intro j hash held
    exact orderly.own j hash (same held ▸ held)
  · intro j k hash heldJ heldK
    exact orderly.single j k hash (same heldJ ▸ heldJ) (same heldK ▸ heldK)
  · intro j hash marked
    rw [cache]
    exact orderly.marked j hash (same (markedHash marked) ▸ marked)
  · intro j hash data completed
    have held := congrArg Stage.hash completed
    rw [cache]
    exact orderly.completed j hash data ((same held).symm.trans completed)
  · rw [log,cache]
    intro hash mem
    exact ⟨(orderly.done hash mem).1,fun j held => (orderly.done hash mem).2 j (same held ▸ held)⟩
  · rw [log]
    exact orderly.once

theorem heldAfter {stages : Fin n → Stage} {i j after hash k} (holds : after.hash = some hash ∨ after.hash = none)
    (held : (Function.update stages i after j).hash = some k) : (j = i ∧ k = hash) ∨ (j ≠ i ∧ (stages j).hash = some k) := by
  rcases updatedStage stages i j after with ⟨same,here⟩ | ⟨far,there⟩
  · rw [here] at held
    rcases holds with some' | none'
    · exact .inl ⟨same,(Option.some.inj (some'.symm.trans held)).symm⟩
    · cases none'.symm.trans held
  · rw [there] at held
    exact .inr ⟨far,held⟩

theorem orderlyWithin {after s' hash} (orderly : Orderly requests size s)
    (touched : Touched hash s.service.seenCache s'.seenCache) (own : hashOf (requests i).data = hash)
    (only : ∀ j, j ≠ i → (s.stages j).hash ≠ some hash) (fresh : hash ∉ acceptedHashes s.service)
    (holds : after.hash = some hash ∨ after.hash = none) (marked : after.marked = some hash → s'.seenCache.hasSeen hash)
    (completed : ∀ data, after = .completed hash data → s'.seenCache.getState hash = some .complete)
    (log : acceptedHashes s' = acceptedHashes s.service ∨
      (acceptedHashes s' = acceptedHashes s.service ++ [hash] ∧ s'.seenCache.getState hash = some .complete ∧
        after.hash = none)) :
    Orderly requests size ⟨s',Function.update s.stages i after⟩ := by
  have mine {k : Hash} (held : after.hash = some k) : k = hash := by
    rcases holds with some' | none'
    · exact (Option.some.inj (some'.symm.trans held)).symm
    · cases none'.symm.trans held
  have seen {k : Hash} other : s'.seenCache.hasSeen k = s.service.seenCache.hasSeen k :=
    congrArg Option.isSome (touched.apart k other)
  -- a hash held by another call, or by a submission, is not the one worked on
  have apart {j : Fin n} {k : Hash} far held : k ≠ hash :=
    fun same => only j far (same ▸ held)
  constructor
  · exact touched.size.trans orderly.room
  · intro k found
    by_cases same : k = hash
    · exact Finset.mem_image.mpr ⟨i,Finset.mem_univ i,own.trans same.symm⟩
    · exact orderly.keyed k (seen same ▸ found)
  · intro j k (held : (Function.update s.stages i after j).hash = some k)
    rcases heldAfter holds held with ⟨same,mine⟩ | ⟨_,there⟩
    · exact same ▸ own.trans mine.symm
    · exact orderly.own j k there
  · intro j l k (heldJ : (Function.update s.stages i after j).hash = some k)
      (heldL : (Function.update s.stages i after l).hash = some k)
    rcases heldAfter holds heldJ with ⟨sameJ,mineJ⟩ | ⟨farJ,thereJ⟩ <;>
      rcases heldAfter holds heldL with ⟨sameL,mineL⟩ | ⟨farL,thereL⟩
    · exact sameJ.trans sameL.symm
    · exact absurd mineJ (apart farL thereL)
    · exact absurd mineL (apart farJ thereJ)
    · exact orderly.single j l k thereJ thereL
  · intro j k (held : (Function.update s.stages i after j).marked = some k)
    rcases updatedStage s.stages i j after with ⟨_,here⟩ | ⟨far,there⟩
    · rw [here] at held
      cases mine (markedHash held)
      exact marked held
    · rw [there] at held
      exact (seen (apart far (markedHash held))).trans (orderly.marked j k held)
  · intro j k data (reached : Function.update s.stages i after j = .completed k data)
    rcases updatedStage s.stages i j after with ⟨_,here⟩ | ⟨far,there⟩
    · have stage := here.symm.trans reached
      cases mine (congrArg Stage.hash stage)
      exact completed data stage
    · have stage := there.symm.trans reached
      have other := apart far (congrArg Stage.hash stage)
      exact (touched.apart k other).trans (orderly.completed j k data stage)
  · have before k (mem : k ∈ acceptedHashes s.service) : s'.seenCache.getState k = some .complete ∧
        ∀ j, (Function.update s.stages i after j).hash ≠ some k := by
      have other : k ≠ hash := fun same => fresh (same ▸ mem)
      refine ⟨(touched.apart k other).trans (orderly.done k mem).1,fun j held => ?_⟩
      rcases heldAfter holds held with ⟨_,mine⟩ | ⟨_,there⟩
      · exact other mine
      · exact (orderly.done k mem).2 j there
    intro k mem
    rcases log with same | ⟨more,complete,free⟩
    · exact before k (same ▸ mem)
    · rw [more] at mem
      rcases mem_append.mp mem with old | new
      · exact before k old
      · cases mem_singleton.mp new
        refine ⟨complete,fun j (held : (Function.update s.stages i after j).hash = some hash) => ?_⟩
        rcases updatedStage s.stages i j after with ⟨_,here⟩ | ⟨far,there⟩
        · rw [here,free] at held
          cases held
        · rw [there] at held
          exact only j far held
  · rcases log with same | ⟨more,_,_⟩
    · exact same ▸ orderly.once
    · rw [more]
      exact nodup_append.mpr ⟨orderly.once,nodup_singleton _,fun a mem b single same => by
        cases mem_singleton.mp single
        exact fresh (same ▸ mem)⟩

theorem orderlyTurn (few : (handledHashes requests).card < size) (s) (e)
    (orderly : Orderly requests size s) (unraced : Unraced requests s e) : Orderly requests size (turn requests s e) := by
  obtain ⟨i,outside⟩ := e
  have moved := advanceMoved (requests i) outside (orderlyRoom few orderly) (orderly.marked i)
  -- what a call holds, no other call holds, and no submission was accepted under it
  have only {hash : Hash} held j (far : j ≠ i) : (s.stages j).hash ≠ some hash :=
    fun other => far (orderly.single j i hash other held)
  have fresh {hash : Hash} held : hash ∉ acceptedHashes s.service :=
    fun mem => (orderly.done hash mem).2 i held
  unfold Unraced at unraced
  unfold turn at unraced ⊢
  dsimp only at unraced ⊢
  rw [update_self] at unraced
  generalize advance (requests i) outside (s.service,s.stages i) = next at moved unraced ⊢
  obtain ⟨s',after⟩ := next
  cases moved with
  | idle cache log free => exact orderlyIdle orderly cache log free
  | @passed hash free named open' =>
    have none' := unraced hash rfl
    refine orderlyWithin orderly (touchedSelf hash _) named (fun j _ => none' j) (fun mem => ?_) (.inl rfl)
      (fun marked => by cases marked) (fun _ reached => by cases reached) (.inl rfl)
    have refused : invariantNoDuplicateProcessing s.service.seenCache hash = false :=
      duplicateIff.mpr (.inl (orderly.done hash mem).1)
    exact Bool.false_ne_true (refused.symm.trans open')
  | within held holds touched log marked completed =>
    exact orderlyWithin orderly touched (orderly.own i _ held) (only held) (fresh held) (.inl holds) marked completed
      (.inl log)
  | @left hash _ _ held touched log free =>
    refine orderlyWithin orderly touched (orderly.own i _ held) (only held) (fresh held) (.inr free) (fun marked => ?_)
      (fun data reached => ?_) (.inl log)
    · cases free.symm.trans (markedHash marked)
    · cases free.symm.trans (congrArg Stage.hash reached)
  | @submitted hash block _ _ stage cache log free =>
    have held := congrArg Stage.hash stage
    have complete := orderly.completed i hash block stage
    refine orderlyWithin orderly (cache ▸ touchedSelf hash _) (orderly.own i _ held) (only held) (fresh held) (.inr free)
      (fun marked => ?_) (fun data reached => ?_) (.inr ⟨log,cache ▸ complete,free⟩)
    · cases free.symm.trans (markedHash marked)
    · cases free.symm.trans (congrArg Stage.hash reached)

theorem startedOrderly (requests : Fin n → Request) (config) (peers) :
    Orderly requests config.seenCacheSize (started config peers) := by
  refine ⟨rfl,?_,?_,?_,?_,?_,?_,nodup_nil⟩
  · intro hash seen
    cases seen
  · intro i hash held
    cases held
  · intro i j hash held
    cases held
  · intro i hash held
    cases held
  · intro i hash data reached
    cases reached
  · intro hash mem
    cases mem

theorem freshBefore {r outside service before hash}
    (fresh : (advance r outside (service,before)).2.fresh = some hash) : before.hash = none := by
  cases before with
  | arrived => rfl
  | known peer => rfl
  | finished result => rfl
  | passed other => cases fresh
  | recorded other => cases fresh
  | completed other data => cases fresh
  | received other =>
    change (afterCheck other _).2.fresh = some hash at fresh
    unfold afterCheck at fresh
    split at fresh <;> cases fresh
  | seen other =>
    unfold advance at fresh
    dsimp only at fresh
    split at fresh
    · cases fresh
    · unfold afterCheck at fresh
      split at fresh <;> cases fresh

theorem aloneUnraced {s i} (others : ∀ j, j ≠ i → (s.stages j).hash = none) (answers : List Gateways) :
    Along (turn requests) (Unraced requests) s (answers.map fun outside => (i,outside)) := by
  induction answers generalizing s with
  | nil => trivial
  | cons outside rest ih =>
    refine ⟨fun hash fresh j held => ?_,ih fun j far => ?_⟩
    · by_cases same : j = i
      · unfold turn at fresh
        dsimp only at fresh
        rw [update_self] at fresh
        rw [same,freshBefore fresh] at held
        cases held
      · rw [others j same] at held
        cases held
    · unfold turn
      dsimp only
      rw [update_of_ne far]
      exact others j far

end Turns

theorem acceptedAtMostOnce (requests : Fin n → Request) (config : PropagationConfig) (peers : List PeerPropagationState)
    (few : (handledHashes requests).card < config.seenCacheSize) (schedule : List (Fin n × Gateways))
    (unraced : Along (turn requests) (Unraced requests) (started config peers) schedule) :
    Along (turn requests) (fun s e => AcceptedOnce (turn requests s e)) (started config peers) schedule :=
  alongKeeps (orderlyTurn few) (fun _ orderly => orderly.once) (startedOrderly requests config peers) unraced

def twoFull : Fin 2 → Request := fun i => ⟨.full,i.val,blockWith [5]⟩

def twoStates : List PeerPropagationState := [.new 0 0,.new 1 0]

def sevenTimes (i : Fin 2) : List (Fin 2 × Gateways) := (replicate 7 (signedOnce 1)).map fun outside => (i,outside)

def firstCall : Fin 2 := ⟨0,by decide⟩
def secondCall : Fin 2 := ⟨1,by decide⟩

def sideBySide : List (Fin 2 × Gateways) :=
  replicate 2 (firstCall,signedOnce 1) ++ replicate 2 (secondCall,signedOnce 1) ++ replicate 5 (firstCall,signedOnce 1) ++
    replicate 5 (secondCall,signedOnce 1)

theorem acceptedOnceInTurn : (handledHashes twoFull).card < 10 ∧
    Along (turn twoFull) (Unraced twoFull) (started ⟨1,1000,10⟩ twoStates) (sevenTimes firstCall ++ sevenTimes secondCall) ∧
    Along (turn twoFull) (fun s e => AcceptedOnce (turn twoFull s e)) (started ⟨1,1000,10⟩ twoStates)
      (sevenTimes firstCall ++ sevenTimes secondCall) := by
  have few : (handledHashes twoFull).card < 10 := by decide +kernel
  have first : Along (turn twoFull) (Unraced twoFull) (started ⟨1,1000,10⟩ twoStates) (sevenTimes firstCall) :=
    aloneUnraced (fun _ _ => rfl) _
  have landed : ∀ j, j ≠ secondCall →
      ((run (turn twoFull) (started ⟨1,1000,10⟩ twoStates) (sevenTimes firstCall)).stages j).hash = none := by decide +kernel
  have unraced := alongAppend.mpr ⟨first,aloneUnraced landed (replicate 7 (signedOnce 1))⟩
  exact ⟨few,unraced,acceptedAtMostOnce twoFull ⟨1,1000,10⟩ twoStates few _ unraced⟩

theorem acceptedTwice : (handledHashes twoFull).card < 10 ∧
    acceptedHashes (run (turn twoFull) (started ⟨1,1000,10⟩ twoStates) sideBySide).service =
      [hashOf (blockWith [5]),hashOf (blockWith [5])] := by
  refine ⟨?_,?_⟩
  · decide +kernel
  · decide +kernel

end QuantumChain.Propagation
