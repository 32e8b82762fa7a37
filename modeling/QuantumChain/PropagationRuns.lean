import QuantumChain.BlockPropagation

/-! Runs of the propagation service.
Peers and gateways may answer anything at any time. -/
namespace QuantumChain.Propagation
open List SeenBlockCache KeyedMap
open StepRun BlockPropagationService

def Gateways.Quiet (outside : Gateways) : Prop :=
  (∀ hash key signature peer, outside.verifyBlockSignature hash key signature ≠ .error (.rateLimited peer)) ∧
  ∀ peer, outside.submitBlockForValidation ≠ .error (.rateLimited peer)

inductive Judged (s : BlockPropagationService) (hash peer : Hash) (data : Bytes) (outside : Gateways) :
    Except PropagationError Unit × BlockPropagationService → Prop where
  | failed (e : PropagationError) (quiet : outside.Quiet → ∀ p, e ≠ .rateLimited p) :
      Judged s hash peer data outside (.error e,s)
  | dropped (state : PropagationState) (unfinished : state ≠ .complete ∧ state ≠ .validated) :
      Judged s hash peer data outside (.ok (),s.updateState hash state)
  | submitted : Judged s hash peer data outside
      ((s.updateState hash .complete).submit hash data peer outside.submitBlockForValidation)

inductive Handled (s : BlockPropagationService) (e : Event) : Except PropagationError Unit × BlockPropagationService →
    Prop where
  | refreshed {peers : List Hash} (message : e.message.sender = none) :
      Handled s e (.ok (),s.refreshPeers peers e.outside.now)
  | unknown {p : Hash} {fault : PropagationError} (sender : e.message.sender = some p)
      (refused : s.validateSender p = .error fault) :
      Handled s e (.error fault,s)
  | refused {p : Hash} {peer : PeerPropagationState} {fault : PropagationError} (sender : e.message.sender = some p)
      (known : s.validateSender p = .ok peer) (other : ∀ q, fault ≠ .rateLimited q) : Handled s e (.error fault,s)
  | announced {p hash : Hash} {peer : PeerPropagationState} (sender : e.message.sender = some p)
      (known : s.validateSender p = .ok peer) :
      Handled s e (.ok (),((s.recordAnnouncement p e.outside.now).markSeen hash).updateState hash .announced)
  | compact {p hash : Hash} {peer : PeerPropagationState} {data : Bytes}
      {out : Except PropagationError Unit × BlockPropagationService}
      (sender : e.message.sender = some p) (known : s.validateSender p = .ok peer)
      (fresh : s.validateBlockPreliminaries data peer = .ok hash)
      (judged : Judged (((s.recordAnnouncement p e.outside.now).markSeen hash).updateState hash .compactReceived) hash p
        data e.outside out) :
      Handled s e out
  | full {p hash : Hash} {peer : PeerPropagationState} {data : Bytes}
      {out : Except PropagationError Unit × BlockPropagationService}
      (sender : e.message.sender = some p) (known : s.validateSender p = .ok peer)
      (fresh : s.validateBlockPreliminaries data peer = .ok hash)
      (judged : Judged ((s.recordAnnouncement p e.outside.now).markSeen hash) hash p data e.outside out) : Handled s e out

section Cases
variable {s : BlockPropagationService} {hash p : Hash} {data : Bytes} {outside : Gateways} {peer : PeerPropagationState}

theorem parseFault {fault} (failed : parseCompactBlock data = .error fault) (q) : fault ≠ .rateLimited q := by
  unfold parseCompactBlock at failed
  split at failed
  · cases failed
    exact nofun
  · cases failed

theorem verdictJudged {verdict : Except PropagationError Bool}
    (calm : outside.Quiet → ∀ q, verdict ≠ .error (.rateLimited q)) :
    Judged s hash p data outside (andThen (match verdict with
      | .error e => (.error e,s)
      | .ok false => (.ok none,s.updateState hash .invalid)
      | .ok true => (.ok (some data),s)) fun found s => s.completeAndSubmit hash p outside found) := by
  cases verdict with
  | error fault => exact .failed fault fun quiet q same => calm quiet q (congrArg Except.error same)
  | ok valid =>
    cases valid with
    | false => exact .dropped _ (by decide)
    | true => exact .submitted

theorem compactJudged : Judged s hash p data outside
    (andThen (s.reconstructAndVerify hash data outside) fun found s => s.completeAndSubmit hash p outside found) := by
  unfold reconstructAndVerify
  cases parsed : parseCompactBlock data with
  | error fault => exact .failed fault fun _ q => parseFault parsed q
  | ok block =>
    dsimp only
    split
    · exact .dropped _ (by decide)
    · exact verdictJudged fun quiet => quiet.1 _ _ _

theorem fullJudged : Judged s hash p data outside
    (andThen (s.verifyFullBlock hash data outside) fun found s => s.completeAndSubmit hash p outside found) := by
  unfold verifyFullBlock extractBlockSignature
  by_cases short : data.length < minBlockWithSig
  · rw [if_pos short]
    exact .failed _ fun _ _ => nofun
  · rw [if_neg short]
    exact verdictJudged fun quiet => quiet.1 _ _ _

theorem senderKnown (known : s.validateSender p = .ok peer) :
    s.findPeerState p = some peer ∧ peer.announcementCount < s.config.maxAnnouncementsPerSecond := by
  unfold validateSender at known
  split at known
  · cases known
  · rename_i found
    split at known
    · rename_i below
      cases known
      exact ⟨found,of_decide_eq_true below⟩
    · cases known

theorem preliminariesFault {fault} (known : s.validateSender p = .ok peer)
    (failed : s.validateBlockPreliminaries data peer = .error fault) (q) : fault ≠ .rateLimited q := by
  have below : invariantRateLimit peer s.config = true := decide_eq_true (senderKnown known).2
  unfold validateBlockPreliminaries extractBlockHash checkAllInvariants at failed
  rw [below] at failed
  split at failed
  · cases failed
    exact nofun
  · split at failed
    · rename_i short
      split at short
      · cases short
        cases failed
        exact nofun
      · cases short
    · split at failed
      · cases failed
      · cases failed
        exact nofun
      · rename_i limited
        split at limited
        · cases limited
        · split at limited
          · rename_i wrong
            cases wrong
          · split at limited <;> cases limited
      · cases failed
        exact nofun

end Cases

theorem handled (s) (e) : Handled s e (handle s e) := by
  obtain ⟨message,outside⟩ := e
  cases message with
  | refreshPeers peers => exact .refreshed rfl
  | announcement p hash =>
    dsimp only [handle,handleAnnouncement]
    cases known : s.validateSender p with
    | error fault => exact .unknown rfl known
    | ok peer =>
      dsimp only
      split
      · exact .refused rfl known fun _ => nofun
      · exact .announced rfl known
  | compactBlock p data =>
    dsimp only [handle,handleCompactBlock,validateAndRegisterCompactBlock]
    cases known : s.validateSender p with
    | error fault => exact .unknown rfl known
    | ok peer =>
      dsimp only
      cases fresh : s.validateBlockPreliminaries data peer with
      | error fault => exact .refused rfl known (preliminariesFault known fresh)
      | ok hash => exact .compact rfl known fresh compactJudged
  | fullBlock p data =>
    dsimp only [handle,handleFullBlock]
    cases known : s.validateSender p with
    | error fault => exact .unknown rfl known
    | ok peer =>
      dsimp only
      cases fresh : s.validateBlockPreliminaries data peer with
      | error fault => exact .refused rfl known (preliminariesFault known fresh)
      | ok hash => exact .full rfl known fresh fullJudged

theorem updateFirstFind {p f} (keeps : ∀ state, (f state).peerId = state.peerId) (states) (q) :
    (updateFirst p f states).find? (fun state => state.peerId = q) =
      if q = p then (states.find? fun state => state.peerId = q).map f else states.find? fun state => state.peerId = q := by
  induction states with
  | nil => simp [updateFirst]
  | cons state rest ih =>
    unfold updateFirst
    by_cases here : state.peerId = p
    · rw [if_pos here,find?_cons,find?_cons,keeps state]
      by_cases same : q = p
      · simp [here,same]
      · simp [here,Ne.symm same,same]
    · rw [if_neg here,find?_cons,find?_cons,ih]
      by_cases found : state.peerId = q
      · have other : q ≠ p := fun same => here (found.trans same)
        simp [found,other]
      · simp [found]

theorem recordKeeps (now) (peer : PeerPropagationState) : (peer.recordAnnouncement now).peerId = peer.peerId := by
  unfold PeerPropagationState.recordAnnouncement
  split <;> rfl

theorem refreshedFind {peers : List Hash} {now} {states : List PeerPropagationState} {q peer}
    (found : (states.find? fun state => state.peerId = q) = some peer) :
    ((peers.foldl (fun states peer => if states.any (fun state => state.peerId = peer) then states else states ++
      [.new peer now])
      states).find? fun state => state.peerId = q) = some peer := by
  induction peers generalizing states with
  | nil => exact found
  | cons first rest ih =>
    rw [foldl_cons]
    refine ih ?_
    split
    · exact found
    · rw [find?_append,found]
      rfl

section Limit
variable {s : BlockPropagationService} {e : Event} {p : Hash} {out : Except PropagationError Unit × BlockPropagationService}

theorem judgedPeers {hash data outside} (judged : Judged s hash p data outside out) :
    out.2.config = s.config ∧ out.2.peerStates = s.peerStates := by
  cases judged <;> exact ⟨rfl,rfl⟩

theorem handledPeers (handled : Handled s e out) : out.2.config = s.config ∧
    (out.2.peerStates = s.peerStates ∨ (∃ peers, out.2.peerStates = (s.refreshPeers peers e.outside.now).peerStates) ∨
      ∃ p peer, e.message.sender = some p ∧ s.validateSender p = .ok peer ∧
        out.2.peerStates = (s.recordAnnouncement p e.outside.now).peerStates) := by
  cases handled with
  | refreshed message => exact ⟨rfl,.inr (.inl ⟨_,rfl⟩)⟩
  | unknown sender refused => exact ⟨rfl,.inl rfl⟩
  | refused sender known other => exact ⟨rfl,.inl rfl⟩
  | announced sender known => exact ⟨rfl,.inr (.inr ⟨_,_,sender,known,rfl⟩)⟩
  | compact sender known fresh judged =>
    obtain ⟨config,peers⟩ := judgedPeers judged
    exact ⟨config,.inr (.inr ⟨_,_,sender,known,peers⟩)⟩
  | full sender known fresh judged =>
    obtain ⟨config,peers⟩ := judgedPeers judged
    exact ⟨config,.inr (.inr ⟨_,_,sender,known,peers⟩)⟩

def AtLimit (p : Hash) (s : BlockPropagationService) : Prop :=
  ∃ peer, s.findPeerState p = some peer ∧ s.config.maxAnnouncementsPerSecond ≤ peer.announcementCount

theorem atLimitRefused (limit : AtLimit p s) : s.validateSender p = .error (.rateLimited p) := by
  obtain ⟨peer,found,full⟩ := limit
  have over' : checkRateLimit peer s.config = false := decide_eq_false (not_lt.mpr full)
  unfold validateSender
  rw [found]
  dsimp only
  rw [over',if_neg Bool.false_ne_true]

theorem refusedAtLimit {q} (refused : s.validateSender p = .error (.rateLimited q)) : AtLimit p s := by
  unfold validateSender at refused
  split at refused
  · cases refused
  · rename_i peer found
    split at refused
    · cases refused
    · rename_i full
      exact ⟨peer,found,not_lt.mp fun below => full (decide_eq_true below)⟩

theorem atLimitKept (e) (limit : AtLimit p s) : AtLimit p (serve s e) := by
  obtain ⟨peer,found,full⟩ := limit
  obtain ⟨config,same | ⟨peers,refreshed⟩ | ⟨q,other,sender,known,recorded⟩⟩ := handledPeers (handled s e)
  · refine ⟨peer,?_,config ▸ full⟩
    rw [serve,findPeerState,same]
    exact found
  · refine ⟨peer,?_,config ▸ full⟩
    rw [serve,findPeerState,refreshed]
    exact refreshedFind found
  · have apart : p ≠ q := by
      rintro rfl
      obtain ⟨found',below⟩ := senderKnown known
      cases found.symm.trans found'
      exact absurd below (not_lt.mpr full)
    refine ⟨peer,?_,config ▸ full⟩
    rw [serve,findPeerState,recorded,recordAnnouncement,updateFirstFind (recordKeeps _),if_neg apart]
    exact found

def Late (s : BlockPropagationService) (e : Event) : Prop :=
  ∃ p peer, e.message.sender = some p ∧ s.findPeerState p = some peer ∧ peer.windowStart + second ≤ e.outside.now

def Limited (s : BlockPropagationService) (e : Event) : Prop := ∃ p, answer s e = .error (.rateLimited p)

theorem judgedQuiet {hash data outside} (quiet : outside.Quiet)
    (judged : Judged s hash p data outside out) (q) : out.1 ≠ .error (.rateLimited q) := by
  cases judged with
  | failed fault other => exact fun same => other quiet q (Except.error.inj same)
  | dropped state unfinished => exact nofun
  | submitted => exact quiet.2 q

theorem limitedIff (quiet : e.outside.Quiet) : Limited s e ↔ ∃ p, e.message.sender = some p ∧ AtLimit p s := by
  have did := handled s e
  unfold Limited answer
  generalize handle s e = out at did
  have none' : ∀ {p peer}, e.message.sender = some p → s.validateSender p = .ok peer →
      ¬ ∃ q, e.message.sender = some q ∧ AtLimit q s := by
    rintro p peer sender known ⟨q,same,limit⟩
    cases sender.symm.trans same
    cases known.symm.trans (atLimitRefused limit)
  cases did with
  | refreshed message =>
    refine ⟨nofun,fun ⟨p,sender,_⟩ => ?_⟩
    cases message.symm.trans sender
  | unknown sender refused =>
    constructor
    · rintro ⟨q,same⟩
      cases same
      exact ⟨_,sender,refusedAtLimit refused⟩
    · rintro ⟨q,same,limit⟩
      cases sender.symm.trans same
      cases refused.symm.trans (atLimitRefused limit)
      exact ⟨_,rfl⟩
  | refused sender known other => exact ⟨fun ⟨q,same⟩ => absurd (Except.error.inj same) (other q),fun limit =>
      absurd limit (none' sender known)⟩
  | announced sender known => exact ⟨nofun,fun limit => absurd limit (none' sender known)⟩
  | compact sender known fresh judged =>
    exact ⟨fun ⟨q,same⟩ => absurd same (judgedQuiet quiet judged q),fun limit => absurd limit (none' sender known)⟩
  | full sender known fresh judged =>
    exact ⟨fun ⟨q,same⟩ => absurd same (judgedQuiet quiet judged q),fun limit => absurd limit (none' sender known)⟩

theorem limitAnswered (limit : AtLimit p s) (sender : e.message.sender = some p) : answer s e = .error (.rateLimited p) := by
  have refused := atLimitRefused limit
  obtain ⟨message,outside⟩ := e
  cases message with
  | refreshPeers peers => cases sender
  | announcement q hash =>
    cases sender
    dsimp only [answer,handle,handleAnnouncement]
    rw [refused]
  | compactBlock q data =>
    cases sender
    dsimp only [answer,handle,handleCompactBlock,validateAndRegisterCompactBlock]
    rw [refused]
    rfl
  | fullBlock q data =>
    cases sender
    dsimp only [answer,handle,handleFullBlock]
    rw [refused]

end Limit

/-- The messages of a peer in the second from `start` on. -/
def sentWithin (p : Hash) (start : Nat) (events : List Event) : List Event :=
  events.filter fun e => e.message.sender = some p ∧ start ≤ e.outside.now ∧ e.outside.now < start + second

/-- Whoever sends a message has sent fewer than `limit` before it in any one second. -/
def Spaced (limit : Nat) (events : List Event) : Prop :=
  ∀ i e p start, events[i]? = some e → e.message.sender = some p → (sentWithin p start (events.take i)).length < limit

def Ordered (events : List Event) : Prop := events.Pairwise fun a b => a.outside.now ≤ b.outside.now

-- what a peer's counter stands for: messages it sent since its window started
structure Backed (history : List Event) (p : Hash) (peer : PeerPropagationState) : Prop where
  started : ∃ e ∈ history, peer.windowStart = e.outside.now
  counted : peer.announcementCount.toNat ≤ (sentWithin p peer.windowStart history).length

section Backed
variable {history : List Event} {e : Event} {p : Hash} {peer : PeerPropagationState}

theorem Backed.later (backed : Backed history p peer) (e) : Backed (history ++ [e]) p peer := by
  obtain ⟨first,mem,start⟩ := backed.started
  refine ⟨⟨first,mem_append_left _ mem,start⟩,Nat.le_trans backed.counted ?_⟩
  unfold sentWithin
  rw [filter_append,length_append]
  exact Nat.le_add_right _ _

theorem sentNow (sender : e.message.sender = some p) {start} (after : start ≤ e.outside.now)
    (within : e.outside.now < start + second) (history) :
    (sentWithin p start (history ++ [e])).length = (sentWithin p start history).length + 1 := by
  simp [sentWithin,filter_append,sender,after,within]

theorem counterNext (count : BitVec 32) : (count + 1).toNat ≤ count.toNat + 1 := by
  rw [BitVec.toNat_add]
  exact Nat.mod_le _ _

theorem Backed.recorded (backed : Backed history p peer) (ordered : ∀ earlier ∈ history, earlier.outside.now ≤ e.outside.now)
    (sender : e.message.sender = some p) : Backed (history ++ [e]) p (peer.recordAnnouncement e.outside.now) := by
  obtain ⟨first,mem,start⟩ := backed.started
  have positive : 0 < second := by decide
  unfold PeerPropagationState.recordAnnouncement
  split
  · refine ⟨⟨e,mem_append_right _ mem_cons_self,rfl⟩,?_⟩
    dsimp only
    rw [sentNow sender (Nat.le_refl _) (by omega)]
    exact Nat.le_trans (counterNext 0) (Nat.add_le_add_right (Nat.zero_le _) 1)
  · rename_i inside
    have after : peer.windowStart ≤ e.outside.now := start ▸ ordered first mem
    refine ⟨⟨first,mem_append_left _ mem,start⟩,?_⟩
    dsimp only
    rw [sentNow sender after (by omega)]
    exact Nat.le_trans (counterNext _) (Nat.add_le_add_right backed.counted 1)

theorem refreshedNew {peers : List Hash} {now} {states : List PeerPropagationState} {q}
    (found : ((peers.foldl (fun states peer =>
      if states.any (fun state => state.peerId = peer) then states else states ++ [.new peer now])
      states).find? fun state => state.peerId = q) = some peer) :
    (states.find? fun state => state.peerId = q) = some peer ∨ peer = .new q now := by
  induction peers generalizing states with
  | nil => exact .inl found
  | cons first rest ih =>
    rw [foldl_cons] at found
    rcases ih found with before | new
    · split at before
      · exact .inl before
      · rw [find?_append] at before
        cases held : states.find? fun state => state.peerId = q with
        | some state =>
          rw [held] at before
          exact .inl before
        | none =>
          rw [held,Option.none_or,find?_singleton] at before
          split at before
          · rename_i here
            cases before
            exact .inr (by rw [← of_decide_eq_true here]; rfl)
          · cases before
    · exact .inr new

theorem peersBacked (config) {events} (ordered : Ordered events) {p peer}
    (found : (run serve (.new config) events).findPeerState p = some peer) : Backed events p peer := by
  induction events using List.reverseRecOn generalizing p peer with
  | nil => cases found
  | append_singleton history e ih =>
    obtain ⟨before,_,last⟩ := pairwise_append.mp ordered
    have ih {p peer} := @ih before p peer
    have earlier : ∀ a ∈ history, a.outside.now ≤ e.outside.now := fun a mem => last a mem e mem_cons_self
    rw [runAppend,runCons,runNil] at found
    obtain ⟨_,same | ⟨peers,refreshed⟩ | ⟨q,other,sender,known,recorded⟩⟩ :=
      handledPeers (handled (run serve (.new config) history) e)
    · rw [serve,findPeerState,same] at found
      exact (ih found).later e
    · rw [serve,findPeerState,refreshed] at found
      rcases refreshedNew found with held | rfl
      · exact (ih held).later e
      · exact ⟨⟨e,mem_append_right _ mem_cons_self,rfl⟩,Nat.zero_le _⟩
    · rw [serve,findPeerState,recorded,recordAnnouncement,updateFirstFind (recordKeeps _)] at found
      split at found
      · rename_i same
        subst same
        obtain ⟨old,held,rfl⟩ := Option.map_eq_some_iff.mp found
        exact (ih held).recorded earlier sender
      · exact (ih found).later e

end Backed

theorem limitTemporary (config : PropagationConfig) (events : List Event) (ordered : Ordered events)
    (spaced : Spaced config.maxAnnouncementsPerSecond.toNat events) :
    Along serve (fun s e => Late s e → e.outside.Quiet → ¬ Limited s e) (.new config) events ∧
    ∀ p before after e, AtLimit p (run serve (.new config) before) → e.message.sender = some p →
      answer (run serve (.new config) (before ++ after)) e = .error (.rateLimited p) := by
  constructor
  · refine alongReached.mpr fun i e here _ quiet limited => ?_
    obtain ⟨p,sender,peer,found,full⟩ := (limitedIff quiet).mp limited
    have backed := peersBacked config (ordered.sublist (take_sublist i events)) found
    have few := spaced i e p peer.windowStart here sender
    have configured : (run serve (.new config) (events.take i)).config = config :=
      runFrame BlockPropagationService.config (fun s e => (handledPeers (handled s e)).1) _ _
    rw [show (reached serve (.new config) events i).config = config from configured] at full
    exact absurd (Nat.le_trans full backed.counted) (Nat.not_le.mpr few)
  · intro p before after e limit sender
    rw [runAppend]
    exact limitAnswered (runInvariant (I := AtLimit p) (fun s e => atLimitKept e) limit after) sender

def quietAt (now : Nat) : Gateways := ⟨now,fun _ _ => [],fun _ _ _ => .ok true,.ok ()⟩

def spacedMessages : List Event :=
  [⟨.refreshPeers [7],quietAt 0⟩,⟨.announcement 7 1,quietAt 0⟩,⟨.announcement 7 2,quietAt (2 * second)⟩,
    ⟨.announcement 7 3,quietAt (4 * second)⟩]

theorem messagesApart (p) (start) : (sentWithin p start (spacedMessages.take 3)).length < 2 := by
  have split : sentWithin p start (spacedMessages.take 3) =
      ([⟨.announcement 7 1,quietAt 0⟩,⟨.announcement 7 2,quietAt (2 * second)⟩] : List Event).filter fun e =>
        e.message.sender = some p ∧ start ≤ e.outside.now ∧ e.outside.now < start + second := by
    refine filter_cons_of_neg fun sent => ?_
    cases (of_decide_eq_true sent).1
  rw [split]
  by_cases first : start = 0
  · subst first
    have late : ¬ (2 * second < 0 + second) := by decide
    rw [filter_cons,filter_cons_of_neg fun sent => late (of_decide_eq_true sent).2.2]
    split <;> simp
  · rw [filter_cons_of_neg fun sent => first (Nat.le_zero.mp (of_decide_eq_true sent).2.1),filter_cons]
    split <;> simp

theorem messagesSpaced : Spaced 2 spacedMessages := by
  intro i e p start here _
  have few : i ≤ 3 := Nat.le_of_lt_succ (List.getElem?_eq_some_iff.mp here).1
  exact Nat.lt_of_le_of_lt ((take_prefix_take_left few).sublist.filter _).length_le (messagesApart p start)

theorem messagesOrdered : Ordered spacedMessages := by
  unfold Ordered
  decide

theorem limitTemporarySpaced :
    Along serve (fun s e => Late s e → e.outside.Quiet → ¬ Limited s e) (.new ⟨2,1000,10⟩) spacedMessages ∧
    Late (run serve (.new ⟨2,1000,10⟩) (spacedMessages.take 3)) ⟨.announcement 7 3,quietAt (4 * second)⟩ ∧
    answer (run serve (.new ⟨2,1000,10⟩) (spacedMessages.take 3)) ⟨.announcement 7 3,quietAt (4 * second)⟩ = .ok () :=
  ⟨(limitTemporary ⟨2,1000,10⟩ spacedMessages messagesOrdered messagesSpaced).1,
    ⟨7,⟨7,2 * second,1,2 * second⟩,rfl,by decide +kernel,by decide⟩,by decide +kernel⟩

theorem limitedForGood :
    let s := run serve (.new ⟨1,1000,10⟩) [⟨.refreshPeers [7],quietAt 0⟩,⟨.announcement 7 1,quietAt 0⟩]
    let late : Event := ⟨.announcement 7 2,quietAt (5 * second)⟩
    Late s late ∧ late.outside.Quiet ∧ answer s late = .error (.rateLimited 7) := by
  refine ⟨⟨7,⟨7,0,1,0⟩,rfl,by decide +kernel,by decide⟩,⟨fun _ _ _ _ => nofun,fun _ => nofun⟩,by decide +kernel⟩

def hashOf (data : Bytes) : Hash := BitVec.ofNat 256 (beNumber (data.take 32))

structure Genuine (s : BlockPropagationService) (p : Hash) (data : Bytes) (outside : Gateways) : Prop where
  known : ∃ peer, s.findPeerState p = some peer ∧ peer.announcementCount < s.config.maxAnnouncementsPerSecond
  sized : data.length ≤ s.config.maxBlockSizeBytes
  whole : minBlockWithSig ≤ data.length
  signed : outside.verifyBlockSignature (hashOf data) (slice data 48 81) (slice data 81 145) = .ok true

def Submitted (s : BlockPropagationService) (data : Bytes) : Prop := ∃ submission ∈ s.submissions, submission.blockData = data

def Completed (s : BlockPropagationService) (hash : Hash) : Prop :=
  s.seenCache.getState hash = some .complete ∨ s.seenCache.getState hash = some .validated

theorem duplicateIff {s hash} : invariantNoDuplicateProcessing s.seenCache hash = false ↔ Completed s hash := by
  unfold invariantNoDuplicateProcessing Completed
  cases s.seenCache.getState hash with
  | none => simp
  | some state => cases state <;> simp

section Submissions
variable {s : BlockPropagationService} {p : Hash} {data : Bytes} {outside : Gateways}

theorem genuinePreliminaries (genuine : Genuine s p data outside) : ∃ peer, s.validateSender p = .ok peer ∧
    s.validateBlockPreliminaries data peer =
      if invariantNoDuplicateProcessing s.seenCache (hashOf data) then .ok (hashOf data) else .error
        (.duplicateBlock (hashOf data)) := by
  obtain ⟨peer,found,below⟩ := genuine.known
  have rate : checkRateLimit peer s.config = true := decide_eq_true below
  have rate' : invariantRateLimit peer s.config = true := rate
  have size : invariantSizeLimit data.length s.config = true := decide_eq_true genuine.sized
  have named : extractBlockHash data = .ok (hashOf data) := by
    have whole := genuine.whole
    unfold minBlockWithSig at whole
    unfold extractBlockHash minBlockHashSize
    rw [if_neg (by omega)]
    rfl
  refine ⟨peer,?_,?_⟩
  · unfold validateSender
    rw [found]
    dsimp only
    rw [if_pos rate]
  · unfold validateBlockPreliminaries checkAllInvariants
    rw [if_neg (not_lt.mpr genuine.sized),named,rate',size]
    dsimp only
    cases invariantNoDuplicateProcessing s.seenCache (hashOf data) <;> rfl

theorem genuineRefused (genuine : Genuine s p data outside) (completed : Completed s (hashOf data)) :
    handle s ⟨.fullBlock p data,outside⟩ = (.error (.duplicateBlock (hashOf data)),s) := by
  obtain ⟨peer,known,preliminaries⟩ := genuinePreliminaries genuine
  rw [duplicateIff.mpr completed,if_neg Bool.false_ne_true] at preliminaries
  dsimp only [handle,handleFullBlock]
  rw [known]
  dsimp only
  rw [preliminaries]

theorem genuineSubmits (genuine : Genuine s p data outside) (fresh : ¬ Completed s (hashOf data)) :
    ∃ accepted, (serve s ⟨.fullBlock p data,outside⟩).submissions = s.submissions ++ [⟨hashOf data,data,p,accepted⟩] := by
  obtain ⟨peer,known,preliminaries⟩ := genuinePreliminaries genuine
  rw [if_pos (Bool.not_eq_false _ ▸ fun no => fresh (duplicateIff.mp no))] at preliminaries
  dsimp only [serve,handle,handleFullBlock]
  rw [known]
  dsimp only
  rw [preliminaries]
  dsimp only [verifyFullBlock,extractBlockSignature]
  rw [if_neg (not_lt.mpr genuine.whole)]
  dsimp only
  rw [genuine.signed]
  exact ⟨_,rfl⟩

def Accounted (s : BlockPropagationService) : Prop :=
  ∀ hash state, s.seenCache.getState hash = some state →
    state ≠ .validated ∧ (state = .complete → ∃ submission ∈ s.submissions, submission.blockHash = hash)

theorem updatedState (c : SeenBlockCache) (hash k) (state) :
    (c.updateState hash state).getState k = if k = hash then (c.getState k).map fun _ => state else c.getState k := by
  unfold SeenBlockCache.updateState getState
  cases present : c.cache.lookup hash with
  | none =>
    dsimp only
    split
    · rename_i same
      rw [same,present]
      rfl
    · rfl
  | some old =>
    rw [lookupInsert]
    split
    · rename_i same
      rw [same,present]
      rfl
    · rfl

theorem evictedState {c : SeenBlockCache} {hash k state}
    (found : (c.evicted hash).getState k = some state) : c.getState k = some state := by
  unfold SeenBlockCache.evicted at found
  split at found
  · split at found
    · unfold getState at *
      rw [lookupErase] at found
      split at found
      · cases found
      · exact found
    · exact found
  · exact found

theorem markedState {c : SeenBlockCache} {hash k state}
    (found : (c.markSeen hash).getState k = some state) : c.getState k = some state ∨ state = .announced := by
  unfold SeenBlockCache.markSeen at found
  dsimp only at found
  split at found
  · exact .inl (evictedState found)
  · unfold getState at found
    rw [lookupInsert] at found
    split at found
    · cases found
      exact .inr rfl
    · exact .inl (evictedState found)

theorem markSeenAccounted (hash) (accounted : Accounted s) : Accounted (s.markSeen hash) := by
  intro k state found
  obtain before | rfl := markedState found
  · exact accounted k state before
  · exact ⟨nofun,nofun⟩

theorem updateAccounted {state} (hash) (unfinished : state ≠ .complete ∧ state ≠ .validated)
    (accounted : Accounted s) : Accounted (s.updateState hash state) := by
  intro k found' found
  have after := (updatedState s.seenCache hash k state).symm.trans found
  split at after
  · obtain ⟨_,_,rfl⟩ := Option.map_eq_some_iff.mp after
    exact ⟨unfinished.2,fun complete => absurd complete unfinished.1⟩
  · exact accounted k found' after

theorem submitAccounted (hash) (data) (peer) (answer) (accounted : Accounted s) :
    Accounted ((s.updateState hash .complete).submit hash data peer answer).2 := by
  intro k found' found
  have after := (updatedState s.seenCache hash k .complete).symm.trans found
  split at after
  · rename_i here
    obtain ⟨_,_,rfl⟩ := Option.map_eq_some_iff.mp after
    exact ⟨nofun,fun _ => ⟨_,mem_append_right _ mem_cons_self,here.symm⟩⟩
  · obtain ⟨open',sent⟩ := accounted k found' after
    refine ⟨open',fun complete => ?_⟩
    obtain ⟨submission,mem,named⟩ := sent complete
    exact ⟨submission,mem_append_left _ mem,named⟩

theorem judgedAccounted {hash out} (accounted : Accounted s)
    (judged : Judged s hash p data outside out) : Accounted out.2 := by
  cases judged with
  | failed fault quiet => exact accounted
  | dropped state unfinished => exact updateAccounted hash unfinished accounted
  | submitted => exact submitAccounted hash data p _ accounted

theorem serveAccounted (s) (e) (accounted : Accounted s) : Accounted (serve s e) := by
  have did := handled s e
  unfold serve
  generalize handle s e = out at did
  have seen p hash : Accounted ((s.recordAnnouncement p e.outside.now).markSeen hash) :=
    markSeenAccounted hash accounted
  cases did with
  | refreshed message => exact accounted
  | unknown sender refused => exact accounted
  | refused sender known other => exact accounted
  | announced sender known => exact updateAccounted _ (by decide) (seen _ _)
  | compact sender known fresh judged => exact judgedAccounted (updateAccounted _ (by decide) (seen _ _)) judged
  | full sender known fresh judged => exact judgedAccounted (seen _ _) judged

theorem completedSubmitted (accounted : Accounted s) {hash} (completed : Completed s hash) :
    ∃ submission ∈ s.submissions, submission.blockHash = hash := by
  rcases completed with complete | validated
  · exact (accounted hash _ complete).2 rfl
  · exact absurd rfl (accounted hash _ validated).1

end Submissions

theorem genuineSubmittedIff (config : PropagationConfig) (events : List Event) (p : Hash) (data : Bytes) (outside : Gateways)
    (genuine : Genuine (run serve (.new config) events) p data outside) :
    (Submitted (serve (run serve (.new config) events) ⟨.fullBlock p data,outside⟩) data ↔
      Submitted (run serve (.new config) events) data ∨ ¬ Completed (run serve (.new config) events) (hashOf data)) ∧
    (Completed (run serve (.new config) events) (hashOf data) →
      ∃ submission ∈ (run serve (.new config) events).submissions, submission.blockHash = hashOf data) ∧
    ((∀ submission ∈ (run serve (.new config) events).submissions, submission.blockHash = hashOf data →
        submission.blockData = data) →
      Submitted (serve (run serve (.new config) events) ⟨.fullBlock p data,outside⟩) data) := by
  have accounted : Accounted (run serve (.new config) events) :=
    runInvariant serveAccounted (fun _ _ found => by cases found) events
  generalize run serve (.new config) events = s at *
  have exactly : Submitted (serve s ⟨.fullBlock p data,outside⟩) data ↔ Submitted s data ∨ ¬ Completed s (hashOf data) := by
    by_cases completed : Completed s (hashOf data)
    · unfold serve
      rw [genuineRefused genuine completed]
      exact ⟨.inl,fun either => either.resolve_right fun fresh => fresh completed⟩
    · obtain ⟨accepted,sent⟩ := genuineSubmits genuine completed
      refine ⟨fun _ => .inr completed,fun _ => ?_⟩
      unfold Submitted
      rw [sent]
      exact ⟨_,mem_append_right _ mem_cons_self,rfl⟩
  refine ⟨exactly,completedSubmitted accounted,fun only => exactly.mpr ?_⟩
  by_cases completed : Completed s (hashOf data)
  · obtain ⟨submission,mem,named⟩ := completedSubmitted accounted completed
    exact .inl ⟨submission,mem,only submission mem named⟩
  · exact .inr completed

def blockWith (transactions : Bytes) : Bytes := List.replicate 48 1 ++ List.replicate 33 2 ++ List.replicate 64 3 ++
    transactions

def signedOnce (now : Nat) : Gateways :=
  ⟨now,fun _ _ => [],
    fun hash key signature => .ok (hash == hashOf (blockWith []) && key == List.replicate 33 2 &&
      signature == List.replicate 64 3),
    .ok ()⟩

def twoPeers : List Event := [⟨.refreshPeers [7,8],signedOnce 0⟩]

theorem genuineFirst : Genuine (run serve (.new ⟨1,1000,10⟩) twoPeers) 8 (blockWith [5]) (signedOnce 1) ∧
    Submitted (serve (run serve (.new ⟨1,1000,10⟩) twoPeers) ⟨.fullBlock 8 (blockWith [5]),signedOnce 1⟩)
      (blockWith [5]) := by
  have genuine : Genuine (run serve (.new ⟨1,1000,10⟩) twoPeers) 8 (blockWith [5]) (signedOnce 1) :=
    ⟨⟨⟨8,0,0,0⟩,by decide +kernel,by decide +kernel⟩,by decide +kernel,by decide +kernel,by decide +kernel⟩
  have none' (submission : Submission) (mem : submission ∈ (run serve (.new ⟨1,1000,10⟩) twoPeers).submissions) :
      submission.blockHash = hashOf (blockWith [5]) → submission.blockData = blockWith [5] := by cases mem
  exact ⟨genuine,(genuineSubmittedIff _ _ _ _ _ genuine).2.2 none'⟩

def forgedFirst : List Event := twoPeers ++ [⟨.fullBlock 7 (blockWith [6]),signedOnce 1⟩]

theorem genuineCensored : Genuine (run serve (.new ⟨1,1000,10⟩) forgedFirst) 8 (blockWith [5]) (signedOnce 2) ∧
    answer (run serve (.new ⟨1,1000,10⟩) forgedFirst) ⟨.fullBlock 8 (blockWith [5]),signedOnce 2⟩ =
      .error (.duplicateBlock (hashOf (blockWith [5]))) ∧
    (serve (run serve (.new ⟨1,1000,10⟩) forgedFirst) ⟨.fullBlock 8 (blockWith [5]),signedOnce 2⟩).submissions.map
      Submission.blockData = [blockWith [6]] := by
  refine ⟨⟨⟨⟨8,0,0,0⟩,by decide +kernel,by decide +kernel⟩,by decide +kernel,by decide +kernel,by decide +kernel⟩,?_,?_⟩
  · decide +kernel
  · decide +kernel

end QuantumChain.Propagation
