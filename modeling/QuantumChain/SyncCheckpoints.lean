import QuantumChain.HeaderSync

/-! The `synced` flag and the checkpoints over whole runs of sync calls. What the nodes answer
is an input; only answers that match the checkpoints keep the flag truthful. -/
namespace QuantumChain.LightClient
open LightClientService
open List
open StepRun

def Sync.service : Sync → LightClientService
  | .running _ _ _ s => s
  | .returned _ s => s

def Sync.succeeded : Sync → Bool
  | .returned (.ok result) _ => result.success
  | _ => false

structure SyncCall where
  tips : List (Option U64)
  rounds : List Answers

variable (s : LightClientService)

def endsIn (call : SyncCall) : Sync := run round (s.syncHeaders call.tips) call.rounds

def syncCall (call : SyncCall) : LightClientService := (endsIn s call).service

def Verified : Prop := s.headerChain.verifyCheckpoints = .ok ()

def Consistent : Prop := s.synced = true → Verified s

def Matches (checkpoints : List Checkpoint) (header : BlockHeader) : Prop :=
  ∀ cp ∈ checkpoints, header.height = cp.height → header.hash = cp.hash

def Honest (checkpoints : List Checkpoint) (answers : Answers) : Prop :=
  ∀ fromHeight count headers, some headers ∈ answers fromHeight count → ∀ header ∈ headers, Matches checkpoints header

theorem checkpointsIff (c : HeaderChain) : c.verifyCheckpoints = .ok () ↔
    ∀ cp ∈ c.checkpoints, ∀ hash, c.byHeight.lookup cp.height = some hash → hash = cp.hash := by
  unfold HeaderChain.verifyCheckpoints
  split
  · rename_i cp found
    have differs := find?_some found
    obtain ⟨hash,stored,apart⟩ := (Option.any_eq_true _ _).mp differs
    constructor
    · intro wrong
      cases wrong
    · intro agree
      exact absurd (agree cp (mem_of_find?_eq_some found) hash stored) (of_decide_eq_true apart)
  · rename_i missing
    refine ⟨fun _ cp mem hash stored => ?_,fun _ => rfl⟩
    have same := find?_eq_none.mp missing cp mem
    rw [stored] at same
    simpa using same

structure OnCheckpoints (checkpoints : List Checkpoint) (c : HeaderChain) : Prop where
  fixed : c.checkpoints = checkpoints
  verified : c.verifyCheckpoints = .ok ()

section Keeps
variable {checkpoints : List Checkpoint}

theorem appendOn {c header} (on : OnCheckpoints checkpoints c) (fits : Matches checkpoints header) :
    OnCheckpoints checkpoints (c.append header).2 := by
  unfold HeaderChain.append
  cases c.check header with
  | error e => exact on
  | ok u =>
    refine ⟨on.fixed,(checkpointsIff _).mpr fun cp mem hash stored => ?_⟩
    change (c.byHeight.insert header.height header.hash).lookup cp.height = some hash at stored
    rw [KeyedMap.lookupInsert] at stored
    have member := mem
    split at stored
    · rename_i here
      cases stored
      exact fits cp (on.fixed ▸ member) here.symm
    · exact (checkpointsIff c).mp on.verified cp member hash stored

theorem appendFetchedOn {current syncedCount c headers}
    (on : OnCheckpoints checkpoints c) (fits : ∀ header ∈ headers, Matches checkpoints header) :
    OnCheckpoints checkpoints (appendFetched current syncedCount c headers).2 := by
  induction headers generalizing current syncedCount c with
  | nil => exact on
  | cons header rest ih =>
    unfold appendFetched
    exact andThenKeeps (appendOn on (fits header mem_cons_self)) fun _ c on =>
      ih on fun header mem => fits header (mem_cons_of_mem _ mem)

section Consensus
variable {α : Type} [DecidableEq α]

theorem tallyKeys {response r n} {entries : List (α × Nat)} (mem : (r,n) ∈ tally entries response) :
    r = response ∨ ∃ m, (r,m) ∈ entries := by
  induction entries with
  | nil =>
    cases mem_singleton.mp mem
    exact .inl rfl
  | cons entry rest ih =>
    obtain ⟨first,count⟩ := entry
    unfold tally at mem
    split at mem
    · rename_i same
      rcases mem_cons.mp mem with here | later
      · exact .inl ((Prod.mk.inj here).1.trans same)
      · exact .inr ⟨n,mem_cons_of_mem _ later⟩
    · rcases mem_cons.mp mem with here | later
      · exact .inr ⟨n,here ▸ mem_cons_self⟩
      · obtain same | ⟨m,inside⟩ := ih later
        · exact .inl same
        · exact .inr ⟨m,mem_cons_of_mem _ inside⟩

theorem talliedKeys {r n} {responses : List α} {entries}
    (mem : (r,n) ∈ responses.foldl tally entries) : r ∈ responses ∨ ∃ m, (r,m) ∈ entries := by
  induction responses generalizing entries with
  | nil => exact .inr ⟨n,mem⟩
  | cons response rest ih =>
    obtain later | ⟨m,inside⟩ := ih mem
    · exact .inl (mem_cons_of_mem _ later)
    · obtain same | before := tallyKeys inside
      · exact .inl (same ▸ mem_cons_self)
      · exact .inr before

omit [DecidableEq α] in
theorem bestAmong (start) (entries : List (α × Nat)) :
    entries.foldl maxByKey start = start ∨ entries.foldl maxByKey start ∈ entries := by
  induction entries generalizing start with
  | nil => exact .inl rfl
  | cons entry rest ih =>
    have pick : maxByKey start entry = start ∨ maxByKey start entry = entry := by
      unfold maxByKey
      split
      · exact .inl rfl
      · exact .inr rfl
    rw [foldl_cons]
    rcases ih (maxByKey start entry) with same | later
    · rw [same]
      rcases pick with kept | taken
      · exact .inl kept
      · rw [taken]
        exact .inr mem_cons_self
    · exact .inr (mem_cons_of_mem _ later)

theorem consensusAnswered {minFullNodes answers} {agreed : α}
    (ok : fetchWithConsensus minFullNodes answers = .ok agreed) : some agreed ∈ answers := by
  unfold fetchWithConsensus checkConsensus at ok
  split at ok
  · cases ok
  · split at ok
    · cases ok
    · split at ok
      · cases ok
      · rename_i first rest given
        dsimp only at ok
        split at ok
        · cases ok
        · cases ok
          have inside : ((answers.filterMap id).foldl tally []).foldl maxByKey (first,0) = (first,0) ∨
              ((answers.filterMap id).foldl tally []).foldl maxByKey (first,0) ∈ (answers.filterMap id).foldl tally [] :=
            bestAmong _ _
          have answered : (((answers.filterMap id).foldl tally []).foldl maxByKey (first,0)).1 ∈ answers.filterMap id := by
            rcases inside with start | among
            · rw [start,given]
              exact mem_cons_self
            · obtain here | ⟨_,none'⟩ := talliedKeys (n := _) among
              · exact here
              · cases none'
          obtain ⟨answer,mem,same⟩ := mem_filterMap.mp answered
          exact same ▸ mem

end Consensus

theorem loopService (networkHeight current syncedCount) (s) :
    (LightClientService.loop networkHeight current syncedCount s).service.headerChain = s.headerChain := by
  unfold loop finish
  split
  · rfl
  · split <;> rfl

theorem roundOn (t) (answers) (on : OnCheckpoints checkpoints t.service.headerChain)
    (honest : Honest checkpoints answers) : OnCheckpoints checkpoints (round t answers).service.headerChain := by
  cases t with
  | returned result s => exact on
  | running networkHeight current syncedCount s =>
    dsimp only [round]
    cases fetched : s.fetchHeadersWithConsensus current (s.batchSize networkHeight current) answers with
    | error e => exact on
    | ok headers =>
      have next : OnCheckpoints checkpoints (appendFetched current syncedCount s.headerChain headers).2 :=
        appendFetchedOn on (honest _ _ headers (consensusAnswered fetched))
      dsimp only
      cases appended : appendFetched current syncedCount s.headerChain headers with
      | mk result chain =>
        rw [appended] at next
        cases result with
        | error e => exact next
        | ok counts =>
          dsimp only
          rw [loopService]
          exact next

theorem syncHeadersChain (s : LightClientService) (tips) :
    (s.syncHeaders tips).service.headerChain = s.headerChain := by
  unfold syncHeaders fetchNetworkHeight
  cases fetchWithConsensus s.config.minFullNodes tips with
  | error e => rfl
  | ok networkHeight =>
    dsimp only
    split
    · rfl
    · exact loopService _ _ _ _

theorem callOn (s) (call) (on : OnCheckpoints checkpoints s.headerChain)
    (honest : ∀ answers ∈ call.rounds, Honest checkpoints answers) : OnCheckpoints checkpoints
      (syncCall s call).headerChain := by
  refine runKeeps (I := fun t : Sync => OnCheckpoints checkpoints t.service.headerChain) roundOn ?_ (alongEach _ honest)
  rw [syncHeadersChain]
  exact on

end Keeps

theorem syncedVerified (config : LightClientConfig) (chain : HeaderChain) (networkHeight : U64) (calls : List SyncCall)
    (verified : chain.verifyCheckpoints = .ok ())
    (honest : ∀ call ∈ calls, ∀ answers ∈ call.rounds, Honest chain.checkpoints answers) :
    Along syncCall (fun s call => Consistent (syncCall s call)) ⟨config,chain,false,networkHeight⟩ calls := by
  have consistent (s : LightClientService) (on : OnCheckpoints chain.checkpoints s.headerChain) : Consistent s :=
    fun _ => on.verified
  refine alongKeeps callOn consistent ?_ (alongEach _ honest)
  exact ⟨rfl,verified⟩

def withCheckpoint : HeaderChain := {HeaderChain.new (plainHeader 7 0 0 1) with checkpoints := [⟨1,9⟩]}

def behindOnce : SyncCall := ⟨[some 1],[fun _ _ => [some [plainHeader 8 7 1 2]]]⟩

def caughtUp : SyncCall := ⟨[some 1],[]⟩

def honestOnce : SyncCall := ⟨[some 1],[fun _ _ => [some [plainHeader 9 7 1 2]]]⟩

theorem honestAnswers : ∀ call ∈ [honestOnce,caughtUp], ∀ answers ∈ call.rounds, Honest [⟨1,9⟩] answers := by
  intro call mem answers round fromHeight count headers given header inside cp listed _
  rcases mem_cons.mp mem with rfl | later
  · cases mem_singleton.mp round
    cases mem_singleton.mp given
    cases mem_singleton.mp inside
    cases mem_singleton.mp listed
    rfl
  · cases mem_singleton.mp later
    cases round

theorem syncedVerifiedTwice :
    (run syncCall ⟨⟨1,100⟩,withCheckpoint,false,0⟩ [honestOnce,caughtUp]).synced = true ∧
    (run syncCall ⟨⟨1,100⟩,withCheckpoint,false,0⟩ [honestOnce,caughtUp]).headerChain.height = 1 ∧
    Verified (run syncCall ⟨⟨1,100⟩,withCheckpoint,false,0⟩ [honestOnce,caughtUp]) := by
  have flag : (run syncCall ⟨⟨1,100⟩,withCheckpoint,false,0⟩ [honestOnce,caughtUp]).synced = true := by decide +kernel
  have along := syncedVerified ⟨1,100⟩ withCheckpoint 0 [honestOnce,caughtUp] (by decide +kernel) honestAnswers
  exact ⟨flag,by decide +kernel,along.2.1 flag⟩

theorem checkpointMissed :
    (endsIn ⟨⟨1,100⟩,withCheckpoint,false,0⟩ behindOnce matches .returned (.error (.checkpointMismatch _)) _) ∧
    (endsIn (syncCall ⟨⟨1,100⟩,withCheckpoint,false,0⟩ behindOnce) caughtUp).succeeded = true ∧
    (run syncCall ⟨⟨1,100⟩,withCheckpoint,false,0⟩ [behindOnce,caughtUp]).synced = true ∧
    (run syncCall ⟨⟨1,100⟩,withCheckpoint,false,0⟩ [behindOnce,caughtUp]).headerChain.verifyCheckpoints =
      .error (.checkpointMismatch 1) := by
  refine ⟨?_,?_,?_,?_⟩ <;> decide +kernel

end QuantumChain.LightClient
