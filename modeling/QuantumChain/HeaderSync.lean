import QuantumChain.HeaderChain

/-! Header synchronisation of the light client.
The nodes' answers are inputs and may be anything. -/
namespace QuantumChain.LightClient
open BitVec
open StepRun

section Consensus
variable {α : Type} [DecidableEq α]

def roundF64 (n : Nat) : Nat :=
  if n < 2^53 then n else
    let unit := 2^(n.log2 - 52)
    let rest := n % unit
    if 2 * rest < unit ∨ (2 * rest = unit ∧ n / unit % 2 = 0) then n / unit * unit else (n / unit + 1) * unit

-- the double nearest to two thirds, in units of 2^-53
def consensusThreshold : Nat := 6004799503160661

def threshold (responses : Nat) : Nat := (roundF64 (roundF64 responses * consensusThreshold) + (2^53 - 1)) / 2^53

example : (List.range 7).map threshold = [0,1,2,2,3,4,4] := by decide +kernel

def tally : List (α × Nat) → α → List (α × Nat)
  | [],response => [(response,1)]
  | (r,count)::rest,response => if r = response then (r,count + 1)::rest else (r,count)::tally rest response

def maxByKey (best entry : α × Nat) : α × Nat := if entry.2 < best.2 then best else entry

def checkConsensus (responses : List α) (minNodes : Nat) : Except LightClientError α :=
  if responses.length < minNodes then .error (.insufficientNodes responses.length minNodes)
  else
    match responses with
    | [] => .error (.consensusFailed "No responses")
    | first::_ =>
      -- a count of zero gives way to the first entry
      let best := (responses.foldl tally []).foldl maxByKey (first,0)
      if best.2 < threshold responses.length then
        .error (.consensusFailed ("Only " ++ toString best.2 ++ "/" ++ toString responses.length ++ " nodes agree (need " ++
          toString (threshold responses.length) ++ ")"))
      else .ok best.1

def fetchWithConsensus (minFullNodes : Nat) (answers : List (Option α)) : Except LightClientError α :=
  if answers.length < minFullNodes then .error (.insufficientNodes answers.length minFullNodes)
  else checkConsensus (answers.filterMap id) minFullNodes

end Consensus

structure LightClientConfig where
  minFullNodes : Nat
  headerBatchSize : U64

structure ChainTip where
  hash : Hash
  height : U64
  confirmations : U64
  deriving DecidableEq

structure SyncResult where
  success : Bool
  headersSynced : U64
  tip : ChainTip
  deriving DecidableEq

structure LightClientService where
  config : LightClientConfig
  headerChain : HeaderChain
  synced : Bool
  networkHeight : U64

abbrev Answers := U64 → U64 → List (Option (List BlockHeader))

inductive Sync where
  | running (networkHeight current syncedCount : U64) (s : LightClientService)
  | returned (result : Except LightClientError SyncResult) (s : LightClientService)

namespace LightClientService

variable (s : LightClientService)

def getChainTip : ChainTip := ⟨s.headerChain.tip,s.headerChain.height,0⟩

def fetchNetworkHeight (tips : List (Option U64)) :
    Except LightClientError U64 × LightClientService :=
  match fetchWithConsensus s.config.minFullNodes tips with
  | .ok height => (.ok height,{s with networkHeight := height})
  | .error e => (.error e,s)

def batchSize (networkHeight current : U64) : U64 :=
  min s.config.headerBatchSize (networkHeight - current + 1)

def fetchHeadersWithConsensus (fromHeight count : U64) (answers : Answers) :
    Except LightClientError (List BlockHeader) :=
  fetchWithConsensus s.config.minFullNodes (answers fromHeight count)

def finish (syncedCount : U64) : Sync :=
  match s.headerChain.verifyCheckpoints with
  | .ok _ =>
    let s := {s with synced := true}
    .returned (.ok ⟨true,syncedCount,s.getChainTip⟩) s
  | .error e => .returned (.error e) s

def loop (networkHeight current syncedCount : U64) (s : LightClientService) : Sync :=
  if current ≤ networkHeight then .running networkHeight current syncedCount s else s.finish syncedCount

def syncHeaders (s : LightClientService) (tips : List (Option U64)) : Sync :=
  match s.fetchNetworkHeight tips with
  | (.error e,s) => .returned (.error e) s
  | (.ok networkHeight,s) =>
    if networkHeight ≤ s.headerChain.height then
      let s := {s with synced := true}
      .returned (.ok ⟨true,0,s.getChainTip⟩) s
    else loop networkHeight (s.headerChain.height + 1) 0 s

end LightClientService

def appendFetched (current syncedCount : U64) (c : HeaderChain) :
    List BlockHeader → Except LightClientError (U64 × U64) × HeaderChain
  | [] => (.ok (current,syncedCount),c)
  | header::rest => andThen (c.append header) fun _ c => appendFetched (current + 1) (syncedCount + 1) c rest

def round : Sync → Answers → Sync
  | .returned result s,_ => .returned result s
  | .running networkHeight current syncedCount s,answers =>
    match s.fetchHeadersWithConsensus current (s.batchSize networkHeight current) answers with
    | .error _ => .returned (.ok ⟨false,0,s.getChainTip⟩) s
    | .ok headers =>
      match appendFetched current syncedCount s.headerChain headers with
      | (.ok (current,syncedCount),chain) =>
        LightClientService.loop networkHeight current syncedCount {s with headerChain := chain}
      | (.error e,chain) => .returned (.error e) {s with headerChain := chain}

def Advances : Sync → Answers → Prop
  | .returned _ _,_ => True
  | .running networkHeight current _ s,answers =>
    ∀ headers, s.fetchHeadersWithConsensus current (s.batchSize networkHeight current) answers = .ok headers →
      headers ≠ [] ∧ current.toNat + headers.length < 2^64

def Returned (t : Sync) : Prop := ∃ result s, t = .returned result s

def Within : Sync → Prop
  | .returned _ _ => True
  | .running networkHeight current _ _ => current ≤ networkHeight

theorem returnedWithin {t} (done : Returned t) : Within t := by
  obtain ⟨_,_,rfl⟩ := done
  trivial

theorem finishReturned (s : LightClientService) (syncedCount) : Returned (s.finish syncedCount) := by
  unfold LightClientService.finish
  split
  · exact ⟨_,_,rfl⟩
  · exact ⟨_,_,rfl⟩

theorem loopWithin (networkHeight current syncedCount) (s) :
    Within (LightClientService.loop networkHeight current syncedCount s) := by
  unfold LightClientService.loop
  split
  · assumption
  · exact returnedWithin (finishReturned s syncedCount)

theorem roundCases (networkHeight current syncedCount) (s) (answers) :
    Returned (round (.running networkHeight current syncedCount s) answers) ∨
      ∃ headers next count chain,
        s.fetchHeadersWithConsensus current (s.batchSize networkHeight current) answers = .ok headers ∧
        appendFetched current syncedCount s.headerChain headers = (.ok (next,count),chain) ∧
        round (.running networkHeight current syncedCount s) answers =
          LightClientService.loop networkHeight next count {s with headerChain := chain} := by
  dsimp only [round]
  cases fetched : s.fetchHeadersWithConsensus current (s.batchSize networkHeight current) answers with
  | error e => exact .inl ⟨_,_,rfl⟩
  | ok headers =>
    dsimp only
    cases appended : appendFetched current syncedCount s.headerChain headers with
    | mk result chain =>
      cases result with
      | error e => exact .inl ⟨_,_,rfl⟩
      | ok counts => exact .inr ⟨headers,counts.1,counts.2,chain,rfl,appended,rfl⟩

theorem roundWithin (t) (answers) (within : Within t) : Within (round t answers) := by
  cases t with
  | returned result s => exact within
  | running networkHeight current syncedCount s =>
    obtain done | ⟨_,_,_,_,_,_,next⟩ := roundCases networkHeight current syncedCount s answers
    · exact returnedWithin done
    · rw [next]
      exact loopWithin _ _ _ _

theorem syncWithin (s : LightClientService) (tips) : Within (s.syncHeaders tips) := by
  unfold LightClientService.syncHeaders
  split
  · trivial
  · split
    · trivial
    · exact loopWithin _ _ _ _

theorem appendFetchedCounts {current syncedCount current' syncedCount' c c' headers}
    (ok : appendFetched current syncedCount c headers = (.ok (current',syncedCount'),c')) :
    current' = current + BitVec.ofNat 64 headers.length := by
  induction headers generalizing current syncedCount c with
  | nil =>
    cases ok
    exact (add_zero _).symm
  | cons header rest ih =>
    unfold appendFetched at ok
    cases result : c.append header with
    | mk first next =>
      rw [result] at ok
      cases first with
      | error e => cases ok
      | ok u =>
        rw [ih ok,List.length_cons,Nat.add_comm rest.length 1,ofNat_add,add_assoc]
        rfl

theorem roundNearer {networkHeight current syncedCount s answers}
    (advances : Advances (.running networkHeight current syncedCount s) answers) :
    Returned (round (.running networkHeight current syncedCount s) answers) ∨
      ∃ next count s', round (.running networkHeight current syncedCount s) answers = .running networkHeight next count s' ∧
        current < next ∧ next ≤ networkHeight := by
  obtain done | ⟨headers,next,count,chain,fetched,appended,step⟩ := roundCases networkHeight current syncedCount s answers
  · exact .inl done
  · obtain ⟨nonempty,fits⟩ := advances headers fetched
    have positive := List.length_pos_iff.mpr nonempty
    have counted := congrArg BitVec.toNat (appendFetchedCounts appended)
    rw [toNat_add,toNat_ofNat,Nat.add_mod_mod,Nat.mod_eq_of_lt fits] at counted
    rw [step]
    unfold LightClientService.loop
    split
    · rename_i inside
      refine .inr ⟨next,count,_,rfl,?_,inside⟩
      rw [lt_def]
      omega
    · exact .inl (finishReturned _ _)

theorem runReturned {t} (done : Returned t) (rounds) : Returned (run round t rounds) := by
  refine runInvariant (I := Returned) (fun t answers done => ?_) done rounds
  obtain ⟨result,s,rfl⟩ := done
  exact ⟨result,s,rfl⟩

theorem runReturns {networkHeight current syncedCount s rounds}
    (inside : current ≤ networkHeight) (enough : networkHeight.toNat < current.toNat + rounds.length)
    (advances : Along round Advances (.running networkHeight current syncedCount s) rounds) :
    Returned (run round (.running networkHeight current syncedCount s) rounds) := by
  induction rounds generalizing current syncedCount s with
  | nil =>
    rw [le_def] at inside
    rw [List.length_nil] at enough
    omega
  | cons answers rest ih =>
    rw [runCons]
    obtain done | ⟨next,count,s',step,nearer,below⟩ := roundNearer advances.1
    · exact runReturned done rest
    · have later := advances.2
      rw [step] at later ⊢
      rw [lt_def] at nearer
      rw [List.length_cons] at enough
      exact ih below (by omega) later

theorem emptyRound {networkHeight current syncedCount s answers}
    (inside : current ≤ networkHeight)
    (empty : s.fetchHeadersWithConsensus current (s.batchSize networkHeight current) answers = .ok []) :
    round (.running networkHeight current syncedCount s) answers = .running networkHeight current syncedCount s := by
  dsimp only [round]
  rw [empty]
  dsimp only [appendFetched]
  rw [LightClientService.loop,if_pos inside]

theorem emptyRounds {networkHeight current syncedCount s answers}
    (inside : current ≤ networkHeight)
    (empty : s.fetchHeadersWithConsensus current (s.batchSize networkHeight current) answers = .ok []) (count) :
    run round (.running networkHeight current syncedCount s) (List.replicate count answers) =
      .running networkHeight current syncedCount s := by
  induction count with
  | zero => rfl
  | succ count ih => rw [List.replicate_succ,runCons,emptyRound inside empty,ih]

theorem syncStarts {s : LightClientService} {tips networkHeight}
    (agreed : fetchWithConsensus s.config.minFullNodes tips = .ok networkHeight)
    (behind : s.headerChain.height < networkHeight) (inside : s.headerChain.height + 1 ≤ networkHeight) :
    s.syncHeaders tips = .running networkHeight (s.headerChain.height + 1) 0 {s with networkHeight := networkHeight} := by
  unfold LightClientService.syncHeaders LightClientService.fetchNetworkHeight
  rw [agreed]
  dsimp only
  rw [if_neg (not_le.mpr behind),LightClientService.loop,if_pos inside]

theorem syncReturns (s : LightClientService) (tips : List (Option U64)) (networkHeight : U64)
    (agreed : fetchWithConsensus s.config.minFullNodes tips = .ok networkHeight)
    (behind : s.headerChain.height < networkHeight) (rounds : List Answers) :
    (Along round Advances (s.syncHeaders tips) rounds →
      networkHeight.toNat - s.headerChain.height.toNat ≤ rounds.length → Returned (run round (s.syncHeaders tips) rounds)) ∧
    (∀ height current count s' answers, run round (s.syncHeaders tips) rounds = .running height current count s' →
      s'.fetchHeadersWithConsensus current (s'.batchSize height current) answers = .ok [] →
        ∀ more, ¬ Returned (run round (s.syncHeaders tips) (rounds ++ List.replicate more answers))) := by
  constructor
  · intro advances enough
    have below := lt_def.mp behind
    have bound := networkHeight.isLt
    have next : (s.headerChain.height + 1).toNat = s.headerChain.height.toNat + 1 := toNatNext (by omega)
    have inside : s.headerChain.height + 1 ≤ networkHeight := by
      rw [le_def]
      omega
    rw [syncStarts agreed behind inside] at advances ⊢
    exact runReturns inside (by omega) advances
  · intro height current count s' answers reached empty more
    have within := runInvariant (I := Within) roundWithin (syncWithin s tips) rounds
    rw [reached] at within
    rw [runAppend,reached,emptyRounds within empty]
    rintro ⟨_,_,same⟩
    cases same

def oneNode : LightClientService := ⟨⟨1,100⟩,HeaderChain.new (plainHeader 7 0 0 1),false,0⟩

theorem oneHeaderReturns : fetchWithConsensus oneNode.config.minFullNodes [some (1 : U64)] = .ok 1 ∧
    oneNode.headerChain.height < 1 ∧
    Returned (run round (oneNode.syncHeaders [some 1]) [fun _ _ => [some [plainHeader 8 7 1 2]]]) := by
  have agreed : fetchWithConsensus oneNode.config.minFullNodes [some (1 : U64)] = .ok 1 := by rfl
  have behind : oneNode.headerChain.height < 1 := by decide
  refine ⟨agreed,behind,(syncReturns oneNode [some 1] 1 agreed behind _).1 ⟨?_,trivial⟩ (by decide)⟩
  intro headers fetched
  have same : Except.ok [plainHeader 8 7 1 2] = Except.ok headers := Eq.trans (by rfl) fetched
  cases same
  exact ⟨List.cons_ne_nil _ _,by decide⟩

theorem emptyBatchesNeverReturn : fetchWithConsensus oneNode.config.minFullNodes [some (1 : U64)] = .ok 1 ∧
    oneNode.headerChain.height < 1 ∧ 1 ≤ oneNode.config.headerBatchSize ∧
    ¬ ∃ count, Returned (run round (oneNode.syncHeaders [some 1]) (List.replicate count fun _ _ => [some []])) := by
  refine ⟨by rfl,by decide,by decide,?_⟩
  rintro ⟨count,result,s,done⟩
  have start : oneNode.syncHeaders [some 1] = .running 1 1 0 {oneNode with networkHeight := 1} := by rfl
  rw [start,emptyRounds (by decide) (by rfl)] at done
  cases done

end QuantumChain.LightClient
