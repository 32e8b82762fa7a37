import QuantumChain.StepRun
import QuantumChain.FixedWidth
import Mathlib.Data.Finset.Card

/-! The coordinator of a cross-shard transaction.
Lock proofs may come from anyone; their content is not checked. -/
namespace QuantumChain.Sharding
open List
open StepRun

abbrev ShardId := BitVec 16

inductive CrossShardState where
  | pending
  | locked
  | committed
  | aborted
  deriving DecidableEq, Repr

namespace CrossShardState

def canTransitionTo : CrossShardState → CrossShardState → Bool
  | .pending,.locked | .pending,.aborted | .locked,.committed | .locked,.aborted => true
  | _,_ => false

def isTerminal : CrossShardState → Bool
  | .committed | .aborted => true
  | _ => false

def debug : CrossShardState → String
  | .pending => "Pending"
  | .locked => "Locked"
  | .committed => "Committed"
  | .aborted => "Aborted"

theorem openAborts {s : CrossShardState} (live : s.isTerminal = false) : s.canTransitionTo .aborted = true := by
  cases s with
  | pending => rfl
  | locked => rfl
  | committed => cases live
  | aborted => cases live

theorem openLocks {s : CrossShardState} (live : s.isTerminal = false) : .locked = s ∨ s.canTransitionTo .locked = true := by
  cases s with
  | pending => exact .inr rfl
  | locked => exact .inl rfl
  | committed => cases live
  | aborted => cases live

end CrossShardState

structure LockData where
  txHash : Hash
  shardId : ShardId
  account : Address
  amount : U64
  expiresAt : U64
  deriving DecidableEq, Repr

structure Signature where
  validatorId : Hash
  signatureBytes : Bytes
  deriving DecidableEq, Repr

structure LockProof where
  lockData : LockData
  merkleProof : List Hash
  signatures : List Signature
  deriving DecidableEq, Repr

inductive AbortReason where
  | lockFailed (shardId : ShardId) (reason : String)
  | timeout
  | insufficientSignatures
  | coordinatorAbort
  | networkPartition
  deriving DecidableEq, Repr

inductive ShardError where
  | unknownShard (shardId : ShardId)
  | lockFailed (reason : String)
  | timeout (secs : U64)
  | invalidProof
  | insufficientSignatures (got required : Nat)
  | alreadyProcessed (txHash : Hash)
  | stateInconsistency (reason : String)
  | invalidTransition (source target : String)
  | networkError (reason : String)
  | configError (reason : String)
  | epochMismatch (expected got : U64)
  deriving DecidableEq, Repr

structure TwoPhaseCoordinator where
  txHash : Hash
  sourceShard : ShardId
  targetShards : List ShardId
  state : CrossShardState
  lockProofs : List LockProof
  timeoutSecs : U64
  deriving DecidableEq, Repr

namespace TwoPhaseCoordinator

def new (txHash : Hash) (sourceShard : ShardId) (targetShards : List ShardId) (timeoutSecs : U64) : TwoPhaseCoordinator :=
  ⟨txHash,sourceShard,targetShards,.pending,[],timeoutSecs⟩

variable (c : TwoPhaseCoordinator)

def isTimeout (elapsed : U64) : Bool := decide (c.timeoutSecs < elapsed)

def addLockProof (proof : LockProof) (elapsed : U64) : Except ShardError Unit × TwoPhaseCoordinator :=
  if c.isTimeout elapsed then (.error (.timeout c.timeoutSecs),c)
  else if c.state ≠ .pending then (.error (.invalidTransition c.state.debug "receiving locks"),c)
  else (.ok (),{c with lockProofs := c.lockProofs ++ [proof]})

def allLocksAcquired : Bool := decide (c.targetShards.length < c.lockProofs.length)

def tryLock (elapsed : U64) : Except ShardError Unit × TwoPhaseCoordinator :=
  if c.isTimeout elapsed then (.error (.timeout c.timeoutSecs),{c with state := .aborted})
  else if !c.allLocksAcquired then
    (.error (.lockFailed ("Only " ++ toString c.lockProofs.length ++ " of " ++ toString (c.targetShards.length + 1) ++
      " locks acquired")),c)
  else (.ok (),{c with state := .locked})

def commit : Except ShardError Unit × TwoPhaseCoordinator :=
  if c.state ≠ .locked then (.error (.invalidTransition c.state.debug "Committed"),c)
  else (.ok (),{c with state := .committed})

def abort (reason : AbortReason) : Except ShardError AbortReason × TwoPhaseCoordinator :=
  if c.state.isTerminal then (.error (.invalidTransition c.state.debug "Aborted"),c)
  else (.ok reason,{c with state := .aborted})

end TwoPhaseCoordinator

namespace TwoPhaseCoordinator

inductive Call where
  | addLockProof (proof : LockProof) (elapsed : U64)
  | tryLock (elapsed : U64)
  | commit (elapsed : U64)
  | abort (reason : AbortReason) (elapsed : U64)
  deriving DecidableEq, Repr

def Call.elapsed : Call → U64
  | .addLockProof _ elapsed | .tryLock elapsed | .commit elapsed | .abort _ elapsed => elapsed

def step (c : TwoPhaseCoordinator) : Call → TwoPhaseCoordinator
  | .addLockProof proof elapsed => (c.addLockProof proof elapsed).2
  | .tryLock elapsed => (c.tryLock elapsed).2
  | .commit _ => c.commit.2
  | .abort reason _ => (c.abort reason).2

inductive Moved (c : TwoPhaseCoordinator) : Call → TwoPhaseCoordinator → Prop where
  | refused (call : Call) : Moved c call c
  | received (proof : LockProof) {elapsed : U64} : c.isTimeout elapsed = false → c.state = .pending →
      Moved c (.addLockProof proof elapsed) {c with lockProofs := c.lockProofs ++ [proof]}
  | expired {elapsed : U64} : c.isTimeout elapsed = true → Moved c (.tryLock elapsed) {c with state := .aborted}
  | locked {elapsed : U64} : c.isTimeout elapsed = false → c.allLocksAcquired = true →
      Moved c (.tryLock elapsed) {c with state := .locked}
  | committed (elapsed : U64) : c.state = .locked → Moved c (.commit elapsed) {c with state := .committed}
  | aborted (reason : AbortReason) (elapsed : U64) : c.state.isTerminal = false →
      Moved c (.abort reason elapsed) {c with state := .aborted}

theorem stepMoved (c) (call) : Moved c call (c.step call) := by
  cases call with
  | addLockProof proof elapsed =>
    change Moved c _ (c.addLockProof proof elapsed).2
    unfold addLockProof
    split
    · exact .refused _
    · rename_i live
      split
      · exact .refused _
      · rename_i fresh
        exact .received proof (Bool.eq_false_iff.mpr live) (not_not.mp fresh)
  | tryLock elapsed =>
    change Moved c _ (c.tryLock elapsed).2
    unfold tryLock
    split
    · rename_i late
      exact .expired late
    · rename_i live
      split
      · exact .refused _
      · rename_i enough
        exact .locked (Bool.eq_false_iff.mpr live) (by simpa using enough)
  | commit elapsed =>
    change Moved c _ (c.commit).2
    unfold commit
    split
    · exact .refused _
    · rename_i locked
      exact .committed elapsed (not_not.mp locked)
  | abort reason elapsed =>
    change Moved c _ (c.abort reason).2
    unfold abort
    split
    · exact .refused _
    · rename_i open'
      exact .aborted reason elapsed (Bool.eq_false_iff.mpr open')

/-- The source and every target have given a proof for the transaction itself. -/
def Covered (c : TwoPhaseCoordinator) : Prop :=
  ∀ shard, shard = c.sourceShard ∨ shard ∈ c.targetShards →
    ∃ proof ∈ c.lockProofs, proof.lockData.shardId = shard ∧ proof.lockData.txHash = c.txHash

def Vetted (c : TwoPhaseCoordinator) : Call → Prop
  | .addLockProof proof elapsed => c.isTimeout elapsed = false → c.state = .pending →
      proof.lockData.txHash = c.txHash ∧
      (proof.lockData.shardId = c.sourceShard ∨ proof.lockData.shardId ∈ c.targetShards) ∧
      ∀ earlier ∈ c.lockProofs, earlier.lockData.shardId ≠ proof.lockData.shardId
  | _ => True

structure Sound (c : TwoPhaseCoordinator) : Prop where
  once : (c.lockProofs.map fun proof => proof.lockData.shardId).Nodup
  own : ∀ proof ∈ c.lockProofs, proof.lockData.txHash = c.txHash ∧
    (proof.lockData.shardId = c.sourceShard ∨ proof.lockData.shardId ∈ c.targetShards)

theorem soundCovered {c : TwoPhaseCoordinator} (sound : c.Sound) (enough : c.allLocksAcquired = true) : c.Covered := by
  have count := of_decide_eq_true enough
  have inside : (c.lockProofs.map fun proof => proof.lockData.shardId).toFinset ⊆
    (c.sourceShard::c.targetShards).toFinset := by
    intro shard mem
    obtain ⟨proof,held,rfl⟩ := mem_map.mp (mem_toFinset.mp mem)
    rw [mem_toFinset,mem_cons]
    exact (sound.own proof held).2
  have card : (c.sourceShard::c.targetShards).toFinset.card ≤
      (c.lockProofs.map fun proof => proof.lockData.shardId).toFinset.card := by
    rw [toFinset_card_of_nodup sound.once,length_map]
    exact Nat.le_trans (toFinset_card_le _) count
  have all := Finset.eq_of_subset_of_card_le inside card
  intro shard involved
  have awaited : shard ∈ (c.sourceShard::c.targetShards).toFinset := by
    rw [mem_toFinset,mem_cons]
    exact involved
  rw [← all,mem_toFinset] at awaited
  obtain ⟨proof,held,same⟩ := mem_map.mp awaited
  exact ⟨proof,held,same,(sound.own proof held).1⟩

theorem soundStep {c : TwoPhaseCoordinator} {call} (sound : c.Sound) (vetted : c.Vetted call) : (c.step call).Sound := by
  have moved := stepMoved c call
  generalize c.step call = next at moved
  cases moved with
  | refused => exact sound
  | received proof live fresh =>
    obtain ⟨own,involved,first⟩ := vetted live fresh
    constructor
    · rw [map_append,map_singleton]
      refine nodup_append.mpr ⟨sound.once,nodup_singleton _,?_⟩
      intro shard mem other same
      obtain ⟨earlier,held,rfl⟩ := mem_map.mp mem
      exact mem_singleton.mp same ▸ first earlier held
    · intro held mem
      rcases mem_append.mp mem with before | now
      · exact sound.own held before
      · cases mem_singleton.mp now
        exact ⟨own,involved⟩
  | expired => exact ⟨sound.once,sound.own⟩
  | locked => exact ⟨sound.once,sound.own⟩
  | committed => exact ⟨sound.once,sound.own⟩
  | aborted => exact ⟨sound.once,sound.own⟩

def Counted (c : TwoPhaseCoordinator) : Prop :=
  c.state = .locked ∨ c.state = .committed → c.allLocksAcquired = true

theorem countedStep {c : TwoPhaseCoordinator} (call) (counted : c.Counted) : (c.step call).Counted := by
  have moved := stepMoved c call
  generalize c.step call = next at moved
  cases moved with
  | refused => exact counted
  | received proof _ fresh =>
    intro later
    rw [fresh] at later
    rcases later with same | same <;> cases same
  | expired =>
    intro later
    rcases later with same | same <;> cases same
  | locked _ enough => exact fun _ => enough
  | committed _ locked => exact fun _ => counted (.inl locked)
  | aborted =>
    intro later
    rcases later with same | same <;> cases same

/-- A commit that will go through is called with every lock in place. -/
def Guarded (c : TwoPhaseCoordinator) : Call → Prop
  | .commit _ => c.state = .locked → c.Covered
  | _ => True

/-- Committed means that every lock is in place. -/
def CommitCovered (c : TwoPhaseCoordinator) : Prop := c.state = .committed → c.Covered

theorem guardedStep {c : TwoPhaseCoordinator} {call} (covered : c.CommitCovered) (guarded : c.Guarded call) :
    (c.step call).CommitCovered := by
  have moved := stepMoved c call
  generalize c.step call = next at moved
  cases moved with
  | refused => exact covered
  | received proof _ fresh =>
    intro committed
    rw [fresh] at committed
    cases committed
  | expired => exact nofun
  | locked => exact nofun
  | committed _ locked => exact fun _ => guarded locked
  | aborted => exact nofun

theorem coveredGuarded {c : TwoPhaseCoordinator} {call} (covered : (c.step call).CommitCovered) : c.Guarded call := by
  cases call with
  | commit elapsed =>
    intro locked
    have made : c.step (.commit elapsed) = {c with state := .committed} := by
      change c.commit.2 = _
      unfold commit
      rw [if_neg (not_not.mpr locked)]
    rw [made] at covered
    exact covered rfl
  | addLockProof proof elapsed => trivial
  | tryLock elapsed => trivial
  | abort reason elapsed => trivial

section Runs
variable (txHash : Hash) (sourceShard : ShardId) (targetShards : List ShardId) (timeoutSecs : U64) (calls : List Call)

theorem newCounted : (new txHash sourceShard targetShards timeoutSecs).Counted := by
  intro later
  rcases later with same | same <;> cases same

theorem countedReached (i) : (reached step (new txHash sourceShard targetShards timeoutSecs) calls i).Counted :=
  runInvariant (fun _ call counted => countedStep call counted) (newCounted txHash sourceShard targetShards timeoutSecs) _

theorem commitsCoveredIff : (∀ i, (reached step (new txHash sourceShard targetShards timeoutSecs) calls i).CommitCovered) ↔
    Along step Guarded (new txHash sourceShard targetShards timeoutSecs) calls := by
  rw [alongReached]
  constructor
  · intro covered i call at'
    have next := covered (i + 1)
    rw [reachedNext at'] at next
    exact coveredGuarded next
  · intro guarded i
    exact reachedKeeps (fun k call at' covered => guardedStep covered (guarded k call at')) (Nat.zero_le i) nofun

theorem vettedCovered (vetted : Along step Vetted (new txHash sourceShard targetShards timeoutSecs) calls) (i) :
    (reached step (new txHash sourceShard targetShards timeoutSecs) calls i).CommitCovered := by
  intro committed
  have start : (new txHash sourceShard targetShards timeoutSecs).Sound := ⟨nodup_nil,nofun⟩
  have sound := reachedKeeps (fun k call at' sound => soundStep sound (alongReached.mp vetted k call at'))
    (Nat.zero_le i) start
  exact soundCovered sound (countedReached txHash sourceShard targetShards timeoutSecs calls i (.inr committed))

theorem committedLocks :
    ((∀ i, (reached step (new txHash sourceShard targetShards timeoutSecs) calls i).CommitCovered) ↔
      Along step Guarded (new txHash sourceShard targetShards timeoutSecs) calls) ∧
    (Along step Vetted (new txHash sourceShard targetShards timeoutSecs) calls →
      ∀ i, (reached step (new txHash sourceShard targetShards timeoutSecs) calls i).CommitCovered) :=
  ⟨commitsCoveredIff txHash sourceShard targetShards timeoutSecs calls,
    vettedCovered txHash sourceShard targetShards timeoutSecs calls⟩

def ownProofs : List Call :=
  [1,0,2].map (fun shard => .addLockProof ⟨⟨1,shard,0,0,0⟩,[],[]⟩ 0) ++ [.tryLock 0,.commit 0]

theorem ownProofsCommit : (reached step (new 1 0 [1,2] 30) ownProofs 5).state = .committed ∧
    (reached step (new 1 0 [1,2] 30) ownProofs 5).Covered := by
  have committed : (reached step (new 1 0 [1,2] 30) ownProofs 5).state = .committed := by decide +kernel
  have vetted : Along step Vetted (new 1 0 [1,2] 30) ownProofs := by
    refine ⟨fun _ _ => ?_,fun _ _ => ?_,fun _ _ => ?_,trivial,trivial,trivial⟩ <;> decide +kernel
  exact ⟨committed,(committedLocks 1 0 [1,2] 30 ownProofs).2 vetted 5 committed⟩

def foreignProofs : List Call :=
  List.replicate 3 (.addLockProof ⟨⟨2,9,0,0,0⟩,[],[]⟩ 0) ++ [.tryLock 0,.commit 0]

theorem foreignProofsCommit : ¬ (reached step (new 1 0 [1,2] 30) foreignProofs 5).CommitCovered := by
  intro covered
  obtain ⟨proof,held,shard,_⟩ := covered (by decide) 0 (.inl (by decide))
  have foreign : ∀ proof ∈ (reached step (new 1 0 [1,2] 30) foreignProofs 5).lockProofs, proof.lockData.shardId ≠ 0 := by
    decide
  exact foreign proof held shard

/-- No lock attempt after a commit, and none after an abort that would still succeed. -/
def Settled (c : TwoPhaseCoordinator) : Call → Prop
  | .tryLock elapsed => c.state ≠ .committed ∧
      (c.state = .aborted → c.isTimeout elapsed = true ∨ c.allLocksAcquired = false)
  | _ => True

theorem settledKeeps {c : TwoPhaseCoordinator} {call} (settled : c.Settled call) (final : c.state.isTerminal = true) :
    (c.step call).state = c.state := by
  have moved := stepMoved c call
  generalize c.step call = next at moved
  cases moved with
  | refused => rfl
  | received => rfl
  | expired late =>
    cases was : c.state with
    | aborted => rfl
    | committed => exact absurd was settled.1
    | pending => simp [was,CrossShardState.isTerminal] at final
    | locked => simp [was,CrossShardState.isTerminal] at final
  | locked live enough =>
    cases was : c.state with
    | aborted =>
      rcases settled.2 was with late | missing
      · simp [live] at late
      · simp [enough] at missing
    | committed => exact absurd was settled.1
    | pending => simp [was,CrossShardState.isTerminal] at final
    | locked => rfl
  | committed _ locked => simp [locked,CrossShardState.isTerminal] at final
  | aborted _ _ live => simp [live] at final

theorem tryLockState (c : TwoPhaseCoordinator) (elapsed) : (c.step (.tryLock elapsed)).state =
    if c.isTimeout elapsed then .aborted else if c.allLocksAcquired then .locked else c.state := by
  change (c.tryLock elapsed).2.state = _
  unfold tryLock
  split
  · rfl
  · cases c.allLocksAcquired <;> rfl

theorem keptSettled {c : TwoPhaseCoordinator} {call} (counted : c.Counted)
    (kept : c.state.isTerminal = true → (c.step call).state = c.state) : c.Settled call := by
  cases call with
  | tryLock elapsed =>
    rw [tryLockState] at kept
    constructor
    · intro was
      have same := kept (was ▸ rfl)
      rw [counted (.inr was),was] at same
      split at same <;> cases same
    · intro was
      have same := kept (was ▸ rfl)
      rw [was] at same
      cases late : c.isTimeout elapsed with
      | true => exact .inl rfl
      | false =>
        cases enough : c.allLocksAcquired with
        | false => exact .inr rfl
        | true =>
          rw [late,enough] at same
          cases same
  | addLockProof proof elapsed => trivial
  | commit elapsed => trivial
  | abort reason elapsed => trivial

theorem decisionFinalIff :
    (∀ i j, i ≤ j → (reached step (new txHash sourceShard targetShards timeoutSecs) calls i).state.isTerminal = true →
      (reached step (new txHash sourceShard targetShards timeoutSecs) calls j).state =
        (reached step (new txHash sourceShard targetShards timeoutSecs) calls i).state) ↔
      Along step Settled (new txHash sourceShard targetShards timeoutSecs) calls := by
  have start := newCounted txHash sourceShard targetShards timeoutSecs
  have keeps : ∀ (c : TwoPhaseCoordinator) call, c.Counted → (c.step call).Counted :=
    fun _ call counted => countedStep call counted
  rw [finalReached state (F := fun s => s.isTerminal = true)]
  constructor
  · exact alongImplies keeps (fun c call counted kept => keptSettled counted kept) start
  · exact alongImplies keeps (fun c call _ settled final => settledKeeps settled final) start

end Runs

def lateRetry : List Call :=
  (List.replicate 3 (.addLockProof ⟨⟨1,0,0,0,0⟩,[],[]⟩ 0) ++ [.tryLock 1,.commit 2,.tryLock 31] : List Call)

theorem commitAborted : (lateRetry.map Call.elapsed).Pairwise (· ≤ ·) ∧
    (reached step (new 1 0 [1,2] 30) lateRetry 5).state = .committed ∧
    (reached step (new 1 0 [1,2] 30) lateRetry 6).state = .aborted := by
  decide

def Lawful (c : TwoPhaseCoordinator) (call : Call) : Prop :=
  (c.step call).state = c.state ∨ c.state.canTransitionTo (c.step call).state = true

theorem settledLawful {c : TwoPhaseCoordinator} {call} (settled : c.Settled call) : c.Lawful call := by
  cases final : c.state.isTerminal with
  | true => exact .inl (settledKeeps settled final)
  | false =>
    unfold Lawful
    have moved := stepMoved c call
    generalize c.step call = next at moved
    cases moved with
    | refused => exact .inl rfl
    | received => exact .inl rfl
    | expired => exact .inr (CrossShardState.openAborts final)
    | locked => exact CrossShardState.openLocks final
    | committed _ locked => exact .inr (locked ▸ rfl)
    | aborted => exact .inr (CrossShardState.openAborts final)

theorem lawfulSettled {c : TwoPhaseCoordinator} {call} (counted : c.Counted) (lawful : c.Lawful call) : c.Settled call := by
  refine keptSettled counted fun final => lawful.resolve_right fun moves => ?_
  cases was : c.state with
  | committed => rw [was] at moves; cases moves
  | aborted => rw [was] at moves; cases moves
  | _ => rw [was] at final; cases final

theorem lawfulIff (txHash : Hash) (sourceShard : ShardId) (targetShards : List ShardId) (timeoutSecs : U64)
    (calls : List Call) :
    Along step Lawful (new txHash sourceShard targetShards timeoutSecs) calls ↔
      Along step Settled (new txHash sourceShard targetShards timeoutSecs) calls := by
  have start := newCounted txHash sourceShard targetShards timeoutSecs
  have keeps : ∀ (c : TwoPhaseCoordinator) call, c.Counted → (c.step call).Counted :=
    fun _ call counted => countedStep call counted
  constructor
  · exact alongImplies keeps (fun _ _ counted lawful => lawfulSettled counted lawful) start
  · exact alongImplies keeps (fun _ _ _ settled => settledLawful settled) start

end TwoPhaseCoordinator
end QuantumChain.Sharding
