import QuantumChain.StepRun
import QuantumChain.FixedWidth

/-! Hash time-locked contracts and the timelocks of a swap.
Each call brings its own time; the chains themselves are not modelled. -/
namespace QuantumChain.CrossChain
open StepRun

inductive ChainId where
  | quantumChain
  | ethereum
  | bitcoin
  | polygon
  | arbitrum
  deriving DecidableEq, Repr

structure ChainAddress where
  chain : ChainId
  address : Address
  deriving DecidableEq, Repr

abbrev Secret := BitVec 256

inductive HtlcState where
  | pending
  | locked
  | claimed
  | expired
  | refunded
  deriving DecidableEq, Repr

namespace HtlcState

def canTransitionTo (state next : HtlcState) (currentTime timelock : U64) : Bool :=
  match state,next with
  | .pending,.locked => true
  | .locked,.claimed => decide (currentTime ≤ timelock)
  | .locked,.expired => decide (timelock < currentTime)
  | .expired,.refunded => true
  | _,_ => false

def isTerminal (state : HtlcState) : Bool := decide (state = .claimed ∨ state = .refunded)

def debug : HtlcState → String
  | .pending => "Pending"
  | .locked => "Locked"
  | .claimed => "Claimed"
  | .expired => "Expired"
  | .refunded => "Refunded"

end HtlcState

inductive CrossChainError where
  | htlcExpired
  | htlcNotExpired
  | invalidHtlcTransition (source target : String)
  | invalidTimelockMargin (sourceTimelock targetTimelock requiredMargin : U64)
  deriving DecidableEq, Repr

structure HtlcParams where
  id : Hash
  hashLock : Hash
  timeLock : U64
  amount : U64
  sender : ChainAddress
  recipient : ChainAddress
  createdAt : U64
  deriving DecidableEq, Repr

structure Htlc where
  id : Hash
  hashLock : Hash
  timeLock : U64
  amount : U64
  sender : ChainAddress
  recipient : ChainAddress
  state : HtlcState
  secret : Option Secret
  createdAt : U64
  deriving DecidableEq, Repr

namespace Htlc

def new (params : HtlcParams) : Htlc where
  id := params.id
  hashLock := params.hashLock
  timeLock := params.timeLock
  amount := params.amount
  sender := params.sender
  recipient := params.recipient
  state := .pending
  secret := none
  createdAt := params.createdAt

variable (htlc : Htlc)

def isExpired (currentTime : U64) : Bool := decide (htlc.timeLock < currentTime)

def transitionTo (newState : HtlcState) (currentTime : U64) : Except CrossChainError Unit × Htlc :=
  if htlc.state.canTransitionTo newState currentTime htlc.timeLock then (.ok (),{htlc with state := newState})
  else (.error (.invalidHtlcTransition htlc.state.debug newState.debug),htlc)

def claim (secret : Secret) (currentTime : U64) : Except CrossChainError Unit × Htlc :=
  if htlc.isExpired currentTime then (.error .htlcExpired,htlc)
  else (.ok (),{htlc with secret := some secret, state := .claimed})

def refund (currentTime : U64) : Except CrossChainError Unit × Htlc :=
  if htlc.isExpired currentTime then (.ok (),{htlc with state := .refunded})
  else (.error .htlcNotExpired,htlc)

inductive Call where
  | transitionTo (newState : HtlcState) (currentTime : U64)
  | claim (secret : Secret) (currentTime : U64)
  | refund (currentTime : U64)
  deriving DecidableEq, Repr

def Call.time : Call → U64
  | .transitionTo _ currentTime => currentTime
  | .claim _ currentTime => currentTime
  | .refund currentTime => currentTime

def perform (htlc : Htlc) : Call → Except CrossChainError Unit × Htlc
  | .transitionTo newState currentTime => htlc.transitionTo newState currentTime
  | .claim secret currentTime => htlc.claim secret currentTime
  | .refund currentTime => htlc.refund currentTime

def step (htlc : Htlc) (call : Call) : Htlc := (htlc.perform call).2

theorem claimOk {htlc : Htlc} {secret currentTime} :
    (htlc.claim secret currentTime).1 = .ok () ↔ htlc.isExpired currentTime = false := by
  unfold claim
  cases htlc.isExpired currentTime <;> simp

theorem refundOk {htlc : Htlc} {currentTime} :
    (htlc.refund currentTime).1 = .ok () ↔ htlc.isExpired currentTime = true := by
  unfold refund
  cases htlc.isExpired currentTime <;> simp

theorem stepState (htlc : Htlc) (call) : (htlc.step call).state = htlc.state ∨
    (∃ newState time, call = .transitionTo newState time ∧ (htlc.step call).state = newState ∧
      htlc.state.canTransitionTo newState time htlc.timeLock = true) ∨
    (∃ secret time, call = .claim secret time ∧ (htlc.step call).state = .claimed ∧ htlc.isExpired time = false) ∨
    (∃ time, call = .refund time ∧ (htlc.step call).state = .refunded ∧ htlc.isExpired time = true) := by
  cases call with
  | transitionTo newState time =>
    cases allowed : htlc.state.canTransitionTo newState time htlc.timeLock with
    | true => exact .inr (.inl ⟨newState,time,rfl,by simp [step,perform,transitionTo,allowed],allowed⟩)
    | false => exact .inl (by simp [step,perform,transitionTo,allowed])
  | claim secret time =>
    cases expired : htlc.isExpired time with
    | true => exact .inl (by simp [step,perform,claim,expired])
    | false => exact .inr (.inr (.inl ⟨secret,time,rfl,by simp [step,perform,claim,expired],expired⟩))
  | refund time =>
    cases expired : htlc.isExpired time with
    | true => exact .inr (.inr (.inr ⟨time,rfl,by simp [step,perform,refund,expired],expired⟩))
    | false => exact .inl (by simp [step,perform,refund,expired])

theorem stepLocks (htlc : Htlc) (call) :
    (htlc.step call).hashLock = htlc.hashLock ∧ (htlc.step call).timeLock = htlc.timeLock := by
  cases call with
  | transitionTo newState time =>
    simp only [step,perform,transitionTo]
    split <;> exact ⟨rfl,rfl⟩
  | claim secret time =>
    simp only [step,perform,claim]
    split <;> exact ⟨rfl,rfl⟩
  | refund time =>
    simp only [step,perform,refund]
    split <;> exact ⟨rfl,rfl⟩

theorem leavesPending {state next : HtlcState} {time timelock}
    (allowed : state.canTransitionTo next time timelock = true) : next ≠ .pending := by
  rintro rfl
  cases state <;> cases allowed

theorem stepNotPending {htlc : Htlc} {call} (started : htlc.state ≠ .pending) : (htlc.step call).state ≠ .pending := by
  rcases stepState htlc call with same | ⟨newState,time,_,now,allowed⟩ | ⟨secret,time,_,now,_⟩ | ⟨time,_,now,_⟩
  · exact same ▸ started
  · exact now ▸ leavesPending allowed
  · exact now ▸ nofun
  · exact now ▸ nofun

def Guarded (sha256 : Bytes → Hash) (htlc : Htlc) : Call → Prop
  | .transitionTo _ _ => True
  | .claim secret time => htlc.isExpired time = false → htlc.state = .locked ∧ sha256 (wordBytes secret) = htlc.hashLock
  | .refund time => htlc.isExpired time = true → htlc.state ≠ .pending ∧ htlc.state ≠ .claimed

variable {sha256 : Bytes → Hash}

theorem guardedFinal {htlc call} (guarded : Guarded sha256 htlc call)
    (final : htlc.state.isTerminal = true) : (htlc.step call).state = htlc.state := by
  have ended := of_decide_eq_true final
  rcases stepState htlc call with same | ⟨newState,time,rfl,_,allowed⟩ | ⟨secret,time,rfl,_,live⟩ | ⟨time,rfl,now,expired⟩
  · exact same
  · rcases ended with here | here <;> rw [here] at allowed <;> cases allowed
  · have locked := (guarded live).1
    rcases ended with here | here <;> rw [here] at locked <;> cases locked
  · rcases ended with here | here
    · exact absurd here (guarded expired).2
    · exact now.trans here.symm

theorem guardedLocks {htlc call} (guarded : Guarded sha256 htlc call)
    (fresh : htlc.state = .pending) : (htlc.step call).state = .pending ∨ (htlc.step call).state = .locked := by
  rcases stepState htlc call with same | ⟨newState,time,rfl,now,allowed⟩ | ⟨secret,time,rfl,_,live⟩ | ⟨time,rfl,now,expired⟩
  · exact .inl (same.trans fresh)
  · rw [fresh] at allowed
    rw [now]
    cases newState with
    | locked => exact .inr rfl
    | _ => cases allowed
  · have locked := (guarded live).1
    rw [fresh] at locked
    cases locked
  · exact absurd fresh (guarded expired).1

section Runs
variable {htlc : Htlc} {calls : List Call}

structure Safe (sha256 : Bytes → Hash) (htlc : Htlc) (calls : List Call) : Prop where
  exclusive : ∀ i j, ¬((reached step htlc calls i).state = .claimed ∧ (reached step htlc calls j).state = .refunded)
  final : ∀ i j, i ≤ j → (reached step htlc calls i).state.isTerminal = true →
    (reached step htlc calls j).state = (reached step htlc calls i).state
  claims : ∀ i secret time, calls[i]? = some (.claim secret time) →
    ((reached step htlc calls i).claim secret time).1 = .ok () →
    (reached step htlc calls i).state = .locked ∧ sha256 (wordBytes secret) = htlc.hashLock
  refunds : ∀ i time, calls[i]? = some (.refund time) → ((reached step htlc calls i).refund time).1 = .ok () →
    (∃ j ≤ i, (reached step htlc calls j).state = .locked) ∧ htlc.timeLock < time

theorem reachedLocks (htlc) (calls) (i) :
    (reached step htlc calls i).hashLock = htlc.hashLock ∧ (reached step htlc calls i).timeLock = htlc.timeLock :=
  ⟨runFrame (fun h => h.hashLock) (fun h call => (stepLocks h call).1) htlc _,
    runFrame (fun h => h.timeLock) (fun h call => (stepLocks h call).2) htlc _⟩

variable (guarded : ∀ i call, calls[i]? = some call → Guarded sha256 (reached step htlc calls i) call)
include guarded

theorem finalKept {i j} (later : i ≤ j) (final : (reached step htlc calls i).state.isTerminal = true) :
    (reached step htlc calls j).state = (reached step htlc calls i).state := by
  have steady : Along step (fun h call => h.state.isTerminal = true → (step h call).state = h.state) htlc calls :=
    alongReached.mpr fun k call at' final => guardedFinal (guarded k call at') final
  exact (finalReached Htlc.state (F := fun s => s.isTerminal = true)).mpr steady i j later final

theorem lockedBefore (fresh : htlc.state = .pending) (i) :
    (reached step htlc calls i).state = .pending ∨ ∃ j ≤ i, (reached step htlc calls j).state = .locked := by
  induction i with
  | zero => exact .inl fresh
  | succ i ih =>
    rcases ih with still | ⟨j,before,locked⟩
    · cases at' : calls[i]? with
      | none => exact .inl (reachedPast at' ▸ still)
      | some call =>
        rcases guardedLocks (guarded i call at') still with same | locked
        · exact .inl (reachedNext at' ▸ same)
        · exact .inr ⟨i + 1,Nat.le_refl _,reachedNext at' ▸ locked⟩
    · exact .inr ⟨j,Nat.le_succ_of_le before,locked⟩

theorem guardedSafe (fresh : htlc.state = .pending) : Safe sha256 htlc calls where
  exclusive i j both := by
    obtain ⟨claimed,refunded⟩ := both
    rcases Nat.le_total i j with later | later
    · have kept := finalKept guarded later (by rw [claimed]; rfl)
      rw [claimed,refunded] at kept
      cases kept
    · have kept := finalKept guarded later (by rw [refunded]; rfl)
      rw [claimed,refunded] at kept
      cases kept
  final _ _ later final := finalKept guarded later final
  claims i secret time at' ok := by
    obtain ⟨locked,matching⟩ := guarded i _ at' (claimOk.mp ok)
    exact ⟨locked,matching.trans (reachedLocks htlc calls i).1⟩
  refunds i time at' ok := by
    have expired := refundOk.mp ok
    have late := of_decide_eq_true expired
    rw [(reachedLocks htlc calls i).2] at late
    refine ⟨?_,late⟩
    rcases lockedBefore guarded fresh i with still | locked
    · exact absurd still (guarded i _ at' expired).1
    · exact locked

end Runs

theorem htlcSafeIff (sha256 : Bytes → Hash) (params : HtlcParams) (calls : List Call) :
    Safe sha256 (new params) calls ↔ Along step (Guarded sha256) (new params) calls := by
  rw [alongReached]
  refine ⟨fun safe i call at' => ?_,fun guarded => guardedSafe guarded rfl⟩
  cases call with
  | transitionTo newState time => exact trivial
  | claim secret time =>
    intro live
    obtain ⟨locked,matching⟩ := safe.claims i secret time at' (claimOk.mpr live)
    exact ⟨locked,matching.trans (reachedLocks _ calls i).1.symm⟩
  | refund time =>
    intro expired
    constructor
    · obtain ⟨j,before,locked⟩ := (safe.refunds i time at' (refundOk.mpr expired)).1
      exact reachedKeeps (I := fun h : Htlc => h.state ≠ .pending) (fun _ _ _ started => stepNotPending started) before
        (by rw [locked]; nofun)
    · intro claimed
      have kept := safe.final i (i + 1) (Nat.le_succ i) (by rw [claimed]; rfl)
      have moved : ((reached step (new params) calls i).step (.refund time)).state = .refunded := by
        simp [step,perform,refund,expired]
      rw [reachedNext at',moved,claimed] at kept
      cases kept

theorem claimedThenRefunded : let account : ChainAddress := ⟨.ethereum,1⟩
    let htlc := new ⟨1,5,100,1000,account,account,0⟩
    let calls := [Call.claim 7 50,Call.refund 101]
    (calls.map Call.time).Pairwise (· ≤ ·) ∧
    htlc.claim 7 50 = (.ok (),reached step htlc calls 1) ∧ htlc.state = .pending ∧
    residue (wordBytes (7 : Secret)) ≠ htlc.hashLock ∧
    (reached step htlc calls 1).state = .claimed ∧ (reached step htlc calls 2).state = .refunded := by
  decide

end Htlc

def minTimelockMarginSecs : U64 := 6 * 3600

namespace ChainId

def requiredConfirmations : ChainId → U64
  | .quantumChain => 6
  | .ethereum => 12
  | .bitcoin => 6
  | .polygon => 128
  | .arbitrum => 1

def blockTimeSecs : ChainId → U64
  | .quantumChain => 10
  | .ethereum => 12
  | .bitcoin => 600
  | .polygon => 2
  | .arbitrum => 1

end ChainId

def invariantTimelockOrdering (sourceTimelock targetTimelock minMarginSecs : U64) : Except CrossChainError Unit :=
  if sourceTimelock ≤ targetTimelock + minMarginSecs then
    .error (.invalidTimelockMargin sourceTimelock targetTimelock minMarginSecs)
  else .ok ()

def validateSwapTimelocks (sourceTimelock targetTimelock : U64) : Except CrossChainError Unit :=
  invariantTimelockOrdering sourceTimelock targetTimelock minTimelockMarginSecs

/-- The source lock and the target lock; the finality of the source chain is computed and not used. -/
def calculateTimelocks (sourceChain targetChain : ChainId) (currentTime : U64) : U64 × U64 :=
  let _sourceFinality := sourceChain.requiredConfirmations * sourceChain.blockTimeSecs
  let targetFinality := targetChain.requiredConfirmations * targetChain.blockTimeSecs
  let targetTimeout := currentTime + targetFinality + 6 * 3600
  let sourceTimeout := targetTimeout + minTimelockMarginSecs
  (sourceTimeout,targetTimeout)

theorem orderingIff {sourceTimelock targetTimelock margin} :
    invariantTimelockOrdering sourceTimelock targetTimelock margin = .ok () ↔
      targetTimelock + margin < sourceTimelock := by
  unfold invariantTimelockOrdering
  split
  · rename_i early
    exact iff_of_false nofun (not_lt_of_ge early)
  · rename_i late
    exact iff_of_true rfl (lt_of_not_ge late)

theorem recommendedRefused (sourceChain targetChain : ChainId) (currentTime sourceTimelock : U64) :
    let pair := calculateTimelocks sourceChain targetChain currentTime
    validateSwapTimelocks pair.1 pair.2 = .error (.invalidTimelockMargin pair.1 pair.2 minTimelockMarginSecs) ∧
    (validateSwapTimelocks sourceTimelock pair.2 = .ok () ↔ pair.1 < sourceTimelock) := by
  intro pair
  have sum : pair.1 = pair.2 + minTimelockMarginSecs := rfl
  refine ⟨?_,?_⟩
  · unfold validateSwapTimelocks invariantTimelockOrdering
    rw [if_pos (le_of_eq sum)]
  · rw [sum]
    exact orderingIff

theorem exactMarginRefused : calculateTimelocks .quantumChain .ethereum 1000 = (44344,22744) ∧
    validateSwapTimelocks 44344 22744 = .error (.invalidTimelockMargin 44344 22744 21600) ∧
    validateSwapTimelocks 44345 22744 = .ok () := by
  decide

end QuantumChain.CrossChain
