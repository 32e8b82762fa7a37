import QuantumChain.IpcSecurity

/-! Concurrent calls of the verification on one cache, one lock section a step.
The clock may differ from call to call. -/
namespace QuantumChain.Ipc
open List Function ExpiryCache
open StepRun
open ExpiryCache (Remembered)

structure Clock where
  epoch : Nat
  instant : Nat
  fits : (epoch + instant) / second < 2^64

namespace Clock

variable (clock : Clock)

def now : U64 := BitVec.ofNat 64 ((clock.epoch + clock.instant) / second)

def tick (nanoseconds : Nat) : Clock :=
  if fits : (clock.epoch + (clock.instant + nanoseconds)) / second < 2^64 then ⟨clock.epoch,clock.instant + nanoseconds,fits⟩
  else clock

theorem nowSeconds : clock.now.toNat = (clock.epoch + clock.instant) / second := by
  rw [now,BitVec.toNat_ofNat,Nat.mod_eq_of_lt clock.fits]

theorem tickLater (nanoseconds) :
    (clock.tick nanoseconds).epoch = clock.epoch ∧ clock.instant ≤ (clock.tick nanoseconds).instant := by
  unfold tick
  split
  · exact ⟨rfl,Nat.le_add_right _ _⟩
  · exact ⟨rfl,Nat.le_refl _⟩

end Clock

inductive Stage where
  | arrived
  | timed (checked : Nat)
  | stamped (checked now : Nat)
  | admitted
  | finished (result : VerificationResult)
  | panicked
  deriving DecidableEq

namespace Stage

def accepted : Stage → Bool
  | .admitted => true
  | .finished .valid => true
  | _ => false

def ended : Option VerificationResult → Stage
  | none => .panicked
  | some result => .finished result

end Stage

section Calls
variable {T : Type} (hmac : Bytes → Bytes → Bytes) (checks : Bool)

def afterHeader (instant : Nat) : Option (Except VerificationResult Unit) → Stage
  | none => .panicked
  | some (.error refused) => .finished refused
  | some (.ok ()) => .timed instant

def advance (clock : Clock) (verifier : MessageVerifier) (message : AuthenticatedMessage T) (messageBytes : Bytes) :
    NonceCache × Stage → NonceCache × Stage
  | (cache,.arrived) => (cache,afterHeader clock.instant (checkHeader checks clock.now message))
  | (cache,.timed checked) => (cache,.stamped checked clock.instant)
  | (cache,.stamped _ now) =>
    let (fresh,cache) := checkAndInsert now message.nonce cache
    (cache,if fresh then .admitted else .finished (.replayDetected message.nonce))
  | (cache,.admitted) => (cache,.finished (checkOrigin hmac verifier message messageBytes))
  | (cache,.finished result) => (cache,.finished result)
  | (cache,.panicked) => (cache,.panicked)

theorem verifyAlone (clock) (verifier) (message : AuthenticatedMessage T) (messageBytes) (cache) :
    (advance hmac checks clock verifier message messageBytes)^[4] (cache,.arrived) =
      ((verify hmac checks verifier clock.now clock.instant message messageBytes cache).2,
        .ended (verify hmac checks verifier clock.now clock.instant message messageBytes cache).1) := by
  rw [iterate_succ_apply,advance,verify]
  cases checkHeader checks clock.now message with
  | none => rfl
  | some header =>
    cases header with
    | error refused => rfl
    | ok _ =>
      rw [iterate_succ_apply,afterHeader,advance,iterate_succ_apply,advance]
      generalize checkAndInsert clock.instant message.nonce cache = out
      obtain ⟨fresh,cache'⟩ := out
      cases fresh <;> rfl

end Calls

structure Call (T : Type) where
  verifier : MessageVerifier
  message : AuthenticatedMessage T
  messageBytes : Bytes
  stage : Stage

structure System (T : Type) where
  clock : Clock
  cache : NonceCache
  calls : List (Call T)

inductive SystemEvent (T : Type) where
  | tick (nanoseconds : Nat)
  | call (verifier : MessageVerifier) (message : AuthenticatedMessage T) (messageBytes : Bytes)
  | advance (index : Nat)

def Timely (epoch : Nat) (timestamp : U64) (checked : Nat) : Prop :=
  (epoch + checked) / second ≤ timestamp.toNat + 60 ∧ timestamp.toNat ≤ (epoch + checked) / second + 10

def Vouched {T : Type} (clock : Clock) (cache : NonceCache) (message : AuthenticatedMessage T) : Prop :=
  ∃ checked now, checked ≤ now ∧ Timely clock.epoch message.timestamp checked ∧
    Remembered cache clock.instant message.nonce (now + nonceCacheTtl)

def StageSound {T : Type} (clock : Clock) (cache : NonceCache) (message : AuthenticatedMessage T) : Stage → Prop
  | .timed checked => checked ≤ clock.instant ∧ Timely clock.epoch message.timestamp checked
  | .stamped checked now => checked ≤ now ∧ now ≤ clock.instant ∧ Timely clock.epoch message.timestamp checked
  | .admitted => Vouched clock cache message
  | .finished .valid => Vouched clock cache message
  | _ => True

section Soundness
variable {T : Type} {hmac : Bytes → Bytes → Bytes} {checks : Bool} {clock : Clock} {cache : NonceCache}
  {verifier : MessageVerifier} {message : AuthenticatedMessage T} {messageBytes : Bytes} {stage : Stage}

theorem acceptedVouched (sound : StageSound clock cache message stage) (accepted : stage.accepted = true) :
    Vouched clock cache message := by
  cases stage with
  | admitted => exact sound
  | finished result =>
    cases result with
    | valid => exact sound
    | _ => cases accepted
  | _ => cases accepted

theorem vouchedSound (vouched : Vouched clock cache message) (result) :
    StageSound clock cache message (.finished result) := by
  cases result with
  | valid => exact vouched
  | _ => trivial

theorem soundLater {clock'} {cache' : NonceCache} (sound : StageSound clock cache message stage)
    (epoch : clock'.epoch = clock.epoch) (later : clock.instant ≤ clock'.instant)
    (kept : ∀ nonce till, Remembered cache clock.instant nonce till → Remembered cache' clock'.instant nonce till) :
    StageSound clock' cache' message stage := by
  have vouched : Vouched clock cache message → Vouched clock' cache' message := by
    rintro ⟨checked,now,order,timely,remembered⟩
    exact ⟨checked,now,order,epoch ▸ timely,kept _ _ remembered⟩
  cases stage with
  | timed checked => exact ⟨sound.1.trans later,epoch ▸ sound.2⟩
  | stamped checked now => exact ⟨sound.1,sound.2.1.trans later,epoch ▸ sound.2.2⟩
  | admitted => exact vouched sound
  | finished result =>
    cases result with
    | valid => exact vouched sound
    | _ => trivial
  | arrived => trivial
  | panicked => trivial

theorem advanceRemembers (sound : StageSound clock cache message stage) {nonce till}
    (remembered : Remembered cache clock.instant nonce till) :
    Remembered (advance hmac checks clock verifier message messageBytes (cache,stage)).1 clock.instant nonce till := by
  cases stage with
  | stamped checked now => exact checkRemembers remembered sound.2.1
  | _ => exact remembered

theorem headerTimely (ok : checkHeader checks clock.now message = some (.ok ())) :
    Timely clock.epoch message.timestamp clock.instant := by
  have accepted := timestampAccepted checks (headerOk.mp ok).2
  rw [clock.nowSeconds] at accepted
  exact accepted

theorem headerSound : StageSound clock cache message (afterHeader clock.instant (checkHeader checks clock.now message)) := by
  cases checked : checkHeader checks clock.now message with
  | none => trivial
  | some header =>
    cases header with
    | error refused =>
      cases refused with
      | valid => exact absurd checked headerNotValid
      | _ => trivial
    | ok _ => exact ⟨Nat.le_refl _,headerTimely checked⟩

theorem advanceSound (sound : StageSound clock cache message stage) :
    StageSound clock (advance hmac checks clock verifier message messageBytes (cache,stage)).1 message
      (advance hmac checks clock verifier message messageBytes (cache,stage)).2 := by
  cases stage with
  | arrived => exact headerSound
  | timed checked => exact ⟨sound.1,Nat.le_refl _,sound.2⟩
  | stamped checked now =>
    cases taken : (checkAndInsert now message.nonce cache).1 with
    | true =>
      have vouched : Vouched clock (checkAndInsert now message.nonce cache).2 message :=
        ⟨checked,now,sound.1,sound.2.2,takenRemembered taken⟩
      simp only [advance,taken,if_true]
      exact vouched
    | false => simp only [advance,taken,Bool.false_eq_true,if_false,StageSound]
  | admitted => exact vouchedSound sound _
  | finished result => exact sound
  | panicked => exact sound

theorem acceptedAdvance (accepted : (advance hmac checks clock verifier message messageBytes (cache,
    stage)).2.accepted = true) :
    stage.accepted = true ∨ ∃ checked now, stage = .stamped checked now ∧
      (checkAndInsert now message.nonce cache).1 = true := by
  cases stage with
  | arrived =>
    change (afterHeader clock.instant (checkHeader checks clock.now message)).accepted = true at accepted
    cases checked : checkHeader checks clock.now message with
    | none =>
      rw [checked] at accepted
      cases accepted
    | some header =>
      rw [checked] at accepted
      cases header with
      | error refused =>
        cases refused with
        | valid => exact absurd checked headerNotValid
        | _ => cases accepted
      | ok _ => cases accepted
  | timed checked => cases accepted
  | stamped checked now =>
    cases taken : (checkAndInsert now message.nonce cache).1 with
    | true => exact .inr ⟨checked,now,rfl,taken⟩
    | false =>
      simp only [advance,taken,Bool.false_eq_true,if_false] at accepted
      cases accepted
  | admitted => exact .inl rfl
  | finished result => exact .inl accepted
  | panicked => cases accepted

theorem takenOnce {other : AuthenticatedMessage T} {checked now}
    (sound : StageSound clock cache message (.stamped checked now))
    (prompt : clock.instant ≤ checked + 49 * second) (vouched : Vouched clock cache other)
    (timestamp : other.timestamp = message.timestamp) (nonce : other.nonce = message.nonce) :
    (checkAndInsert now message.nonce cache).1 = false := by
  obtain ⟨_,stamped,timely⟩ := sound
  obtain ⟨checked',now',order,timely',remembered⟩ := vouched
  rw [timestamp] at timely'
  rw [nonce] at remembered
  by_contra taken
  have past := takenPast remembered stamped (Bool.eq_true_of_not_eq_false taken)
  obtain ⟨young,_⟩ := timely
  obtain ⟨_,near⟩ := timely'
  unfold nonceCacheTtl second at past
  unfold second at young near prompt
  omega

end Soundness

namespace System
variable {T : Type} (hmac : Bytes → Bytes → Bytes) (checks : Bool)

def start (clock : Clock) : System T := ⟨clock,∅,[]⟩

def step (s : System T) : SystemEvent T → System T
  | .tick nanoseconds => {s with clock := s.clock.tick nanoseconds}
  | .call verifier message messageBytes => {s with calls := s.calls ++ [⟨verifier,message,messageBytes,.arrived⟩]}
  | .advance index =>
    match s.calls[index]? with
    | none => s
    | some call =>
      let next := Ipc.advance hmac checks s.clock call.verifier call.message call.messageBytes (s.cache,call.stage)
      ⟨s.clock,next.1,s.calls.set index {call with stage := next.2}⟩

def prompt (s : System T) : SystemEvent T → Bool
  | .advance index =>
    match s.calls[index]?.map Call.stage with
    | some (.stamped checked _) => decide (s.clock.instant ≤ checked + 49 * second)
    | _ => true
  | _ => true

def Once (P : Stage → Prop) (s : System T) : Prop :=
  ∀ (i j : Nat) (a b : Call T), s.calls[i]? = some a → s.calls[j]? = some b → P a.stage → P b.stage →
    a.message.timestamp = b.message.timestamp → a.message.nonce = b.message.nonce → i = j

structure Sound (s : System T) : Prop where
  each : ∀ call ∈ s.calls, StageSound s.clock s.cache call.message call.stage
  once : s.Once fun stage => stage.accepted = true

variable {hmac checks}

theorem soundTick {s : System T} (sound : s.Sound) (nanoseconds) : (s.step hmac checks (.tick nanoseconds)).Sound where
  each := by
    intro call mem
    obtain ⟨epoch,later⟩ := s.clock.tickLater nanoseconds
    exact soundLater (sound.each call mem) epoch later fun nonce till remembered => remembered.later later
  once := sound.once

theorem callsAdded {s : System T} {call new} {i : Nat} (at' : (s.calls ++ [new])[i]? = some call) :
    s.calls[i]? = some call ∨ call = new := by
  rw [getElem?_append] at at'
  split at at'
  · exact .inl at'
  · exact .inr (mem_singleton.mp (mem_of_getElem? at'))

theorem soundCall {s : System T} (sound : s.Sound) (verifier) (message) (messageBytes) :
    (s.step hmac checks (.call verifier message messageBytes)).Sound where
  each := by
    intro call mem
    rcases mem_append.mp mem with before | now
    · exact sound.each call before
    · cases mem_singleton.mp now
      trivial
  once := by
    intro i j a b atI atJ acceptedA acceptedB timestamp nonce
    rcases callsAdded atI with beforeA | rfl
    · rcases callsAdded atJ with beforeB | rfl
      · exact sound.once i j a b beforeA beforeB acceptedA acceptedB timestamp nonce
      · cases acceptedB
    · cases acceptedA

section Advance
variable {s : System T} {index : Nat} {call : Call T}

theorem stepAdvance (at' : s.calls[index]? = some call) : s.step hmac checks (.advance index) =
    ⟨s.clock,(Ipc.advance hmac checks s.clock call.verifier call.message call.messageBytes (s.cache,call.stage)).1,
      s.calls.set index {call with stage :=
        (Ipc.advance hmac checks s.clock call.verifier call.message call.messageBytes (s.cache,call.stage)).2}⟩ := by
  simp only [step,at']

theorem newlyAccepted (sound : s.Sound) (prompt : s.prompt (.advance index) = true) (at' : s.calls[index]? = some call)
    (accepted : (Ipc.advance hmac checks s.clock call.verifier call.message call.messageBytes
      (s.cache,call.stage)).2.accepted = true)
    {j other} (atJ : s.calls[j]? = some other) (acceptedJ : other.stage.accepted = true)
    (timestamp : other.message.timestamp = call.message.timestamp) (nonce : other.message.nonce = call.message.nonce) :
    index = j := by
  rcases acceptedAdvance accepted with before | ⟨checked,now,stage,taken⟩
  · exact sound.once index j call other at' atJ before acceptedJ timestamp.symm nonce.symm
  · have mine := sound.each call (mem_of_getElem? at')
    rw [stage] at mine
    have vouched := acceptedVouched (sound.each other (mem_of_getElem? atJ)) acceptedJ
    have soon : s.clock.instant ≤ checked + 49 * second := by
      simp only [System.prompt,at',Option.map_some,stage] at prompt
      exact of_decide_eq_true prompt
    have refused := takenOnce mine soon vouched timestamp nonce
    rw [taken] at refused
    cases refused

theorem soundAdvance (sound : s.Sound) (prompt : s.prompt (.advance index) = true) (at' : s.calls[index]? = some call) :
    (s.step hmac checks (.advance index)).Sound := by
  have mine := sound.each call (mem_of_getElem? at')
  rw [stepAdvance at']
  constructor
  · intro other mem
    rcases mem_or_eq_of_mem_set mem with before | rfl
    · exact soundLater (sound.each other before) rfl (Nat.le_refl _) fun nonce till remembered =>
      advanceRemembers mine remembered
    · exact advanceSound mine
  · intro i j a b atI atJ acceptedA acceptedB timestamp nonce
    dsimp only at atI atJ
    rw [getElem?_set] at atI atJ
    by_cases mineI : index = i
    · by_cases mineJ : index = j
      · exact mineI.symm.trans mineJ
      · rw [if_neg mineJ] at atJ
        rw [if_pos mineI] at atI
        split at atI
        · cases Option.some.inj atI
          exact mineI.symm.trans (newlyAccepted sound prompt at' acceptedA atJ acceptedB timestamp.symm nonce.symm)
        · cases atI
    · rw [if_neg mineI] at atI
      by_cases mineJ : index = j
      · rw [if_pos mineJ] at atJ
        split at atJ
        · cases Option.some.inj atJ
          exact (newlyAccepted sound prompt at' acceptedB atI acceptedA timestamp nonce).symm.trans mineJ
        · cases atJ
      · rw [if_neg mineJ] at atJ
        exact sound.once i j a b atI atJ acceptedA acceptedB timestamp nonce

end Advance

theorem soundStep (s : System T) (event) (sound : s.Sound) (prompt : s.prompt event = true) :
    (s.step hmac checks event).Sound := by
  cases event with
  | tick nanoseconds => exact soundTick sound nanoseconds
  | call verifier message messageBytes => exact soundCall sound verifier message messageBytes
  | advance index =>
    cases at' : s.calls[index]? with
    | some call => exact soundAdvance sound prompt at'
    | none =>
      have same : s.step hmac checks (.advance index) = s := by simp only [step,at']
      rw [same]
      exact sound

theorem soundStart (clock) : (start clock : System T).Sound where
  each := by
    intro call mem
    cases mem
  once := by
    intro i j a b atI
    cases atI

variable (hmac checks)

theorem validOnce (clock : Clock) (events : List (SystemEvent T))
    (prompt : Along (step hmac checks) (fun s event => s.prompt event = true) (start clock) events) :
    (run (step hmac checks) (start clock) events).Once fun stage => stage = .finished .valid := by
  have sound := runKeeps soundStep (soundStart clock) prompt
  intro i j a b atI atJ validA validB
  exact sound.once i j a b atI atJ (validA ▸ rfl) (validB ▸ rfl)

def reports (s : System T) : List (Stage × U64 × Uuid) :=
  s.calls.map fun call => (call.stage,call.message.timestamp,call.message.nonce)

theorem reportedTwice {s : System T} {timestamp nonce}
    (twice : s.reports = [(.finished .valid,timestamp,nonce),(.finished .valid,timestamp,nonce)]) :
    ¬ s.Once fun stage => stage = .finished .valid := by
  intro once
  obtain ⟨a,rest,calls,first,others⟩ := map_eq_cons_iff.mp twice
  obtain ⟨b,last,calls',second,_⟩ := map_eq_cons_iff.mp others
  simp only [Prod.mk.injEq] at first second
  obtain ⟨validA,timestampA,nonceA⟩ := first
  obtain ⟨validB,timestampB,nonceB⟩ := second
  have same : 0 = 1 := by
    refine once 0 1 a b ?_ ?_ validA validB (timestampA.trans timestampB.symm) (nonceA.trans nonceB.symm)
    · rw [calls]
      rfl
    · rw [calls,calls']
      rfl
  cases same

end System

theorem noonFits : (1000 * second + 0) / second < 2^64 := by decide

def noon : Clock := ⟨1000 * second,0,noonFits⟩

def receiver : MessageVerifier := ⟨1,sharedKey⟩

def advances (times index : Nat) : List (SystemEvent Unit) := List.replicate times (.advance index)

def repeated : List (SystemEvent Unit) :=
  [.call receiver greeting []] ++ advances 4 0 ++ [.tick (71 * second - 1),.call receiver greeting []] ++ advances 4 1

theorem repeatedOnce :
    Along (System.step zeroTag true) (fun s event => s.prompt event = true) (System.start noon) repeated ∧
    (run (System.step zeroTag true) (System.start noon) repeated).reports =
      [(.finished .valid,1010,5),(.finished (.replayDetected 5),1010,5)] ∧
    (run (System.step zeroTag true) (System.start noon) repeated).Once fun stage => stage = .finished .valid := by
  have prompt : Along (System.step zeroTag true) (fun s event => s.prompt event = true) (System.start noon) repeated := by
    decide +kernel
  exact ⟨prompt,by decide +kernel,System.validOnce zeroTag true noon repeated prompt⟩

def stalled : List (SystemEvent Unit) :=
  [.call receiver greeting []] ++ advances 4 0 ++ [.tick (71 * second - 1),.call receiver greeting []] ++ advances 1 1 ++
    [.tick (49 * second + 1)] ++ advances 3 1

theorem stalledTwice :
    ¬ (run (System.step zeroTag true) (System.start noon) stalled).Once fun stage => stage = .finished .valid := by
  have twice : (run (System.step zeroTag true) (System.start noon) stalled).reports =
      [(.finished .valid,1010,5),(.finished .valid,1010,5)] := by decide +kernel
  exact System.reportedTwice twice

end QuantumChain.Ipc
