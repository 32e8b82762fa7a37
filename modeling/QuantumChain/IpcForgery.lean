import QuantumChain.IpcSecurity

/-! What rejected messages leave behind.
The MAC is any function: nothing rests on its being hard to forge. -/
namespace QuantumChain.Ipc
open StepRun (run reached reachedNext reachedKeeps)
open ExpiryCache (live liveIff Remembered)
open ExpiryCache

structure Arrival (T : Type) where
  now : U64
  instant : Nat
  message : AuthenticatedMessage T
  messageBytes : Bytes

def VerificationResult.afterNonce : VerificationResult → Bool
  | .invalidSignature => true
  | .replyToMismatch _ _ => true
  | _ => false

section
variable {T : Type} (hmac : Bytes → Bytes → Bytes) (checks : Bool) (verifier : MessageVerifier)

def report (cache : NonceCache) (a : Arrival T) : Option VerificationResult × NonceCache :=
  verify hmac checks verifier a.now a.instant a.message a.messageBytes cache

def receive (cache : NonceCache) (a : Arrival T) : NonceCache := (report hmac checks verifier cache a).2

def reportAt (earlier : List (Arrival T)) (i : Nat) : Option VerificationResult :=
  earlier[i]?.bind fun a => (report hmac checks verifier (reached (receive hmac checks verifier) ∅ earlier i) a).1

def accepted : NonceCache → List (Arrival T) → List (Arrival T)
  | _,[] => []
  | cache,a::rest =>
    let later := accepted (receive hmac checks verifier cache a) rest
    if (report hmac checks verifier cache a).1 = some .valid then a::later else later

structure Genuine (a : Arrival T) : Prop where
  version : a.message.version = currentVersion
  timestamp : validateTimestamp checks a.now a.message.timestamp = some (.ok ())
  signed : ∃ sharedSecret, verifier.getSharedSecret a.message.senderId = some sharedSecret ∧
    validateHmacSignature hmac a.messageBytes a.message.signature sharedSecret = true
  reply : ∀ replyTo, a.message.replyTo = some replyTo → replyTo.subsystemId = a.message.senderId

structure Taken (cache : NonceCache) (a : Arrival T) : Prop where
  header : checkHeader checks a.now a.message = some (.ok ())
  fresh : live a.instant cache a.message.nonce = false

variable {hmac checks verifier} {cache : NonceCache} {a : Arrival T}

theorem genuineValid (genuine : Genuine hmac checks verifier a) :
    (report hmac checks verifier cache a).1 = some .valid ↔ live a.instant cache a.message.nonce = false := by
  have valid := @validIff T hmac checks verifier.getSharedSecret (fun _ => cache)
    ⟨verifier.recipientId,a.now,a.instant,a.message,a.messageBytes⟩
  refine valid.trans ⟨fun passes => passes.fresh,fun fresh => ?_⟩
  exact ⟨genuine.version,genuine.timestamp,fresh,genuine.signed,genuine.reply⟩

theorem originAnswers (message : AuthenticatedMessage T) (messageBytes) :
    checkOrigin hmac verifier message messageBytes = .valid ∨
      (checkOrigin hmac verifier message messageBytes).afterNonce = true := by
  unfold checkOrigin
  split
  · exact .inr rfl
  split
  · exact .inr rfl
  split
  · exact .inl rfl
  split
  · exact .inr rfl
  · exact .inl rfl

theorem headerRefusal {now : U64} {message : AuthenticatedMessage T} {refused}
    (failed : checkHeader checks now message = some (.error refused)) : refused.afterNonce = false := by
  unfold checkHeader validateTimestamp at failed
  split at failed
  · cases failed
    rfl
  · simp only [bind] at failed
    obtain ⟨expires,_,failed⟩ := Option.bind_eq_some_iff.mp failed
    split at failed
    · cases failed
      rfl
    obtain ⟨latest,_,failed⟩ := Option.bind_eq_some_iff.mp failed
    split at failed
    · cases failed
      rfl
    · cases failed

theorem takenIff : Taken checks cache a ↔ ∃ result, (report hmac checks verifier cache a).1 = some result ∧
    (result = .valid ∨ result.afterNonce = true) := by
  unfold report
  rw [verifyCases]
  constructor
  · rintro ⟨header,fresh⟩
    rw [header,Option.map_some]
    refine ⟨_,rfl,?_⟩
    dsimp only
    rw [fresh,if_neg Bool.false_ne_true]
    exact originAnswers _ _
  · rintro ⟨result,answer,behind⟩
    obtain ⟨header,checked,same⟩ := Option.map_eq_some_iff.mp answer
    cases header with
    | error refused =>
      have same := same
      subst same
      rcases behind with rfl | behind
      · exact absurd checked headerNotValid
      · rw [headerRefusal checked] at behind
        cases behind
    | ok _ =>
      refine ⟨checked,Bool.eq_false_iff.mpr fun alive => ?_⟩
      dsimp only at same
      rw [alive,if_pos rfl] at same
      subst same
      rcases behind with wrong | wrong <;> cases wrong

theorem receiveHeader (header : checkHeader checks a.now a.message = some (.ok ())) :
    receive hmac checks verifier cache a = (checkAndInsert a.instant a.message.nonce cache).2 := by
  unfold receive report verify
  rw [header]
  dsimp only
  cases (checkAndInsert a.instant a.message.nonce cache).1 <;> rfl

theorem receiveRefused (refused : checkHeader checks a.now a.message ≠ some (.ok ())) :
    receive hmac checks verifier cache a = cache := by
  unfold receive report verify
  cases header : checkHeader checks a.now a.message with
  | none => rfl
  | some outcome =>
    cases outcome with
    | error e => rfl
    | ok _ => exact absurd header refused

theorem receiveHeld {nonce expiry}
    (held : (receive hmac checks verifier cache a).lookup nonce = some expiry) :
    cache.lookup nonce = some expiry ∨
      Taken checks cache a ∧ a.message.nonce = nonce ∧ expiry = a.instant + nonceCacheTtl := by
  by_cases header : checkHeader checks a.now a.message = some (.ok ())
  · rw [receiveHeader header,checkAndInsert,ExpiryCache.checkCases] at held
    cases fresh : live a.instant cache a.message.nonce with
    | true =>
      rw [fresh] at held
      exact .inl (trimHeld held)
    | false =>
      rw [fresh,if_neg Bool.false_ne_true,KeyedMap.lookupInsert] at held
      split at held
      · rename_i here
        cases held
        exact .inr ⟨⟨header,fresh⟩,here.symm,rfl⟩
      · exact .inl (trimHeld held)
  · rw [receiveRefused header] at held
    exact .inl held

theorem receiveTakes (taken : Taken checks cache a) (clock) :
    Remembered (receive hmac checks verifier cache a) clock a.message.nonce (a.instant + nonceCacheTtl) := by
  rw [receiveHeader taken.header]
  exact takenRemembered (checkedIff.mpr taken.fresh)

theorem receiveRemembers {clock till nonce} (stamped : a.instant ≤ clock)
    (remembered : Remembered cache clock nonce till) :
    Remembered (receive hmac checks verifier cache a) clock nonce till := by
  by_cases header : checkHeader checks a.now a.message = some (.ok ())
  · rw [receiveHeader header]
    exact checkRemembers remembered stamped
  · rw [receiveRefused header]
    exact remembered

theorem heldTaken {start} {earlier : List (Arrival T)} {nonce expiry}
    (held : (run (receive hmac checks verifier) start earlier).lookup nonce = some expiry) :
    start.lookup nonce = some expiry ∨ ∃ i e, earlier[i]? = some e ∧
      Taken checks (reached (receive hmac checks verifier) start earlier i) e ∧ e.message.nonce = nonce ∧
      expiry = e.instant + nonceCacheTtl := by
  induction earlier generalizing start with
  | nil => exact .inl held
  | cons first rest ih =>
    rcases ih held with before | ⟨i,e,at',taken,own,time⟩
    · rcases receiveHeld before with older | ⟨taken,own,time⟩
      · exact .inl older
      · exact .inr ⟨0,first,rfl,taken,own,time⟩
    · exact .inr ⟨i + 1,e,at',taken,own,time⟩

theorem takenHeld {start earlier clock i} {e : Arrival T}
    (before : ∀ e ∈ earlier, e.instant ≤ clock) (at' : earlier[i]? = some e)
    (taken : Taken checks (reached (receive hmac checks verifier) start earlier i) e) :
    Remembered (run (receive hmac checks verifier) start earlier) clock e.message.nonce (e.instant + nonceCacheTtl) := by
  have entered : Remembered (reached (receive hmac checks verifier) start earlier (i + 1)) clock e.message.nonce
      (e.instant + nonceCacheTtl) := by
    rw [reachedNext at']
    exact receiveTakes taken clock
  have inside := (List.getElem?_eq_some_iff.mp at').1
  have whole := reachedKeeps (I := fun cache => Remembered cache clock e.message.nonce (e.instant + nonceCacheTtl))
    (fun j other at'' remembered => receiveRemembers (before other (List.mem_of_getElem? at'')) remembered) inside entered
  rwa [reached,List.take_length] at whole

theorem liveTaken {earlier : List (Arrival T)} {nonce clock} (before : ∀ e ∈ earlier, e.instant ≤ clock) :
    live clock (run (receive hmac checks verifier) ∅ earlier) nonce = true ↔ ∃ i e, earlier[i]? = some e ∧
      Taken checks (reached (receive hmac checks verifier) ∅ earlier i) e ∧ e.message.nonce = nonce ∧
      clock < e.instant + nonceCacheTtl := by
  rw [liveIff]
  constructor
  · rintro ⟨expiry,held,ahead⟩
    rcases heldTaken held with none' | ⟨i,e,at',taken,own,rfl⟩
    · exact nomatch none'
    · exact ⟨i,e,at',taken,own,ahead⟩
  · rintro ⟨i,e,at',taken,rfl,ahead⟩
    rcases takenHeld before at' taken with past | ⟨expiry,held,enough⟩
    · omega
    · exact ⟨expiry,held,by omega⟩

theorem acceptedReported {start earlier} {e : Arrival T}
    (mem : e ∈ accepted hmac checks verifier start earlier) : ∃ i, earlier[i]? = some e ∧
      (report hmac checks verifier (reached (receive hmac checks verifier) start earlier i) e).1 = some .valid := by
  induction earlier generalizing start with
  | nil => exact absurd mem List.not_mem_nil
  | cons first rest ih =>
    rw [accepted] at mem
    split at mem
    · rename_i valid
      rcases List.mem_cons.mp mem with rfl | later
      · exact ⟨0,rfl,valid⟩
      · obtain ⟨i,at',valid'⟩ := ih later
        exact ⟨i + 1,at',valid'⟩
    · obtain ⟨i,at',valid'⟩ := ih mem
      exact ⟨i + 1,at',valid'⟩

end

section
variable {T : Type}

theorem forgedMessagesBurn (hmac : Bytes → Bytes → Bytes) (checks : Bool) (verifier : MessageVerifier)
    (earlier : List (Arrival T)) (a : Arrival T) (before : ∀ e ∈ earlier, e.instant ≤ a.instant)
    (genuine : Genuine hmac checks verifier a)
    (unused : ∀ i e, earlier[i]? = some e → e.message.nonce = a.message.nonce →
      reportAt hmac checks verifier earlier i ≠ some .valid) : (report hmac checks verifier
      (run (receive hmac checks verifier) ∅ (accepted hmac checks verifier ∅ earlier)) a).1 = some .valid ∧
    ((report hmac checks verifier (run (receive hmac checks verifier) ∅ earlier) a).1 = some .valid ↔
      ∀ i e result, earlier[i]? = some e → e.message.nonce = a.message.nonce →
        reportAt hmac checks verifier earlier i = some result → result.afterNonce = true →
        e.instant + nonceCacheTtl ≤ a.instant) := by
  rw [genuineValid genuine,genuineValid genuine]
  constructor
  · refine Bool.eq_false_iff.mpr fun alive => ?_
    obtain ⟨expiry,held,_⟩ := liveIff.mp alive
    rcases heldTaken held with none' | ⟨i,e,at',_,own,_⟩
    · exact nomatch none'
    · obtain ⟨j,atJ,valid⟩ := acceptedReported (List.mem_of_getElem? at')
      exact unused j e atJ own (by rw [reportAt,atJ]; exact valid)
  · rw [Bool.eq_false_iff,Ne,liveTaken before]
    constructor
    · intro free i e result at' own answer failed
      rw [reportAt,at',Option.bind_some] at answer
      exact Nat.le_of_not_lt fun ahead => free ⟨i,e,at',takenIff.mpr ⟨result,answer,.inr failed⟩,own,ahead⟩
    · rintro past ⟨i,e,at',taken,own,ahead⟩
      obtain ⟨result,answer,behind⟩ := takenIff.mp taken
      have reported : reportAt hmac checks verifier earlier i = some result := by
        rw [reportAt,at']
        exact answer
      rcases behind with rfl | failed
      · exact unused i e at' own reported
      · exact absurd (past i e result at' own reported failed) (Nat.not_le.mpr ahead)

end

theorem onesLength : (List.replicate 64 (1 : UInt8)).length = 64 := rfl

def forgery : Arrival Unit := ⟨1000,0,{greeting with signature := ⟨List.replicate 64 1,onesLength⟩},[]⟩

def original : Arrival Unit := ⟨1000,1,greeting,[]⟩

def late : Arrival Unit := ⟨1120,120 * second,{greeting with timestamp := 1120},[]⟩

def listener : MessageVerifier := ⟨1,sharedKey⟩

theorem lateGenuine : Genuine zeroTag true listener late :=
  ⟨rfl,by decide,⟨[],rfl,by decide⟩,nofun⟩

theorem forgeryExpired : reportAt zeroTag true listener [forgery] 0 = some .invalidSignature ∧
    (report zeroTag true listener (run (receive zeroTag true listener) ∅ [forgery]) late).1 = some .valid := by
  have forged : reportAt zeroTag true listener [forgery] 0 = some .invalidSignature := by decide +kernel
  have one (i : Nat) (e : Arrival Unit) (at' : [forgery][i]? = some e) : i = 0 ∧ e = forgery := by
    cases i with
    | zero => exact ⟨rfl,(Option.some.inj at').symm⟩
    | succ i => cases at'
  have exact' := forgedMessagesBurn zeroTag true listener [forgery] late
    (fun e mem => by rw [List.mem_singleton.mp mem]; decide) lateGenuine
    (fun i e at' _ => by rw [(one i e at').1,forged]; decide)
  refine ⟨forged,exact'.2.mpr fun i e _ at' _ _ _ => ?_⟩
  rw [(one i e at').2]
  decide

theorem forgeryBurnsNonce : Genuine zeroTag true listener original ∧
    reportAt zeroTag true listener [forgery] 0 = some .invalidSignature ∧
    (report zeroTag true listener (run (receive zeroTag true listener) ∅ [forgery]) original).1 = some (.replayDetected 5) ∧
    (report zeroTag true listener ∅ original).1 = some .valid :=
  ⟨⟨rfl,by decide,⟨[],rfl,by decide⟩,nofun⟩,by decide +kernel,by decide +kernel,by decide +kernel⟩

end QuantumChain.Ipc
