import QuantumChain.ExpiryCache
import QuantumChain.FixedWidth
import QuantumChain.StepRun

/-! The verification of messages between subsystems.
Keys and MAC are parameters; secrecy is outside. -/
namespace QuantumChain.Ipc
open StepRun

abbrev SubsystemId := BitVec 8
abbrev Uuid := U128

structure ReplyTo where
  topic : String
  subsystemId : SubsystemId
  deriving DecidableEq, Repr

structure AuthenticatedMessage (T : Type) where
  version : BitVec 16
  senderId : SubsystemId
  recipientId : SubsystemId
  correlationId : Uuid
  replyTo : Option ReplyTo
  timestamp : U64
  nonce : Uuid
  signature : ByteArrayOf 64
  payload : T

def currentVersion : BitVec 16 := 1

inductive VerificationResult where
  | valid
  | unsupportedVersion (received supported : BitVec 16)
  | timestampOutOfRange (timestamp now : U64)
  | replayDetected (nonce : Uuid)
  | invalidSignature
  | replyToMismatch (replyToSubsystem senderId : SubsystemId)
  deriving DecidableEq, Repr

def maxFutureSkew : U64 := 10
def maxAge : U64 := 60
def second : Nat := 10^9
def nonceCacheTtl : Nat := 120 * second
def maxNonceCacheSize : Nat := 100000

abbrev NonceCache := KeyedMap Uuid Nat

/-- `now` is the instant that the caller read before it took the lock. -/
def checkAndInsert (now : Nat) (nonce : Uuid) (cache : NonceCache) : Bool × NonceCache :=
  ExpiryCache.checkAndInsert maxNonceCacheSize nonceCacheTtl now nonce cache

/-- `none` is the panic of an overflow in a build that checks for it. -/
def validateTimestamp (checks : Bool) (now timestamp : U64) : Option (Except VerificationResult Unit) := do
  let expires ← addWord checks timestamp maxAge
  if expires < now then return .error (.timestampOutOfRange timestamp now)
  let latest ← addWord checks now maxFutureSkew
  if latest < timestamp then return .error (.timestampOutOfRange timestamp now)
  return .ok ()

def validateHmacSignature (hmac : Bytes → Bytes → Bytes) (messageBytes : Bytes) (signature : ByteArrayOf 64)
    (sharedSecret : Bytes) : Bool :=
  hmac sharedSecret messageBytes == signature.1.take 32

structure MessageVerifier where
  recipientId : SubsystemId
  getSharedSecret : SubsystemId → Option Bytes

section Verify
variable {T : Type} (hmac : Bytes → Bytes → Bytes) (checks : Bool)

def checkHeader (now : U64) (message : AuthenticatedMessage T) : Option (Except VerificationResult Unit) :=
  if message.version ≠ currentVersion then some (.error (.unsupportedVersion message.version currentVersion))
  else validateTimestamp checks now message.timestamp

def checkOrigin (verifier : MessageVerifier) (message : AuthenticatedMessage T) (messageBytes : Bytes) : VerificationResult :=
  match verifier.getSharedSecret message.senderId with
  | none => .invalidSignature
  | some sharedSecret =>
    if !validateHmacSignature hmac messageBytes message.signature sharedSecret then .invalidSignature
    else
      match message.replyTo with
      | none => .valid
      | some replyTo =>
        if replyTo.subsystemId ≠ message.senderId then .replyToMismatch replyTo.subsystemId message.senderId else .valid

def verify (verifier : MessageVerifier) (now : U64) (instant : Nat) (message : AuthenticatedMessage T) (messageBytes : Bytes)
    (cache : NonceCache) : Option VerificationResult × NonceCache :=
  match checkHeader checks now message with
  | none => (none,cache)
  | some (.error refused) => (some refused,cache)
  | some (.ok ()) =>
    let (fresh,cache) := checkAndInsert instant message.nonce cache
    if !fresh then (some (.replayDetected message.nonce),cache)
    else (some (checkOrigin hmac verifier message messageBytes),cache)

theorem timestampAccepted {now timestamp} (accepted : validateTimestamp checks now timestamp = some (.ok ())) :
    now.toNat ≤ timestamp.toNat + 60 ∧ timestamp.toNat ≤ now.toNat + 10 := by
  unfold validateTimestamp at accepted
  simp only [bind,Option.bind_eq_some_iff] at accepted
  obtain ⟨expires,sum,accepted⟩ := accepted
  cases addWordSome sum
  split at accepted
  · cases accepted
  rename_i young
  obtain ⟨latest,sum,accepted⟩ := Option.bind_eq_some_iff.mp accepted
  cases addWordSome sum
  split at accepted
  · cases accepted
  rename_i near
  have young : ¬ (timestamp + maxAge).toNat < now.toNat := young
  have near : ¬ (now + maxFutureSkew).toNat < timestamp.toNat := near
  rw [BitVec.toNat_add] at young near
  have age : maxAge.toNat = 60 := rfl
  have skew : maxFutureSkew.toNat = 10 := rfl
  have boundNow := now.isLt
  have boundTimestamp := timestamp.isLt
  omega

variable {checks}

theorem verifyCases (verifier) (now) (instant) (message : AuthenticatedMessage T) (messageBytes)
    (cache) : (verify hmac checks verifier now instant message messageBytes cache).1 =
      (checkHeader checks now message).map fun header =>
        match header with
        | .error refused => refused
        | .ok () =>
          if ExpiryCache.live instant cache message.nonce then .replayDetected message.nonce
          else checkOrigin hmac verifier message messageBytes := by
  unfold verify
  cases checkHeader checks now message with
  | none => rfl
  | some header =>
    cases header with
    | error refused => rfl
    | ok _ =>
      unfold checkAndInsert
      rw [ExpiryCache.checkCases]
      cases ExpiryCache.live instant cache message.nonce <;> rfl

end Verify

structure Delivery (T : Type) where
  verifier : SubsystemId
  now : U64
  instant : Nat
  message : AuthenticatedMessage T
  messageBytes : Bytes

section Deliveries
variable {T : Type} (hmac : Bytes → Bytes → Bytes) (checks : Bool) (getSharedSecret : SubsystemId → Option Bytes)

variable (caches : SubsystemId → NonceCache) (delivery : Delivery T)

def outcome : Option VerificationResult × NonceCache :=
  verify hmac checks ⟨delivery.verifier,getSharedSecret⟩ delivery.now delivery.instant delivery.message
    delivery.messageBytes (caches delivery.verifier)

def deliver : SubsystemId → NonceCache :=
  fun id => if id = delivery.verifier then (outcome hmac checks getSharedSecret caches delivery).2 else caches id

def Directed : Prop :=
  (outcome hmac checks getSharedSecret caches delivery).1 = some .valid → delivery.verifier = delivery.message.recipientId

structure Passes (caches : SubsystemId → NonceCache) (delivery : Delivery T) : Prop where
  version : delivery.message.version = currentVersion
  timestamp : validateTimestamp checks delivery.now delivery.message.timestamp = some (.ok ())
  fresh : ExpiryCache.live delivery.instant (caches delivery.verifier) delivery.message.nonce = false
  signed : ∃ sharedSecret, getSharedSecret delivery.message.senderId = some sharedSecret ∧
    validateHmacSignature hmac delivery.messageBytes delivery.message.signature sharedSecret = true
  reply : ∀ replyTo, delivery.message.replyTo = some replyTo → replyTo.subsystemId = delivery.message.senderId

variable {hmac checks getSharedSecret} {caches : SubsystemId → NonceCache} {delivery : Delivery T}

theorem originValid {id} {message : AuthenticatedMessage T} {messageBytes} :
    checkOrigin hmac ⟨id,getSharedSecret⟩ message messageBytes = .valid ↔
      (∃ sharedSecret, getSharedSecret message.senderId = some sharedSecret ∧
        validateHmacSignature hmac messageBytes message.signature sharedSecret = true) ∧
      ∀ replyTo, message.replyTo = some replyTo → replyTo.subsystemId = message.senderId := by
  unfold checkOrigin
  dsimp only
  cases getSharedSecret message.senderId with
  | none => simp
  | some sharedSecret =>
    cases signed : validateHmacSignature hmac messageBytes message.signature sharedSecret with
    | false => simp [signed]
    | true =>
      cases message.replyTo with
      | none => simp [signed]
      | some replyTo => simp [signed]

theorem headerOk {now} {message : AuthenticatedMessage T} : checkHeader checks now message = some (.ok ()) ↔
    message.version = currentVersion ∧ validateTimestamp checks now message.timestamp = some (.ok ()) := by
  unfold checkHeader
  split
  · rename_i other
    simp [other]
  · rename_i current
    simp [not_not.mp current]

theorem headerNotValid {now} {message : AuthenticatedMessage T} : checkHeader checks now message ≠ some (.error .valid) := by
  unfold checkHeader validateTimestamp
  split
  · exact nofun
  · simp only [bind]
    intro same
    obtain ⟨expires,_,same⟩ := Option.bind_eq_some_iff.mp same
    split at same
    · cases same
    obtain ⟨latest,_,same⟩ := Option.bind_eq_some_iff.mp same
    split at same <;> cases same

theorem validIff : (outcome hmac checks getSharedSecret caches delivery).1 = some .valid ↔
    Passes hmac checks getSharedSecret caches delivery := by
  unfold outcome
  rw [verifyCases]
  constructor
  · intro valid
    obtain ⟨header,checked,result⟩ := Option.map_eq_some_iff.mp valid
    cases header with
    | error refused =>
      have same := result
      subst same
      exact absurd checked headerNotValid
    | ok _ =>
      obtain ⟨version,timestamp⟩ := headerOk.mp checked
      cases live : ExpiryCache.live delivery.instant (caches delivery.verifier) delivery.message.nonce with
      | true =>
        rw [live] at result
        cases result
      | false =>
        rw [live] at result
        obtain ⟨signed,reply⟩ := originValid.mp result
        exact ⟨version,timestamp,live,signed,reply⟩
  · intro passes
    rw [headerOk.mpr ⟨passes.version,passes.timestamp⟩,Option.map_some,passes.fresh]
    exact congrArg some (originValid.mpr ⟨passes.signed,passes.reply⟩)

theorem deliveredRedirected (delivery : Delivery T) (deliveries : List (Delivery T)) (id : SubsystemId)
    (own : delivery.verifier = delivery.message.recipientId) (other : id ≠ delivery.message.recipientId)
    (valid : (outcome hmac checks getSharedSecret (run (deliver hmac checks getSharedSecret) caches deliveries)
      delivery).1 = some .valid)
    (fresh : ExpiryCache.live delivery.instant (run (deliver hmac checks getSharedSecret) caches deliveries id)
      delivery.message.nonce = false) :
    ¬ Along (deliver hmac checks getSharedSecret) (Directed hmac checks getSharedSecret) caches
      (deliveries ++ [delivery,{delivery with verifier := id}]) := by
  intro directed
  obtain ⟨_,_,second,_⟩ := alongAppend.mp directed
  -- the recipient's own delivery leaves the cache of every other verifier
  have elsewhere : id ≠ delivery.verifier := own ▸ other
  have untouched : deliver hmac checks getSharedSecret
      (run (deliver hmac checks getSharedSecret) caches deliveries) delivery id =
      run (deliver hmac checks getSharedSecret) caches deliveries id := if_neg elsewhere
  have passes := validIff.mp valid
  refine other (second (validIff.mpr ⟨passes.version,passes.timestamp,?_,passes.signed,passes.reply⟩))
  dsimp only
  rw [untouched]
  exact fresh

end Deliveries

theorem blankLength : (List.replicate 64 (0 : UInt8)).length = 64 := rfl

def blankSignature : ByteArrayOf 64 := ⟨List.replicate 64 0,blankLength⟩

def zeroTag (_ _ : Bytes) : Bytes := List.replicate 32 0

def sharedKey (_ : SubsystemId) : Option Bytes := some []

def greeting : AuthenticatedMessage Unit := ⟨1,8,1,0,none,1010,5,blankSignature,()⟩

def broadcast : List (Delivery Unit) := [⟨1,1000,0,greeting,[]⟩,⟨2,1000,1,greeting,[]⟩]

theorem deliveredRedirectedLater : ¬ Along (deliver zeroTag true sharedKey) (Directed zeroTag true sharedKey) (fun _ => ∅)
    [⟨1,1000,0,{greeting with nonce := 4},[]⟩,⟨1,1000,1,greeting,[]⟩,⟨2,1000,1,greeting,[]⟩] :=
  deliveredRedirected ⟨1,1000,1,greeting,[]⟩ [⟨1,1000,0,{greeting with nonce := 4},[]⟩] 2 rfl (by decide)
    (by decide +kernel) (by decide +kernel)

theorem broadcastRedirected : ¬ Along (deliver zeroTag true sharedKey) (Directed zeroTag true sharedKey)
    (fun _ => ∅) broadcast := by
  intro directed
  have wrong := directed.2.1
  exact absurd (wrong (by decide +kernel)) (by decide)

end QuantumChain.Ipc
