import QuantumChain.KeyedMap
import QuantumChain.PeerDistance
import QuantumChain.StepRun

/-! The routing table: staged peers, buckets, bans.
Identity checks are answered from outside. -/
namespace QuantumChain.PeerDiscovery
open KeyedMap (retain size)
open scoped List

def maxReasonable : Nat := 253402300799

abbrev Timestamp := Fin (maxReasonable + 1)

def epoch : Timestamp := 0

def addSecs (t : Timestamp) (secs : U64) : Timestamp :=
  ⟨min (t.val + secs.toNat) maxReasonable,Nat.lt_succ_of_le (Nat.min_le_right _ _)⟩

inductive IpAddr where
  | v4 (bytes : ByteArrayOf 4)
  | v6 (bytes : ByteArrayOf 16)
  deriving DecidableEq

structure SocketAddr where
  ip : IpAddr
  port : BitVec 16
  deriving DecidableEq

structure PeerInfo where
  nodeId : NodeId
  socketAddr : SocketAddr
  lastSeen : Timestamp
  reputationScore : UInt8
  deriving DecidableEq

structure SubnetMask where
  prefixLength : UInt8 := 24
  deriving DecidableEq

structure KademliaConfig where
  k : Nat := 20
  maxPeersPerSubnet : Nat := 2
  maxPendingPeers : Nat := 1024
  evictionChallengeTimeoutSecs : U64 := 5
  verificationTimeoutSecs : U64 := 10
  deriving DecidableEq

inductive PeerDiscoveryError where
  | peerNotFound
  | peerBanned
  | bucketFull
  | invalidNodeId
  | subnetLimitReached
  | selfConnection
  | stagingAreaFull
  | challengeInProgress
  deriving DecidableEq, Repr

def prefixMatches (a b : Bytes) (prefixBits : UInt8) (maxBytes : Nat) : Bool :=
  let prefixBytes := prefixBits.toNat / 8
  let remainingBits := prefixBits.toNat % 8
  (List.range (min prefixBytes maxBytes)).all (fun i => a.getD i 0 == b.getD i 0) &&
    if 0 < remainingBits ∧ prefixBytes < maxBytes then
      let maskByte : UInt8 := 0xFF <<< UInt8.ofNat (8 - remainingBits)
      a.getD prefixBytes 0 &&& maskByte == b.getD prefixBytes 0 &&& maskByte
    else true

def isSameSubnet (a b : IpAddr) (mask : SubnetMask) : Bool :=
  match a,b with
  | .v4 a,.v4 b => prefixMatches a.1 b.1 mask.prefixLength 4
  | .v6 a,.v6 b => prefixMatches a.1 b.1 mask.prefixLength 16
  | _,_ => false

def maskedPart (bytes : Bytes) (prefixBits : UInt8) (maxBytes : Nat) : Bytes × UInt8 :=
  ((List.range (min (prefixBits.toNat / 8) maxBytes)).map (bytes.getD · 0),
    if 0 < prefixBits.toNat % 8 ∧ prefixBits.toNat / 8 < maxBytes then
      bytes.getD (prefixBits.toNat / 8) 0 &&& 0xFF <<< UInt8.ofNat (8 - prefixBits.toNat % 8)
    else 0)

def subnetOf (mask : SubnetMask) : IpAddr → Bool × Bytes × UInt8
  | .v4 bytes => (false,maskedPart bytes.1 mask.prefixLength 4)
  | .v6 bytes => (true,maskedPart bytes.1 mask.prefixLength 16)

theorem prefixMatchesIff {a b prefixBits maxBytes} :
    prefixMatches a b prefixBits maxBytes = true ↔ maskedPart a prefixBits maxBytes = maskedPart b prefixBits maxBytes := by
  unfold prefixMatches maskedPart
  rw [Bool.and_eq_true,List.all_eq_true,Prod.mk.injEq,List.map_inj_left]
  refine and_congr (by simp only [beq_iff_eq]) ?_
  split <;> simp

theorem sameSubnetIff {a b mask} : isSameSubnet a b mask = true ↔ subnetOf mask a = subnetOf mask b := by
  cases a <;> cases b <;> simp [isSameSubnet,subnetOf,prefixMatchesIff]

structure PendingInsertion where
  candidate : PeerInfo
  challengedPeer : NodeId
  challengeSentAt : Timestamp
  challengeDeadline : Timestamp
  deriving DecidableEq

structure KBucket where
  peers : List PeerInfo := []
  lastUpdated : Timestamp := 0
  pendingInsertion : Option PendingInsertion := none
  deriving DecidableEq

namespace KBucket

variable (b : KBucket)

def isFull (k : Nat) : Bool := k ≤ b.peers.length

def contains (id : NodeId) : Bool := b.peers.any (fun p => p.nodeId = id)

def addPeer (peer : PeerInfo) (now : Timestamp) : KBucket :=
  {b with peers := b.peers ++ [peer], lastUpdated := now}

def removePeer (id : NodeId) : Option PeerInfo × KBucket :=
  (b.peers.find? (fun p => p.nodeId = id),{b with peers := b.peers.eraseP (fun p => p.nodeId = id)})

def moveToFront (id : NodeId) (now : Timestamp) : Bool × KBucket :=
  match b.peers.find? (fun p => p.nodeId = id) with
  | some peer =>
    (true,{b with peers := b.peers.eraseP (fun p => p.nodeId = id) ++ [{peer with lastSeen := now}], lastUpdated := now})
  | none => (false,b)

def touchFirst (id : NodeId) (now : Timestamp) : List PeerInfo → List PeerInfo
  | [] => []
  | p::rest => if p.nodeId = id then {p with lastSeen := now}::rest else p::touchFirst id now rest

def touchPeer (b : KBucket) (id : NodeId) (now : Timestamp) : Bool × KBucket :=
  if b.contains id then (true,{b with peers := touchFirst id now b.peers, lastUpdated := now}) else (false,b)

end KBucket

inductive BanReason where
  | malformedMessage
  | excessiveRequests
  | manualBan
  deriving DecidableEq, Repr

structure BannedEntry where
  nodeId : NodeId
  bannedUntil : Timestamp
  reason : BanReason
  deriving DecidableEq

structure BanDetails where
  durationSecs : U64
  reason : BanReason
  deriving DecidableEq

structure PendingPeer where
  peerInfo : PeerInfo
  receivedAt : Timestamp
  verificationDeadline : Timestamp
  deriving DecidableEq

structure RoutingTable where
  localNodeId : NodeId
  buckets : Fin 256 → KBucket
  bannedPeers : KeyedMap NodeId BannedEntry
  pendingVerification : KeyedMap NodeId PendingPeer
  config : KademliaConfig
  subnetMask : SubnetMask

namespace RoutingTable

def new (localNodeId : NodeId) (config : KademliaConfig) : RoutingTable := ⟨localNodeId,fun _ => {},∅,∅,config,{}⟩

variable (t : RoutingTable)

def bucketIndex (id : NodeId) : Fin 256 := calculateBucketIndex t.localNodeId id

def isBanned (id : NodeId) (now : Timestamp) : Bool :=
  match t.bannedPeers.lookup id with
  | some entry => now < entry.bannedUntil
  | none => false

def setBucket (i : Fin 256) (bucket : KBucket) : RoutingTable :=
  {t with buckets := Function.update t.buckets i bucket}

def stagePeer (peer : PeerInfo) (now : Timestamp) : Except PeerDiscoveryError Bool × RoutingTable :=
  if t.config.maxPendingPeers ≤ t.pendingVerification.size then (.error .stagingAreaFull,t)
  else if peer.nodeId = t.localNodeId then (.error .selfConnection,t)
  else if t.isBanned peer.nodeId now then (.error .peerBanned,t)
  else if (t.pendingVerification.lookup peer.nodeId).isSome then (.ok false,t)
  else if (t.buckets (t.bucketIndex peer.nodeId)).contains peer.nodeId then (.ok false,t)
  else
    let pending : PendingPeer := ⟨peer,now,addSecs now t.config.verificationTimeoutSecs⟩
    (.ok true,{t with pendingVerification := t.pendingVerification.insert peer.nodeId pending})

def peersInSubnet (b : KBucket) (ip : IpAddr) : Nat :=
  (b.peers.filter (fun p => isSameSubnet p.socketAddr.ip ip t.subnetMask)).length

def addVerified (peer : PeerInfo) (now : Timestamp) : Except PeerDiscoveryError (Option NodeId) × RoutingTable :=
  let i := t.bucketIndex peer.nodeId
  let bucket := t.buckets i
  if t.config.maxPeersPerSubnet ≤ t.peersInSubnet bucket peer.socketAddr.ip then (.error .subnetLimitReached,t)
  else if bucket.isFull t.config.k = false then (.ok none,t.setBucket i (bucket.addPeer peer now))
  else if bucket.pendingInsertion.isSome then (.error .challengeInProgress,t)
  else
    match bucket.peers.head? with
    | none => (.error .bucketFull,t)
    | some oldest => (.ok (some oldest.nodeId),t.setBucket i {bucket with
        pendingInsertion := some ⟨peer,oldest.nodeId,now,addSecs now t.config.evictionChallengeTimeoutSecs⟩})

def onVerificationResult (id : NodeId) (identityValid : Bool) (now : Timestamp) :
    Except PeerDiscoveryError (Option NodeId) × RoutingTable :=
  let pending := t.pendingVerification.lookup id
  let t := {t with pendingVerification := t.pendingVerification.erase id}
  if identityValid = false then (.ok none,t)
  else
    match pending with
    | none => (.error .peerNotFound,t)
    | some pending => t.addVerified pending.peerInfo now

def onChallengeResponse (challengedPeer : NodeId) (isAlive : Bool) (now : Timestamp) :
    Except PeerDiscoveryError Unit × RoutingTable :=
  let i := t.bucketIndex challengedPeer
  match (t.buckets i).pendingInsertion with
  | none => (.error .peerNotFound,t)
  | some pending =>
    if pending.challengedPeer ≠ challengedPeer then (.error .peerNotFound,t)
    else
      let bucket := {t.buckets i with pendingInsertion := none}
      if isAlive then (.ok (),t.setBucket i (bucket.moveToFront challengedPeer now).2)
      else (.ok (),t.setBucket i ((bucket.removePeer challengedPeer).2.addPeer pending.candidate now))

def expired (b : KBucket) (now : Timestamp) : Option PendingInsertion :=
  b.pendingInsertion.filter (fun pending => ¬now < pending.challengeDeadline)

def expireChallenge (b : KBucket) (now : Timestamp) : KBucket :=
  match expired b now with
  | none => b
  | some pending =>
    (({b with pendingInsertion := none} : KBucket).removePeer pending.challengedPeer).2.addPeer pending.candidate now

variable (t : RoutingTable)

def checkExpiredChallenges (now : Timestamp) : List (Fin 256 × PeerInfo × NodeId) × RoutingTable :=
  ((List.finRange 256).filterMap (fun i => (expired (t.buckets i) now).map (fun p => (i,p.candidate,p.challengedPeer))),
    {t with buckets := fun i => expireChallenge (t.buckets i) now})

def gcExpired (now : Timestamp) : Nat × RoutingTable :=
  let pending := retain (fun _ p => now < p.verificationDeadline) t.pendingVerification
  let banned := retain (fun _ e => now < e.bannedUntil) t.bannedPeers
  (t.pendingVerification.size - pending.size + (t.bannedPeers.size - banned.size),
    {t with pendingVerification := pending, bannedPeers := banned})

def banPeer (id : NodeId) (details : BanDetails) (now : Timestamp) :
    Except PeerDiscoveryError Unit × RoutingTable :=
  let i := t.bucketIndex id
  let t := t.setBucket i ((t.buckets i).removePeer id).2
  (.ok (),{t with
    pendingVerification := t.pendingVerification.erase id
    bannedPeers := t.bannedPeers.insert id ⟨id,addSecs now details.durationSecs,details.reason⟩})

def touchPeer (t : RoutingTable) (id : NodeId) (now : Timestamp) : Except PeerDiscoveryError Unit × RoutingTable :=
  let i := t.bucketIndex id
  let (found,bucket) := (t.buckets i).touchPeer id now
  (if found then .ok () else .error .peerNotFound,t.setBucket i bucket)

def removePeer (t : RoutingTable) (id : NodeId) : Except PeerDiscoveryError Unit × RoutingTable :=
  let i := t.bucketIndex id
  let (found,bucket) := (t.buckets i).removePeer id
  (if found.isSome then .ok () else .error .peerNotFound,t.setBucket i bucket)

end RoutingTable

inductive TableCall where
  | stagePeer (peer : PeerInfo)
  | onVerificationResult (id : NodeId) (identityValid : Bool)
  | onChallengeResponse (challengedPeer : NodeId) (isAlive : Bool)
  | checkExpiredChallenges
  | gcExpired
  | banPeer (id : NodeId) (details : BanDetails)
  | touchPeer (id : NodeId)
  | removePeer (id : NodeId)

def RoutingTable.serve (t : RoutingTable) (now : Timestamp) : TableCall → RoutingTable
  | .stagePeer peer => (t.stagePeer peer now).2
  | .onVerificationResult id identityValid => (t.onVerificationResult id identityValid now).2
  | .onChallengeResponse challengedPeer isAlive => (t.onChallengeResponse challengedPeer isAlive now).2
  | .checkExpiredChallenges => (t.checkExpiredChallenges now).2
  | .gcExpired => (t.gcExpired now).2
  | .banPeer id details => (t.banPeer id details now).2
  | .touchPeer id => (t.touchPeer id now).2
  | .removePeer id => (t.removePeer id).2

structure Turn where
  wait : U64
  call : TableCall

structure Clocked where
  table : RoutingTable
  now : Timestamp

def Clocked.turn (s : Clocked) (e : Turn) : Clocked :=
  ⟨s.table.serve (addSecs s.now e.wait) e.call,addSecs s.now e.wait⟩

def Clocked.start (localNodeId : NodeId) (config : KademliaConfig) : Clocked := ⟨.new localNodeId config,epoch⟩

abbrev Face := NodeId × IpAddr

def PeerInfo.face (p : PeerInfo) : Face := (p.nodeId,p.socketAddr.ip)

def KBucket.faces (b : KBucket) : List Face := b.peers.map PeerInfo.face

def without (id : NodeId) (faces : List Face) : List Face := faces.eraseP (fun f => f.1 = id)

variable (t : RoutingTable)

def resolved (now : Timestamp) (i : Fin 256) : TableCall → Option PendingInsertion
  | .onChallengeResponse challengedPeer false =>
    match (t.buckets (t.bucketIndex challengedPeer)).pendingInsertion with
    | none => none
    | some pending => if t.bucketIndex challengedPeer = i ∧ pending.challengedPeer =
        challengedPeer then some pending else none
  | .checkExpiredChallenges => RoutingTable.expired (t.buckets i) now
  | _ => none

def admitted (i : Fin 256) : TableCall → Option PeerInfo
  | .onVerificationResult id true =>
    match t.pendingVerification.lookup id with
    | none => none
    | some ⟨peer,_,_⟩ =>
      if t.bucketIndex peer.nodeId = i ∧ t.peersInSubnet (t.buckets i) peer.socketAddr.ip < t.config.maxPeersPerSubnet ∧
        (t.buckets i).peers.length < t.config.k then some peer else none
  | _ => none

def dropped (i : Fin 256) : TableCall → Option NodeId
  | .banPeer id _ => if t.bucketIndex id = i then some id else none
  | .removePeer id => if t.bucketIndex id = i then some id else none
  | _ => none

def facesAfter (now : Timestamp) (i : Fin 256) (call : TableCall) : List Face :=
  match resolved t now i call with
  | some pending => without pending.challengedPeer (t.buckets i).faces ++ [pending.candidate.face]
  | none =>
    match dropped t i call with
    | some id => without id (t.buckets i).faces
    | none => (t.buckets i).faces ++ (admitted t i call).toList.map PeerInfo.face

variable (b : KBucket)

theorem facesRemove (id) : (b.removePeer id).2.faces = without id b.faces := by
  unfold KBucket.faces without KBucket.removePeer
  rw [List.eraseP_map]
  rfl

theorem facesAdd (peer) (now) : (b.addPeer peer now).faces = b.faces ++ [peer.face] := by
  unfold KBucket.faces KBucket.addPeer
  rw [List.map_append]
  rfl

theorem facesTouch (id) (now) : (b.touchPeer id now).2.faces = b.faces := by
  have touched peers : (KBucket.touchFirst id now peers).map PeerInfo.face = peers.map PeerInfo.face := by
    induction peers with
    | nil => rfl
    | cons p rest ih =>
      unfold KBucket.touchFirst
      split
      · rfl
      · rw [List.map_cons,List.map_cons,ih]
  unfold KBucket.touchPeer
  split
  · exact touched b.peers
  · rfl

theorem facesMove (id) (now) : (b.moveToFront id now).2.faces ~ b.faces := by
  unfold KBucket.moveToFront
  split
  · rename_i peer found
    have moved : b.peers ~ b.peers.eraseP (fun p => p.nodeId = id) ++ [peer] := by
      obtain ⟨here,before,after,parts,others⟩ := List.find?_eq_some_iff_append.mp found
      have absent : ∀ p ∈ before, ¬decide (p.nodeId = id) = true := fun p mem same => by
        have other := others p mem
        rw [same] at other
        cases other
      rw [parts,List.eraseP_append_right _ absent,
        List.eraseP_cons_of_pos (p := fun p : PeerInfo => decide (p.nodeId = id)) here]
      exact List.perm_middle.trans (List.perm_append_singleton _ _).symm
    have faces := (moved.map PeerInfo.face).symm
    rw [List.map_append] at faces
    unfold KBucket.faces
    rw [List.map_append]
    exact faces
  · exact .refl _

theorem bucketsSet (t : RoutingTable) (j i) (bucket) :
    (t.setBucket j bucket).buckets i = if j = i then bucket else t.buckets i := by
  unfold RoutingTable.setBucket
  dsimp only
  rw [Function.update_apply]
  exact if_congr eq_comm rfl rfl

section Effects
variable (t : RoutingTable) (now : Timestamp) (i : Fin 256)

theorem stageCases (peer) : (t.stagePeer peer now).2 = t ∨ t.isBanned peer.nodeId now = false ∧
    ∃ pending, pending.peerInfo = peer ∧
      (t.stagePeer peer now).2 = {t with pendingVerification := t.pendingVerification.insert peer.nodeId pending} := by
  unfold RoutingTable.stagePeer
  split
  · exact .inl rfl
  · split
    · exact .inl rfl
    · split
      · exact .inl rfl
      · rename_i free
        split
        · exact .inl rfl
        · split
          · exact .inl rfl
          · exact .inr ⟨Bool.eq_false_iff.mpr free,_,rfl,rfl⟩

theorem verificationFrame (id) (identityValid) : ∃ buckets, (t.onVerificationResult id identityValid now).2 =
    {t with pendingVerification := t.pendingVerification.erase id, buckets := buckets} := by
  unfold RoutingTable.onVerificationResult RoutingTable.addVerified
  dsimp only
  repeat' split
  all_goals exact ⟨_,rfl⟩

theorem challengeFrame (id) (isAlive) :
    ∃ buckets, (t.onChallengeResponse id isAlive now).2 = {t with buckets := buckets} := by
  unfold RoutingTable.onChallengeResponse
  dsimp only
  repeat' split
  all_goals exact ⟨_,rfl⟩

theorem stageBuckets (peer) : (t.stagePeer peer now).2.buckets = t.buckets := by
  obtain same | ⟨_,_,_,staged⟩ := stageCases t now peer
  · rw [same]
  · rw [staged]

theorem admitFaces (peer) : ((t.addVerified peer now).2.buckets i).faces = (t.buckets i).faces ++
    (if t.bucketIndex peer.nodeId = i ∧ t.peersInSubnet (t.buckets i) peer.socketAddr.ip < t.config.maxPeersPerSubnet ∧
      (t.buckets i).peers.length < t.config.k then some peer else none).toList.map PeerInfo.face := by
  have stays {c : Prop} [Decidable c] (refused : ¬c) :
      (t.buckets i).faces ++ (if c then some peer else none).toList.map PeerInfo.face = (t.buckets i).faces := by
    rw [if_neg refused]
    exact List.append_nil _
  unfold RoutingTable.addVerified
  dsimp only
  split
  · rename_i crowded
    exact (stays (by rintro ⟨rfl,room,_⟩; exact Nat.not_lt.mpr crowded room)).symm
  · rename_i room
    split
    · rename_i free
      have free : (t.buckets (t.bucketIndex peer.nodeId)).peers.length < t.config.k := by
        simpa [KBucket.isFull] using free
      rw [bucketsSet]
      split
      · rename_i here
        subst here
        rw [if_pos ⟨rfl,Nat.lt_of_not_le room,free⟩,facesAdd]
        rfl
      · rename_i other
        exact (stays (fun all => other all.1)).symm
    · rename_i full
      have full : ¬(t.buckets (t.bucketIndex peer.nodeId)).peers.length < t.config.k := by
        simpa [KBucket.isFull] using full
      refine Eq.trans ?_ (stays (by rintro ⟨rfl,_,free⟩; exact full free)).symm
      split
      · rfl
      · split
        · rfl
        · rw [bucketsSet]
          split
          · rename_i here
            rw [← here]
            rfl
          · rfl

theorem unchangedFaces {call} (unresolved : resolved t now i call = none) (kept : dropped t i call = none)
    (closed : admitted t i call = none) : facesAfter t now i call = (t.buckets i).faces := by
  rw [facesAfter,unresolved,kept,closed]
  exact List.append_nil _

theorem verifyFaces (id) (identityValid) : ((t.onVerificationResult id identityValid now).2.buckets i).faces =
      facesAfter t now i (.onVerificationResult id identityValid) := by
  cases identityValid with
  | false => exact (unchangedFaces t now i rfl rfl rfl).symm
  | true =>
    dsimp only [facesAfter,resolved,admitted,dropped,RoutingTable.onVerificationResult]
    cases t.pendingVerification.lookup id with
    | none => exact (List.append_nil _).symm
    | some pending => exact admitFaces {t with pendingVerification := t.pendingVerification.erase id} now i pending.peerInfo

theorem challengeFaces (id) (isAlive) :
    ((t.onChallengeResponse id isAlive now).2.buckets i).faces ~ facesAfter t now i (.onChallengeResponse id isAlive) := by
  unfold RoutingTable.onChallengeResponse
  dsimp only
  cases isAlive with
  | true =>
    refine .trans ?_ (.of_eq (unchangedFaces t now i rfl rfl rfl).symm)
    split
    · exact .refl _
    · split
      · exact .refl _
      · rw [if_pos rfl,bucketsSet]
        split
        · rename_i here
          subst here
          exact facesMove _ id now
        · exact .refl _
  | false =>
    cases parked : (t.buckets (t.bucketIndex id)).pendingInsertion with
    | none => exact .of_eq (unchangedFaces t now i (by rw [resolved,parked]) rfl rfl).symm
    | some pending =>
      dsimp only
      split
      · rename_i other
        exact .of_eq (unchangedFaces t now i (by rw [resolved,parked]; exact if_neg (fun both => other both.2)) rfl rfl).symm
      · rename_i same
        rw [if_neg (by decide),bucketsSet]
        split
        · rename_i here
          have found : resolved t now i (.onChallengeResponse id false) = some pending := by
            rw [resolved,parked]
            exact if_pos ⟨here,not_not.mp same⟩
          rw [facesAfter,found,facesAdd,facesRemove]
          subst here
          dsimp only
          rw [not_not.mp same]
          exact .refl _
        · rename_i other
          exact .of_eq (unchangedFaces t now i (by rw [resolved,parked]; exact if_neg (fun both =>
            other both.1)) rfl rfl).symm

theorem expireFaces : ((t.checkExpiredChallenges now).2.buckets i).faces = facesAfter t now i .checkExpiredChallenges := by
  dsimp only [facesAfter,resolved,admitted,dropped,RoutingTable.checkExpiredChallenges,RoutingTable.expireChallenge]
  cases RoutingTable.expired (t.buckets i) now with
  | none => exact (List.append_nil _).symm
  | some pending => exact (facesAdd _ _ now).trans (congrArg (· ++ [pending.candidate.face]) (facesRemove _ _))

theorem dropFaces (id) : ((t.setBucket (t.bucketIndex id) ((t.buckets (t.bucketIndex id)).removePeer id).2).buckets i).faces =
    facesAfter t now i (.removePeer id) := by
  dsimp only [facesAfter,resolved,admitted,dropped]
  rw [bucketsSet]
  split
  · rename_i here
    subst here
    exact facesRemove _ id
  · exact (List.append_nil _).symm

theorem servedFaces (call) : ((t.serve now call).buckets i).faces ~ facesAfter t now i call := by
  cases call with
  | stagePeer peer =>
    refine .of_eq (Eq.trans ?_ (unchangedFaces t now i rfl rfl rfl).symm)
    exact congrArg (fun buckets => KBucket.faces (buckets i)) (stageBuckets t now peer)
  | onVerificationResult id identityValid => exact .of_eq (verifyFaces t now i id identityValid)
  | onChallengeResponse id isAlive => exact challengeFaces t now i id isAlive
  | checkExpiredChallenges => exact .of_eq (expireFaces t now i)
  | gcExpired => exact .of_eq (unchangedFaces t now i rfl rfl rfl).symm
  | banPeer id details => exact .of_eq (dropFaces t now i id)
  | touchPeer id =>
    refine .of_eq (Eq.trans ?_ (unchangedFaces t now i rfl rfl rfl).symm)
    unfold RoutingTable.serve RoutingTable.touchPeer
    dsimp only
    rw [bucketsSet]
    split
    · rename_i here
      subst here
      exact facesTouch _ id now
    · rfl
  | removePeer id => exact .of_eq (dropFaces t now i id)

theorem servedFrame (call) : (t.serve now call).config = t.config ∧
    (t.serve now call).localNodeId = t.localNodeId ∧ (t.serve now call).subnetMask = t.subnetMask := by
  cases call with
  | stagePeer peer =>
    rw [RoutingTable.serve]
    obtain same | ⟨_,_,_,staged⟩ := stageCases t now peer
    · rw [same]
      exact ⟨rfl,rfl,rfl⟩
    · rw [staged]
      exact ⟨rfl,rfl,rfl⟩
  | onVerificationResult id identityValid =>
    obtain ⟨_,changed⟩ := verificationFrame t now id identityValid
    rw [RoutingTable.serve,changed]
    exact ⟨rfl,rfl,rfl⟩
  | onChallengeResponse id isAlive =>
    obtain ⟨_,changed⟩ := challengeFrame t now id isAlive
    rw [RoutingTable.serve,changed]
    exact ⟨rfl,rfl,rfl⟩
  | checkExpiredChallenges | gcExpired | banPeer id details | touchPeer id | removePeer id => exact ⟨rfl,rfl,rfl⟩

end Effects

end QuantumChain.PeerDiscovery
