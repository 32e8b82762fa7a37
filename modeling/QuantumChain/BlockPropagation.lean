import QuantumChain.CompactBlock
import QuantumChain.KeyedMap
import QuantumChain.StepRun

/-! The block propagation service and the messages it handles.
The gateways' answers and the clock are inputs; nothing is assumed of them. -/
namespace QuantumChain.Propagation
open StepRun

inductive PropagationState where
  | announced
  | compactReceived
  | reconstructing
  | complete
  | validated
  | invalid
  deriving DecidableEq, Repr

structure PropagationConfig where
  maxAnnouncementsPerSecond : BitVec 32
  maxBlockSizeBytes : Nat
  seenCacheSize : Nat
  deriving DecidableEq

structure PeerPropagationState where
  peerId : Hash
  lastAnnouncement : Nat
  announcementCount : BitVec 32
  windowStart : Nat
  deriving DecidableEq

def second : Nat := 1000000000

namespace PeerPropagationState

def new (peerId : Hash) (now : Nat) : PeerPropagationState := ⟨peerId,now,0,now⟩

def recordAnnouncement (now : Nat) (peer : PeerPropagationState) : PeerPropagationState :=
  let peer := if second ≤ now - peer.windowStart then {peer with windowStart := now, announcementCount := 0} else peer
  {peer with announcementCount := peer.announcementCount + 1, lastAnnouncement := now}

end PeerPropagationState

structure SeenBlockCache where
  cache : KeyedMap Hash PropagationState
  maxSize : Nat
  insertionOrder : List Hash
  deriving DecidableEq

namespace SeenBlockCache

def new (maxSize : Nat) : SeenBlockCache := ⟨∅,maxSize,[]⟩

variable (c : SeenBlockCache) (hash : Hash)

def hasSeen : Bool := (c.cache.lookup hash).isSome

def evicted : SeenBlockCache :=
  if c.maxSize ≤ KeyedMap.size c.cache ∧ !c.hasSeen hash then
    match c.insertionOrder with
    | oldest::rest => {c with cache := c.cache.erase oldest, insertionOrder := rest}
    | [] => c
  else c

def markSeen : SeenBlockCache :=
  let c := c.evicted hash
  if c.hasSeen hash then c
  else {c with cache := c.cache.insert hash .announced, insertionOrder := c.insertionOrder ++ [hash]}

def updateState (state : PropagationState) : SeenBlockCache :=
  match c.cache.lookup hash with
  | some _ => {c with cache := c.cache.insert hash state}
  | none => c

def getState : Option PropagationState := c.cache.lookup hash

end SeenBlockCache

inductive InvariantViolation where
  | duplicateBlock
  | rateLimitExceeded
  | blockTooLarge
  deriving DecidableEq, Repr

def checkRateLimit (peer : PeerPropagationState) (config : PropagationConfig) : Bool :=
  peer.announcementCount < config.maxAnnouncementsPerSecond

def invariantNoDuplicateProcessing (cache : SeenBlockCache) (hash : Hash) : Bool :=
  match cache.getState hash with
  | some .complete => false
  | some .validated => false
  | _ => true

def invariantRateLimit (peer : PeerPropagationState) (config : PropagationConfig) : Bool :=
  peer.announcementCount < config.maxAnnouncementsPerSecond

def invariantSizeLimit (blockSize : Nat) (config : PropagationConfig) : Bool := blockSize ≤ config.maxBlockSizeBytes

def checkAllInvariants (cache : SeenBlockCache) (hash : Hash) (blockSize : Nat) (peer : PeerPropagationState)
    (config : PropagationConfig) : Except InvariantViolation Unit :=
  if !invariantNoDuplicateProcessing cache hash then .error .duplicateBlock
  else if !invariantRateLimit peer config then .error .rateLimitExceeded
  else if !invariantSizeLimit blockSize config then .error .blockTooLarge
  else .ok ()

def minBlockHashSize : Nat := 32

def extractBlockHash (data : Bytes) : Except PropagationError Hash :=
  if data.length < minBlockHashSize then .error (.blockDataTooShort minBlockHashSize data.length)
  else .ok (BitVec.ofNat 256 (beNumber (data.take 32)))

def minBlockWithSig : Nat := 145

def extractBlockSignature (data : Bytes) : Except PropagationError (Bytes × Bytes) :=
  if data.length < minBlockWithSig then .error (.blockDataTooShort minBlockWithSig data.length)
  else .ok (slice data 48 81,slice data 81 145)

structure Gateways where
  now : Nat
  mempool : MempoolLookup
  verifyBlockSignature : Hash → Bytes → Bytes → Except PropagationError Bool
  submitBlockForValidation : Except PropagationError Unit

structure Submission where
  blockHash : Hash
  blockData : Bytes
  sourcePeer : Hash
  accepted : Bool
  deriving DecidableEq

structure BlockPropagationService where
  config : PropagationConfig
  seenCache : SeenBlockCache
  peerStates : List PeerPropagationState
  submissions : List Submission

def updateFirst (peerId : Hash) (f : PeerPropagationState → PeerPropagationState) :
    List PeerPropagationState → List PeerPropagationState
  | [] => []
  | state::rest => if state.peerId = peerId then f state::rest else state::updateFirst peerId f rest

namespace BlockPropagationService

def new (config : PropagationConfig) : BlockPropagationService := ⟨config,.new config.seenCacheSize,[],[]⟩

def findPeerState (s : BlockPropagationService) (peerId : Hash) : Option PeerPropagationState :=
  s.peerStates.find? fun state => state.peerId = peerId

def refreshPeers (s : BlockPropagationService) (peers : List Hash) (now : Nat) : BlockPropagationService :=
  {s with peerStates := peers.foldl (fun states peer =>
    if states.any (fun state => state.peerId = peer) then states else states ++ [.new peer now]) s.peerStates}

def recordAnnouncement (s : BlockPropagationService) (peerId : Hash) (now : Nat) : BlockPropagationService :=
  {s with peerStates := updateFirst peerId (PeerPropagationState.recordAnnouncement now) s.peerStates}

def markSeen (s : BlockPropagationService) (hash : Hash) : BlockPropagationService :=
  {s with seenCache := s.seenCache.markSeen hash}

def updateState (s : BlockPropagationService) (hash : Hash) (state : PropagationState) : BlockPropagationService :=
  {s with seenCache := s.seenCache.updateState hash state}

variable (s : BlockPropagationService)

def submit (hash : Hash) (data : Bytes) (peer : Hash) (answer : Except PropagationError Unit) :
    Except PropagationError Unit × BlockPropagationService :=
  (answer,{s with submissions := s.submissions ++ [⟨hash,data,peer,answer matches .ok _⟩]})

def validateSender (peerId : Hash) : Except PropagationError PeerPropagationState :=
  match s.findPeerState peerId with
  | none => .error (.unknownPeer peerId)
  | some peerState => if checkRateLimit peerState s.config then .ok peerState else .error (.rateLimited peerId)

def validateBlockPreliminaries (blockData : Bytes) (peerState : PeerPropagationState) :
    Except PropagationError Hash :=
  if s.config.maxBlockSizeBytes < blockData.length then .error (.blockTooLarge blockData.length s.config.maxBlockSizeBytes)
  else
    match extractBlockHash blockData with
    | .error e => .error e
    | .ok blockHash =>
      match checkAllInvariants s.seenCache blockHash blockData.length peerState s.config with
      | .ok _ => .ok blockHash
      | .error .duplicateBlock => .error (.duplicateBlock blockHash)
      | .error .rateLimitExceeded => .error (.rateLimited peerState.peerId)
      | .error .blockTooLarge => .error (.blockTooLarge blockData.length s.config.maxBlockSizeBytes)

def validateAndRegisterCompactBlock (peerId : Hash) (compactBlockData : Bytes) (now : Nat) :
    Except PropagationError Hash × BlockPropagationService :=
  match s.validateSender peerId with
  | .error e => (.error e,s)
  | .ok peerState =>
    match s.validateBlockPreliminaries compactBlockData peerState with
    | .error e => (.error e,s)
    | .ok blockHash =>
      let s := s.recordAnnouncement peerId now
      let s := s.markSeen blockHash
      (.ok blockHash,s.updateState blockHash .compactReceived)

def reconstructAndVerify (blockHash : Hash) (compactBlockData : Bytes) (outside : Gateways) :
    Except PropagationError (Option Bytes) × BlockPropagationService :=
  match parseCompactBlock compactBlockData with
  | .error e => (.error e,s)
  | .ok parsed =>
    if (outside.mempool parsed.shortIds parsed.nonce).any Option.isNone then
      (.ok none,s.updateState blockHash .reconstructing)
    else
      match outside.verifyBlockSignature blockHash parsed.proposerPubkey parsed.signature with
      | .error e => (.error e,s)
      | .ok false => (.ok none,s.updateState blockHash .invalid)
      | .ok true => (.ok (some compactBlockData),s)

def verifyFullBlock (blockHash : Hash) (blockData : Bytes) (outside : Gateways) :
    Except PropagationError (Option Bytes) × BlockPropagationService :=
  match extractBlockSignature blockData with
  | .error e => (.error e,s)
  | .ok (proposerPubkey,signature) =>
    match outside.verifyBlockSignature blockHash proposerPubkey signature with
    | .error e => (.error e,s)
    | .ok false => (.ok none,s.updateState blockHash .invalid)
    | .ok true => (.ok (some blockData),s)

def completeAndSubmit (blockHash peer : Hash) (outside : Gateways) :
    Option Bytes → Except PropagationError Unit × BlockPropagationService
  | none => (.ok (),s)
  | some data => (s.updateState blockHash .complete).submit blockHash data peer outside.submitBlockForValidation

def handleAnnouncement (peerId blockHash : Hash) (outside : Gateways) :
    Except PropagationError Unit × BlockPropagationService :=
  match s.validateSender peerId with
  | .error e => (.error e,s)
  | .ok _ =>
    if s.seenCache.hasSeen blockHash then (.error (.duplicateBlock blockHash),s)
    else
      let s := s.recordAnnouncement peerId outside.now
      let s := s.markSeen blockHash
      (.ok (),s.updateState blockHash .announced)

def handleCompactBlock (peerId : Hash) (compactBlockData : Bytes) (outside : Gateways) :
    Except PropagationError Unit × BlockPropagationService :=
  andThen (s.validateAndRegisterCompactBlock peerId compactBlockData outside.now) fun blockHash s =>
    andThen (s.reconstructAndVerify blockHash compactBlockData outside) fun reconstructed s =>
      s.completeAndSubmit blockHash peerId outside reconstructed

def handleFullBlock (peerId : Hash) (blockData : Bytes) (outside : Gateways) :
    Except PropagationError Unit × BlockPropagationService :=
  match s.validateSender peerId with
  | .error e => (.error e,s)
  | .ok peerState =>
    match s.validateBlockPreliminaries blockData peerState with
    | .error e => (.error e,s)
    | .ok blockHash =>
      let s := s.recordAnnouncement peerId outside.now
      let s := s.markSeen blockHash
      andThen (s.verifyFullBlock blockHash blockData outside) fun verified s =>
        s.completeAndSubmit blockHash peerId outside verified

end BlockPropagationService

inductive Incoming where
  | refreshPeers (peers : List Hash)
  | announcement (peerId blockHash : Hash)
  | compactBlock (peerId : Hash) (data : Bytes)
  | fullBlock (peerId : Hash) (data : Bytes)

structure Event where
  message : Incoming
  outside : Gateways

def Incoming.sender : Incoming → Option Hash
  | .refreshPeers _ => none
  | .announcement peerId _ => some peerId
  | .compactBlock peerId _ => some peerId
  | .fullBlock peerId _ => some peerId

variable (s : BlockPropagationService)

def handle (e : Event) : Except PropagationError Unit × BlockPropagationService :=
  match e.message with
  | .refreshPeers peers => (.ok (),s.refreshPeers peers e.outside.now)
  | .announcement peerId blockHash => s.handleAnnouncement peerId blockHash e.outside
  | .compactBlock peerId data => s.handleCompactBlock peerId data e.outside
  | .fullBlock peerId data => s.handleFullBlock peerId data e.outside

def answer (e : Event) : Except PropagationError Unit := (handle s e).1

def serve (e : Event) : BlockPropagationService := (handle s e).2

end QuantumChain.Propagation
