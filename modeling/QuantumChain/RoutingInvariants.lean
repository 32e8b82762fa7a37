import QuantumChain.RoutingTable

/-! The invariants of the routing table over whole runs.
The time of each call is an input. -/
namespace QuantumChain.PeerDiscovery
open RoutingTable
open List KeyedMap
open StepRun
open scoped List

section Effects
variable {t : RoutingTable} {now : Timestamp} {i : Fin 256} {call : TableCall}

theorem moveParked (b : KBucket) (id) : (b.moveToFront id now).2.pendingInsertion = b.pendingInsertion := by
  unfold KBucket.moveToFront
  split <;> rfl

theorem touchParked (b : KBucket) (id) : (b.touchPeer id now).2.pendingInsertion = b.pendingInsertion := by
  unfold KBucket.touchPeer
  split <;> rfl

theorem setParked {j : Fin 256} {bucket : KBucket} {pending : PendingInsertion}
    (parked : ((t.setBucket j bucket).buckets i).pendingInsertion = some pending) :
    bucket.pendingInsertion = some pending ∧ j = i ∨ (t.buckets i).pendingInsertion = some pending := by
  rw [bucketsSet] at parked
  split at parked
  · exact .inl ⟨parked,‹_›⟩
  · exact .inr parked

theorem admitParked {peer} {pending : PendingInsertion}
    (parked : ((t.addVerified peer now).2.buckets i).pendingInsertion = some pending) :
    (t.buckets i).pendingInsertion = some pending ∨ t.bucketIndex pending.candidate.nodeId = i := by
  unfold addVerified at parked
  dsimp only at parked
  split at parked
  · exact .inl parked
  · split at parked
    · rcases setParked parked with ⟨before,here⟩ | before
      · exact .inl (here ▸ before)
      · exact .inl before
    · split at parked
      · exact .inl parked
      · split at parked
        · exact .inl parked
        · rcases setParked parked with ⟨new,here⟩ | before
          · cases new
            exact .inr here
          · exact .inl before

theorem servedParked {pending} (parked : ((t.serve now call).buckets i).pendingInsertion = some pending) :
    (t.buckets i).pendingInsertion = some pending ∨ t.bucketIndex pending.candidate.nodeId = i := by
  cases call with
  | stagePeer peer =>
    unfold serve at parked
    rw [stageBuckets] at parked
    exact .inl parked
  | onVerificationResult id identityValid =>
    unfold serve onVerificationResult at parked
    dsimp only at parked
    split at parked
    · exact .inl parked
    · split at parked
      · exact .inl parked
      · exact admitParked (t := {t with pendingVerification := t.pendingVerification.erase id}) parked
  | onChallengeResponse id isAlive =>
    unfold serve onChallengeResponse at parked
    dsimp only at parked
    split at parked
    · exact .inl parked
    · split at parked
      · exact .inl parked
      · split at parked
        · rcases setParked parked with ⟨new,_⟩ | before
          · rw [moveParked] at new
            cases new
          · exact .inl before
        · rcases setParked parked with ⟨new,_⟩ | before
          · cases new
          · exact .inl before
  | checkExpiredChallenges =>
    unfold serve checkExpiredChallenges expireChallenge at parked
    dsimp only at parked
    split at parked
    · exact .inl parked
    · cases parked
  | gcExpired => exact .inl parked
  | touchPeer id =>
    unfold serve touchPeer at parked
    rcases setParked parked with ⟨same,here⟩ | before
    · rw [touchParked] at same
      exact .inl (here ▸ same)
    · exact .inl before
  | banPeer id details | removePeer id =>
    rcases setParked parked with ⟨same,here⟩ | before
    · exact .inl (here ▸ same)
    · exact .inl before

theorem servedStaged {id : NodeId} {pending : PendingPeer}
    (staged : (t.serve now call).pendingVerification.lookup id = some pending) :
    t.pendingVerification.lookup id = some pending ∧ (∀ details, call ≠ .banPeer id details) ∨
    pending.peerInfo.nodeId = id ∧ t.isBanned id now = false ∧ ∃ peer, call = .stagePeer peer := by
  cases call with
  | stagePeer peer =>
    rw [serve] at staged
    obtain same | ⟨free,added,own,changed⟩ := stageCases t now peer
    · rw [same] at staged
      exact .inl ⟨staged,fun _ ban => by cases ban⟩
    · rw [changed,lookupInsert] at staged
      split at staged
      · rename_i same
        cases staged
        rw [own,same]
        exact .inr ⟨rfl,free,peer,rfl⟩
      · exact .inl ⟨staged,fun _ ban => by cases ban⟩
  | onVerificationResult id' identityValid =>
    obtain ⟨_,changed⟩ := verificationFrame t now id' identityValid
    rw [serve,changed,lookupErase] at staged
    split at staged
    · cases staged
    · exact .inl ⟨staged,fun _ ban => by cases ban⟩
  | onChallengeResponse id' isAlive =>
    obtain ⟨_,changed⟩ := challengeFrame t now id' isAlive
    rw [serve,changed] at staged
    exact .inl ⟨staged,fun _ ban => by cases ban⟩
  | gcExpired =>
    exact .inl ⟨(lookupRetainSome.mp staged).1,fun _ ban => by cases ban⟩
  | banPeer id' details =>
    have erased : (t.pendingVerification.erase id').lookup id = some pending := staged
    rw [lookupErase] at erased
    split at erased
    · cases erased
    · rename_i other
      exact .inl ⟨erased,fun _ same => other (by cases same; rfl)⟩
  | checkExpiredChallenges | touchPeer id' | removePeer id' => exact .inl ⟨staged,fun _ ban => by cases ban⟩

theorem isBannedEarlier {id : NodeId} {later : Timestamp} (after : now ≤ later) (banned : t.isBanned id later = true) :
    t.isBanned id now = true := by
  unfold isBanned at *
  split
  · rename_i entry found
    rw [found] at banned
    exact decide_eq_true (lt_of_le_of_lt after (of_decide_eq_true banned))
  · rename_i none
    rw [none] at banned
    exact banned

theorem bannedByCall (id : NodeId) (details : BanDetails) (later : Timestamp) :
    (t.serve now (.banPeer id details)).isBanned id later = decide (later < addSecs now details.durationSecs) := by
  unfold serve banPeer isBanned
  dsimp only
  rw [lookupInsert,if_pos rfl]

theorem bannedKept {id} (other : ∀ details, call ≠ .banPeer id details) :
    (t.serve now call).isBanned id now = t.isBanned id now := by
  have same (kept : (t.serve now call).bannedPeers = t.bannedPeers) : (t.serve now call).isBanned id now =
    t.isBanned id now := by
    unfold isBanned
    rw [kept]
  cases call with
  | stagePeer peer =>
    apply same
    rw [serve]
    obtain unchanged | ⟨_,_,_,changed⟩ := stageCases t now peer
    · rw [unchanged]
    · rw [changed]
  | onVerificationResult id' identityValid =>
    apply same
    obtain ⟨_,changed⟩ := verificationFrame t now id' identityValid
    rw [serve,changed]
  | onChallengeResponse id' isAlive =>
    apply same
    obtain ⟨_,changed⟩ := challengeFrame t now id' isAlive
    rw [serve,changed]
  | gcExpired =>
    unfold serve gcExpired isBanned
    rw [lookupRetain]
    cases t.bannedPeers.lookup id with
    | none => rfl
    | some entry =>
      rw [Option.filter_some]
      cases live : decide (now < entry.bannedUntil) with
      | true => rfl
      | false => exact live.symm
  | banPeer id' details =>
    have apart : id ≠ id' := fun same => other details (by rw [same])
    unfold serve banPeer isBanned
    rw [lookupInsert,if_neg apart]
    rfl
  | checkExpiredChallenges | touchPeer id' | removePeer id' => exact same rfl

theorem resolvedParked {pending} (found : resolved t now i call = some pending) :
    (t.buckets i).pendingInsertion = some pending ∧ ∀ id details, call ≠ .banPeer id details := by
  unfold resolved at found
  split at found
  · split at found
    · cases found
    · rename_i parked
      split at found
      · rename_i here
        cases found
        exact ⟨here.1 ▸ parked,nofun⟩
      · cases found
  · exact ⟨(Option.filter_eq_some_iff.mp found).1,nofun⟩
  · cases found

theorem admittedStaged {peer} (found : admitted t i call = some peer) :
    (∃ id pending, call = .onVerificationResult id true ∧ t.pendingVerification.lookup id = some pending ∧
      pending.peerInfo = peer) ∧
    t.bucketIndex peer.nodeId = i ∧ t.peersInSubnet (t.buckets i) peer.socketAddr.ip < t.config.maxPeersPerSubnet ∧
    (t.buckets i).peers.length < t.config.k := by
  unfold admitted at found
  split at found
  · rename_i id
    split at found
    · cases found
    · rename_i staged
      split at found
      · rename_i admits
        cases found
        exact ⟨⟨id,_,rfl,staged,rfl⟩,admits⟩
      · cases found
  · cases found

theorem idsWithout (id) (faces) : (without id faces).map Prod.fst = (faces.map Prod.fst).erase id := by
  rw [erase_eq_eraseP',eraseP_map]
  rfl

theorem memWithout {id faces f} (mem : f ∈ without id faces) : f ∈ faces :=
  mem_of_mem_eraseP mem

theorem memFacesAfter {f} (mem : f ∈ facesAfter t now i call) :
    f ∈ (t.buckets i).faces ∧ (∀ id, dropped t i call = some id → f ∈ without id (t.buckets i).faces) ∨
    (∃ pending, resolved t now i call = some pending ∧ f = pending.candidate.face) ∨
    (∃ peer, admitted t i call = some peer ∧ f = peer.face) := by
  unfold facesAfter at mem
  split at mem
  · rename_i pending found
    rcases mem_append.mp mem with old | new
    · refine .inl ⟨memWithout old,fun id drops => ?_⟩
      cases call <;> first | cases drops | cases found
    · exact .inr (.inl ⟨pending,found,mem_singleton.mp new⟩)
  · split at mem
    · rename_i id drops
      exact .inl ⟨memWithout mem,fun id' drops' => by cases drops.symm.trans drops'; exact mem⟩
    · rename_i keeps
      rcases mem_append.mp mem with old | new
      · exact .inl ⟨old,fun id drops => by cases keeps.symm.trans drops⟩
      · obtain ⟨peer,joins,rfl⟩ := mem_map.mp new
        exact .inr (.inr ⟨peer,Option.mem_toList.mp joins,rfl⟩)

end Effects

def Bounded (t : RoutingTable) : Prop := ∀ i, (t.buckets i).peers.length ≤ t.config.k

def Room (s : Clocked) (e : Turn) : Prop :=
  ∀ i pending, resolved s.table (addSecs s.now e.wait) i e.call = some pending →
    pending.challengedPeer ∈ (s.table.buckets i).faces.map Prod.fst ∨ (s.table.buckets i).peers.length < s.table.config.k

theorem facesLength (b : KBucket) : b.faces.length = b.peers.length := length_map ..

theorem lengthWithout (id) (faces) :
    (without id faces).length = if id ∈ faces.map Prod.fst then faces.length - 1 else faces.length := by
  have ids := congrArg List.length (idsWithout id faces)
  rw [length_map,length_erase,length_map] at ids
  exact ids

theorem lengthServed (t) (now) (i) (call) :
    ((t.serve now call).buckets i).peers.length = (facesAfter t now i call).length := by
  rw [← facesLength]
  exact (servedFaces t now i call).length_eq

theorem boundedTurn {s} (bounded : Bounded s.table) (e) : Bounded (s.turn e).table ↔ Room s e := by
  unfold Bounded Clocked.turn Room
  rw [(servedFrame s.table (addSecs s.now e.wait) e.call).1]
  refine forall_congr' fun i => ?_
  rw [lengthServed]
  have before := bounded i
  have faces := facesLength (s.table.buckets i)
  unfold facesAfter
  split
  · rename_i pending found
    rw [found,length_append,length_singleton,lengthWithout]
    constructor
    · intro fits pending' same
      cases same
      by_contra none
      rw [not_or] at none
      rw [if_neg none.1] at fits
      omega
    · intro room
      rcases room pending rfl with mem | free
      · have positive := length_pos_of_mem mem
        rw [length_map] at positive
        rw [if_pos mem]
        omega
      · split <;> omega
  · rename_i none
    rw [none]
    refine iff_of_true ?_ nofun
    split
    · rename_i id _
      rw [lengthWithout]
      split <;> omega
    · rw [length_append]
      cases joins : admitted s.table i e.call with
      | none =>
        change _ + 0 ≤ _
        omega
      | some peer =>
        have room := (admittedStaged joins).2.2.2
        change _ + 1 ≤ _
        omega

theorem bucketsBoundedIff (localNodeId : NodeId) (config : KademliaConfig) (turns : List Turn) :
    Along Clocked.turn (fun s e => Bounded (s.turn e).table) (.start localNodeId config) turns ↔
      Along Clocked.turn Room (.start localNodeId config) turns :=
  alongExact (I := fun s : Clocked => Bounded s.table) (fun _ e bounded room => (boundedTurn bounded e).2 room)
    (fun _ bounded => bounded)
    (fun _ e bounded bounded' => (boundedTurn bounded e).1 bounded') (fun _ => Nat.zero_le _)

def member (number : Nat) (net : UInt8) : PeerInfo :=
  ⟨BitVec.ofNat 256 (2^255 + number),⟨.v4 ⟨[10,0,net,1],rfl⟩,30303⟩,epoch,50⟩

def join (p : PeerInfo) : List Turn := [⟨0,.stagePeer p⟩,⟨0,.onVerificationResult p.nodeId true⟩]

def lateTurn : Turn := ⟨10,.checkExpiredChallenges⟩

theorem overfullBucket : ¬Bounded (StepRun.run Clocked.turn (.start 0 {k := 1})
    (join (member 1 1) ++ join (member 2 2) ++ [⟨0,.removePeer (member 1 1).nodeId⟩] ++ join (member 3 3) ++
      [lateTurn])).table :=
  fun bounded => absurd (bounded 0) (by decide +kernel)

structure Placed (t : RoutingTable) : Prop where
  peers : ∀ i f, f ∈ (t.buckets i).faces → t.bucketIndex f.1 = i
  parked : ∀ i pending, (t.buckets i).pendingInsertion = some pending → t.bucketIndex pending.candidate.nodeId = i

theorem indexServed (t : RoutingTable) (now) (call) (id) : (t.serve now call).bucketIndex id = t.bucketIndex id :=
  congrArg (calculateBucketIndex · id) (servedFrame t now call).2.1

theorem placedServe {t} (placed : Placed t) (now) (call) : Placed (t.serve now call) where
  peers := by
    intro i f mem
    rw [indexServed]
    rcases memFacesAfter ((servedFaces t now i call).mem_iff.mp mem) with ⟨old,_⟩ | ⟨pending,found,rfl⟩ | ⟨peer,found,rfl⟩
    · exact placed.peers i f old
    · exact placed.parked i pending (resolvedParked found).1
    · exact (admittedStaged found).2.1
  parked := by
    intro i pending parked
    rw [indexServed]
    rcases servedParked parked with old | new
    · exact placed.parked i pending old
    · exact new

theorem placedNew (localNodeId) (config) : Placed (.new localNodeId config) :=
  ⟨fun _ _ mem => absurd mem not_mem_nil,fun _ _ parked => nomatch parked⟩

def Unbanned (s : Clocked) : Prop := ∀ i, ∀ p ∈ (s.table.buckets i).peers, s.table.isBanned p.nodeId s.now = false

def BanKept (s : Clocked) (e : Turn) : Prop :=
  (∀ i pending, resolved s.table (addSecs s.now e.wait) i e.call = some pending →
    s.table.isBanned pending.candidate.nodeId (addSecs s.now e.wait) = false) ∧
  ∀ id details, e.call = .banPeer id details →
    addSecs s.now e.wait < addSecs (addSecs s.now e.wait) details.durationSecs →
    ((s.table.buckets (s.table.bucketIndex id)).faces.map Prod.fst).count id ≤ 1

structure StagedFree (s : Clocked) : Prop where
  placed : Placed s.table
  staged : ∀ id pending, s.table.pendingVerification.lookup id = some pending →
    pending.peerInfo.nodeId = id ∧ s.table.isBanned id s.now = false

theorem laterTurn (now) (wait) : now ≤ addSecs now wait := by
  change now.val ≤ min (now.val + wait.toNat) maxReasonable
  omega

theorem freeLater {t : RoutingTable} {id now} (free : t.isBanned id now = false) (wait) :
    t.isBanned id (addSecs now wait) = false := by
  refine Bool.eq_false_iff.mpr fun banned => ?_
  rw [isBannedEarlier (laterTurn now wait) banned] at free
  cases free

theorem stagedFreeTurn {s} (inv : StagedFree s) (e) : StagedFree (s.turn e) where
  placed := placedServe inv.placed _ e.call
  staged := by
    intro id pending staged
    unfold Clocked.turn at staged ⊢
    rcases servedStaged staged with ⟨old,other⟩ | ⟨same,free,peer,call⟩
    · rw [bannedKept other]
      have before := inv.staged id pending old
      exact ⟨before.1,freeLater before.2 e.wait⟩
    · rw [bannedKept (by rw [call]; nofun)]
      exact ⟨same,free⟩

theorem unbannedFaces {s} : Unbanned s ↔ ∀ i, ∀ f ∈ (s.table.buckets i).faces, s.table.isBanned f.1 s.now = false := by
  refine forall_congr' fun i => ⟨fun free f mem => ?_,fun free p mem => free _ (mem_map_of_mem mem)⟩
  obtain ⟨p,here,rfl⟩ := mem_map.mp mem
  exact free p here

theorem unbannedTurn {s e} (inv : StagedFree s) (unbanned : Unbanned s) (kept : BanKept s e) : Unbanned (s.turn e) := by
  rw [unbannedFaces] at unbanned ⊢
  intro i f mem
  unfold Clocked.turn at mem ⊢
  rcases memFacesAfter ((servedFaces s.table _ i e.call).mem_iff.mp mem) with ⟨old,still⟩ | ⟨pending,found,rfl⟩ |
    ⟨peer,found,rfl⟩
  · by_cases bans : ∃ details, e.call = .banPeer f.1 details
    · obtain ⟨details,call⟩ := bans
      rw [call,bannedByCall,decide_eq_false_iff_not]
      intro effective
      -- The ban drops one entry of the id; one that is left makes two.
      have index := inv.placed.peers i f old
      have left := still f.1 (by rw [call,dropped,if_pos index])
      have once := kept.2 f.1 details call effective
      rw [index] at once
      have more : f.1 ∈ ((s.table.buckets i).faces.map Prod.fst).erase f.1 := by
        rw [← idsWithout]
        exact mem_map_of_mem left
      have two := count_pos_iff.mpr more
      rw [count_erase_self] at two
      omega
    · rw [bannedKept (fun details call => bans ⟨details,call⟩)]
      exact freeLater (unbanned i f old) e.wait
  · rw [bannedKept ((resolvedParked found).2 _)]
    exact kept.1 i pending found
  · obtain ⟨⟨id,pending,call,staged,rfl⟩,_⟩ := admittedStaged found
    rw [bannedKept (by rw [call]; nofun)]
    have before := inv.staged id pending staged
    change s.table.isBanned pending.peerInfo.nodeId _ = false
    rw [before.1]
    exact freeLater before.2 e.wait

theorem banKeptNeeded {s e} (unbanned : Unbanned (s.turn e)) : BanKept s e := by
  rw [unbannedFaces] at unbanned
  constructor
  · intro i pending found
    have mem : pending.candidate.face ∈ ((s.turn e).table.buckets i).faces := by
      refine (servedFaces s.table _ i e.call).mem_iff.mpr ?_
      rw [facesAfter,found]
      exact mem_append_right _ (mem_singleton.mpr rfl)
    have free := unbanned i _ mem
    unfold Clocked.turn at free
    rw [bannedKept ((resolvedParked found).2 _)] at free
    exact free
  · intro id details call effective
    by_contra twice
    have more : id ∈ (without id (s.table.buckets (s.table.bucketIndex id)).faces).map Prod.fst := by
      rw [idsWithout,← count_pos_iff,count_erase_self]
      omega
    obtain ⟨f,mem,same⟩ := mem_map.mp more
    have stays : f ∈ ((s.turn e).table.buckets (s.table.bucketIndex id)).faces := by
      refine (servedFaces s.table _ _ e.call).mem_iff.mpr ?_
      rw [call]
      unfold facesAfter resolved dropped
      dsimp only
      rw [if_pos rfl]
      exact mem
    have free := unbanned _ f stays
    unfold Clocked.turn at free
    rw [call,same,bannedByCall,decide_eq_false_iff_not] at free
    exact free effective

theorem bannedStayOutIff (localNodeId : NodeId) (config : KademliaConfig) (turns : List Turn) :
    Along Clocked.turn (fun s e => Unbanned (s.turn e)) (.start localNodeId config) turns ↔
      Along Clocked.turn BanKept (.start localNodeId config) turns :=
  alongExact (I := fun s : Clocked => StagedFree s ∧ Unbanned s)
    (fun _ e inv kept => ⟨stagedFreeTurn inv.1 e,unbannedTurn inv.1 inv.2 kept⟩) (fun _ inv => inv.2)
    (fun _ _ _ unbanned => banKeptNeeded unbanned)
    ⟨⟨placedNew localNodeId config,fun _ _ staged => by cases staged⟩,fun _ _ mem => absurd mem not_mem_nil⟩

theorem bannedCandidateAdmitted : ¬Unbanned (StepRun.run Clocked.turn (.start 0 {k := 1})
    (join (member 1 1) ++ join (member 2 2) ++ [⟨0,.banPeer (member 2 2).nodeId ⟨3600,.manualBan⟩⟩] ++ [lateTurn])) :=
  fun unbanned => absurd (unbanned 0 (member 2 2) (by decide +kernel)) (by decide +kernel)

variable (t : RoutingTable)

def allPeers : List PeerInfo := (List.finRange 256).flatMap fun i => (t.buckets i).peers

def UniqueIds : Prop := ((allPeers t).map PeerInfo.nodeId).Nodup

def Diverse : Prop := ∀ i ip, t.peersInSubnet (t.buckets i) ip ≤ t.config.maxPeersPerSubnet

def inSubnet (mask : SubnetMask) (ip : IpAddr) (faces : List Face) : Nat := faces.countP (fun f => isSameSubnet f.2 ip mask)

def Apart (s : Clocked) (e : Turn) : Prop :=
  (∀ i pending, resolved s.table (addSecs s.now e.wait) i e.call = some pending →
    pending.candidate.nodeId ∉ (without pending.challengedPeer (s.table.buckets i).faces).map Prod.fst ∧
    inSubnet s.table.subnetMask pending.candidate.socketAddr.ip (without pending.challengedPeer (s.table.buckets i).faces) <
      s.table.config.maxPeersPerSubnet) ∧
  ∀ i peer, admitted s.table i e.call = some peer → peer.nodeId ∉ (s.table.buckets i).faces.map Prod.fst

theorem peersInSubnetFaces (t : RoutingTable) (b) (ip) : t.peersInSubnet b ip = inSubnet t.subnetMask ip b.faces := by
  unfold peersInSubnet inSubnet KBucket.faces
  rw [← countP_eq_length_filter,countP_map]
  rfl

theorem inSubnetSame {mask ip ip'} (same : isSameSubnet ip ip' mask = true) (faces) :
    inSubnet mask ip' faces = inSubnet mask ip faces := by
  unfold inSubnet
  congr 1
  funext f
  rw [Bool.eq_iff_iff,sameSubnetIff,sameSubnetIff,sameSubnetIff.mp same]

theorem inSubnetAdd {mask faces limit} (within : ∀ ip, inSubnet mask ip faces ≤ limit) (f) :
    (∀ ip, inSubnet mask ip (faces ++ [f]) ≤ limit) ↔ inSubnet mask f.2 faces < limit := by
  have added ip : inSubnet mask ip (faces ++ [f]) =
      inSubnet mask ip faces + if isSameSubnet f.2 ip mask then 1 else 0 := by
    unfold inSubnet
    rw [countP_append,countP_singleton]
  constructor
  · intro all
    have own := all f.2
    rw [added,if_pos (sameSubnetIff.mpr rfl)] at own
    exact own
  · intro room ip
    rw [added]
    split
    · rename_i same
      rw [inSubnetSame same]
      exact room
    · exact within ip

theorem inSubnetWithout (mask) (ip) (id) (faces) :
    inSubnet mask ip (without id faces) ≤ inSubnet mask ip faces := eraseP_sublist.countP_le

def Good (t : RoutingTable) : Prop :=
  ∀ i, ((t.buckets i).faces.map Prod.fst).Nodup ∧ ∀ ip, inSubnet t.subnetMask ip
    (t.buckets i).faces ≤ t.config.maxPeersPerSubnet

theorem goodIff {t} (placed : Placed t) : UniqueIds t ∧ Diverse t ↔ Good t := by
  have ids i : (t.buckets i).peers.map PeerInfo.nodeId = (t.buckets i).faces.map Prod.fst := by
    unfold KBucket.faces
    rw [map_map]
    rfl
  have unique : UniqueIds t ↔ ∀ i, ((t.buckets i).faces.map Prod.fst).Nodup := by
    unfold UniqueIds allPeers
    rw [map_flatMap,nodup_flatMap]
    constructor
    · intro all i
      rw [← ids]
      exact all.1 i (mem_finRange i)
    · intro each
      refine ⟨fun i _ => ids i ▸ each i,(nodup_finRange 256).imp fun {i j} apart id left right => ?_⟩
      dsimp only at left right
      rw [ids] at left right
      obtain ⟨f,mem,rfl⟩ := mem_map.mp left
      obtain ⟨g,mem',same⟩ := mem_map.mp right
      exact apart ((placed.peers i f mem).symm.trans (same ▸ placed.peers j g mem'))
  rw [unique]
  unfold Diverse Good
  simp only [peersInSubnetFaces]
  exact forall_and.symm

theorem goodFaces {t now call} : Good (t.serve now call) ↔ ∀ i, ((facesAfter t now i call).map Prod.fst).Nodup ∧
      ∀ ip, inSubnet t.subnetMask ip (facesAfter t now i call) ≤ t.config.maxPeersPerSubnet := by
  unfold Good inSubnet
  rw [(servedFrame t now call).1,(servedFrame t now call).2.2]
  refine forall_congr' fun i => and_congr ?_ (forall_congr' fun ip => ?_)
  · exact ((servedFaces t now i call).map Prod.fst).nodup_iff
  · rw [(servedFaces t now i call).countP_eq]

theorem nodupSnoc {ids} (nodup : ids.Nodup) (id : NodeId) : (ids ++ [id]).Nodup ↔ id ∉ ids := by
  rw [nodup_append]
  constructor
  · intro all mem
    exact all.2.2 id mem id (mem_singleton.mpr rfl) rfl
  · intro absent
    exact ⟨nodup,nodup_singleton id,fun a mem b only same => absent (mem_singleton.mp only ▸ same ▸ mem)⟩

theorem goodTurn {s} (good : Good s.table) (e) : Good (s.turn e).table ↔ Apart s e := by
  unfold Clocked.turn Apart
  rw [goodFaces,← forall_and]
  refine forall_congr' fun i => ?_
  obtain ⟨nodup,within⟩ := good i
  unfold facesAfter
  split
  · rename_i pending found
    have nodup' : ((without pending.challengedPeer (s.table.buckets i).faces).map Prod.fst).Nodup := by
      rw [idsWithout]
      exact nodup.erase _
    have within' ip := Nat.le_trans (inSubnetWithout s.table.subnetMask ip pending.challengedPeer
      (s.table.buckets i).faces) (within ip)
    have closed : admitted s.table i e.call = none := by
      cases joins : admitted s.table i e.call with
      | none => rfl
      | some peer =>
        obtain ⟨⟨id,_,call,_⟩,_⟩ := admittedStaged joins
        rw [call] at found
        cases found
    rw [map_append,map_singleton,nodupSnoc nodup',inSubnetAdd within',found,closed]
    constructor
    · intro both
      exact ⟨fun _ same => Option.some.inj same ▸ both,nofun⟩
    · intro all
      exact all.1 pending rfl
  · rename_i none
    rw [none]
    split
    · rename_i id drops
      refine iff_of_true ⟨?_,fun ip => Nat.le_trans (inSubnetWithout ..) (within ip)⟩ ⟨nofun,fun peer joins => ?_⟩
      · rw [idsWithout]
        exact nodup.erase _
      · obtain ⟨⟨id',_,call,_⟩,_⟩ := admittedStaged joins
        rw [call] at drops
        cases drops
    · cases joins : admitted s.table i e.call with
      | none =>
        rw [Option.toList_none,map_nil,append_nil]
        exact iff_of_true ⟨nodup,within⟩ ⟨nofun,nofun⟩
      | some peer =>
        have room := (admittedStaged joins).2.2.1
        rw [peersInSubnetFaces] at room
        rw [Option.toList_some,map_singleton,map_append,map_singleton,nodupSnoc nodup,inSubnetAdd within]
        constructor
        · intro both
          exact ⟨nofun,fun _ same => Option.some.inj same ▸ both.1⟩
        · intro all
          exact ⟨all.2 peer rfl,room⟩

theorem idsAndSubnetsIff (localNodeId : NodeId) (config : KademliaConfig) (turns : List Turn) :
    Along Clocked.turn (fun s e => UniqueIds (s.turn e).table ∧ Diverse (s.turn e).table) (.start localNodeId config) turns ↔
      Along Clocked.turn Apart (.start localNodeId config) turns := by
  refine (alongExact (I := fun s : Clocked => Placed s.table ∧ UniqueIds s.table ∧ Diverse s.table) ?_ (fun _ inv => inv.2)
    ?_ ⟨placedNew localNodeId config,?_⟩)
  · intro s e inv apart
    have placed := placedServe inv.1 (addSecs s.now e.wait) e.call
    exact ⟨placed,(goodIff placed).2 ((goodTurn ((goodIff inv.1).1 inv.2) e).2 apart)⟩
  · intro s e inv good
    have placed := placedServe inv.1 (addSecs s.now e.wait) e.call
    exact (goodTurn ((goodIff inv.1).1 inv.2) e).1 ((goodIff placed).1 good)
  · exact (goodIff (placedNew localNodeId config)).2 (fun _ => ⟨nodup_nil,fun _ => Nat.zero_le _⟩)

theorem admittedTwice :
    ¬UniqueIds (StepRun.run Clocked.turn (.start 0 {k := 1}) (join (member 1 1) ++ join (member 2 2) ++
      [⟨0,.removePeer (member 1 1).nodeId⟩] ++ join (member 2 2) ++ [lateTurn])).table ∧
    ¬Diverse (StepRun.run Clocked.turn (.start 0 {k := 2, maxPeersPerSubnet := 1}) (join (member 1 1) ++ join (member 2 2) ++
      join (member 3 3) ++ [⟨0,.removePeer (member 2 2).nodeId⟩] ++ join (member 4 3) ++ [lateTurn])).table := by
  refine ⟨fun unique => ?_,fun diverse => absurd (diverse 0 (member 3 3).socketAddr.ip) (by decide +kernel)⟩
  unfold UniqueIds allPeers at unique
  rw [map_flatMap,nodup_flatMap] at unique
  exact absurd (unique.1 0 (mem_finRange 0)) (by decide +kernel)

end QuantumChain.PeerDiscovery
