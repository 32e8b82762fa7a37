import QuantumChain.RoutingInvariants
import QuantumChain.StableSort

/-! The lookup of the peers closest to a target.
Ties of the source's distance keep the table's order. -/
namespace QuantumChain.PeerDiscovery
open List

def sortPeersByDistance (peers : List PeerInfo) (target : NodeId) : List PeerInfo :=
  peers.insertionSort fun a b => xorDistance b.nodeId target ≤ xorDistance a.nodeId target

def findKClosest (peers : List PeerInfo) (target : NodeId) (k : Nat) : List PeerInfo :=
  (sortPeersByDistance peers target).take k

def findClosestPeers (t : RoutingTable) (target : NodeId) (count : Nat) : List PeerInfo :=
  ((((allPeers t).map fun p => (xorDistance p.nodeId target,p)).insertionSort fun a b => b.1 ≤ a.1).take count).map Prod.snd

theorem findClosestSorts (t) (target) (count) :
    findClosestPeers t target count = findKClosest (allPeers t) target count := by
  unfold findClosestPeers findKClosest sortPeersByDistance
  rw [map_take,← map_insertionSort (r := fun a b : PeerInfo => xorDistance b.nodeId target ≤ xorDistance a.nodeId target)
    (s := fun a b : Distance × PeerInfo => b.1 ≤ a.1) _ _ (fun _ _ _ _ => Iff.rfl),map_map]
  congr 1
  exact map_id _

def metric (target : NodeId) (p : PeerInfo) : Nat := (p.nodeId ^^^ target).toNat

structure Exact (t : RoutingTable) (target : NodeId) (count : Nat) : Prop where
  length : (findClosestPeers t target count).length = min count (allPeers t).length
  distinct : ((findClosestPeers t target count).map PeerInfo.nodeId).Nodup
  closest : ∀ p ∈ findClosestPeers t target count, ∀ q ∈ allPeers t, q ∉ findClosestPeers t target count →
    metric target p ≤ metric target q
  ordered : (findClosestPeers t target count).Pairwise fun p q => metric target p ≤ metric target q

def TiesInOrder (t : RoutingTable) (target : NodeId) : Prop :=
  (allPeers t).Pairwise fun p q => xorDistance p.nodeId target = xorDistance q.nodeId target →
    metric target p ≤ metric target q

def TiesInOrderFor (t : RoutingTable) (target : NodeId) (count : Nat) : Prop :=
  (allPeers t).Pairwise fun p q => xorDistance p.nodeId target = xorDistance q.nodeId target →
    p ∈ findClosestPeers t target count → metric target p ≤ metric target q

theorem metricOfIndex {target p q} (closer : xorDistance q.nodeId target < xorDistance p.nodeId target) :
    metric target p < metric target q := by
  have index : (xorDistance q.nodeId target).val < (xorDistance p.nodeId target).val := closer
  rw [xorDistanceLog,xorDistanceLog] at index
  have shorter : Nat.log2 (metric target p) < Nat.log2 (metric target q) := by
    unfold metric
    omega
  have positive : metric target q ≠ 0 := by
    intro zero
    rw [zero] at shorter
    exact absurd shorter (Nat.not_lt_zero _)
  calc metric target p
      < 2^(Nat.log2 (metric target p) + 1) := Nat.lt_log2_self
    _ ≤ 2^Nat.log2 (metric target q) := Nat.pow_le_pow_right (by decide) shorter
    _ ≤ metric target q := Nat.log2_self_le positive

section Lookup
variable {t : RoutingTable} {target : NodeId}

instance closerTotal (target : NodeId) :
    Std.Total fun a b : PeerInfo => xorDistance b.nodeId target ≤ xorDistance a.nodeId target := ⟨fun _ _ => le_total _ _⟩

instance closerTrans (target : NodeId) :
    IsTrans PeerInfo fun a b => xorDistance b.nodeId target ≤ xorDistance a.nodeId target :=
      ⟨fun _ _ _ ab bc => le_trans bc ab⟩

theorem sortedIff {R} (strict : ∀ p q, metric target p < metric target q → R p q) :
    (sortPeersByDistance (allPeers t) target).Pairwise R ↔
      (allPeers t).Pairwise fun p q => xorDistance p.nodeId target = xorDistance q.nodeId target → R p q := by
  unfold sortPeersByDistance
  rw [StableSort.sortedRefines (fun a _ b _ _ notAfter => strict a b (metricOfIndex (not_le.mp notAfter)))]
  refine iff_of_eq (congrArg (List.Pairwise · (allPeers t)) ?_)
  funext a b
  exact propext ⟨fun ties same => ties (ge_of_eq same) (le_of_eq same),fun ties before after =>
    ties (le_antisymm after before)⟩

theorem memSorted {p} : p ∈ sortPeersByDistance (allPeers t) target ↔ p ∈ allPeers t := mem_insertionSort _

theorem closestOf {R} (sorted : (sortPeersByDistance (allPeers t) target).Pairwise R) {count p q}
    (mem : p ∈ findClosestPeers t target count) (known : q ∈ allPeers t)
      (other : q ∉ findClosestPeers t target count) : R p q := by
  rw [findClosestSorts,findKClosest] at mem other
  rw [← take_append_drop count (sortPeersByDistance (allPeers t) target),pairwise_append] at sorted
  have rest : q ∈ (sortPeersByDistance (allPeers t) target).drop count := by
    have all : q ∈ sortPeersByDistance (allPeers t) target := memSorted.mpr known
    rw [← take_append_drop count (sortPeersByDistance (allPeers t) target)] at all
    exact (mem_append.mp all).resolve_left other
  exact sorted.2.2 p mem q rest

theorem closestLength (count) : (findClosestPeers t target count).length = min count (allPeers t).length := by
  rw [findClosestSorts,findKClosest,length_take,sortPeersByDistance,length_insertionSort]

theorem closestDistinct (unique : UniqueIds t) (count) : ((findClosestPeers t target count).map PeerInfo.nodeId).Nodup := by
  rw [findClosestSorts,findKClosest]
  refine List.Nodup.sublist ((take_sublist count _).map _) ?_
  exact (((perm_insertionSort _ (allPeers t)).map PeerInfo.nodeId).nodup_iff).mpr unique

theorem closestSplit (unique : UniqueIds t) (count) :
    findClosestPeers t target count ++ (sortPeersByDistance (allPeers t) target).drop count =
        sortPeersByDistance (allPeers t) target ∧
      ∀ q ∈ (sortPeersByDistance (allPeers t) target).drop count, q ∉ findClosestPeers t target count := by
  have split : findClosestPeers t target count ++ (sortPeersByDistance (allPeers t) target).drop count =
      sortPeersByDistance (allPeers t) target := by rw [findClosestSorts,findKClosest,take_append_drop]
  have nodup : (sortPeersByDistance (allPeers t) target).Nodup :=
    ((perm_insertionSort _ (allPeers t)).nodup_iff).mpr (List.Nodup.of_map _ unique)
  rw [← split,nodup_append'] at nodup
  exact ⟨split,fun q rest mem => nodup.2.2 mem rest⟩

theorem exactForIff (unique : UniqueIds t) (count) : Exact t target count ↔ TiesInOrderFor t target count := by
  have sorted := @sortedIff t target (fun p q => p ∈ findClosestPeers t target count → metric target p ≤ metric target q)
    (fun _ _ less _ => Nat.le_of_lt less)
  refine Iff.trans ?_ sorted
  obtain ⟨split,apart⟩ := @closestSplit t target unique count
  constructor
  · intro exact
    rw [← split,pairwise_append]
    refine ⟨?_,pairwise_of_forall_mem_list fun p rest _ _ mem => absurd mem (apart p rest),?_⟩
    · exact exact.ordered.imp fun {p q} le (_ : p ∈ findClosestPeers t target count) => le
    · intro p mem q rest _
      exact exact.closest p mem q (memSorted.mp (mem_of_mem_drop rest)) (apart q rest)
  · intro sorted
    refine ⟨closestLength count,closestDistinct unique count,
      fun p mem q known other => closestOf sorted mem known other mem,?_⟩
    rw [← split,pairwise_append] at sorted
    exact sorted.1.imp_of_mem fun mem _ le => le mem

theorem closestExactIff (t : RoutingTable) (target : NodeId) (unique : UniqueIds t) :
    ((∀ count, Exact t target count) ↔ TiesInOrder t target) ∧
    (∀ count, Exact t target count ↔ TiesInOrderFor t target count) ∧
    ∀ count, (findClosestPeers t target count).length = min count (allPeers t).length ∧
      ((findClosestPeers t target count).map PeerInfo.nodeId).Nodup ∧
      ∀ p ∈ findClosestPeers t target count, ∀ q ∈ allPeers t, q ∉ findClosestPeers t target count →
        xorDistance q.nodeId target ≤ xorDistance p.nodeId target := by
  refine ⟨⟨fun exact => ?_,fun ties count => ?_⟩,exactForIff unique,
    fun count => ⟨closestLength count,closestDistinct unique count,?_⟩⟩
  · have whole := (exact (sortPeersByDistance (allPeers t) target).length).ordered
    rw [findClosestSorts,findKClosest,take_length] at whole
    exact (sortedIff fun _ _ => Nat.le_of_lt).1 whole
  · exact (exactForIff unique count).mpr (ties.imp fun tied same _ => tied same)
  · intro p mem q known other
    exact closestOf (R := fun p q => xorDistance q.nodeId target ≤ xorDistance p.nodeId target)
      (pairwise_insertionSort _ _) mem known other

end Lookup

def joined (first second : PeerInfo) : RoutingTable :=
    (StepRun.run Clocked.turn (.start 0 {}) (join first ++ join second)).table

theorem nearestFirstExact : UniqueIds (joined (member 1 1) (member 2 2)) ∧ ∀ count, Exact
    (joined (member 1 1) (member 2 2)) 0 count := by
  have peers : allPeers (joined (member 1 1) (member 2 2)) = [member 1 1,member 2 2] := by decide +kernel
  have unique : UniqueIds (joined (member 1 1) (member 2 2)) := by
    rw [UniqueIds,peers]
    decide +kernel
  refine ⟨unique,(closestExactIff _ 0 unique).1.2 ?_⟩
  rw [TiesInOrder,peers]
  decide +kernel

def twoMembers : RoutingTable := joined (member 2 2) (member 1 1)

theorem twoMembersPeers : allPeers twoMembers = [member 2 2,member 1 1] := by decide +kernel

theorem fartherPeerReturned : UniqueIds twoMembers ∧ findClosestPeers twoMembers 0 1 = [member 2 2] ∧
    member 1 1 ∈ allPeers twoMembers ∧ metric 0 (member 1 1) < metric 0 (member 2 2) ∧ ¬Exact twoMembers 0 1 := by
  have answer : findClosestPeers twoMembers 0 1 = [member 2 2] := by
    rw [findClosestPeers,twoMembersPeers]
    decide +kernel
  have known : member 1 1 ∈ allPeers twoMembers := by
    rw [twoMembersPeers]
    exact mem_cons_of_mem _ mem_cons_self
  have closer : metric 0 (member 1 1) < metric 0 (member 2 2) := by decide +kernel
  have unique : UniqueIds twoMembers := by
    rw [UniqueIds,twoMembersPeers]
    decide +kernel
  refine ⟨unique,answer,known,closer,fun exact => ?_⟩
  have wrong := exact.closest (member 2 2) (answer ▸ mem_cons_self) (member 1 1) known (by rw [answer]; decide +kernel)
  omega

end QuantumChain.PeerDiscovery
