import QuantumChain.FixedWidth
import QuantumChain.KeyedMap
import QuantumChain.StepRun
import QuantumChain.LevelSort
import Mathlib.Data.List.Sort

/-! The dependency graph of a batch and Kahn's algorithm on it.
An edge is a declared conflict, nothing finer. -/
namespace QuantumChain.Ordering
open Option
open List KeyedMap
open LevelSort

structure StorageLocation where
  address : Address
  key : Hash
  deriving DecidableEq, Repr

structure AccessPattern where
  reads : List StorageLocation
  writes : List StorageLocation
  deriving DecidableEq, Repr

structure AnnotatedTransaction where
  hash : Hash
  sender : Address
  nonce : U64
  accessPattern : AccessPattern
  deriving DecidableEq, Repr

inductive DependencyKind where
  | readAfterWrite
  | writeAfterWrite
  | nonceOrder
  deriving DecidableEq, Repr

structure Dependency where
  source : Hash
  target : Hash
  kind : DependencyKind
  location : Option StorageLocation
  deriving DecidableEq, Repr

inductive OrderingError where
  | cycleDetected
  | batchTooLarge (size max : Nat)
  | tooManyEdges (count max : Nat)
  | emptyBatch
  deriving DecidableEq, Repr

structure ParallelGroup where
  groupId : Nat
  transactions : List Hash
  deriving DecidableEq, Repr

structure ExecutionSchedule where
  parallelGroups : List ParallelGroup
  totalTransactions : Nat
  maxParallelism : Nat
  deriving DecidableEq, Repr

namespace ExecutionSchedule

def new (groups : List ParallelGroup) : ExecutionSchedule where
  parallelGroups := groups
  totalTransactions := (groups.map fun g => g.transactions.length).sum
  maxParallelism := (groups.map fun g => g.transactions.length).foldl max 0

def sequential (transactions : List Hash) : ExecutionSchedule :=
  new (transactions.mapIdx fun i hash => ⟨i,[hash]⟩)

def flatten (schedule : ExecutionSchedule) : List Hash := schedule.parallelGroups.flatMap fun g => g.transactions

end ExecutionSchedule

structure DependencyGraph where
  transactions : KeyedMap Hash AnnotatedTransaction
  edges : List Dependency
  adjacency : KeyedMap Hash (List Hash)
  inDegree : KeyedMap Hash Nat

namespace DependencyGraph

def new : DependencyGraph := ⟨∅,[],∅,∅⟩

variable (graph : DependencyGraph)

def addNode (tx : AnnotatedTransaction) : DependencyGraph where
  transactions := graph.transactions.insert tx.hash tx
  edges := graph.edges
  adjacency := graph.adjacency.insert tx.hash ((graph.adjacency.lookup tx.hash).getD [])
  inDegree := graph.inDegree.insert tx.hash ((graph.inDegree.lookup tx.hash).getD 0)

def addEdge (dep : Dependency) : DependencyGraph where
  transactions := graph.transactions
  edges := graph.edges ++ [dep]
  adjacency := graph.adjacency.insert dep.source ((graph.adjacency.lookup dep.source).getD [] ++ [dep.target])
  inDegree := graph.inDegree.insert dep.target ((graph.inDegree.lookup dep.target).getD 0 + 1)

def nodeCount : Nat := KeyedMap.size graph.transactions

def edgeCount : Nat := graph.edges.length

inductive Op where
  | addNode (tx : AnnotatedTransaction)
  | addEdge (dep : Dependency)
  deriving DecidableEq, Repr

def apply (graph : DependencyGraph) : Op → DependencyGraph
  | .addNode tx => graph.addNode tx
  | .addEdge dep => graph.addEdge dep

def built (ops : List Op) : DependencyGraph := StepRun.run apply new ops

end DependencyGraph

def processNeighbor (state : KeyedMap Hash Nat × List Hash) (neighbor : Hash) : KeyedMap Hash Nat × List Hash :=
  match state.1.lookup neighbor with
  | none => state
  | some degree =>
    (state.1.insert neighbor (degree - 1),if degree - 1 = 0 then state.2 ++ [neighbor] else state.2)

def processNeighbors (graph : DependencyGraph) (state : KeyedMap Hash Nat × List Hash) (node : Hash) :
    KeyedMap Hash Nat × List Hash :=
  match graph.adjacency.lookup node with
  | none => state
  | some neighbors => neighbors.foldl processNeighbor state

structure Draining where
  inDegree : KeyedMap Hash Nat
  queue : List Hash
  groups : List ParallelGroup
  scheduledCount : Nat

def drainGroup (graph : DependencyGraph) (s : Draining) : Draining :=
  let out := s.queue.foldl (processNeighbors graph) (s.inDegree,[])
  {
    inDegree := out.1
    queue := out.2.insertionSort (· ≤ ·)
    groups := s.groups ++ [⟨s.groups.length,s.queue⟩]
    scheduledCount := s.scheduledCount + s.queue.length
  }

def drain (graph : DependencyGraph) : Nat → Draining → Option Draining
  | 0,s => if s.queue = [] then some s else none
  | turns+1,s => if s.queue = [] then some s else drain graph turns (drainGroup graph s)

def firstQueue (graph : DependencyGraph) : Draining where
  inDegree := graph.inDegree
  queue := ascending (graph.inDegree.keys.filter fun h => graph.inDegree.lookup h = some 0)
  groups := []
  scheduledCount := 0

def kahnsTopologicalSort (graph : DependencyGraph) (turns : Nat) : Option (Except OrderingError ExecutionSchedule) :=
  if graph.nodeCount = 0 then some (.ok (.new []))
  else (drain graph turns (firstQueue graph)).map fun s =>
    if s.scheduledCount < graph.nodeCount then .error .cycleDetected else .ok (.new s.groups)

namespace DependencyGraph

def nodes (graph : DependencyGraph) : Finset Hash := graph.transactions.keys

def Edge (graph : DependencyGraph) (a b : Hash) : Prop := ∃ dep ∈ graph.edges, dep.source = a ∧ dep.target = b

structure Consistent (graph : DependencyGraph) : Prop where
  adjacency : ∀ h, (graph.adjacency.lookup h).getD [] = (graph.edges.filter fun d => d.source = h).map Dependency.target
  inDegree : ∀ h, (graph.inDegree.lookup h).getD 0 = graph.edges.countP fun d => d.target = h
  counted : ∀ h, h ∈ graph.inDegree.keys ↔ h ∈ graph.nodes ∨ ∃ dep ∈ graph.edges, dep.target = h

theorem newConsistent : Consistent new := ⟨fun _ => rfl,fun _ => rfl,by simp [new,nodes]⟩

theorem getDInsertSame {V} (m : KeyedMap Hash V) (k h) (v) :
    ((m.insert k ((m.lookup k).getD v)).lookup h).getD v = (m.lookup h).getD v := by
  rw [lookupInsert]
  split
  · rename_i here
    rw [here]
    rfl
  · rfl

theorem addNodeConsistent {graph : DependencyGraph} (consistent : graph.Consistent) (tx) :
    (graph.addNode tx).Consistent where
  adjacency h := (getDInsertSame _ _ _ _).trans (consistent.adjacency h)
  inDegree h := (getDInsertSame _ _ _ _).trans (consistent.inDegree h)
  counted h := by
    unfold addNode nodes
    simp only [keysInsert,Finset.mem_insert]
    rw [consistent.counted h]
    exact or_assoc.symm

theorem addEdgeConsistent {graph : DependencyGraph} (consistent : graph.Consistent) (dep) :
    (graph.addEdge dep).Consistent where
  adjacency h := by
    unfold addEdge
    by_cases here : h = dep.source
    · subst here
      simp [consistent.adjacency]
    · simp [here,Ne.symm here,consistent.adjacency]
  inDegree h := by
    unfold addEdge
    by_cases here : h = dep.target
    · subst here
      simp [consistent.inDegree]
    · simp [here,Ne.symm here,consistent.inDegree]
  counted h := by
    have known := consistent.counted h
    unfold addEdge nodes at *
    simp only [keysInsert,Finset.mem_insert,known,mem_append,mem_singleton]
    constructor
    · rintro (rfl | node | ⟨d,mem,same⟩)
      · exact .inr ⟨dep,.inr rfl,rfl⟩
      · exact .inl node
      · exact .inr ⟨d,.inl mem,same⟩
    · rintro (node | ⟨d,mem | rfl,same⟩)
      · exact .inr (.inl node)
      · exact .inr (.inr ⟨d,mem,same⟩)
      · exact .inl same.symm

theorem builtConsistent (ops) : (built ops).Consistent := by
  refine StepRun.runInvariant (I := Consistent) (fun graph op consistent => ?_) newConsistent ops
  cases op with
  | addNode tx => exact addNodeConsistent consistent tx
  | addEdge dep => exact addEdgeConsistent consistent dep

def Closed (graph : DependencyGraph) : Prop := ∀ dep ∈ graph.edges, dep.source ∈ graph.nodes ∧ dep.target ∈ graph.nodes

theorem Closed.edge {graph : DependencyGraph} (closed : graph.Closed) (a b) (edge : graph.Edge a b) :
    a ∈ graph.nodes ∧ b ∈ graph.nodes := by
  obtain ⟨dep,mem,rfl,rfl⟩ := edge
  exact closed dep mem

theorem degreeLookup {graph : DependencyGraph} (consistent : graph.Consistent) {h} (node : h ∈ graph.nodes) :
    graph.inDegree.lookup h = some (graph.edges.countP fun d => d.target = h) := by
  obtain ⟨degree,found⟩ := memKeys.mp ((consistent.counted h).mpr (.inl node))
  have count := consistent.inDegree h
  rw [found] at count
  rw [found]
  exact congrArg some count

end DependencyGraph

open DependencyGraph

section Counting
variable {edges : List Dependency}

theorem countSplit {p q r} (split : ∀ d, p d = (q d || r d)) (apart : ∀ d, ¬(q d = true ∧ r d = true)) :
    edges.countP p = edges.countP q + edges.countP r := by
  induction edges with
  | nil => rfl
  | cons d rest ih =>
    cases first : q d <;> cases second : r d <;> simp_all <;> omega

def waiting (edges : List Dependency) (listed : List Hash) (h : Hash) : Nat :=
  edges.countP fun d => decide (d.target = h) && !listed.contains d.source

theorem waitingZero {graph : DependencyGraph} {listed h} :
    waiting graph.edges listed h = 0 ↔ ∀ b, graph.Edge b h → b ∈ listed := by
  unfold waiting Edge
  simp only [countP_eq_zero,Bool.and_eq_true,decide_eq_true_eq,Bool.not_eq_true',contains_eq_mem,
    decide_eq_false_iff_not,not_and,not_not]
  constructor
  · rintro none b ⟨d,mem,rfl,same⟩
    exact none d mem same
  · intro all d mem same
    exact all _ ⟨d,mem,rfl,same⟩

theorem waitingAppend {listed group} (apart : ∀ a ∈ group, a ∉ listed) (h) : waiting edges listed h =
      waiting edges (listed ++ group) h + edges.countP fun d => d.target = h ∧ d.source ∈ group := by
  refine countSplit (fun d => ?_) fun d both => ?_
  · have fresh := apart d.source
    by_cases old : d.source ∈ listed <;> by_cases new : d.source ∈ group <;> simp_all
  · simp only [decide_eq_true_eq,Bool.and_eq_true,Bool.not_eq_true',contains_eq_mem,
      decide_eq_false_iff_not,mem_append] at both
    exact both.1.2 (.inr both.2.2)

theorem targetsCount {group : List Hash} (once : group.Nodup) (h) :
    (group.flatMap fun a => (edges.filter fun d => d.source = a).map Dependency.target).count h =
      edges.countP fun d => d.target = h ∧ d.source ∈ group := by
  induction group with
  | nil => simp
  | cons a rest ih =>
    obtain ⟨fresh,once⟩ := nodup_cons.mp once
    have here : ((edges.filter fun d => d.source = a).map Dependency.target).count h =
        edges.countP fun d => d.target = h ∧ d.source = a := by
      rw [List.count,countP_map,countP_filter]
      exact countP_congr fun d _ => by simp
    rw [flatMap_cons,count_append,here,ih once]
    refine (countSplit (fun d => ?_) fun d both => ?_).symm
    · simp only [mem_cons]
      by_cases first : d.source = a <;> by_cases later : d.source ∈ rest <;> simp_all
    · simp only [decide_eq_true_eq] at both
      exact fresh (both.1.2 ▸ both.2.2)

end Counting

theorem neighborsUsed (targets : List Hash) {degrees} (queue : List Hash)
    (enough : ∀ h ∈ targets, ∃ degree, degrees.lookup h = some degree ∧ targets.count h ≤ degree) :
    (∀ h, (targets.foldl processNeighbor (degrees,queue)).1.lookup h = (degrees.lookup h).map (· - targets.count h)) ∧
    ∀ h, (targets.foldl processNeighbor (degrees,queue)).2.count h =
      queue.count h + if h ∈ targets ∧ degrees.lookup h = some (targets.count h) then 1 else 0 := by
  induction targets generalizing degrees queue with
  | nil => simp
  | cons a rest ih =>
    obtain ⟨degree,found,least⟩ := enough a mem_cons_self
    rw [count_cons_self] at least
    have later : ∀ h ∈ rest, ∃ d, (degrees.insert a (degree - 1)).lookup h = some d ∧ rest.count h ≤ d := by
      intro h mem
      rw [lookupInsert]
      split
      · rename_i here
        subst here
        exact ⟨degree - 1,rfl,by omega⟩
      · rename_i other
        obtain ⟨d,found',most⟩ := enough h (mem_cons_of_mem _ mem)
        rw [count_cons_of_ne (Ne.symm other)] at most
        exact ⟨d,found',most⟩
    have processed : processNeighbor (degrees,queue) a =
        (degrees.insert a (degree - 1),if degree - 1 = 0 then queue ++ [a] else queue) := by
      simp only [processNeighbor,found]
    obtain ⟨lowered,queued⟩ := ih (if degree - 1 = 0 then queue ++ [a] else queue) later
    rw [foldl_cons,processed]
    refine ⟨fun h => ?_,fun h => ?_⟩
    · rw [lowered,lookupInsert]
      split
      · rename_i here
        subst here
        rw [found,count_cons_self]
        simp only [map_some]
        congr 1
        omega
      · rename_i other
        rw [count_cons_of_ne (Ne.symm other)]
    · rw [queued,lookupInsert]
      by_cases here : h = a
      · subst here
        have inside : h ∈ rest ↔ 0 < rest.count h := count_pos_iff.symm
        simp only [if_true,count_cons_self,mem_cons,true_or,true_and,found,Option.some.injEq,inside]
        split
        · rw [count_append,count_singleton_self]
          split <;> split <;> omega
        · split <;> split <;> omega
      · have same : (if degree - 1 = 0 then queue ++ [a] else queue).count h = queue.count h := by
          split
          · rw [count_append,count_singleton]
            simp [Ne.symm here]
          · rfl
        simp [same,here,count_cons_of_ne (Ne.symm here)]

namespace Draining

def listed (s : Draining) : List Hash := (s.groups.map ParallelGroup.transactions).flatten

structure Sound (graph : DependencyGraph) (s : Draining) : Prop where
  layered : Layered graph.Edge graph.nodes (s.groups.map ParallelGroup.transactions)
  degrees : ∀ h ∈ graph.nodes, s.inDegree.lookup h = some (waiting graph.edges s.listed h)
  once : s.queue.Nodup
  ready : ∀ h, h ∈ s.queue ↔ Ready graph.Edge graph.nodes s.listed h
  scheduled : s.scheduledCount = s.listed.length

variable {graph : DependencyGraph} {s : Draining}

theorem firstSound (consistent : graph.Consistent) (closed : graph.Closed) : (firstQueue graph).Sound graph := by
  have all h : waiting graph.edges [] h = graph.edges.countP fun d => d.target = h := by
    simp [waiting]
  refine ⟨.nil,fun h node => ?_,nodupAscending _,fun h => ?_,rfl⟩
  · exact (degreeLookup consistent node).trans (congrArg some (all h).symm)
  · have zero : Ready graph.Edge graph.nodes [] h ↔ h ∈ graph.nodes ∧ waiting graph.edges [] h = 0 := by
      rw [waitingZero]
      simp [Ready]
    change h ∈ ascending _ ↔ Ready graph.Edge graph.nodes [] h
    rw [memAscending,Finset.mem_filter,zero,all,consistent.counted]
    constructor
    · rintro ⟨known,found⟩
      have node : h ∈ graph.nodes := by
        rcases known with node | ⟨dep,mem,rfl⟩
        · exact node
        · exact (closed dep mem).2
      rw [degreeLookup consistent node] at found
      exact ⟨node,Option.some.inj found⟩
    · rintro ⟨node,none⟩
      exact ⟨.inl node,(degreeLookup consistent node).trans (congrArg some none)⟩

def targets (graph : DependencyGraph) (s : Draining) : List Hash :=
  s.queue.flatMap fun a => (graph.edges.filter fun d => d.source = a).map Dependency.target

theorem processedTargets (consistent : graph.Consistent) :
    s.queue.foldl (processNeighbors graph) (s.inDegree,[]) = (s.targets graph).foldl processNeighbor (s.inDegree,[]) := by
  have one state a : processNeighbors graph state a =
      ((graph.edges.filter fun d => d.source = a).map Dependency.target).foldl processNeighbor state := by
    rw [← consistent.adjacency a]
    unfold processNeighbors
    cases graph.adjacency.lookup a <;> rfl
  rw [targets,foldl_flatMap]
  congr 1
  funext state a
  exact one state a

theorem groupListed : (drainGroup graph s).listed = s.listed ++ s.queue := by
  simp [drainGroup,listed]

theorem queueFresh (sound : s.Sound graph) : ∀ a ∈ s.queue, a ∉ s.listed := fun a mem => ((sound.ready a).mp mem).2.1

theorem waitingFreed (sound : s.Sound graph) (h) :
    waiting graph.edges s.listed h = waiting graph.edges (s.listed ++ s.queue) h + (s.targets graph).count h := by
  rw [targets,targetsCount sound.once]
  exact waitingAppend (queueFresh sound) h

theorem targetNode (closed : graph.Closed) {h} (mem : h ∈ s.targets graph) : h ∈ graph.nodes := by
  obtain ⟨a,_,among⟩ := mem_flatMap.mp mem
  obtain ⟨dep,inside,rfl⟩ := mem_map.mp among
  exact (closed dep (mem_filter.mp inside).1).2

theorem readyNext (sound : s.Sound graph) (h) : Ready graph.Edge graph.nodes (s.listed ++ s.queue) h ↔
    h ∈ graph.nodes ∧ 0 < (s.targets graph).count h ∧ waiting graph.edges s.listed h = (s.targets graph).count h := by
  have split := waitingFreed sound h
  have zero : (∀ b, graph.Edge b h → b ∈ s.listed ++ s.queue) ↔ waiting graph.edges (s.listed ++ s.queue) h = 0 :=
    waitingZero.symm
  constructor
  · rintro ⟨node,fresh,all⟩
    rw [zero] at all
    refine ⟨node,?_,by omega⟩
    by_contra none
    have ready := (sound.ready h).mpr
      ⟨node,fun old => fresh (mem_append_left _ old),waitingZero.mp (by omega)⟩
    exact fresh (mem_append_right _ ready)
  · rintro ⟨node,some,used⟩
    have waits : waiting graph.edges s.listed h ≠ 0 := by omega
    refine ⟨node,fun old => waits ?_,zero.mpr (by omega)⟩
    rw [waitingZero]
    rcases mem_append.mp old with before | now
    · intro b edge
      obtain ⟨j,layer,found,mem⟩ := listedLayer before
      obtain ⟨i,_,earlier,found',mem'⟩ := layeredEdge sound.layered edge found mem
      exact mem_flatten.mpr ⟨earlier,mem_of_getElem? found',mem'⟩
    · exact ((sound.ready h).mp now).2.2

theorem groupCounts (consistent : graph.Consistent)
    (enough : ∀ h ∈ s.targets graph, ∃ degree, s.inDegree.lookup h = some degree ∧ (s.targets graph).count h ≤ degree) :
    (∀ h, (drainGroup graph s).inDegree.lookup h = (s.inDegree.lookup h).map (· - (s.targets graph).count h)) ∧
    ∀ h, (drainGroup graph s).queue.count h =
      if h ∈ s.targets graph ∧ s.inDegree.lookup h = some ((s.targets graph).count h) then 1 else 0 := by
  obtain ⟨lowered,queued⟩ := neighborsUsed (s.targets graph) [] enough
  rw [← processedTargets consistent] at lowered queued
  refine ⟨lowered,fun h => ?_⟩
  have sorted : (drainGroup graph s).queue.count h =
      (s.queue.foldl (processNeighbors graph) (s.inDegree,[])).2.count h := (perm_insertionSort _ _).count_eq h
  rw [sorted,queued]
  simp

theorem groupSound (consistent : graph.Consistent) (closed : graph.Closed) (sound : s.Sound graph) :
    (drainGroup graph s).Sound graph := by
  have enough : ∀ h ∈ s.targets graph, ∃ degree, s.inDegree.lookup h = some degree ∧ (s.targets graph).count h ≤ degree :=
    fun h mem => ⟨_,sound.degrees h (targetNode closed mem),by rw [waitingFreed sound h]; omega⟩
  obtain ⟨lowered,counted⟩ := groupCounts consistent enough
  refine ⟨?_,fun h node => ?_,?_,fun h => ?_,?_⟩
  · have groups : (drainGroup graph s).groups.map ParallelGroup.transactions =
        s.groups.map ParallelGroup.transactions ++ [s.queue] := by simp [drainGroup]
    rw [groups]
    exact .snoc sound.layered sound.once sound.ready
  · rw [lowered,sound.degrees h node,groupListed,map_some,waitingFreed sound h]
    congr 1
    omega
  · refine nodup_iff_count_le_one.mpr fun h => ?_
    rw [counted]
    split <;> omega
  · rw [← count_pos_iff,counted,groupListed,readyNext sound h,count_pos_iff]
    constructor
    · intro used
      split at used
      · rename_i both
        have node := targetNode closed both.1
        rw [sound.degrees h node] at both
        exact ⟨node,both.1,Option.some.inj both.2⟩
      · omega
    · rintro ⟨node,mem,used⟩
      rw [if_pos ⟨mem,(sound.degrees h node).trans (congrArg some used)⟩]
      exact Nat.one_pos
  · rw [groupListed,length_append,← sound.scheduled]
    rfl

theorem drainSound (consistent : graph.Consistent) (closed : graph.Closed) {turns} (sound : s.Sound graph)
    (enough : graph.nodeCount ≤ s.listed.length + turns) :
    ∃ last, drain graph turns s = some last ∧ last.Sound graph ∧ last.queue = [] := by
  have bound {t : Draining} (sound : t.Sound graph) : t.listed.length ≤ graph.nodeCount := layeredLength sound.layered
  induction turns generalizing s with
  | zero =>
    -- every node is listed, so none is queued
    have empty : s.queue = [] := by
      have next := bound (groupSound consistent closed sound)
      rw [groupListed,length_append] at next
      exact eq_nil_of_length_eq_zero (by omega)
    exact ⟨s,by rw [drain,if_pos empty],sound,empty⟩
  | succ turns ih =>
    unfold drain
    split
    · rename_i empty
      exact ⟨s,rfl,sound,empty⟩
    · rename_i more
      refine ih (groupSound consistent closed sound) ?_
      have some := length_pos_of_ne_nil more
      rw [groupListed,length_append]
      omega

end Draining

theorem sortCases {graph} (consistent : graph.Consistent) (closed : graph.Closed) {turns}
    (enough : graph.nodeCount ≤ turns) : (∃ groups, kahnsTopologicalSort graph turns = some (.ok (.new groups)) ∧
      Layered graph.Edge graph.nodes (groups.map ParallelGroup.transactions) ∧
      (∀ h ∈ graph.nodes, h ∈ (groups.map ParallelGroup.transactions).flatten) ∧ Acyclic graph.Edge) ∨
    kahnsTopologicalSort graph turns = some (.error .cycleDetected) ∧ ¬Acyclic graph.Edge := by
  unfold kahnsTopologicalSort
  split
  · rename_i none
    have empty : graph.nodes = ∅ := Finset.card_eq_zero.mp none
    have covers : ∀ h ∈ graph.nodes, h ∈ (([] : List ParallelGroup).map ParallelGroup.transactions).flatten := by
      simp [empty]
    exact .inl ⟨[],rfl,.nil,covers,coveredAcyclic closed.edge .nil covers⟩
  · obtain ⟨last,ran,sound,empty⟩ := Draining.drainSound consistent closed (Draining.firstSound consistent closed)
      (Nat.le_trans enough (Nat.le_add_left _ _))
    have ended : ∀ a, ¬Ready graph.Edge graph.nodes last.listed a := by
      intro a ready
      have queued := (sound.ready a).mpr ready
      rw [empty] at queued
      cases queued
    have complete := layersComplete closed.edge sound.layered ended
    have full := layeredCovers sound.layered
    rw [ran,map_some,sound.scheduled]
    by_cases short : last.listed.length < graph.nodeCount
    · rw [if_pos short]
      exact .inr ⟨rfl,fun acyclic => full.mp (complete.mpr acyclic) short⟩
    · rw [if_neg short]
      exact .inl ⟨last.groups,rfl,sound.layered,full.mpr short,complete.mp (full.mpr short)⟩

theorem drainMore {graph turns more s last} (ran : drain graph turns s = some last)
    (atLeast : turns ≤ more) : drain graph more s = some last := by
  induction turns generalizing s more with
  | zero =>
    unfold drain at ran
    split at ran
    · rename_i empty
      cases more <;> rw [drain,if_pos empty,ran]
    · cases ran
  | succ turns ih =>
    obtain ⟨more,rfl⟩ : ∃ rest, more = rest + 1 := ⟨more - 1,by omega⟩
    unfold drain at ran ⊢
    split at ran
    · rename_i empty
      rw [if_pos empty,ran]
    · rename_i some
      rw [if_neg some]
      exact ih ran (Nat.le_of_succ_le_succ atLeast)

theorem sortMore {graph turns more out}
    (returned : kahnsTopologicalSort graph turns = some out) (atLeast : turns ≤ more) :
    kahnsTopologicalSort graph more = some out := by
  unfold kahnsTopologicalSort at returned ⊢
  split at returned
  · rename_i none
    rw [if_pos none,returned]
  · rename_i some
    obtain ⟨last,ran,same⟩ := map_eq_some_iff.mp returned
    rw [if_neg some,drainMore ran atLeast,map_some,same]

theorem sortedSchedule {graph} (consistent : graph.Consistent) (closed : graph.Closed) {turns schedule}
    (returned : kahnsTopologicalSort graph turns = some (.ok schedule)) :
    ∃ groups, schedule = .new groups ∧ Layered graph.Edge graph.nodes (groups.map ParallelGroup.transactions) ∧
      ∀ h ∈ graph.nodes, h ∈ schedule.flatten := by
  have more := sortMore returned (Nat.le_max_left turns graph.nodeCount)
  rcases sortCases consistent closed (Nat.le_max_right turns graph.nodeCount) with ⟨groups,same,layered,covers,_⟩ | ⟨same,_⟩
  · rw [more] at same
    cases same
    exact ⟨groups,rfl,layered,covers⟩
  · rw [more] at same
    cases same

theorem flattenNew (groups) :
    (ExecutionSchedule.new groups).flatten = (groups.map ParallelGroup.transactions).flatten := rfl

theorem topologicalSchedule (ops : List Op) (closed : (built ops).Closed) {turns : Nat}
    (enough : (built ops).nodeCount ≤ turns) :
    ((∃ schedule, kahnsTopologicalSort (built ops) turns = some (.ok schedule)) ↔ Acyclic (built ops).Edge) ∧
    (kahnsTopologicalSort (built ops) turns = some (.error .cycleDetected) ↔ ¬Acyclic (built ops).Edge) ∧
    ∀ schedule, kahnsTopologicalSort (built ops) turns = some (.ok schedule) →
      (∀ h, schedule.flatten.count h = if h ∈ (built ops).nodes then 1 else 0) ∧
      ∀ dep ∈ (built ops).edges, ∃ (i j : Nat) (first second : ParallelGroup), i < j ∧
        schedule.parallelGroups[i]? = some first ∧ schedule.parallelGroups[j]? = some second ∧
        dep.source ∈ first.transactions ∧ dep.target ∈ second.transactions := by
  rcases sortCases (builtConsistent ops) closed enough with ⟨groups,returned,layered,covers,acyclic⟩ | ⟨returned,cyclic⟩
  · rw [returned]
    refine ⟨iff_of_true ⟨_,rfl⟩ acyclic,iff_of_false nofun (not_not.mpr acyclic),fun schedule same => ?_⟩
    cases same
    refine ⟨fun h => ?_,fun dep mem => ?_⟩
    · rw [flattenNew]
      split
      · rename_i node
        exact count_eq_one_of_mem (layeredOnce layered) (covers h node)
      · rename_i other
        exact count_eq_zero.mpr fun listed => other (layeredInside layered h listed)
    · obtain ⟨j,layer,found,mem'⟩ := listedLayer (covers _ (closed dep mem).2)
      obtain ⟨i,less,earlier,found',mem''⟩ := layeredEdge layered ⟨dep,mem,rfl,rfl⟩ found mem'
      obtain ⟨second,at',rfl⟩ := map_eq_some_iff.mp (getElem?_map ▸ found)
      obtain ⟨first,at'',rfl⟩ := map_eq_some_iff.mp (getElem?_map ▸ found')
      exact ⟨i,j,first,second,less,at'',at',mem'',mem'⟩
  · rw [returned]
    exact ⟨iff_of_false nofun cyclic,iff_of_true rfl cyclic,nofun⟩

def doubleEdge : List Op :=
  let tx (hash : Hash) : AnnotatedTransaction := ⟨hash,hash.setWidth 160,0,⟨[],[]⟩⟩
  [.addNode (tx 1),.addEdge ⟨2,1,.writeAfterWrite,none⟩,.addNode (tx 2),.addNode (tx 3),
    .addEdge ⟨2,1,.readAfterWrite,none⟩,.addEdge ⟨1,3,.nonceOrder,none⟩]

theorem doubleEdgeScheduled : (built doubleEdge).Closed ∧ (built doubleEdge).nodeCount ≤ 3 ∧
    kahnsTopologicalSort (built doubleEdge) 3 = some (.ok (.new [⟨0,[2]⟩,⟨1,[1]⟩,⟨2,[3]⟩])) ∧
    Acyclic (built doubleEdge).Edge := by
  have closed : (built doubleEdge).Closed := by
    unfold Closed
    decide
  have enough : (built doubleEdge).nodeCount ≤ 3 := by decide
  have returned : kahnsTopologicalSort (built doubleEdge) 3 = some (.ok (.new [⟨0,[2]⟩,⟨1,[1]⟩,⟨2,[3]⟩])) := by decide
  exact ⟨closed,enough,returned,(topologicalSchedule doubleEdge closed enough).1.mp ⟨_,returned⟩⟩

end QuantumChain.Ordering
