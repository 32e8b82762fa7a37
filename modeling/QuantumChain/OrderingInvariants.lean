import QuantumChain.OrderingService

/-! The invariants of a schedule, on what ordering a batch returns.
Batches that are refused are not treated. -/
namespace QuantumChain.Ordering
open List LevelSort DependencyGraph

def DependencyGraph.hasEdge (graph : DependencyGraph) (source target : Hash) : Bool :=
  ((graph.adjacency.lookup source).map fun neighbors => neighbors.contains target).getD false

-- one turn of the outer loop: whether every group so far was in order, and the transactions it executed
def orderGroup (graph : DependencyGraph) (state : Bool × List Hash) (group : ParallelGroup) : Bool × List Hash :=
  (state.1 && group.transactions.all fun txHash =>
      !(graph.edges.filter fun edge => edge.target = txHash).any fun edge => !state.2.contains edge.source,
    state.2 ++ group.transactions)

def invariantTopologicalOrder (schedule : ExecutionSchedule) (graph : DependencyGraph) : Bool :=
  (schedule.parallelGroups.foldl (orderGroup graph) (true,[])).1

def invariantParallelSafety (group : ParallelGroup) (graph : DependencyGraph) : Bool :=
  (pairs group.transactions).all fun pair => !(graph.hasEdge pair.1 pair.2 || graph.hasEdge pair.2 pair.1)

def invariantCompleteness (schedule : ExecutionSchedule) (graph : DependencyGraph) : Bool :=
  schedule.flatten.toFinset = graph.transactions.keys

section Sorted
variable {graph : DependencyGraph} {groups : List ParallelGroup}

theorem hasEdgeIff (consistent : graph.Consistent) {a b} : graph.hasEdge a b = true ↔ graph.Edge a b := by
  have listed : graph.hasEdge a b = ((graph.adjacency.lookup a).getD []).contains b := by
    unfold hasEdge
    cases graph.adjacency.lookup a <;> rfl
  rw [listed,consistent.adjacency,contains_iff_mem]
  simp [Edge,and_assoc]

theorem layerSafe (consistent : graph.Consistent)
    (layered : Layered graph.Edge graph.nodes (groups.map ParallelGroup.transactions)) {group} (among : group ∈ groups) :
    invariantParallelSafety group graph = true := by
  have free a b (memA : a ∈ group.transactions) (memB : b ∈ group.transactions) : graph.hasEdge a b = false := by
    -- the source of an edge stands in an earlier layer than its target, and in one layer only
    refine Bool.eq_false_iff.mpr fun has => ?_
    obtain ⟨j,found⟩ := mem_iff_getElem?.mp (mem_map_of_mem among)
    obtain ⟨i,less,_,found',mem⟩ := layeredEdge layered ((hasEdgeIff consistent).mp has) found memB
    exact Nat.ne_of_lt less (layerUnique layered found' found mem memA)
  refine all_eq_true.mpr fun pair mem => ?_
  obtain ⟨first,second⟩ := beforeMem (memPairs.mp mem)
  rw [free _ _ first second,free _ _ second first]
  rfl

theorem groupsOrdered (layered : Layered graph.Edge graph.nodes (groups.map ParallelGroup.transactions)) :
    groups.foldl (orderGroup graph) (true,[]) = (true,(groups.map ParallelGroup.transactions).flatten) := by
  induction groups using reverseRecOn with
  | nil => rfl
  | append_singleton before group ih =>
    rw [map_append,map_singleton] at layered ⊢
    obtain ⟨earlier,ready⟩ := layeredSnoc layered
    rw [foldl_append,ih earlier,flattenSnoc]
    refine Prod.ext (all_eq_true.mpr fun h mem => ?_) rfl
    rw [Bool.not_eq_true',any_eq_false]
    intro edge among
    obtain ⟨inside,target⟩ := mem_filter.mp among
    simpa using (ready h mem).2.2 _ ⟨edge,inside,rfl,of_decide_eq_true target⟩

end Sorted

theorem scheduleInvariants (config : OrderingConfig) (visit : Visit Address) (transactions : List AnnotatedTransaction)
    (turns : Nat) (schedule : ExecutionSchedule)
    (returned : orderTransactions config visit transactions turns = some (.ok schedule)) :
    invariantCompleteness schedule (buildDependencyGraph visit transactions) = true ∧
    (∀ group ∈ schedule.parallelGroups, invariantParallelSafety group (buildDependencyGraph visit transactions) = true) ∧
    (shouldFallback config (detectConflicts transactions) transactions.length = false →
      invariantTopologicalOrder schedule (buildDependencyGraph visit transactions) = true) := by
  have consistent := graphConsistent visit transactions
  rcases returnedCases returned with ⟨fallback,rfl⟩ | ⟨_,sorted⟩
  · refine ⟨decide_eq_true (Finset.ext fun h => ?_),fun group mem => ?_,fun not => ?_⟩
    · rw [mem_toFinset,flattenSequential,mem_map]
      exact memNodes.symm
    · obtain ⟨_,_,rfl⟩ := mem_mapIdx.mp mem
      rfl
    · cases fallback.symm.trans not
  · obtain ⟨groups,rfl,layered,covers⟩ := sortedSchedule consistent graphClosed sorted
    refine ⟨decide_eq_true (Finset.ext fun h => ?_),fun group among => layerSafe consistent layered among,fun _ => ?_⟩
    · rw [mem_toFinset]
      exact ⟨layeredInside layered h,covers h⟩
    · exact congrArg Prod.fst (groupsOrdered layered)

theorem twoNoncesInvariants :
    orderTransactions ⟨2,1,100⟩ .upwards (twoNonces 1 0) 2 = some (.ok (.new [⟨0,[2]⟩,⟨1,[1]⟩])) ∧
    invariantTopologicalOrder (.new [⟨0,[2]⟩,⟨1,[1]⟩]) (buildDependencyGraph .upwards (twoNonces 1 0)) = true :=
  ⟨by decide,(scheduleInvariants ⟨2,1,100⟩ .upwards (twoNonces 1 0) 2 _ (by decide)).2.2 (by decide)⟩

end QuantumChain.Ordering
