import QuantumChain.OrderingGraph

/-! Ordering a batch: conflicts, dependency graph, fallback.
The fallback keeps the order in which the batch came. -/
namespace QuantumChain.Ordering
open List KeyedMap
open LevelSort DependencyGraph

def dataConflict (p1 p2 : AccessPattern) : Option (DependencyKind × StorageLocation) :=
  match p1.writes.find? fun loc => p2.writes.contains loc with
  | some loc => some (.writeAfterWrite,loc)
  | none =>
    match p1.writes.find? fun loc => p2.reads.contains loc with
    | some loc => some (.readAfterWrite,loc)
    | none => (p1.reads.find? fun loc => p2.writes.contains loc).map fun loc => (.readAfterWrite,loc)

def detectDataDependency (tx1 tx2 : AnnotatedTransaction) : Option Dependency :=
  (dataConflict tx1.accessPattern tx2.accessPattern).map fun found => ⟨tx1.hash,tx2.hash,found.1,some found.2⟩

structure Conflict where
  tx1 : Hash
  tx2 : Hash
  kind : DependencyKind
  location : Option StorageLocation
  deriving DecidableEq, Repr

def detectDataConflict (tx1 tx2 : AnnotatedTransaction) : Option Conflict :=
  (dataConflict tx1.accessPattern tx2.accessPattern).map fun found => ⟨tx1.hash,tx2.hash,found.1,some found.2⟩

def detectConflicts (transactions : List AnnotatedTransaction) : List Conflict :=
  (pairs transactions).filterMap fun pair =>
    if pair.1.sender = pair.2.sender then some ⟨pair.1.hash,pair.2.hash,.nonceOrder,none⟩
    else detectDataConflict pair.1 pair.2

def conflictPercentage (conflicts : List Conflict) (txCount : Nat) : Nat :=
  if txCount ≤ 1 then 0
  else
    let maxPairs := txCount * (txCount - 1) / 2
    if maxPairs = 0 then 0 else min (conflicts.length * 100 / maxPairs) 100

def bySender (transactions : List AnnotatedTransaction) : KeyedMap Address (List AnnotatedTransaction) :=
  transactions.foldl (fun m tx => m.insert tx.sender ((m.lookup tx.sender).getD [] ++ [tx])) ∅

def nonceOrder (a b : AnnotatedTransaction) : Prop := a.nonce ≤ b.nonce

instance decideNonceOrder : DecidableRel nonceOrder := fun a b => inferInstanceAs (Decidable (a.nonce ≤ b.nonce))

def sortByNonce (transactions : List AnnotatedTransaction) : List AnnotatedTransaction :=
  transactions.insertionSort nonceOrder

def nonceDependency (pair : AnnotatedTransaction × AnnotatedTransaction) : Dependency :=
  ⟨pair.1.hash,pair.2.hash,.nonceOrder,none⟩

def addNonceEdges (graph : DependencyGraph) (transactions : List AnnotatedTransaction) : DependencyGraph :=
  (windows (sortByNonce transactions)).foldl (fun graph pair => graph.addEdge (nonceDependency pair)) graph

def pairDependency (pair : AnnotatedTransaction × AnnotatedTransaction) : Option Dependency :=
  if pair.1.sender = pair.2.sender then none else detectDataDependency pair.1 pair.2

def addDataEdge (graph : DependencyGraph) (pair : AnnotatedTransaction × AnnotatedTransaction) : DependencyGraph :=
  match pairDependency pair with
  | some dep => graph.addEdge dep
  | none => graph

def buildDependencyGraph (visit : Visit Address) (transactions : List AnnotatedTransaction) : DependencyGraph :=
  let graph := transactions.foldl addNode new
  let graph := (visit.entries (bySender transactions)).foldl (fun graph entry => addNonceEdges graph entry.2) graph
  (pairs transactions).foldl addDataEdge graph

structure OrderingConfig where
  maxBatchSize : Nat
  maxEdgeCount : Nat
  conflictThresholdPercent : UInt8
  deriving DecidableEq, Repr

def OrderingConfig.default : OrderingConfig := ⟨1000,10000,50⟩

variable (config : OrderingConfig)

def validateBatch (transactions : List AnnotatedTransaction) : Except OrderingError Unit :=
  if transactions = [] then .error .emptyBatch
  else if config.maxBatchSize < transactions.length then .error (.batchTooLarge transactions.length config.maxBatchSize)
  else .ok ()

def shouldFallback (conflicts : List Conflict) (txCount : Nat) : Bool :=
  decide (config.conflictThresholdPercent.toNat < conflictPercentage conflicts txCount)

def orderTransactions (visit : Visit Address) (transactions : List AnnotatedTransaction)
    (turns : Nat) : Option (Except OrderingError ExecutionSchedule) :=
  match validateBatch config transactions with
  | .error e => some (.error e)
  | .ok () =>
    if shouldFallback config (detectConflicts transactions) transactions.length then
      some (.ok (.sequential (transactions.map fun tx => tx.hash)))
    else
      let graph := buildDependencyGraph visit transactions
      if config.maxEdgeCount < graph.edgeCount then some (.error (.tooManyEdges graph.edgeCount config.maxEdgeCount))
      else kahnsTopologicalSort graph turns

def Conflicting (a b : AnnotatedTransaction) : Prop :=
  ∃ loc, loc ∈ a.accessPattern.writes ∧ (loc ∈ b.accessPattern.writes ∨ loc ∈ b.accessPattern.reads) ∨
    loc ∈ a.accessPattern.reads ∧ loc ∈ b.accessPattern.writes

theorem findContains {first second : List StorageLocation} :
    (first.find? fun loc => second.contains loc).isSome = true ↔ ∃ loc, loc ∈ first ∧ loc ∈ second := by
  simp [find?_isSome]

theorem dataConflictIff (a b) : (dataConflict a.accessPattern b.accessPattern).isSome = true ↔ Conflicting a b := by
  have first := @findContains a.accessPattern.writes b.accessPattern.writes
  have second := @findContains a.accessPattern.writes b.accessPattern.reads
  have third := @findContains a.accessPattern.reads b.accessPattern.writes
  have parts : Conflicting a b ↔ (∃ loc, loc ∈ a.accessPattern.writes ∧ loc ∈ b.accessPattern.writes) ∨
      (∃ loc, loc ∈ a.accessPattern.writes ∧ loc ∈ b.accessPattern.reads) ∨
      ∃ loc, loc ∈ a.accessPattern.reads ∧ loc ∈ b.accessPattern.writes := by
    simp only [Conflicting,exists_or,and_or_left,or_assoc]
  rw [parts,← first,← second,← third]
  unfold dataConflict
  cases a.accessPattern.writes.find? fun loc => b.accessPattern.writes.contains loc with
  | some loc => simp
  | none =>
    cases a.accessPattern.writes.find? fun loc => b.accessPattern.reads.contains loc with
    | some loc => simp
    | none => simp

section Builder
variable {visit : Visit Address} {transactions : List AnnotatedTransaction}

theorem edgesFolded {ε : Type} (dep) (items : List ε) (graph : DependencyGraph) :
    (items.foldl (fun graph item => graph.addEdge (dep item)) graph).edges = graph.edges ++ items.map dep ∧
    (items.foldl (fun graph item => graph.addEdge (dep item)) graph).transactions = graph.transactions := by
  induction items generalizing graph with
  | nil => simp
  | cons item rest ih =>
    rw [foldl_cons,(ih _).1,(ih _).2]
    simp [addEdge]

theorem nonceEdgesFolded (entries : List (Address × List AnnotatedTransaction)) (graph) :
    (entries.foldl (fun graph entry => addNonceEdges graph entry.2) graph).edges =
      graph.edges ++ entries.flatMap (fun entry => (windows (sortByNonce entry.2)).map nonceDependency) ∧
    (entries.foldl (fun graph entry => addNonceEdges graph entry.2) graph).transactions = graph.transactions := by
  induction entries generalizing graph with
  | nil => simp
  | cons entry rest ih =>
    obtain ⟨added,kept⟩ := edgesFolded nonceDependency (windows (sortByNonce entry.2)) graph
    rw [foldl_cons,(ih _).1,(ih _).2]
    unfold addNonceEdges
    rw [added,kept,flatMap_cons,append_assoc]
    exact ⟨rfl,rfl⟩

theorem dataEdgesFolded (items : List (AnnotatedTransaction × AnnotatedTransaction)) (graph) :
    (items.foldl addDataEdge graph).edges = graph.edges ++ items.filterMap pairDependency ∧
    (items.foldl addDataEdge graph).transactions = graph.transactions := by
  induction items generalizing graph with
  | nil => simp
  | cons item rest ih =>
    rw [foldl_cons,(ih _).1,(ih _).2,filterMap_cons]
    unfold addDataEdge
    cases pairDependency item with
    | none => exact ⟨rfl,rfl⟩
    | some dep => simp [addEdge]

theorem nodesFolded (graph) : (transactions.foldl addNode graph).edges = graph.edges ∧
    (transactions.foldl addNode graph).transactions =
      insertAll AnnotatedTransaction.hash id transactions graph.transactions := by
  induction transactions generalizing graph with
  | nil => exact ⟨rfl,rfl⟩
  | cons tx rest ih => exact ih _

theorem builtEdges (visit) (transactions) : (buildDependencyGraph visit transactions).edges =
      ((visit.entries (bySender transactions)).flatMap fun entry => (windows (sortByNonce entry.2)).map nonceDependency) ++
        (pairs transactions).filterMap pairDependency := by
  unfold buildDependencyGraph
  rw [(dataEdgesFolded _ _).1,(nonceEdgesFolded _ _).1,(nodesFolded new).1]
  rfl

theorem builtTransactions (visit) (transactions) : (buildDependencyGraph visit transactions).transactions =
      insertAll AnnotatedTransaction.hash id transactions ∅ := by
  unfold buildDependencyGraph
  rw [(dataEdgesFolded _ _).2,(nonceEdgesFolded _ _).2,(nodesFolded new).2]
  rfl

theorem foldConsistent {ε : Type} {step}
    (keeps : ∀ graph item, graph.Consistent → (step graph item).Consistent) {graph : DependencyGraph}
    (consistent : graph.Consistent) (items : List ε) : (items.foldl step graph).Consistent :=
  StepRun.runInvariant keeps consistent items

theorem graphConsistent (visit) (transactions) : (buildDependencyGraph visit transactions).Consistent := by
  refine foldConsistent (fun graph pair consistent => ?_) (foldConsistent (fun graph entry consistent => ?_)
    (foldConsistent (fun graph tx consistent => addNodeConsistent consistent tx) newConsistent _) _) _
  · unfold addDataEdge
    cases pairDependency pair with
    | none => exact consistent
    | some dep => exact addEdgeConsistent consistent dep
  · exact foldConsistent (fun graph pair consistent => addEdgeConsistent consistent _) consistent _

theorem memNodes {h} : h ∈ (buildDependencyGraph visit transactions).nodes ↔ ∃ tx ∈ transactions, tx.hash = h := by
  unfold nodes
  rw [builtTransactions,memKeys]
  constructor
  · rintro ⟨tx,found⟩
    by_contra none
    rw [insertAllOther fun tx mem same => none ⟨tx,mem,same⟩] at found
    cases found
  · rintro ⟨tx,mem,rfl⟩
    obtain ⟨d,_,_,found⟩ := @insertAllLast _ _ _ _ AnnotatedTransaction.hash id _ _ mem ∅
    exact ⟨d,found⟩

def sentBy (transactions : List AnnotatedTransaction) (sender : Address) : List AnnotatedTransaction :=
  transactions.filter fun tx => tx.sender = sender

theorem senderLookup (sender) : ((bySender transactions).lookup sender).getD [] = sentBy transactions sender := by
  have held := pushAllHeld AnnotatedTransaction.sender id transactions sender
  rw [map_id] at held
  exact held

def Link (transactions : List AnnotatedTransaction) (a b : AnnotatedTransaction) : Prop :=
  (∃ sender, (a,b) ∈ windows (sortByNonce (sentBy transactions sender))) ∨
    (Before transactions a b ∧ a.sender ≠ b.sender ∧ Conflicting a b)

theorem nonceEdge {dep} :
    (∃ entry ∈ visit.entries (bySender transactions), ∃ pair ∈ windows (sortByNonce entry.2), nonceDependency pair = dep) ↔
      ∃ sender, ∃ pair ∈ windows (sortByNonce (sentBy transactions sender)), nonceDependency pair = dep := by
  constructor
  · rintro ⟨⟨sender,sent⟩,mem,rest⟩
    have same := @senderLookup transactions sender
    rw [Visit.memEntries.mp mem] at same
    exact ⟨sender,same ▸ rest⟩
  · rintro ⟨sender,pair,among,rfl⟩
    have same := @senderLookup transactions sender
    cases found : (bySender transactions).lookup sender with
    | none =>
      rw [found] at same
      rw [← same] at among
      cases among
    | some sent =>
      rw [found] at same
      refine ⟨(sender,sent),Visit.memEntries.mpr found,pair,?_,rfl⟩
      rw [← same] at among
      exact among

theorem dataEdge {pair} :
    (∃ dep, pairDependency pair = some dep) ↔ pair.1.sender ≠ pair.2.sender ∧ Conflicting pair.1 pair.2 := by
  unfold pairDependency detectDataDependency
  rw [← dataConflictIff]
  split
  · rename_i same
    exact iff_of_false nofun fun h => h.1 same
  · rename_i other
    rw [← Option.isSome_iff_exists,Option.isSome_map]
    exact (and_iff_right other).symm

theorem dataEnds {pair dep}
    (found : pairDependency pair = some dep) : dep.source = pair.1.hash ∧ dep.target = pair.2.hash := by
  unfold pairDependency detectDataDependency at found
  split at found
  · cases found
  · obtain ⟨_,_,rfl⟩ := Option.map_eq_some_iff.mp found
    exact ⟨rfl,rfl⟩

theorem edgeIff {x y} : (buildDependencyGraph visit transactions).Edge x y ↔
    ∃ a b, Link transactions a b ∧ a.hash = x ∧ b.hash = y := by
  unfold Edge
  rw [builtEdges]
  simp only [mem_append,mem_flatMap,mem_map,mem_filterMap,nonceEdge]
  constructor
  · rintro ⟨dep,⟨sender,pair,among,rfl⟩ | ⟨⟨a,b⟩,mem,found⟩,rfl,rfl⟩
    · exact ⟨pair.1,pair.2,.inl ⟨sender,among⟩,rfl,rfl⟩
    · obtain ⟨source,target⟩ := dataEnds found
      exact ⟨a,b,.inr ⟨memPairs.mp mem,dataEdge.mp ⟨dep,found⟩⟩,source.symm,target.symm⟩
  · rintro ⟨a,b,⟨sender,among⟩ | ⟨before,conflict⟩,rfl,rfl⟩
    · exact ⟨nonceDependency (a,b),.inl ⟨sender,(a,b),among,rfl⟩,rfl,rfl⟩
    · obtain ⟨dep,found⟩ := (@dataEdge (a,b)).mpr conflict
      obtain ⟨source,target⟩ := dataEnds found
      exact ⟨dep,.inr ⟨(a,b),memPairs.mpr before,found⟩,source,target⟩

theorem memSorted {sender tx} :
    tx ∈ sortByNonce (sentBy transactions sender) ↔ tx ∈ transactions ∧ tx.sender = sender := by
  unfold sortByNonce sentBy
  simp

theorem linkMem {a b} (link : Link transactions a b) : a ∈ transactions ∧ b ∈ transactions := by
  rcases link with ⟨sender,among⟩ | ⟨before,_⟩
  · have both := beforeMem (windowsBefore among)
    exact ⟨(memSorted.mp both.1).1,(memSorted.mp both.2).1⟩
  · exact beforeMem before

theorem graphClosed : (buildDependencyGraph visit transactions).Closed := by
  intro dep mem
  obtain ⟨a,b,link,source,target⟩ := edgeIff.mp ⟨dep,mem,rfl,rfl⟩
  obtain ⟨memA,memB⟩ := linkMem link
  exact ⟨memNodes.mpr ⟨a,memA,source⟩,memNodes.mpr ⟨b,memB,target⟩⟩

theorem noncePath {sender a b} (before : Before (sortByNonce (sentBy transactions sender)) a b) :
    Relation.TransGen (buildDependencyGraph visit transactions).Edge a.hash b.hash := by
  refine Relation.TransGen.lift AnnotatedTransaction.hash (fun a b among => ?_) _ _ (windowsPath before)
  exact edgeIff.mpr ⟨a,b,.inl ⟨sender,among⟩,rfl,rfl⟩

theorem sortedPairwise (sent) : (sortByNonce sent).Pairwise nonceOrder :=
  sortedBy AnnotatedTransaction.nonce sent

theorem lowerOther {a b : AnnotatedTransaction} (lower : a.nonce < b.nonce) : a ≠ b :=
  fun same => absurd (same ▸ lower) (lt_irrefl _)

theorem lowerNoncePath {a b} (memA : a ∈ transactions) (memB : b ∈ transactions)
    (sender : a.sender = b.sender) (lower : a.nonce < b.nonce) :
    Relation.TransGen (buildDependencyGraph visit transactions).Edge a.hash b.hash := by
  rcases beforeTotal (memSorted.mpr ⟨memA,sender⟩) (memSorted.mpr ⟨memB,rfl⟩) (lowerOther lower) with before | back
  · exact noncePath before
  · exact absurd lower (not_lt_of_ge (pairwiseBefore.mp (sortedPairwise _) _ _ back))

end Builder

def InNonceOrder (transactions : List AnnotatedTransaction) : Prop :=
  transactions.Pairwise fun a b => a.sender = b.sender → a.nonce < b.nonce

instance (transactions : List AnnotatedTransaction) : Decidable (InNonceOrder transactions) := by
  unfold InNonceOrder
  infer_instance

structure Distinct (transactions : List AnnotatedTransaction) : Prop where
  hashes : (transactions.map fun tx => tx.hash).Nodup
  nonces : (transactions.map fun tx => (tx.sender,tx.nonce)).Nodup

section Nonces
variable {config : OrderingConfig} {visit : Visit Address} {transactions : List AnnotatedTransaction} {turns : Nat}
  {schedule : ExecutionSchedule}

theorem flattenSequential (hashes) : (ExecutionSchedule.sequential hashes).flatten = hashes := by
  unfold ExecutionSchedule.sequential ExecutionSchedule.flatten ExecutionSchedule.new
  induction hashes using List.reverseRecOn with
  | nil => rfl
  | append_singleton rest h ih => simp_all

theorem returnedCases (returned : orderTransactions config visit transactions turns = some (.ok schedule)) :
    shouldFallback config (detectConflicts transactions) transactions.length = true ∧
      schedule = .sequential (transactions.map fun tx => tx.hash) ∨
    shouldFallback config (detectConflicts transactions) transactions.length = false ∧
      kahnsTopologicalSort (buildDependencyGraph visit transactions) turns = some (.ok schedule) := by
  unfold orderTransactions at returned
  split at returned
  · cases returned
  · split at returned
    · rename_i fallback
      cases returned
      exact .inl ⟨fallback,rfl⟩
    · rename_i graph
      dsimp only at returned
      split at returned
      · cases returned
      · exact .inr ⟨Bool.eq_false_iff.mpr graph,returned⟩

theorem listedBefore (listed : InNonceOrder transactions) {a b} (memA : a ∈ transactions)
    (memB : b ∈ transactions) (sender : a.sender = b.sender) (lower : a.nonce < b.nonce) : Before transactions a b := by
  rcases beforeTotal memA memB (lowerOther lower) with before | back
  · exact before
  · exact absurd lower (lt_asymm (pairwiseBefore.mp listed b a back sender.symm))

theorem inputOrderIff (distinct : Distinct transactions) :
    (∀ a ∈ transactions, ∀ b ∈ transactions, a.sender = b.sender → a.nonce < b.nonce →
      Before (transactions.map fun tx => tx.hash) a.hash b.hash) ↔ InNonceOrder transactions := by
  constructor
  · intro kept
    refine pairwiseBefore.mpr fun a b before sender => ?_
    obtain ⟨memA,memB⟩ := beforeMem before
    have other : a.nonce ≠ b.nonce := fun same =>
      pairwiseBefore.mp (pairwise_map.mp distinct.nonces) a b before (Prod.ext sender same)
    rcases lt_or_gt_of_ne other with lower | higher
    · exact lower
    · exact absurd (kept b memB a memA sender.symm higher) (beforeAsymm distinct.hashes (beforeMap before))
  · intro listed a memA b memB sender lower
    exact beforeMap (listedBefore listed memA memB sender lower)

theorem nonceOrderKeptIff (distinct : Distinct transactions)
    (returned : orderTransactions config visit transactions turns = some (.ok schedule)) :
    (∀ a ∈ transactions, ∀ b ∈ transactions, a.sender = b.sender → a.nonce < b.nonce →
      Before schedule.flatten a.hash b.hash) ↔
    (shouldFallback config (detectConflicts transactions) transactions.length = true → InNonceOrder transactions) := by
  rcases returnedCases returned with ⟨fallback,rfl⟩ | ⟨graph,sorted⟩
  · rw [flattenSequential,inputOrderIff distinct]
    exact ⟨fun listed _ => listed,fun listed => listed fallback⟩
  · rw [graph]
    refine iff_of_true (fun a memA b memB sender lower => ?_) nofun
    obtain ⟨groups,rfl,layered,covers⟩ := sortedSchedule (graphConsistent visit transactions) graphClosed sorted
    exact layeredBefore layered (lowerNoncePath memA memB sender lower) (covers _ (memNodes.mpr ⟨b,memB,rfl⟩))

end Nonces

def twoNonces (first second : U64) : List AnnotatedTransaction := [⟨1,7,first,⟨[],[]⟩⟩,⟨2,7,second,⟨[],[]⟩⟩]

theorem nonceOrderKeptGraph : Distinct (twoNonces 1 0) ∧
    orderTransactions ⟨1000,10000,100⟩ .upwards (twoNonces 1 0) 2 = some (.ok (.new [⟨0,[2]⟩,⟨1,[1]⟩])) ∧
    ∀ a ∈ twoNonces 1 0, ∀ b ∈ twoNonces 1 0, a.sender = b.sender → a.nonce < b.nonce → Before [2,1] a.hash b.hash := by
  have distinct : Distinct (twoNonces 1 0) := ⟨by decide,by decide⟩
  have returned : orderTransactions ⟨1000,10000,100⟩ .upwards (twoNonces 1 0) 2 =
      some (.ok (.new [⟨0,[2]⟩,⟨1,[1]⟩])) := by decide
  exact ⟨distinct,returned,(nonceOrderKeptIff distinct returned).mpr (by decide)⟩

theorem fallbackReversesNonces : Distinct (twoNonces 1 0) ∧
    orderTransactions .default .upwards (twoNonces 1 0) 2 = some (.ok (.sequential [1,2])) ∧
    (ExecutionSchedule.sequential [1,2]).flatten = [1,2] ∧ ¬Before [1,2] (2 : Hash) 1 :=
  ⟨⟨by decide,by decide⟩,by decide,by decide,by decide⟩

def Precedes (transactions : List AnnotatedTransaction) (a b : AnnotatedTransaction) : Prop :=
  (a ∈ transactions ∧ b ∈ transactions ∧ a.sender = b.sender ∧ a.nonce < b.nonce) ∨
    (Before transactions a b ∧ a.sender ≠ b.sender ∧ Conflicting a b)

section Cycles
variable {config : OrderingConfig} {visit : Visit Address} {transactions : List AnnotatedTransaction} {turns : Nat}

theorem linkPrecedes (distinct : Distinct transactions) {a b} (link : Link transactions a b) :
    Precedes transactions a b := by
  obtain ⟨memA,memB⟩ := linkMem link
  rcases link with ⟨sender,among⟩ | conflict
  · have before := windowsBefore among
    obtain ⟨sortedA,sortedB⟩ := beforeMem before
    have same := (memSorted.mp sortedA).2.trans (memSorted.mp sortedB).2.symm
    have least := pairwiseBefore.mp (sortedPairwise _) a b before
    have once : ((sortByNonce (sentBy transactions sender)).map fun tx => (tx.sender,tx.nonce)).Nodup :=
      ((perm_insertionSort _ _).map _).nodup_iff.mpr (distinct.nonces.sublist (filter_sublist.map _))
    have other : a.nonce ≠ b.nonce := fun equal =>
      pairwiseBefore.mp (pairwise_map.mp once) a b before (Prod.ext same equal)
    exact .inl ⟨memA,memB,same,lt_of_le_of_ne least other⟩
  · exact .inr conflict

theorem precedesPath {a b} (precedes : Precedes transactions a b) :
    Relation.TransGen (buildDependencyGraph visit transactions).Edge a.hash b.hash := by
  rcases precedes with ⟨memA,memB,sender,lower⟩ | conflict
  · exact lowerNoncePath memA memB sender lower
  · exact .single (edgeIff.mpr ⟨a,b,.inr conflict,rfl,rfl⟩)

theorem hashInj (once : (transactions.map fun tx => tx.hash).Nodup) {a b} (memA : a ∈ transactions)
    (memB : b ∈ transactions) (same : a.hash = b.hash) : a = b :=
  inj_on_of_nodup_map once memA memB same

theorem pathPrecedes (distinct : Distinct transactions) {x y}
    (path : Relation.TransGen (buildDependencyGraph visit transactions).Edge x y) :
    ∃ a b, a.hash = x ∧ b.hash = y ∧ a ∈ transactions ∧ b ∈ transactions ∧
      Relation.TransGen (Precedes transactions) a b := by
  induction path with
  | single edge =>
    obtain ⟨a,b,link,rfl,rfl⟩ := edgeIff.mp edge
    exact ⟨a,b,rfl,rfl,(linkMem link).1,(linkMem link).2,.single (linkPrecedes distinct link)⟩
  | tail _ edge ih =>
    obtain ⟨a,b,source,middle,memA,memB,path⟩ := ih
    obtain ⟨b',c,link,middle',rfl⟩ := edgeIff.mp edge
    obtain ⟨memB',memC⟩ := linkMem link
    obtain rfl := hashInj distinct.hashes memB memB' (middle.trans middle'.symm)
    exact ⟨a,c,source,rfl,memA,memC,path.tail (linkPrecedes distinct link)⟩

theorem acyclicIff (distinct : Distinct transactions) :
    Acyclic (buildDependencyGraph visit transactions).Edge ↔ Acyclic (Precedes transactions) := by
  constructor
  · intro acyclic tx cycle
    exact acyclic tx.hash (Relation.TransGen.lift' AnnotatedTransaction.hash (fun _ _ => precedesPath) _ _ cycle)
  · intro acyclic h cycle
    obtain ⟨a,b,source,target,memA,memB,path⟩ := pathPrecedes distinct cycle
    obtain rfl := hashInj distinct.hashes memA memB (source.trans target.symm)
    exact acyclic a path

theorem listedAcyclic (distinct : Distinct transactions) (listed : InNonceOrder transactions) :
    Acyclic (Precedes transactions) := by
  refine beforeAcyclic (List.Nodup.of_map _ distinct.hashes) fun a b precedes => ?_
  rcases precedes with ⟨memA,memB,sender,lower⟩ | ⟨before,_⟩
  · exact listedBefore listed memA memB sender lower
  · exact before

theorem nodeCountLe : (buildDependencyGraph visit transactions).nodeCount ≤ transactions.length := by
  have nodes : (buildDependencyGraph visit transactions).nodes = (transactions.map fun tx => tx.hash).toFinset := by
    ext h
    rw [memNodes,mem_toFinset,mem_map]
  have count := toFinset_card_le (transactions.map fun tx => tx.hash)
  rw [← nodes,length_map] at count
  exact count

def Sorted (config : OrderingConfig) (visit : Visit Address) (transactions : List AnnotatedTransaction) : Prop :=
  validateBatch config transactions = .ok () ∧
    shouldFallback config (detectConflicts transactions) transactions.length = false ∧
    (buildDependencyGraph visit transactions).edgeCount ≤ config.maxEdgeCount

theorem orderSorted (sorted : Sorted config visit transactions) : orderTransactions config visit transactions turns =
      kahnsTopologicalSort (buildDependencyGraph visit transactions) turns := by
  obtain ⟨valid,graph,edges⟩ := sorted
  simp only [orderTransactions,valid,graph,Nat.not_lt.mpr edges,Bool.false_eq_true,if_false]

theorem validateCycle (transactions) : validateBatch config transactions ≠ .error .cycleDetected := by
  unfold validateBatch
  split
  · simp
  · split <;> simp

theorem orderUnsorted (unsorted : ¬Sorted config visit transactions) :
    orderTransactions config visit transactions turns ≠ some (.error .cycleDetected) := by
  unfold orderTransactions
  split
  · rename_i e invalid
    intro same
    cases same
    exact validateCycle transactions invalid
  · rename_i valid
    split
    · simp
    · rename_i graph
      dsimp only
      split
      · simp
      · rename_i edges
        exact absurd ⟨valid,Bool.eq_false_iff.mpr graph,Nat.not_lt.mp edges⟩ unsorted

theorem cycleDetectedIff (distinct : Distinct transactions) (enough : transactions.length ≤ turns) :
    (orderTransactions config visit transactions turns = some (.error .cycleDetected) ↔
      Sorted config visit transactions ∧ ¬Acyclic (Precedes transactions)) ∧
    (InNonceOrder transactions → orderTransactions config visit transactions turns ≠ some (.error .cycleDetected)) := by
  have detected : orderTransactions config visit transactions turns = some (.error .cycleDetected) ↔
      Sorted config visit transactions ∧ ¬Acyclic (Precedes transactions) := by
    by_cases sorted : Sorted config visit transactions
    · rw [orderSorted sorted,and_iff_right sorted,← acyclicIff distinct]
      rcases sortCases (graphConsistent visit transactions) graphClosed (Nat.le_trans nodeCountLe enough) with
        ⟨groups,returned,_,_,acyclic⟩ | ⟨returned,cyclic⟩
      · exact iff_of_false (by rw [returned]; nofun) (not_not.mpr acyclic)
      · exact iff_of_true returned cyclic
    · exact iff_of_false (orderUnsorted sorted) fun h => sorted h.1
  exact ⟨detected,fun listed returned => (detected.mp returned).2 (listedAcyclic distinct listed)⟩

end Cycles

theorem listedNotCyclic : Distinct (twoNonces 0 1) ∧ InNonceOrder (twoNonces 0 1) ∧
    orderTransactions .default .upwards (twoNonces 0 1) 2 ≠ some (.error .cycleDetected) := by
  have distinct : Distinct (twoNonces 0 1) := ⟨by decide,by decide⟩
  have listed : InNonceOrder (twoNonces 0 1) := by decide
  exact ⟨distinct,listed,(cycleDetectedIff distinct (by decide)).2 listed⟩

def crossedBatch : List AnnotatedTransaction :=
  let loc (key : Hash) : StorageLocation := ⟨5,key⟩
  [⟨1,7,1,⟨[],[loc 1]⟩⟩,⟨2,8,0,⟨[],[loc 1,loc 2]⟩⟩,⟨3,7,0,⟨[],[loc 2]⟩⟩,⟨4,9,0,⟨[],[]⟩⟩]

theorem crossedBatchRefused : Distinct crossedBatch ∧
    orderTransactions .default .upwards crossedBatch 4 = some (.error .cycleDetected) :=
  ⟨⟨by decide,by decide⟩,by decide⟩

end QuantumChain.Ordering
