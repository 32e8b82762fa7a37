import QuantumChain.Footprint
import QuantumChain.OrderingService

/-! Execution of a schedule under semantics that keep to the access patterns.
That real code keeps to them is assumed. -/
namespace QuantumChain.Ordering
open LevelSort DependencyGraph Footprint List

inductive Cell where
  | slot (loc : StorageLocation)
  | nonce (sender : Address)
  deriving DecidableEq

def AnnotatedTransaction.writeCells (tx : AnnotatedTransaction) : Set Cell :=
  {c | c = .nonce tx.sender ∨ ∃ loc ∈ tx.accessPattern.writes, c = .slot loc}

def AnnotatedTransaction.readCells (tx : AnnotatedTransaction) : Set Cell :=
  {c | c ∈ tx.writeCells ∨ ∃ loc ∈ tx.accessPattern.reads, c = .slot loc}

abbrev State (V : Type) : Type := Cell → V

abbrev Semantics (V : Type) : Type := AnnotatedTransaction → State V → State V

def Declared {V : Type} (exec : Semantics V) (transactions : List AnnotatedTransaction) : Prop :=
  ∀ tx ∈ transactions, Confined tx.readCells tx.writeCells (exec tx)

/-- A hash stands for the transaction the graph holds under it. -/
def executeHash {V : Type} (exec : Semantics V) (graph : DependencyGraph) (hash : Hash) (s : State V) : State V :=
  match graph.transactions.lookup hash with
  | some tx => exec tx s
  | none => s

def executeGroups {V : Type} (exec : Semantics V) (graph : DependencyGraph) (groups : List (List Hash))
    (s : State V) : State V :=
  groups.foldl (fun s group => run (executeHash exec graph) group s) s

section Serial
variable {V : Type} {exec : Semantics V} {visit : Visit Address} {transactions : List AnnotatedTransaction}

theorem conflictingSymm {a b} (conflict : Conflicting a b) : Conflicting b a := by
  obtain ⟨loc,⟨wrote,wrote' | read⟩ | ⟨read,wrote⟩⟩ := conflict
  · exact ⟨loc,.inl ⟨wrote',.inl wrote⟩⟩
  · exact ⟨loc,.inr ⟨read,wrote⟩⟩
  · exact ⟨loc,.inl ⟨wrote,.inr read⟩⟩

theorem writeCellsApart {a b} (sender : a.sender ≠ b.sender) (free : ¬Conflicting a b) :
    ∀ c ∈ a.writeCells, c ∉ b.readCells ∧ c ∉ b.writeCells := by
  have untouched : ∀ c ∈ a.writeCells, c ∉ b.readCells := by
    rintro c (rfl | ⟨loc,wrote,rfl⟩) ((same | ⟨loc',wrote',same⟩) | ⟨loc',read,same⟩)
    · exact sender (Cell.nonce.inj same)
    · cases same
    · cases same
    · cases same
    · cases same
      exact free ⟨loc,.inl ⟨wrote,.inl wrote'⟩⟩
    · cases same
      exact free ⟨loc,.inl ⟨wrote,.inr read⟩⟩
  exact fun c wrote => ⟨untouched c wrote,fun wrote' => untouched c wrote (.inl wrote')⟩

theorem declaredCommutes (declared : Declared exec transactions) {a b} (memA : a ∈ transactions)
    (memB : b ∈ transactions) (sender : a.sender ≠ b.sender) (free : ¬Conflicting a b) : Commutes (exec a) (exec b) :=
  confinedCommutes (declared a memA) (declared b memB) (writeCellsApart sender free) fun c wrote =>
    (writeCellsApart sender.symm (fun conflict => free (conflictingSymm conflict)) c wrote).1

theorem orderedOrFree (declared : Declared exec transactions) {a b} (memA : a ∈ transactions)
    (memB : b ∈ transactions)
    (notBefore : ¬Relation.TransGen (buildDependencyGraph visit transactions).Edge a.hash b.hash)
    (notAfter : ¬Relation.TransGen (buildDependencyGraph visit transactions).Edge b.hash a.hash) :
    Commutes (exec a) (exec b) := by
  by_cases other : a = b
  · subst other
    exact fun _ => rfl
  · by_cases sender : a.sender = b.sender
    · rcases beforeTotal (memSorted.mpr ⟨memA,sender⟩) (memSorted.mpr ⟨memB,rfl⟩) other with before | back
      · exact absurd (noncePath before) notBefore
      · exact absurd (noncePath back) notAfter
    · refine declaredCommutes declared memA memB sender fun conflict => ?_
      rcases beforeTotal memA memB other with before | back
      · exact notBefore (.single (edgeIff.mpr ⟨a,b,.inr ⟨before,sender,conflict⟩,rfl,rfl⟩))
      · exact notAfter (.single (edgeIff.mpr ⟨b,a,.inr ⟨back,Ne.symm sender,conflictingSymm conflict⟩,rfl,rfl⟩))

theorem executeHeld (once : (transactions.map fun tx => tx.hash).Nodup) {tx} (mem : tx ∈ transactions) :
    executeHash exec (buildDependencyGraph visit transactions) tx.hash = exec tx := by
  have found : (buildDependencyGraph visit transactions).transactions.lookup tx.hash = some tx := by
    rw [builtTransactions]
    exact KeyedMap.insertAllAgrees (fun a memA b memB => hashInj once memA memB) mem ∅
  funext s
  simp only [executeHash,found]

theorem orderedOrFreeHash (once : (transactions.map fun tx => tx.hash).Nodup) (declared : Declared exec transactions)
    {x y} (nodeX : x ∈ (buildDependencyGraph visit transactions).nodes)
    (nodeY : y ∈ (buildDependencyGraph visit transactions).nodes)
    (notBefore : ¬Relation.TransGen (buildDependencyGraph visit transactions).Edge x y)
    (notAfter : ¬Relation.TransGen (buildDependencyGraph visit transactions).Edge y x) :
    Commutes (executeHash exec (buildDependencyGraph visit transactions) x)
      (executeHash exec (buildDependencyGraph visit transactions) y) := by
  obtain ⟨a,memA,rfl⟩ := memNodes.mp nodeX
  obtain ⟨b,memB,rfl⟩ := memNodes.mp nodeY
  rw [executeHeld once memA,executeHeld once memB]
  exact orderedOrFree declared memA memB notBefore notAfter

theorem executeBatch (once : (transactions.map fun tx => tx.hash).Nodup) (s : State V) :
    run (executeHash exec (buildDependencyGraph visit transactions)) (transactions.map fun tx => tx.hash) s =
      run exec transactions s := by
  unfold run
  rw [foldl_map]
  exact foldl_ext _ _ s fun s tx mem => by rw [executeHeld once mem]

def ListedByNonce (transactions : List AnnotatedTransaction) : Prop :=
  transactions.Pairwise fun a b => a.sender = b.sender → a.nonce ≤ b.nonce

theorem sortListed (listed : ListedByNonce transactions) (sender) :
    sortByNonce (sentBy transactions sender) = sentBy transactions sender := by
  refine List.Pairwise.insertionSort_eq ?_
  refine (listed.sublist filter_sublist).imp_of_mem fun memA memB lower => ?_
  exact lower ((of_decide_eq_true (mem_filter.mp memA).2).trans (of_decide_eq_true (mem_filter.mp memB).2).symm)

theorem linkBefore (listed : ListedByNonce transactions) {a b} (link : Link transactions a b) :
    Before transactions a b := by
  rcases link with ⟨sender,among⟩ | ⟨before,_⟩
  · rw [sortListed listed] at among
    exact (windowsBefore among).trans filter_sublist
  · exact before

theorem pathBefore (once : (transactions.map fun tx => tx.hash).Nodup) (listed : ListedByNonce transactions) {x y}
    (path : Relation.TransGen (buildDependencyGraph visit transactions).Edge x y) :
    Before (transactions.map fun tx => tx.hash) x y := by
  have forward {x y : Hash} (edge : (buildDependencyGraph visit transactions).Edge x y) :
      Before (transactions.map fun tx => tx.hash) x y := by
    obtain ⟨a,b,link,rfl,rfl⟩ := edgeIff.mp edge
    exact beforeMap (linkBefore listed link)
  induction path with
  | single edge => exact forward edge
  | tail _ edge ih => exact beforeTrans once ih (forward edge)

theorem scheduleSerializable (once : (transactions.map fun tx => tx.hash).Nodup) (declared : Declared exec transactions)
    {turns : Nat} {schedule : ExecutionSchedule}
    (sorted : kahnsTopologicalSort (buildDependencyGraph visit transactions) turns = some (.ok schedule)) (s : State V) :
    (∀ groups, List.Forall₂ List.Perm groups (schedule.parallelGroups.map ParallelGroup.transactions) →
      executeGroups exec (buildDependencyGraph visit transactions) groups s =
        run (executeHash exec (buildDependencyGraph visit transactions)) schedule.flatten s) ∧
    (ListedByNonce transactions →
      run (executeHash exec (buildDependencyGraph visit transactions)) schedule.flatten s = run exec transactions s) := by
  obtain ⟨groups,rfl,layered,covers⟩ := sortedSchedule (graphConsistent visit transactions) graphClosed sorted
  rw [flattenNew] at covers ⊢
  have free : ∀ x ∈ (groups.map ParallelGroup.transactions).flatten, ∀ y ∈ (groups.map ParallelGroup.transactions).flatten,
      _ → _ → Commutes (executeHash exec (buildDependencyGraph visit transactions) x)
        (executeHash exec (buildDependencyGraph visit transactions) y) :=
    fun x memX y memY => orderedOrFreeHash once declared (layeredInside layered x memX) (layeredInside layered y memY)
  constructor
  · intro groups' same
    rw [executeGroups,runFlatten]
    exact (runPermuted (List.Perm.flatten_congr same).symm (layeredPairwise layered)
      (layeredPairwise (layeredPerm layered same)) free s).symm
  · intro listed
    have perm : (groups.map ParallelGroup.transactions).flatten.Perm (transactions.map fun tx => tx.hash) := by
      refine (perm_ext_iff_of_nodup (layeredOnce layered) once).mpr fun h => ?_
      have inside : h ∈ (buildDependencyGraph visit transactions).nodes ↔ ∃ tx ∈ transactions, tx.hash = h := memNodes
      rw [mem_map,← inside]
      exact ⟨layeredInside layered h,covers h⟩
    have batch : run (executeHash exec (buildDependencyGraph visit transactions)) (transactions.map fun tx => tx.hash) s =
        run exec transactions s := executeBatch once s
    rw [← batch]
    refine runPermuted perm (layeredPairwise layered) (pairwiseBefore.mpr fun x y before path => ?_) free s
    exact beforeAsymm once before (pathBefore once listed path)

end Serial

def stamp : Semantics Nat := fun tx s c =>
  match c with
  | .nonce sender => if sender = tx.sender then s c + 1 else s c
  | .slot loc => if loc ∈ tx.accessPattern.writes then 2 * s c + tx.hash.toNat else s c

theorem stampDeclared (transactions) : Declared stamp transactions := by
  intro tx _
  constructor
  · intro s c outside
    cases c with
    | nonce sender => exact if_neg fun same => outside (.inl (congrArg Cell.nonce same))
    | slot loc => exact if_neg fun wrote => outside (.inr ⟨loc,wrote,rfl⟩)
  · intro s t agree c wrote
    have same := agree c (.inl wrote)
    cases c <;> simp only [stamp,same]

def threeSenders : List AnnotatedTransaction :=
  [⟨1,7,0,⟨[],[⟨5,1⟩]⟩⟩,⟨2,8,0,⟨[⟨5,1⟩],[⟨5,2⟩]⟩⟩,⟨3,9,0,⟨[],[]⟩⟩]

theorem threeSendersSerializable :
    kahnsTopologicalSort (buildDependencyGraph .upwards threeSenders) 3 = some (.ok (.new [⟨0,[1,3]⟩,⟨1,[2]⟩])) ∧
    executeGroups stamp (buildDependencyGraph .upwards threeSenders) [[3,1],[2]] (fun _ => 0) =
      run stamp threeSenders fun _ => 0 := by
  have sorted : kahnsTopologicalSort (buildDependencyGraph .upwards threeSenders) 3 =
      some (.ok (.new [⟨0,[1,3]⟩,⟨1,[2]⟩])) := by decide
  obtain ⟨groups,serial⟩ := scheduleSerializable (by decide) (stampDeclared threeSenders) sorted fun _ => 0
  refine ⟨sorted,(groups [[3,1],[2]] ?_).trans (serial ?_)⟩
  · exact .cons (List.Perm.swap 1 3 []) (.cons (List.Perm.refl _) .nil)
  · unfold ListedByNonce
    decide

end QuantumChain.Ordering
