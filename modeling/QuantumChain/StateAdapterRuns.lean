import QuantumChain.StateAdapter
import QuantumChain.StateProofs

/-! Calls of the state adapter that run at the same time.
Two lock sections a call; the bus may fail. -/
namespace QuantumChain.NodeRuntime
open List Function
open State StepRun

structure BlockCall where
  blockHash : Hash
  transactions : List StateTransaction
  deriving DecidableEq, Repr

inductive Stage where
  | arrived
  | applied
  | rooted (root : Hash)
  | finished (result : Except StateAdapterError Hash)
  deriving DecidableEq

def Stage.root : Stage → Option Hash
  | .rooted root => some root
  | .finished (.ok root) => some root
  | _ => none

section Call
variable (keccak : Bytes → Hash) (call : BlockCall) (bus : Except String Unit)

def advance : StateAdapter × Stage → StateAdapter × Stage
  | (adapter,.arrived) => ({adapter with trie := applyBlock keccak adapter.trie call.transactions},.applied)
  | (adapter,.applied) => (adapter,.rooted adapter.trie.root)
  | (adapter,.rooted root) =>
    let (result,adapter) := adapter.publishRoot call.blockHash root bus
    (adapter,.finished result)
  | (adapter,.finished result) => (adapter,.finished result)

theorem advanceAlone (adapter) : (advance keccak call bus)^[3] (adapter,.arrived) =
    ((adapter.processBlockValidated keccak call.blockHash call.transactions bus).2,
      .finished (adapter.processBlockValidated keccak call.blockHash call.transactions bus).1) := rfl

end Call

variable {n : Nat}

structure System (n : Nat) where
  adapter : StateAdapter
  stages : Fin n → Stage
  order : List (Fin n)

def started (adapter : StateAdapter) : System n := ⟨adapter,fun _ => .arrived,[]⟩

section Runs
variable (keccak : Bytes → Hash) (calls : Fin n → BlockCall)

def turn (s : System n) (e : Fin n × Except String Unit) : System n :=
  let (adapter,stage) := advance keccak (calls e.1) e.2 (s.adapter,s.stages e.1)
  ⟨adapter,Function.update s.stages e.1 stage,
    match s.stages e.1 with
    | .arrived => s.order ++ [e.1]
    | _ => s.order⟩

variable (t : PatriciaMerkleTrie)

def applyCalls (order : List (Fin n)) : PatriciaMerkleTrie :=
  applyBlock keccak t (order.flatMap fun i => (calls i).transactions)

def rootAfter (order : List (Fin n)) (i : Fin n) : Hash :=
  (applyCalls keccak calls t (order.take (order.idxOf i + 1))).root

variable (s : System n)

def Serial : Prop :=
  ∃ order : List (Fin n), order.Nodup ∧ (∀ i, i ∈ order) ∧
    ∀ i root, s.stages i = .finished (.ok root) → root = rootAfter keccak calls t order i

def OwnRoots : Prop :=
  ∀ i root, (s.stages i).root = some root → root = rootAfter keccak calls t s.order i

def Fresh (e : Fin n × Except String Unit) : Prop :=
  s.stages e.1 = .applied → s.adapter.trie.root = rootAfter keccak calls t s.order e.1

def Undisturbed (e : Fin n × Except String Unit) : Prop :=
  s.stages e.1 = .applied → s.order.getLast? = some e.1

structure Applied (t : PatriciaMerkleTrie) (s : System n) : Prop where
  trie : s.adapter.trie = applyCalls keccak calls t s.order
  nodup : s.order.Nodup
  begun : ∀ i, i ∈ s.order ↔ s.stages i ≠ .arrived

def Logged (start : StateAdapter) (s : System n) : Prop :=
  ∀ event, event ∈ s.adapter.events ↔ event ∈ start.events ∨
    ∃ i root, s.stages i = .finished (.ok root) ∧ event = rootComputed (calls i).blockHash root

variable {keccak calls}

theorem applyCallsSnoc (t) (order) (i) :
    applyCalls keccak calls t (order ++ [i]) = applyBlock keccak (applyCalls keccak calls t order)
      (calls i).transactions := by
  unfold applyCalls applyBlock
  rw [flatMap_append,runAppend,flatMap_singleton]

theorem rootAfterAppend {t order i} (mem : i ∈ order)
    (more) : rootAfter keccak calls t (order ++ more) i = rootAfter keccak calls t order i := by
  unfold rootAfter
  rw [idxOf_append_of_mem mem,take_append_of_le_length (idxOf_lt_length_of_mem mem)]

theorem rootAfterLast {t order i} (nodup : order.Nodup)
    (last : order.getLast? = some i) : rootAfter keccak calls t order i = (applyCalls keccak calls t order).root := by
  obtain ⟨before,rfl⟩ := getLast?_eq_some_iff.mp last
  have absent : i ∉ before := fun mem => (nodup_append.mp nodup).2.2 i mem i (mem_singleton.mpr rfl) rfl
  unfold rootAfter
  rw [idxOf_append_of_notMem absent,take_of_length_le (by simp)]

section Turn
variable {t : PatriciaMerkleTrie} {s : System n} {i : Fin n} {bus : Except String Unit}

theorem turnArrived (stage : s.stages i = .arrived) : turn keccak calls s (i,bus) =
    ⟨{s.adapter with trie := applyBlock keccak s.adapter.trie (calls i).transactions},
      Function.update s.stages i .applied,s.order ++ [i]⟩ := by
  simp only [turn,stage,advance]

theorem turnApplied (stage : s.stages i = .applied) : turn keccak calls s (i,bus) =
    ⟨s.adapter,Function.update s.stages i (.rooted s.adapter.trie.root),s.order⟩ := by
  simp only [turn,stage,advance]

theorem turnRooted {root} (stage : s.stages i = .rooted root) : turn keccak calls s (i,bus) =
    ⟨(s.adapter.publishRoot (calls i).blockHash root bus).2,
      Function.update s.stages i (.finished (s.adapter.publishRoot (calls i).blockHash root bus).1),s.order⟩ := by
  simp only [turn,stage,advance]

theorem turnFinished {result} (stage : s.stages i = .finished result) : turn keccak calls s (i,bus) = s := by
  simp only [turn,stage,advance]
  rw [← stage,update_eq_self]

theorem appliedTurn (inv : Applied keccak calls t s) (e) : Applied keccak calls t (turn keccak calls s e) := by
  obtain ⟨i,bus⟩ := e
  have begunAfter {stage : Stage} (here : i ∈ s.order) (moved : stage ≠ .arrived) j :
      j ∈ s.order ↔ Function.update s.stages i stage j ≠ .arrived := by
    rcases eq_or_ne j i with rfl | apart
    · rw [update_self]
      exact iff_of_true here moved
    · rw [update_of_ne apart]
      exact inv.begun j
  cases stage : s.stages i with
  | arrived =>
    have absent : i ∉ s.order := fun mem => (inv.begun i).1 mem stage
    rw [turnArrived stage]
    refine ⟨?_,?_,fun j => ?_⟩
    · rw [applyCallsSnoc,← inv.trie]
    · exact nodup_append.mpr ⟨inv.nodup,nodup_singleton i,
        fun a mem b only same => absent (mem_singleton.mp only ▸ same ▸ mem)⟩
    · change j ∈ s.order ++ [i] ↔ Function.update s.stages i .applied j ≠ .arrived
      rw [mem_append,mem_singleton]
      rcases eq_or_ne j i with rfl | apart
      · simp
      · rw [update_of_ne apart,inv.begun j]
        exact or_iff_left apart
  | applied =>
    rw [turnApplied stage]
    exact ⟨inv.trie,inv.nodup,begunAfter ((inv.begun i).2 (stage ▸ nofun)) nofun⟩
  | rooted root =>
    rw [turnRooted stage]
    exact ⟨(publishKeepsTrie ..).trans inv.trie,inv.nodup,begunAfter ((inv.begun i).2 (stage ▸ nofun)) nofun⟩
  | finished result =>
    rw [turnFinished stage]
    exact inv

theorem appliedStart (adapter) : Applied keccak calls adapter.trie (started adapter) :=
  ⟨rfl,nodup_nil,fun _ => iff_of_false not_mem_nil (fun moved => moved rfl)⟩

theorem ownUpdate {stage} (own : OwnRoots keccak calls t s)
    (here : ∀ root, stage.root = some root → root = rootAfter keccak calls t s.order i) (adapter) :
    OwnRoots keccak calls t ⟨adapter,Function.update s.stages i stage,s.order⟩ := by
  intro j root read
  rcases eq_or_ne j i with rfl | apart
  · dsimp only at read
    rw [update_self] at read
    exact here root read
  · dsimp only at read
    rw [update_of_ne apart] at read
    exact own j root read

theorem publishedRoot {adapter : StateAdapter} {blockHash root found}
    (read : (Stage.finished (adapter.publishRoot blockHash root bus).1).root = some found) : found = root := by
  cases bus with
  | ok _ => exact (Option.some.inj read).symm
  | error text => cases read

theorem ownTurn {e} (inv : Applied keccak calls t s) (own : OwnRoots keccak calls t s)
    (fresh : Fresh keccak calls t s e) : OwnRoots keccak calls t (turn keccak calls s e) := by
  obtain ⟨i,bus⟩ := e
  cases stage : s.stages i with
  | arrived =>
    rw [turnArrived stage]
    intro j root read
    rcases eq_or_ne j i with rfl | apart
    · dsimp only at read
      rw [update_self] at read
      cases read
    · dsimp only at read
      rw [update_of_ne apart] at read
      have mem := (inv.begun j).2 (fun idle => by rw [idle] at read; cases read)
      rw [rootAfterAppend mem]
      exact own j root read
  | applied =>
    rw [turnApplied stage]
    exact ownUpdate own (fun root read => Option.some.inj read ▸ fresh stage) _
  | rooted root =>
    rw [turnRooted stage]
    exact ownUpdate own (fun found read => publishedRoot read ▸ own i root (by rw [stage]; rfl)) _
  | finished result =>
    rw [turnFinished stage]
    exact own

theorem freshNeeded {e} (own : OwnRoots keccak calls t (turn keccak calls s e)) : Fresh keccak calls t s e := by
  intro stage
  rw [turnApplied stage] at own
  refine own e.1 s.adapter.trie.root ?_
  dsimp only
  rw [update_self]
  rfl

theorem undisturbedFresh {e} (inv : Applied keccak calls t s) (last : Undisturbed s e) : Fresh keccak calls t s e := by
  intro stage
  rw [inv.trie]
  exact (rootAfterLast inv.nodup (last stage)).symm

theorem ownSerial (inv : Applied keccak calls t s) (own : OwnRoots keccak calls t s) : Serial keccak calls t s := by
  -- The calls that have not applied their blocks come last, in any order.
  refine ⟨s.order ++ (List.finRange n).filter (· ∉ s.order),?_,fun i => ?_,fun i root published => ?_⟩
  · refine nodup_append.mpr ⟨inv.nodup,(nodup_finRange n).filter _,fun a mem b other same => ?_⟩
    have absent := (mem_filter.mp other).2
    exact of_decide_eq_true absent (same ▸ mem)
  · by_cases mem : i ∈ s.order
    · exact mem_append_left _ mem
    · exact mem_append_right _ (mem_filter.mpr ⟨mem_finRange i,decide_eq_true mem⟩)
  · have mem := (inv.begun i).2 (published ▸ nofun)
    rw [rootAfterAppend mem]
    exact own i root (by rw [published]; rfl)

theorem loggedUpdate {start stage} (logged : Logged calls start s) (adapter)
    (order) (silent : ∀ root, s.stages i ≠ .finished (.ok root))
    (event : ∀ found, found ∈ adapter.events ↔ found ∈ s.adapter.events ∨
      ∃ root, stage = .finished (.ok root) ∧ found = rootComputed (calls i).blockHash root) :
    Logged calls start ⟨adapter,Function.update s.stages i stage,order⟩ := by
  intro found
  rw [event,logged found,or_assoc]
  refine or_congr_right ⟨?_,?_⟩
  · rintro (⟨j,root,done,same⟩ | ⟨root,done,same⟩)
    · have apart : j ≠ i := fun here => silent root (here ▸ done)
      exact ⟨j,root,(update_of_ne apart ..).trans done,same⟩
    · exact ⟨i,root,(update_self ..).trans done,same⟩
  · rintro ⟨j,root,done,same⟩
    dsimp only at done
    rcases eq_or_ne j i with rfl | apart
    · rw [update_self] at done
      exact .inr ⟨root,done,same⟩
    · rw [update_of_ne apart] at done
      exact .inl ⟨j,root,done,same⟩

theorem loggedTurn {start} (logged : Logged calls start s) (e) : Logged calls start (turn keccak calls s e) := by
  obtain ⟨i,bus⟩ := e
  cases stage : s.stages i with
  | arrived =>
    rw [turnArrived stage]
    exact loggedUpdate logged _ _ (fun _ => stage ▸ nofun) (fun _ => (or_iff_left nofun).symm)
  | applied =>
    rw [turnApplied stage]
    exact loggedUpdate logged _ _ (fun _ => stage ▸ nofun) (fun _ => (or_iff_left nofun).symm)
  | rooted root =>
    rw [turnRooted stage]
    refine loggedUpdate logged _ _ (fun _ => stage ▸ nofun) (fun found => ?_)
    cases bus with
    | ok _ =>
      change found ∈ s.adapter.events ++ [rootComputed (calls i).blockHash root] ↔ _
      rw [mem_append,mem_singleton]
      exact or_congr_right ⟨fun same => ⟨root,rfl,same⟩,fun ⟨_,done,same⟩ => by cases done; exact same⟩
    | error text => exact (or_iff_left nofun).symm
  | finished result =>
    rw [turnFinished stage]
    exact logged

theorem loggedStart (adapter) : Logged calls adapter (started adapter) :=
  fun _ => (or_iff_left nofun).symm

end Turn

variable (keccak calls)

theorem publishedRootsSerial (adapter : StateAdapter) (schedule : List (Fin n × Except String Unit)) :
    (Along (turn keccak calls) (fun s e => OwnRoots keccak calls adapter.trie (turn keccak calls s e))
        (started adapter) schedule ↔
      Along (turn keccak calls) (Fresh keccak calls adapter.trie) (started adapter) schedule) ∧
    (Along (turn keccak calls) (Fresh keccak calls adapter.trie) (started adapter) schedule →
      Serial keccak calls adapter.trie (run (turn keccak calls) (started adapter) schedule)) ∧
    (Along (turn keccak calls) Undisturbed (started adapter) schedule →
      Along (turn keccak calls) (Fresh keccak calls adapter.trie) (started adapter) schedule ∧
      Serial keccak calls adapter.trie (run (turn keccak calls) (started adapter) schedule)) ∧
    Logged calls adapter (run (turn keccak calls) (started adapter) schedule) := by
  have start : Applied keccak calls adapter.trie (started adapter) ∧ OwnRoots keccak calls adapter.trie (started adapter) :=
    ⟨appliedStart adapter,nofun⟩
  have keeps (s : System n) (e : Fin n × Except String Unit)
      (inv : Applied keccak calls adapter.trie s ∧ OwnRoots keccak calls adapter.trie s)
      (fresh : Fresh keccak calls adapter.trie s e) :
      Applied keccak calls adapter.trie (turn keccak calls s e) ∧ OwnRoots keccak calls adapter.trie
        (turn keccak calls s e) :=
    ⟨appliedTurn inv.1 e,ownTurn inv.1 inv.2 fresh⟩
  have serial (fresh : Along (turn keccak calls) (Fresh keccak calls adapter.trie) (started adapter) schedule) :
      Serial keccak calls adapter.trie (run (turn keccak calls) (started adapter) schedule) := by
    have inv := runKeeps keeps start fresh
    exact ownSerial inv.1 inv.2
  refine ⟨alongExact keeps (fun _ inv => inv.2) (fun _ _ _ own => freshNeeded own) start,serial,fun undisturbed => ?_,?_⟩
  · have fresh := alongImplies (I := Applied keccak calls adapter.trie) (fun _ e inv => appliedTurn inv e)
      (fun _ _ inv last => undisturbedFresh inv last) start.1 undisturbed
    exact ⟨fresh,serial fresh⟩
  · exact runInvariant (I := Logged calls adapter) (fun _ e logged => loggedTurn logged e) (loggedStart adapter) schedule

end Runs

def funded : StateAdapter := ⟨(PatriciaMerkleTrie.withConfig {}).perform spreadHash (.setBalance 1 10),[]⟩

def twoBlocks (i : Fin 2) : BlockCall := if i = 0 then ⟨100,[transferOf 1 2 3]⟩ else ⟨101,[transferOf 1 3 4]⟩

-- the second block is applied after the first one's root is read, and its root is read before the first is published
def oneByOne : List (Fin 2 × Except String Unit) := [(0,.ok ()),(0,.ok ()),(1,.ok ()),(1,.ok ()),(0,.ok ()),(1,.ok ())]

theorem oneByOneSerial : (∀ i, ((run (turn spreadHash twoBlocks) (started funded) oneByOne).stages i).root.isSome = true) ∧
    Serial spreadHash twoBlocks funded.trie (run (turn spreadHash twoBlocks) (started funded) oneByOne) := by
  have undisturbed : Along (turn spreadHash twoBlocks) Undisturbed (started funded) oneByOne := by
    simp only [oneByOne,Along,Undisturbed]
    decide +kernel
  exact ⟨by decide +kernel,((publishedRootsSerial spreadHash twoBlocks funded oneByOne).2.2.1 undisturbed).2⟩

def bothApplied : System 2 :=
  run (turn spreadHash twoBlocks) (started funded) [(0,.ok ()),(1,.ok ()),(0,.ok ()),(1,.ok ()),(0,.ok ()),(1,.ok ())]

theorem rootOfBothBlocks : ¬Serial spreadHash twoBlocks funded.trie bothApplied := by
  have published : ∀ i, bothApplied.stages i = .finished (.ok bothApplied.adapter.trie.root) := by decide +kernel
  have other : ∀ i, bothApplied.adapter.trie.root ≠ (applyBlock spreadHash funded.trie (twoBlocks i).transactions).root := by
    decide +kernel
  rintro ⟨order,_,all,explains⟩
  cases order with
  | nil => cases all 0
  | cons first rest =>
    have alone := explains first _ (published first)
    unfold rootAfter applyCalls at alone
    rw [idxOf_cons_self,take_succ_cons,take_zero,flatMap_singleton] at alone
    exact other first alone

end QuantumChain.NodeRuntime
