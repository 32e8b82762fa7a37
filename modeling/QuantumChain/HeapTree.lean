import Mathlib.Data.List.Basic
import Mathlib.Data.List.Infix
import Mathlib.Data.Nat.Log
import Mathlib.Tactic.Common

/-! Complete binary trees laid out in an array.
The join is any function; where it must not collide is stated. -/
namespace QuantumChain.HeapTree
open List
variable {α : Type}

def writeAll (nodes : List α) (start : Nat) : List α → Option (List α)
  | [] => some nodes
  | value::rest => if start < nodes.length then writeAll (nodes.set start value) (start + 1) rest else none

structure Written (nodes : List α) (start : Nat) (values out : List α) : Prop where
  size : out.length = nodes.length
  inside : ∀ i < values.length, out[start + i]? = values[i]?
  before : ∀ j < start, out[j]? = nodes[j]?
  behind : ∀ j, start + values.length ≤ j → out[j]? = nodes[j]?

theorem writeAllWritten {nodes start} {values : List α} (fits : start + values.length ≤ nodes.length) :
    ∃ out, writeAll nodes start values = some out ∧ Written nodes start values out := by
  induction values generalizing nodes start with
  | nil => exact ⟨nodes,rfl,rfl,by simp,fun _ _ => rfl,fun _ _ => rfl⟩
  | cons value rest ih =>
    simp only [length_cons] at fits
    have inBounds : start < nodes.length := by omega
    have fitsRest : start + 1 + rest.length ≤ (nodes.set start value).length := by
      rw [length_set]
      omega
    obtain ⟨out,ran,written⟩ := ih fitsRest
    refine ⟨out,by rw [writeAll,if_pos inBounds,ran],?_⟩
    constructor
    · rw [written.size,length_set]
    · intro i inside
      cases i with
      | zero =>
        rw [Nat.add_zero,written.before start (by omega),getElem?_set_self inBounds]
        rfl
      | succ i =>
        have later := written.inside i (by simpa using inside)
        rw [show start + (i + 1) = start + 1 + i by omega,later]
        rfl
    · intro j early
      rw [written.before j (by omega),getElem?_set_ne (by omega)]
    · intro j late
      simp only [length_cons] at late
      rw [written.behind j (by omega),getElem?_set_ne (by omega)]

theorem collectSome {β : Type} {f : β → Option α} {inputs : List β} (total : ∀ b ∈ inputs, ∃ a, f b = some a) :
    ∃ out, inputs.mapM f = some out ∧ out.length = inputs.length ∧ ∀ i (inside : i < inputs.length), out[i]? =
      f inputs[i] := by
  induction inputs with
  | nil => exact ⟨[],rfl,rfl,fun _ inside => absurd inside (Nat.not_lt_zero _)⟩
  | cons b rest ih =>
    obtain ⟨a,gives⟩ := total b mem_cons_self
    obtain ⟨out,collects,size,each⟩ := ih fun b mem => total b (mem_cons_of_mem _ mem)
    refine ⟨a::out,by rw [mapM_cons,gives,collects]; rfl,congrArg Nat.succ size,?_⟩
    intro i inside
    cases i with
    | zero => exact gives.symm
    | succ i => exact each i (Nat.lt_of_succ_lt_succ inside)

section Join
variable (join : α → α → α)

def joinChildren (nodes : List α) (i : Nat) : Option α := do
  let left ← nodes[2 * i + 1]?
  let right ← nodes[2 * i + 2]?
  some (join left right)

structure JoinedFrom (inner k : Nat) (nodes : List α) : Prop where
  size : nodes.length = 2 * inner + 1
  joined : ∀ i, k ≤ i → i < inner → nodes[i]? = joinChildren join nodes i

abbrev Heap (inner : Nat) (nodes : List α) : Prop := JoinedFrom join inner 0 nodes

end Join

variable {join : α → α → α} {inner k : Nat} {nodes : List α}

theorem childrenOf (join) {i} (size : nodes.length = 2 * inner + 1) (below : i < inner) :
    ∃ left right, nodes[2 * i + 1]? = some left ∧ nodes[2 * i + 2]? = some right ∧
      joinChildren join nodes i = some (join left right) := by
  have left := getElem?_eq_getElem (l := nodes) (i := 2 * i + 1) (by omega)
  have right := getElem?_eq_getElem (l := nodes) (i := 2 * i + 2) (by omega)
  exact ⟨_,_,left,right,by simp only [joinChildren,left,right,Option.bind_eq_bind,Option.bind_some]⟩

theorem joinedWrite {start values out} (joined : JoinedFrom join inner (start + values.length) nodes)
    (apart : values.length ≤ start + 1) (written : Written nodes start values out)
    (fresh : ∀ i < values.length, values[i]? = joinChildren join nodes (start + i)) : JoinedFrom join inner start out := by
  -- the children of every entry from `start` on lie behind the batch, so the batch leaves them alone
  have sameChildren : ∀ i, start ≤ i → joinChildren join out i = joinChildren join nodes i := by
    intro i from'
    unfold joinChildren
    rw [written.behind (2 * i + 1) (by omega),written.behind (2 * i + 2) (by omega)]
  constructor
  · rw [written.size,joined.size]
  · intro i from' below
    rw [sameChildren i from']
    rcases Nat.lt_or_ge i (start + values.length) with inside | behind
    · obtain ⟨j,rfl⟩ := Nat.exists_eq_add_of_le from'
      have inBatch : j < values.length := by omega
      rw [written.inside j inBatch,fresh j inBatch]
    · rw [written.behind i behind,joined.joined i behind below]

theorem heapUnique {other} (heap : Heap join inner nodes) (heap' : Heap join inner other)
    (leaves : ∀ j, inner ≤ j → nodes[j]? = other[j]?) : nodes = other := by
  -- downwards from the leaves: the last `m` inner entries agree
  have agree : ∀ m j, inner ≤ j + m → nodes[j]? = other[j]? := by
    intro m
    induction m with
    | zero => exact fun j past => leaves j past
    | succ m ih =>
      intro j past
      rcases Nat.lt_or_ge j inner with below | leaf
      · rw [heap.joined j (Nat.zero_le j) below,heap'.joined j (Nat.zero_le j) below]
        unfold joinChildren
        rw [ih (2 * j + 1) (by omega),ih (2 * j + 2) (by omega)]
      · exact leaves j leaf
  exact ext_getElem? fun j => agree inner j (by omega)

structure Turn (α : Type) where
  other : α
  otherLeft : Bool
  deriving DecidableEq

def parent (i : Nat) : Nat := (i - 1) / 2

def sibling (i : Nat) : Nat := if i % 2 = 0 then i - 1 else i + 1

def joinTurn (join : α → α → α) (value : α) (turn : Turn α) : α :=
  if turn.otherLeft then join turn.other value else join value turn.other

def rebuild (join : α → α → α) (value : α) (turns : List (Turn α)) : α := turns.foldl (joinTurn join) value

inductive Path (nodes : List α) : Nat → List (Turn α) → Prop where
  | root : Path nodes 0 []
  | up {i : Nat} {other : α} {turns : List (Turn α)} (inside : 0 < i) (beside : nodes[sibling i]? = some other)
      (above : Path nodes (parent i) turns) : Path nodes i (⟨other,decide (i % 2 = 0)⟩::turns)

theorem parentBelow {i} (inside : 0 < i) : parent i < i := by
  unfold parent
  omega

theorem parentInner {i} (size : nodes.length = 2 * inner + 1) (inside : 0 < i) (bound : i < nodes.length) :
    parent i < inner := by
  unfold parent
  omega

theorem siblingBound {i} (size : nodes.length = 2 * inner + 1) (inside : 0 < i) (bound : i < nodes.length) :
    sibling i < nodes.length := by
  unfold sibling
  split <;> omega

theorem joinSibling {i value other} (heap : Heap join inner nodes) (inside : 0 < i)
    (here : nodes[i]? = some value) (beside : nodes[sibling i]? = some other) :
    nodes[parent i]? = some (joinTurn join value ⟨other,decide (i % 2 = 0)⟩) := by
  obtain ⟨bound,_⟩ := List.getElem?_eq_some_iff.mp here
  have below := parentInner heap.size inside bound
  obtain ⟨left,right,atLeft,atRight,joins⟩ := childrenOf join heap.size below
  rw [heap.joined _ (Nat.zero_le _) below,joins]
  unfold sibling at beside
  unfold parent at atLeft atRight
  by_cases even : i % 2 = 0
  · -- an even entry is the right child
    rw [if_pos even] at beside
    rw [show 2 * ((i - 1) / 2) + 1 = i - 1 by omega,beside] at atLeft
    rw [show 2 * ((i - 1) / 2) + 2 = i by omega,here] at atRight
    cases atLeft
    cases atRight
    simp [joinTurn,even]
  · rw [if_neg even] at beside
    rw [show 2 * ((i - 1) / 2) + 1 = i by omega,here] at atLeft
    rw [show 2 * ((i - 1) / 2) + 2 = i + 1 by omega,beside] at atRight
    cases atLeft
    cases atRight
    simp [joinTurn,even]

theorem pathRebuilds {i value turns} (heap : Heap join inner nodes) (path : Path nodes i turns)
    (here : nodes[i]? = some value) : nodes[0]? = some (rebuild join value turns) := by
  induction path generalizing value with
  | root => exact here
  | up inside beside _ ih => exact ih (joinSibling heap inside here beside)

theorem pathLength {i turns} (path : Path nodes i turns) : turns.length = Nat.log2 (i + 1) := by
  induction path with
  | root => rfl
  | @up i _ _ inside _ _ ih =>
    have halved : parent i + 1 = (i + 1) / 2 := by
      unfold parent
      omega
    rw [length_cons,ih,halved,Nat.log2_def (i + 1),if_pos (by omega)]

def place : List (Turn α) → Nat
  | [] => 0
  | turn::turns => if turn.otherLeft then 2 * place turns + 2 else 2 * place turns + 1

theorem pathPlace {i turns} (path : Path nodes i turns) : place turns = i := by
  induction path with
  | root => rfl
  | @up i _ _ inside _ _ ih =>
    unfold place
    rw [ih]
    unfold parent
    by_cases even : i % 2 = 0
    · simp only [even,decide_true,if_true]
      omega
    · simp only [even,decide_false,Bool.false_eq_true,if_false]
      omega

def pathPairs (join : α → α → α) : α → List (Turn α) → List (α × α)
  | _,[] => []
  | value,turn::turns =>
    (if turn.otherLeft then (turn.other,value) else (value,turn.other))::pathPairs join (joinTurn join value turn) turns

def childPairs (nodes : List α) (inner : Nat) : List (α × α) :=
  (List.range inner).filterMap fun i => do
    let left ← nodes[2 * i + 1]?
    let right ← nodes[2 * i + 2]?
    some (left,right)

def Apart (join : α → α → α) (pairs : List (α × α)) : Prop :=
  ∀ p ∈ pairs, ∀ q ∈ pairs, join p.1 p.2 = join q.1 q.2 → p = q

theorem Apart.sub {pairs fewer} (apart : Apart join pairs) (sub : fewer ⊆ pairs) : Apart join fewer :=
  fun p memP q memQ same => apart p (sub memP) q (sub memQ) same

theorem childPairsMem {i left right} (below : i < inner) (atLeft : nodes[2 * i + 1]? = some left)
    (atRight : nodes[2 * i + 2]? = some right) : (left,right) ∈ childPairs nodes inner := by
  refine mem_filterMap.mpr ⟨i,mem_range.mpr below,?_⟩
  simp only [atLeft,atRight,Option.bind_eq_bind,Option.bind_some]

theorem heapNode {i} (heap : Heap join inner nodes) (below : i < inner) :
    ∃ left right, nodes[2 * i + 1]? = some left ∧ nodes[2 * i + 2]? = some right ∧
      nodes[i]? = some (join left right) ∧ (left,right) ∈ childPairs nodes inner := by
  obtain ⟨left,right,atLeft,atRight,joins⟩ := childrenOf join heap.size below
  exact ⟨left,right,atLeft,atRight,(heap.joined i (Nat.zero_le i) below).trans joins,childPairsMem below atLeft atRight⟩

theorem pathOpens {value turns} (heap : Heap join inner nodes)
    (apart : Apart join (childPairs nodes inner ++ pathPairs join value turns)) (bound : place turns < nodes.length)
    (rebuilt : nodes[0]? = some (rebuild join value turns)) : nodes[place turns]? = some value := by
  induction turns generalizing value with
  | nil => exact rebuilt
  | cons turn turns ih =>
    have size := heap.size
    have below : place turns < inner := by
      unfold place at bound
      split at bound <;> omega
    have apart' : Apart join (childPairs nodes inner ++ pathPairs join (joinTurn join value turn) turns) := by
      refine apart.sub (append_subset.mpr ⟨subset_append_left _ _,?_⟩)
      exact fun p mem => mem_append_right _ (mem_cons_of_mem _ mem)
    have above := ih apart' (by omega) rebuilt
    obtain ⟨left,right,atLeft,atRight,joins,mem⟩ := heapNode heap below
    have same := Option.some.inj (joins.symm.trans above)
    have opened := apart (left,right) (mem_append_left _ mem) _ (mem_append_right _ mem_cons_self)
    unfold place
    unfold joinTurn at same
    by_cases onLeft : turn.otherLeft = true
    · simp only [onLeft,if_true] at same opened ⊢
      cases opened same
      exact atRight
    · simp only [onLeft] at same opened ⊢
      cases opened same
      exact atLeft

section TwoJoins
variable {join' : α → α → α} {value value' : α} {turns : List (Turn α)}

def turnPair (value : α) (turn : Turn α) : α × α := if turn.otherLeft then (turn.other,value) else (value,turn.other)

theorem joinTurnPair (join) (value) (turn : Turn α) :
    joinTurn join value turn = join (turnPair value turn).1 (turnPair value turn).2 := by
  unfold joinTurn turnPair
  split <;> rfl

theorem turnPairInj {turn} (same : turnPair value' turn = turnPair value turn) : value' = value := by
  unfold turnPair at same
  split at same
  · exact (Prod.mk.inj same).2
  · exact (Prod.mk.inj same).1

theorem rebuildSame (agree : ∀ pair ∈ pathPairs join value turns, join' pair.1 pair.2 = join pair.1 pair.2) :
    rebuild join' value turns = rebuild join value turns := by
  induction turns generalizing value with
  | nil => rfl
  | cons turn turns ih =>
    have here : joinTurn join' value turn = joinTurn join value turn := by
      rw [joinTurnPair,joinTurnPair]
      exact agree _ mem_cons_self
    have above := ih fun pair mem => agree pair (mem_cons_of_mem _ mem)
    change rebuild join' (joinTurn join' value turn) turns = _
    rw [here]
    exact above

def MeetOn (join' join : α → α → α) (pairs' pairs : List (α × α)) : Prop :=
  ∀ p ∈ pairs', ∀ q ∈ pairs, join' p.1 p.2 = join q.1 q.2 → p = q

theorem MeetOn.above {turn}
    (meet : MeetOn join' join (pathPairs join' value' (turn::turns)) (pathPairs join value (turn::turns))) :
    MeetOn join' join (pathPairs join' (joinTurn join' value' turn) turns)
      (pathPairs join (joinTurn join value turn) turns) :=
  fun p memP q memQ same => meet p (mem_cons_of_mem _ memP) q (mem_cons_of_mem _ memQ) same

theorem rebuildApart (meet : MeetOn join' join (pathPairs join' value' turns) (pathPairs join value turns))
    (differ : value' ≠ value) : rebuild join' value' turns ≠ rebuild join value turns := by
  induction turns generalizing value' value with
  | nil => exact differ
  | cons turn turns ih =>
    refine ih meet.above fun back => differ ?_
    rw [joinTurnPair,joinTurnPair] at back
    exact turnPairInj (meet _ mem_cons_self _ mem_cons_self back)

theorem rebuildSameIff (meet : MeetOn join' join (pathPairs join' value turns) (pathPairs join value turns)) :
    rebuild join' value turns = rebuild join value turns ↔
      ∀ pair ∈ pathPairs join value turns, join' pair.1 pair.2 = join pair.1 pair.2 := by
  refine ⟨fun same => ?_,rebuildSame⟩
  induction turns generalizing value with
  | nil =>
    intro pair mem
    cases mem
  | cons turn turns ih =>
    have here : joinTurn join' value turn = joinTurn join value turn := by
      by_contra differ
      exact rebuildApart meet.above differ same
    have above := meet.above
    have next : rebuild join' (joinTurn join' value turn) turns = rebuild join (joinTurn join value turn) turns := same
    rw [here] at above next
    have later := ih above next
    intro pair mem
    rcases mem_cons.mp mem with rfl | up
    · rw [joinTurnPair,joinTurnPair] at here
      exact here
    · exact later pair up

end TwoJoins

end QuantumChain.HeapTree
