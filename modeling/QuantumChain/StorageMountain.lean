import QuantumChain.KeyedMap
import QuantumChain.StepRun
import QuantumChain.FixedWidth
import Mathlib.Data.Nat.BitIndices

/-! The Merkle mountain range over block hashes: the peaks stand for the binary digits of the number of leaves, and
`get_proof` answers with the leaf it is asked for. The results hold for every hash function. Nothing here makes a proof
binding: its siblings are never folded into a peak, and its leaf index is never read. -/
namespace QuantumChain.Storage
open List BitVec
open StepRun

structure Peak where
  hash : Hash
  height : Nat
  deriving DecidableEq, Repr

structure MmrStore where
  peaks : List Peak
  leafCount : U64
  nodes : KeyedMap U64 Hash

structure MmrProof where
  leafIndex : U64
  leafCount : U64
  siblings : List Hash
  peaks : List Hash
  deriving DecidableEq, Repr

namespace MmrStore
variable (sha256 : Bytes → Hash)

def hashPair (left right : Hash) : Hash := sha256 (wordBytes left ++ wordBytes right)

def new : MmrStore := ⟨[],0,∅⟩

-- peaks are bagged from the right
def bag (peaks : List Hash) : Hash :=
  match peaks.reverse with
  | [] => 0
  | last::before => before.foldl (fun root peak => hashPair sha256 peak root) last

def peakHashes (store : MmrStore) : List Hash := store.peaks.map Peak.hash

def root (store : MmrStore) : Hash := if store.peaks.isEmpty then 0 else bag sha256 store.peakHashes

def leafIndexToPos (leafIndex : U64) : U64 := leafIndex * 2

-- the last peak and the ones before it, the nearest first
def mergeInto : Peak → List Peak → List Peak
  | last,[] => [last]
  | last,previous::before =>
    if last.height ≠ previous.height then last::previous::before
    else mergeInto ⟨hashPair sha256 previous.hash last.hash,previous.height + 1⟩ before

def mergePeaks (peaks : List Peak) : List Peak :=
  match peaks.reverse with
  | [] => []
  | last::before => (mergeInto sha256 last before).reverse

def append (store : MmrStore) (leaf : Hash) : U64 × MmrStore :=
  let leafIndex := store.leafCount
  (leafIndex,{
    nodes := store.nodes.insert (leafIndexToPos leafIndex) leaf
    peaks := mergePeaks sha256 (store.peaks ++ [⟨leaf,0⟩])
    leafCount := store.leafCount + 1})

def verifyProof (root leaf : Hash) (proof : MmrProof) : Bool :=
  match proof.siblings with
  | [] => false
  | first::_ =>
    if first ≠ leaf then false
    else if proof.peaks.isEmpty then root == 0
    else bag sha256 proof.peaks == root

def appendAll (leaves : List Hash) : MmrStore := run (fun store leaf => (store.append sha256 leaf).2) new leaves

variable {sha256}

inductive Mountain (sha256 : Bytes → Hash) : Nat → Hash → List Hash → Prop where
  | leaf (x : Hash) : Mountain sha256 0 x [x]
  | node {height : Nat} {left right : Hash} {leftLeaves rightLeaves : List Hash}
      (onLeft : Mountain sha256 height left leftLeaves)
      (onRight : Mountain sha256 height right rightLeaves) :
      Mountain sha256 (height + 1) (hashPair sha256 left right) (leftLeaves ++ rightLeaves)

-- from the last peak back
inductive Range (sha256 : Bytes → Hash) : List Peak → List Hash → Prop where
  | nil : Range sha256 [] []
  | cons {peak : Peak} {before : List Peak} {leaves own : List Hash} (mountain : Mountain sha256 peak.height peak.hash own)
      (rest : Range sha256 before leaves) (lower : ∀ previous ∈ before.head?, peak.height < previous.height) :
      Range sha256 (peak::before) (leaves ++ own)

theorem mountainSize {height top leaves} (mountain : Mountain sha256 height top leaves) :
    leaves.length = 2^height := by
  induction mountain with
  | leaf x => rfl
  | node _ _ left right => rw [length_append,left,right,Nat.pow_succ,Nat.mul_two]

theorem rangeSize {peaks leaves} (range : Range sha256 peaks leaves) :
    leaves.length = (peaks.map (fun peak => 2^peak.height)).sum := by
  induction range with
  | nil => rfl
  | cons mountain _ _ ih => rw [length_append,ih,mountainSize mountain,map_cons,sum_cons,Nat.add_comm]

theorem mergeRange {last before leaves own} (mountain : Mountain sha256 last.height last.hash own)
    (rest : Range sha256 before leaves) (level : ∀ previous ∈ before.head?, last.height ≤ previous.height) :
    Range sha256 (mergeInto sha256 last before) (leaves ++ own) := by
  induction before generalizing last leaves own with
  | nil => exact .cons mountain rest fun _ none => by cases none
  | cons previous before ih =>
    unfold mergeInto
    split
    · rename_i different
      refine .cons mountain rest fun p first => ?_
      have atMost := level p first
      cases first
      omega
    · rename_i same
      cases rest with
      | cons beside rest lower =>
        rw [List.append_assoc]
        have joined := Mountain.node beside ((of_not_not same) ▸ mountain)
        exact ih joined rest fun p first => lower p first

theorem appendRange {store : MmrStore} {leaves} (range : Range sha256 store.peaks.reverse leaves) (leaf) :
    Range sha256 (store.append sha256 leaf).2.peaks.reverse (leaves ++ [leaf]) := by
  have merged : Range sha256 (mergeInto sha256 ⟨leaf,0⟩ store.peaks.reverse) (leaves ++ [leaf]) :=
    mergeRange (.leaf leaf) range fun _ _ => Nat.zero_le _
  unfold append mergePeaks
  simp only [List.reverse_append,List.reverse_singleton,List.singleton_append,List.reverse_reverse]
  exact merged

theorem appendAllRange (sha256) (leaves) : Range sha256 (appendAll sha256 leaves).peaks.reverse leaves := by
  induction leaves using List.reverseRecOn with
  | nil => exact .nil
  | append_singleton before leaf ih =>
    unfold appendAll at ih ⊢
    rw [runAppend]
    exact appendRange ih leaf

theorem rangeSorted {peaks leaves} (range : Range sha256 peaks leaves) : (peaks.map Peak.height).SortedLT := by
  rw [sortedLT_iff_isChain]
  induction range with
  | nil => exact .nil
  | cons _ _ lower ih =>
    rw [map_cons,isChain_cons]
    refine ⟨fun height first => ?_,ih⟩
    rw [head?_map,Option.mem_map] at first
    obtain ⟨previous,found,rfl⟩ := first
    exact lower previous found

theorem rangeRuns {peaks leaves} (range : Range sha256 peaks leaves) : ∃ runs : List (List Hash), runs.flatten = leaves ∧
    Forall₂ (fun peak own => Mountain sha256 (Peak.height peak) peak.hash own) peaks.reverse runs := by
  induction range with
  | nil => exact ⟨[],rfl,.nil⟩
  | @cons peak before leaves own mountain _ _ ih =>
    obtain ⟨runs,whole,each⟩ := ih
    refine ⟨runs ++ [own],?_,?_⟩
    · rw [flatten_append,whole,flatten_singleton]
    · rw [reverse_cons]
      exact rel_append each (.cons mountain .nil)

theorem peaksBinary (sha256) (leaves) :
    (appendAll sha256 leaves).peaks.map Peak.height = leaves.length.bitIndices.reverse ∧
    ∃ runs : List (List Hash), runs.flatten = leaves ∧
      List.Forall₂ (fun peak own => own.length = 2^peak.height ∧ Mountain sha256 peak.height peak.hash own)
        (appendAll sha256 leaves).peaks runs := by
  have range := appendAllRange sha256 leaves
  constructor
  · have size : leaves.length =
        (((appendAll sha256 leaves).peaks.reverse.map Peak.height).map fun height => 2^height).sum := by
      rw [map_map]
      exact rangeSize range
    rw [size,Nat.bitIndices_sum_map_two_pow (rangeSorted range),← map_reverse,reverse_reverse]
  · obtain ⟨runs,whole,each⟩ := rangeRuns range
    rw [reverse_reverse] at each
    exact ⟨runs,whole,each.imp fun _ _ mountain => ⟨mountainSize mountain,mountain⟩⟩

structure Kept (leaves : List Hash) (store : MmrStore) : Prop where
  count : store.leafCount = BitVec.ofNat 64 leaves.length
  leaf : ∀ i (inside : i < leaves.length), store.nodes.lookup (leafIndexToPos (BitVec.ofNat 64 i)) = some leaves[i]

theorem verifyIff {root leaf proof} : verifyProof sha256 root leaf proof = true ↔
    proof.siblings.head? = some leaf ∧ bag sha256 proof.peaks = root := by
  rcases proof with ⟨leafIndex,leafCount,siblings,peaks⟩
  cases siblings with
  | nil => simp [verifyProof]
  | cons first rest =>
    cases peaks with
    | nil =>
      simp only [verifyProof,bag,reverse_nil,isEmpty_nil,if_true,ite_not,head?_cons,Option.some.injEq]
      split
      · rename_i same
        exact ⟨fun zero => ⟨same,(beq_iff_eq.mp zero).symm⟩,fun both => beq_iff_eq.mpr both.2.symm⟩
      · rename_i other
        exact ⟨fun never => absurd never Bool.false_ne_true,fun both => absurd both.1 other⟩
    | cons peak peaks => simp [verifyProof]

end MmrStore
end QuantumChain.Storage
