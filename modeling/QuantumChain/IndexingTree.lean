import QuantumChain.FixedWidth
import QuantumChain.HeapTree

/-! The Merkle tree over a block's transaction hashes.
The hash is a parameter; the parallel build is modelled by its result. -/
namespace QuantumChain.Indexing
open Option List
open List
open HeapTree

def sentinelHash : Hash := 0

def nodeDomain : UInt8 := 0x01

def parallelThreshold : Nat := 1024

inductive IndexingError where
  | transactionNotFound (txHash : Hash)
  | treeNotCached (blockHash : Hash)
  | invalidIndex (index max : Nat)
  | emptyBlock (blockHash : Hash)
  deriving DecidableEq, Repr

inductive SiblingPosition where
  | left
  | right
  deriving DecidableEq, Repr

structure ProofNode where
  hash : Hash
  position : SiblingPosition
  deriving DecidableEq, Repr

def ProofNode.turn (node : ProofNode) : Turn Hash := ⟨node.hash,node.position = .left⟩

structure MerkleProof where
  leafHash : Hash
  txIndex : Nat
  blockHeight : U64
  blockHash : Hash
  root : Hash
  path : List ProofNode
  deriving DecidableEq, Repr

structure MerkleTree where
  nodes : List Hash
  transactionCount : Nat
  paddedLeafCount : Nat
  root : Hash
  deriving DecidableEq, Repr

def hashInput (left right : Hash) : Bytes := nodeDomain::(wordBytes left ++ wordBytes right)

def hashPair (sha3 : Bytes → Hash) (left right : Hash) : Hash := sha3 (hashInput left right)

def checkedSub (a b : Nat) : Option Nat := if b ≤ a then some (a - b) else none

def paddedCount (transactionCount : Nat) : Nat :=
  if transactionCount = 1 then 2 else nextPowerOfTwo transactionCount

def resize (leaves : List Hash) (size : Nat) : List Hash :=
  leaves.take size ++ replicate (size - leaves.length) sentinelHash

namespace MerkleTree
variable (sha3 : Bytes → Hash)

def placeLeaves (leaves : List Hash) (leafStart totalNodes : Nat) : Option (List Hash) :=
  writeAll (replicate totalNodes sentinelHash) leafStart leaves

-- `for i in (0..leaf_start).rev()`
def hashNodes : Nat → List Hash → Option (List Hash)
  | 0,nodes => some nodes
  | i+1,nodes => do
    let left ← nodes[2 * i + 1]?
    let right ← nodes[2 * i + 2]?
    let nodes ← writeAll nodes i [hashPair sha3 left right]
    hashNodes i nodes

def build (transactionHashes : List Hash) : Option MerkleTree :=
  let transactionCount := transactionHashes.length
  if transactionCount = 0 then some ⟨[sentinelHash],0,0,sentinelHash⟩
  else do
    let paddedLeafCount := paddedCount transactionCount
    let leaves := resize transactionHashes paddedLeafCount
    let totalNodes ← checkedSub (2 * paddedLeafCount) 1
    let leafStart ← checkedSub paddedLeafCount 1
    let nodes ← placeLeaves leaves leafStart totalNodes
    let nodes ← hashNodes sha3 leafStart nodes
    let root ← nodes[0]?
    some ⟨nodes,transactionCount,paddedLeafCount,root⟩

def hashLevel (nodes : List Hash) (levelStart levelSize : Nat) : Option (List Hash) :=
  (range levelSize).mapM fun i => do
    let leftChild := levelStart + levelSize + 2 * i
    let rightChild := leftChild + 1
    let left ← nodes[leftChild]?
    let right ← nodes[rightChild]?
    some (hashPair sha3 left right)

-- `none` also when the loop is still running after `turns` levels
def hashLevels : (turns levelSize levelStart : Nat) → List Hash → Option (List Hash)
  | 0,_,_,_ => none
  | turns+1,levelSize,levelStart,nodes =>
    if 0 < levelSize then do
      let pairs ← hashLevel sha3 nodes levelStart levelSize
      let nodes ← writeAll nodes levelStart pairs
      if levelSize = 1 then some nodes
      else do
        let levelStart ← checkedSub levelStart (levelSize / 2)
        hashLevels turns (levelSize / 2) levelStart nodes
    else some nodes

def buildParallel (transactionHashes : List Hash) : Option MerkleTree :=
  let transactionCount := transactionHashes.length
  if transactionCount < parallelThreshold then build sha3 transactionHashes
  else if transactionCount = 0 then build sha3 transactionHashes
  else do
    let paddedLeafCount := nextPowerOfTwo transactionCount
    let leaves := resize transactionHashes paddedLeafCount
    let totalNodes ← checkedSub (2 * paddedLeafCount) 1
    let leafStart ← checkedSub paddedLeafCount 1
    let nodes ← placeLeaves leaves leafStart totalNodes
    let levelStart ← checkedSub leafStart (paddedLeafCount / 2)
    let nodes ← hashLevels sha3 paddedLeafCount (paddedLeafCount / 2) levelStart nodes
    let root ← nodes[0]?
    some ⟨nodes,transactionCount,paddedLeafCount,root⟩

-- the index falls with every turn, so it bounds the turns
def siblings (nodes : List Hash) : (turns currentIdx : Nat) → Except IndexingError (List ProofNode)
  | 0,_ => .ok []
  | turns+1,currentIdx =>
    if 0 < currentIdx then
      let siblingIdx := if currentIdx % 2 = 0 then currentIdx - 1 else currentIdx + 1
      match nodes[siblingIdx]? with
      | none => .error (.invalidIndex siblingIdx nodes.length)
      | some siblingHash => do
        let position := if currentIdx % 2 = 0 then SiblingPosition.left else SiblingPosition.right
        let rest ← siblings nodes turns ((currentIdx - 1) / 2)
        .ok (⟨siblingHash,position⟩::rest)
    else .ok []

def generateProof (tree : MerkleTree) (txIndex : Nat) (blockHeight : U64) (blockHash : Hash) :
    Except IndexingError MerkleProof :=
  if tree.transactionCount ≤ txIndex then .error (.invalidIndex txIndex tree.transactionCount)
  else if tree.paddedLeafCount = 0 then .error (.emptyBlock blockHash)
  else
    let leafStart := tree.paddedLeafCount - 1
    let currentIdx := leafStart + txIndex
    match tree.nodes[currentIdx]? with
    | none => .error (.invalidIndex txIndex tree.transactionCount)
    | some leafHash => do
      let path ← siblings tree.nodes currentIdx currentIdx
      .ok ⟨leafHash,txIndex,blockHeight,blockHash,tree.root,path⟩

def hashAlong (leafHash : Hash) (path : List ProofNode) : Hash :=
  path.foldl (fun currentHash node =>
    match node.position with
    | .left => hashPair sha3 node.hash currentHash
    | .right => hashPair sha3 currentHash node.hash) leafHash

def verifyProofStatic (leafHash : Hash) (path : List ProofNode) (expectedRoot : Hash) : Bool :=
  hashAlong sha3 leafHash path == expectedRoot

def verifyProof (tree : MerkleTree) (proof : MerkleProof) : Bool :=
  verifyProofStatic sha3 proof.leafHash proof.path tree.root

end MerkleTree

theorem paddedCountCovers (n) : n ≤ paddedCount n := by
  unfold paddedCount
  split
  · omega
  · exact nextPowerOfTwoCovers n

theorem paddedCountPower (n) : ∃ d, paddedCount n = 2^d := by
  unfold paddedCount
  split
  · exact ⟨1,rfl⟩
  · exact nextPowerOfTwoPower n

theorem paddedCountPos (n) : 0 < paddedCount n := by
  obtain ⟨d,power⟩ := paddedCountPower n
  rw [power]
  exact Nat.two_pow_pos d

def paddedLeaves (hashes : List Hash) : List Hash := resize hashes (paddedCount hashes.length)

theorem paddedLeavesEq (hashes) :
    paddedLeaves hashes = hashes ++ replicate (paddedCount hashes.length - hashes.length) sentinelHash := by
  unfold paddedLeaves resize
  rw [take_of_length_le (paddedCountCovers hashes.length)]

theorem paddedLeavesLength (hashes) : (paddedLeaves hashes).length = paddedCount hashes.length := by
  have covers := paddedCountCovers hashes.length
  rw [paddedLeavesEq,length_append,length_replicate]
  omega

namespace MerkleTree
variable {sha3 : Bytes → Hash}

structure Built (sha3 : Bytes → Hash) (hashes : List Hash) (tree : MerkleTree) : Prop where
  count : tree.transactionCount = hashes.length
  padded : tree.paddedLeafCount = if hashes.length = 0 then 0 else paddedCount hashes.length
  heap : Heap (hashPair sha3) (paddedCount hashes.length - 1) tree.nodes
  leaves : ∀ i, tree.nodes[paddedCount hashes.length - 1 + i]? = (paddedLeaves hashes)[i]?
  root : tree.nodes[0]? = some tree.root

theorem builtUnique {hashes tree other} (built : Built sha3 hashes tree) (built' : Built sha3 hashes other) :
    tree = other := by
  have nodes : tree.nodes = other.nodes := by
    refine heapUnique built.heap built'.heap fun j leaf => ?_
    obtain ⟨i,rfl⟩ := Nat.exists_eq_add_of_le leaf
    rw [built.leaves,built'.leaves]
  have root := built.root
  rw [nodes,built'.root] at root
  have count := built.count.trans built'.count.symm
  have padded := built.padded.trans built'.padded.symm
  cases tree
  cases other
  cases nodes
  cases count
  cases padded
  cases Option.some.inj root
  rfl

theorem builtEmpty : Built sha3 [] ⟨[sentinelHash],0,0,sentinelHash⟩ :=
  ⟨rfl,rfl,⟨rfl,fun _ _ below => absurd below (Nat.not_lt_zero _)⟩,fun i => by
    show [sentinelHash][0 + i]? = [sentinelHash][i]?
    rw [Nat.zero_add],rfl⟩

theorem placed (sha3) (hashes) :
    ∃ nodes, placeLeaves (paddedLeaves hashes) (paddedCount hashes.length - 1)
      (2 * paddedCount hashes.length - 1) = some nodes ∧
      JoinedFrom (hashPair sha3) (paddedCount hashes.length - 1) (paddedCount hashes.length - 1) nodes ∧
      ∀ i, nodes[paddedCount hashes.length - 1 + i]? = (paddedLeaves hashes)[i]? := by
  have positive := paddedCountPos hashes.length
  have size := paddedLeavesLength hashes
  have fits : paddedCount hashes.length - 1 + (paddedLeaves hashes).length ≤
      (replicate (2 * paddedCount hashes.length - 1) sentinelHash).length := by
    rw [length_replicate]
    omega
  obtain ⟨nodes,places,written⟩ := writeAllWritten fits
  have length := written.size
  rw [length_replicate] at length
  refine ⟨nodes,places,⟨by omega,fun i from' below => absurd below (by omega)⟩,fun i => ?_⟩
  rcases Nat.lt_or_ge i (paddedLeaves hashes).length with inside | outside
  · exact written.inside i inside
  · rw [getElem?_eq_none outside,getElem?_eq_none (by omega)]

structure Hashed (sha3 : Bytes → Hash) (inner start : Nat) (nodes out : List Hash) : Prop where
  joined : JoinedFrom (hashPair sha3) inner start out
  leaves : ∀ j, inner ≤ j → out[j]? = nodes[j]?

theorem batchHashed {inner start nodes values}
    (joined : JoinedFrom (hashPair sha3) inner (start + values.length) nodes) (below : start + values.length ≤ inner)
    (apart : values.length ≤ start + 1)
    (fresh : ∀ i < values.length, values[i]? = joinChildren (hashPair sha3) nodes (start + i)) :
    ∃ out, writeAll nodes start values = some out ∧ Hashed sha3 inner start nodes out := by
  have size := joined.size
  have fits : start + values.length ≤ nodes.length := by omega
  obtain ⟨out,writes,written⟩ := writeAllWritten fits
  exact ⟨out,writes,joinedWrite joined apart written fresh,fun j leaf => written.behind j (by omega)⟩

theorem hashNodesHashed {inner start nodes} (joined : JoinedFrom (hashPair sha3) inner start nodes)
    (below : start ≤ inner) : ∃ out, hashNodes sha3 start nodes = some out ∧ Hashed sha3 inner 0 nodes out := by
  induction start generalizing nodes with
  | zero => exact ⟨nodes,rfl,joined,fun _ _ => rfl⟩
  | succ i ih =>
    obtain ⟨left,right,atLeft,atRight,joins⟩ := childrenOf (hashPair sha3) joined.size (show i < inner by omega)
    have fresh : ∀ j < [hashPair sha3 left right].length,
        [hashPair sha3 left right][j]? = joinChildren (hashPair sha3) nodes (i + j) := by
      intro j single
      cases Nat.lt_one_iff.mp single
      exact joins.symm
    obtain ⟨next,writes,hashed⟩ := batchHashed joined below (by simp) fresh
    obtain ⟨out,rest,done⟩ := ih hashed.joined (by omega)
    refine ⟨out,?_,done.joined,fun j leaf => (done.leaves j leaf).trans (hashed.leaves j leaf)⟩
    simp only [hashNodes,atLeft,atRight,writes,bind_eq_bind,bind_some]
    exact rest

theorem hashLevelFresh (sha3) {inner size nodes} (length : nodes.length = 2 * inner + 1) (below : size + (size + 1) ≤ inner) :
    ∃ pairs, hashLevel sha3 nodes size (size + 1) = some pairs ∧ pairs.length = size + 1 ∧
      ∀ i < size + 1, pairs[i]? = joinChildren (hashPair sha3) nodes (size + i) := by
  -- the row of `size + 1` entries starts at `size`, so its children start right behind it
  have reads : ∀ i < size + 1, (do
      let left ← nodes[size + (size + 1) + 2 * i]?
      let right ← nodes[size + (size + 1) + 2 * i + 1]?
      some (hashPair sha3 left right)) = joinChildren (hashPair sha3) nodes (size + i) := by
    intro i _
    unfold joinChildren
    rw [show size + (size + 1) + 2 * i = 2 * (size + i) + 1 by omega]
  have total : ∀ i ∈ range (size + 1), ∃ hash, (do
      let left ← nodes[size + (size + 1) + 2 * i]?
      let right ← nodes[size + (size + 1) + 2 * i + 1]?
      some (hashPair sha3 left right)) = some hash := by
    intro i mem
    have inside := mem_range.mp mem
    obtain ⟨left,right,_,_,joins⟩ := childrenOf (hashPair sha3) length (show size + i < inner by omega)
    exact ⟨_,(reads i inside).trans joins⟩
  obtain ⟨pairs,collects,count,each⟩ := collectSome total
  rw [length_range] at count
  refine ⟨pairs,collects,count,fun i inside => ?_⟩
  rw [each i (by rwa [length_range]),getElem_range,reads i inside]

theorem levelHashed {inner size nodes} (joined : JoinedFrom (hashPair sha3) inner (size + (size + 1)) nodes)
    (below : size + (size + 1) ≤ inner) : ∃ pairs out, hashLevel sha3 nodes size (size + 1) = some pairs ∧
      writeAll nodes size pairs = some out ∧ Hashed sha3 inner size nodes out := by
  obtain ⟨pairs,hashes,count,fresh⟩ := hashLevelFresh sha3 joined.size below
  rw [← count] at joined below fresh
  obtain ⟨out,writes,hashed⟩ := batchHashed joined below (by omega) fresh
  exact ⟨pairs,out,hashes,writes,hashed⟩

theorem hashLevelsHashed {d inner turns nodes} (enough : d < turns)
    (joined : JoinedFrom (hashPair sha3) inner (2^(d + 1) - 1) nodes) (below : 2^(d + 1) - 1 ≤ inner) :
    ∃ out, hashLevels sha3 turns (2^d) (2^d - 1) nodes = some out ∧ Hashed sha3 inner 0 nodes out := by
  induction d generalizing turns nodes with
  | zero =>
    obtain ⟨turns,rfl⟩ := Nat.exists_eq_succ_of_ne_zero (Nat.ne_of_gt enough)
    have joinedRow : JoinedFrom (hashPair sha3) inner (0 + (0 + 1)) nodes := joined
    obtain ⟨pairs,out,hashes,writes,hashed⟩ := levelHashed joinedRow below
    refine ⟨out,?_,hashed⟩
    show (do
      let pairs ← hashLevel sha3 nodes 0 (0 + 1)
      let nodes ← writeAll nodes 0 pairs
      some nodes) = some out
    simp only [hashes,writes,bind_eq_bind,bind_some]
  | succ d ih =>
    obtain ⟨turns,rfl⟩ := Nat.exists_eq_succ_of_ne_zero (show turns ≠ 0 by omega)
    have positive := Nat.two_pow_pos d
    obtain ⟨size,row⟩ : ∃ size, 2^(d + 1) = size + 1 := ⟨2^(d + 1) - 1,by rw [Nat.pow_succ]; omega⟩
    rw [Nat.pow_succ,row] at joined below
    rw [show (size + 1) * 2 - 1 = size + (size + 1) by omega] at joined below
    obtain ⟨pairs,next,hashes,writes,hashed⟩ := levelHashed joined below
    have half : (size + 1) / 2 = 2^d := by
      rw [← row,Nat.pow_succ]
      omega
    have start : size = 2^(d + 1) - 1 := by omega
    have left : d < turns := by omega
    obtain ⟨out,rest,done⟩ := ih left (start ▸ hashed.joined) (by omega)
    refine ⟨out,?_,done.joined,fun j leaf => (done.leaves j leaf).trans (hashed.leaves j leaf)⟩
    have several : ¬ size + 1 = 1 := by
      rw [← row,Nat.pow_succ]
      omega
    have down : checkedSub size (2^d) = some (2^d - 1) := by
      rw [Nat.pow_succ] at row
      rw [checkedSub,if_pos (by omega)]
      congr 1
      omega
    rw [row,Nat.add_sub_cancel]
    simp only [hashLevels,Nat.succ_pos,if_true,hashes,writes,several,if_false,half,down,bind_eq_bind,bind_some]
    exact rest

theorem finished {hashes nodes out} (occupied : hashes.length ≠ 0)
    (leaves : ∀ i, nodes[paddedCount hashes.length - 1 + i]? = (paddedLeaves hashes)[i]?)
    (hashed : Hashed sha3 (paddedCount hashes.length - 1) 0 nodes out) :
    ∃ root, out[0]? = some root ∧ Built sha3 hashes ⟨out,hashes.length,paddedCount hashes.length,root⟩ := by
  have size := hashed.joined.size
  have top := getElem?_eq_getElem (l := out) (i := 0) (by omega)
  refine ⟨_,top,rfl,(if_neg occupied).symm,hashed.joined,fun i => ?_,top⟩
  rw [hashed.leaves _ (Nat.le_add_right _ _),leaves]

theorem checkedSubSome {a b} (fits : b ≤ a) : checkedSub a b = some (a - b) := if_pos fits

theorem buildBuilt (sha3) (hashes) : ∃ tree, build sha3 hashes = some tree ∧ Built sha3 hashes tree := by
  by_cases none : hashes.length = 0
  · cases length_eq_zero_iff.mp none
    exact ⟨_,rfl,builtEmpty⟩
  have positive := paddedCountPos hashes.length
  obtain ⟨nodes,places,joined,leaves⟩ := placed sha3 hashes
  obtain ⟨out,ran,hashed⟩ := hashNodesHashed joined (Nat.le_refl _)
  obtain ⟨root,top,built⟩ := finished none leaves hashed
  refine ⟨_,?_,built⟩
  unfold paddedLeaves at places
  simp only [build,none,if_false,checkedSubSome (show 1 ≤ 2 * paddedCount hashes.length by omega),checkedSubSome positive,
    places,ran,top,bind_eq_bind,bind_some]

theorem buildParallelBuilt (sha3) (hashes) :
    ∃ tree, buildParallel sha3 hashes = some tree ∧ Built sha3 hashes tree := by
  by_cases few : hashes.length < parallelThreshold
  · obtain ⟨tree,builds,built⟩ := buildBuilt sha3 hashes
    exact ⟨tree,by rw [buildParallel,if_pos few,builds],built⟩
  have many : 1024 ≤ hashes.length := by
    unfold parallelThreshold at few
    omega
  have occupied : hashes.length ≠ 0 := by omega
  have width : paddedCount hashes.length = nextPowerOfTwo hashes.length := if_neg (by omega)
  obtain ⟨nodes,places,joined,leaves⟩ := placed sha3 hashes
  have covers := paddedCountCovers hashes.length
  obtain ⟨d,power⟩ := paddedCountPower hashes.length
  -- a row of at least 1024 leaves has a row above it
  obtain ⟨e,rfl⟩ : ∃ e, d = e + 1 := Nat.exists_eq_succ_of_ne_zero fun zero => by
    subst d
    omega
  have half : paddedCount hashes.length / 2 = 2^e := by
    rw [power,Nat.pow_succ]
    omega
  have turns : e < paddedCount hashes.length := by
    have := Nat.lt_two_pow_self (n := e)
    omega
  have joinedRow : JoinedFrom (hashPair sha3) (paddedCount hashes.length - 1) (2^(e + 1) - 1) nodes := by rwa [← power]
  obtain ⟨out,ran,hashed⟩ := hashLevelsHashed turns joinedRow (by rw [power])
  obtain ⟨root,top,built⟩ := finished occupied leaves hashed
  refine ⟨_,?_,built⟩
  unfold paddedLeaves at places
  have above : checkedSub (paddedCount hashes.length - 1) (2^e) = some (2^e - 1) := by
    rw [checkedSubSome (by omega)]
    congr 1
    omega
  simp only [buildParallel,few,occupied,if_false,← width,half,above,
    checkedSubSome (show 1 ≤ 2 * paddedCount hashes.length by omega),
    checkedSubSome (show 1 ≤ paddedCount hashes.length by omega),places,ran,top,bind_eq_bind,bind_some]

theorem buildParallelSame (sha3 : Bytes → Hash) (hashes : List Hash) :
    ∃ tree, build sha3 hashes = some tree ∧ buildParallel sha3 hashes = some tree := by
  obtain ⟨tree,builds,built⟩ := buildBuilt sha3 hashes
  obtain ⟨other,buildsParallel,built'⟩ := buildParallelBuilt sha3 hashes
  cases builtUnique built built'
  exact ⟨tree,builds,buildsParallel⟩

theorem siblingsPath {inner turns currentIdx nodes} (size : nodes.length = 2 * inner + 1)
    (bound : currentIdx < nodes.length) (enough : currentIdx ≤ turns) :
    ∃ path, siblings nodes turns currentIdx = .ok path ∧ Path nodes currentIdx (path.map ProofNode.turn) := by
  induction turns generalizing currentIdx with
  | zero =>
    cases Nat.le_zero.mp enough
    exact ⟨[],rfl,.root⟩
  | succ turns ih =>
    rcases Nat.eq_zero_or_pos currentIdx with rfl | inside
    · exact ⟨[],rfl,.root⟩
    have up := parentBelow inside
    have inBounds : parent currentIdx < nodes.length := by omega
    obtain ⟨rest,climbs,above⟩ := ih inBounds (by omega)
    have besideBound := siblingBound size inside bound
    have beside := getElem?_eq_getElem besideBound
    generalize nodes[sibling currentIdx] = other at beside
    have side : ProofNode.turn ⟨other,if currentIdx % 2 = 0 then .left else .right⟩ =
      ⟨other,decide (currentIdx % 2 = 0)⟩ := by
      unfold ProofNode.turn
      split <;> simp_all
    refine ⟨⟨other,if currentIdx % 2 = 0 then .left else .right⟩::rest,?_,?_⟩
    · unfold sibling at beside
      unfold parent at climbs
      simp only [siblings,inside,if_true,beside,climbs]
      rfl
    · rw [map_cons,side]
      exact .up inside beside above

theorem hashAlongRebuilds (leafHash) (path) :
    hashAlong sha3 leafHash path = rebuild (hashPair sha3) leafHash (path.map ProofNode.turn) := by
  unfold hashAlong rebuild
  rw [foldl_map]
  congr 1
  funext currentHash node
  rcases node with ⟨hash,position⟩
  cases position <;> rfl

theorem Built.leaf {hashes tree} (built : Built sha3 hashes tree) {i} (inside : i < hashes.length) :
    tree.nodes[tree.paddedLeafCount - 1 + i]? = hashes[i]? := by
  have padded := built.padded
  rw [if_neg (by omega)] at padded
  rw [padded,built.leaves,paddedLeavesEq,getElem?_append_left inside]

theorem generateProofOk {hashes tree} (built : Built sha3 hashes tree) {i}
    (inside : i < hashes.length) (blockHeight) (blockHash) :
    ∃ path, tree.generateProof i blockHeight blockHash = .ok ⟨hashes[i],i,blockHeight,blockHash,tree.root,path⟩ ∧
      2^path.length = tree.paddedLeafCount ∧ hashAlong sha3 hashes[i] path = tree.root ∧
      place (path.map ProofNode.turn) = tree.paddedLeafCount - 1 + i := by
  have padded := built.padded
  rw [if_neg (by omega)] at padded
  have size := built.heap.size
  have covers := paddedCountCovers hashes.length
  obtain ⟨d,power⟩ := paddedCountPower hashes.length
  have positive := Nat.two_pow_pos d
  have leaf := built.leaf inside
  rw [getElem?_eq_getElem inside] at leaf
  obtain ⟨path,climbs,above⟩ := siblingsPath size (show tree.paddedLeafCount - 1 + i < tree.nodes.length by omega)
    (Nat.le_refl _)
  refine ⟨path,?_,?_,?_,pathPlace above⟩
  · have known : ¬ tree.transactionCount ≤ i := by
      rw [built.count]
      omega
    have occupied : ¬ tree.paddedLeafCount = 0 := by omega
    simp only [generateProof,known,occupied,if_false,leaf,climbs]
    rfl
  · have levels : path.length = Nat.log2 (tree.paddedLeafCount - 1 + i + 1) := by
      simpa only [length_map] using pathLength above
    have row : tree.paddedLeafCount - 1 + i + 1 = 2^d + i := by omega
    have depth : Nat.log2 (2^d + i) = d := by
      refine (Nat.log2_eq_iff (by omega)).mpr ⟨by omega,?_⟩
      rw [Nat.pow_succ]
      omega
    rw [levels,row,depth,padded,power]
  · have rebuilt := pathRebuilds built.heap above leaf
    rw [built.root,← hashAlongRebuilds] at rebuilt
    exact (Option.some.inj rebuilt).symm

theorem generateProofRefused {hashes tree} (built : Built sha3 hashes tree) {i}
    (outside : hashes.length ≤ i) (blockHeight) (blockHash) :
    tree.generateProof i blockHeight blockHash = .error (.invalidIndex i hashes.length) := by
  rw [← built.count] at outside ⊢
  exact if_pos outside

theorem proofsComplete (sha3 : Bytes → Hash) (hashes : List Hash) (blockHeight : U64) (blockHash : Hash) :
    ∃ tree, build sha3 hashes = some tree ∧
      (∀ i (inside : i < hashes.length), ∃ proof, tree.generateProof i blockHeight blockHash = .ok proof ∧
        proof.leafHash = hashes[i] ∧ 2^proof.path.length = tree.paddedLeafCount ∧ tree.verifyProof sha3 proof = true ∧
        verifyProofStatic sha3 proof.leafHash proof.path tree.root = true) ∧
      ∀ i, hashes.length ≤ i → tree.generateProof i blockHeight blockHash = .error (.invalidIndex i hashes.length) := by
  obtain ⟨tree,builds,built⟩ := buildBuilt sha3 hashes
  refine ⟨tree,builds,fun i inside => ?_,fun i outside => generateProofRefused built outside blockHeight blockHash⟩
  obtain ⟨path,generates,levels,rebuilt,_⟩ := generateProofOk built inside blockHeight blockHash
  have accepted : verifyProofStatic sha3 hashes[i] path tree.root = true := beq_iff_eq.mpr rebuilt
  exact ⟨_,generates,rfl,levels,accepted,accepted⟩

end MerkleTree
end QuantumChain.Indexing
