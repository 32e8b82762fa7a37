import Mathlib.Data.List.Destutter
import Mathlib.Data.List.Sort
import QuantumChain.IndexingTree
import QuantumChain.LevelTree

/-! What a verified proof and a root say about a block. The hash stays a parameter, and each result names the pairs on
which it must not collide. A root stands for the padded leaves and for every row above them, so neither a path nor a
root alone fixes how many transactions there are; a multi proof's siblings are read by no check at all. -/
namespace QuantumChain.Indexing
open Option LevelTree
open List
open HeapTree
open LevelTree (climb joined Alike OnTree depth up row)

def NoCollision (hash : Bytes → Hash) (inputs : List Bytes) : Prop :=
  ∀ a ∈ inputs, ∀ b ∈ inputs, hash a = hash b → a = b

instance (hash : Bytes → Hash) (inputs : List Bytes) : Decidable (NoCollision hash inputs) :=
  inferInstanceAs (Decidable (∀ a ∈ inputs, ∀ b ∈ inputs, hash a = hash b → a = b))

def pairInputs (pairs : List (Hash × Hash)) : List Bytes := pairs.map fun pair => hashInput pair.1 pair.2

theorem hashInputInj {a b c d} (same : hashInput a b = hashInput c d) : a = c ∧ b = d := by
  obtain ⟨left,rest⟩ := wordFirst (by decide) (List.cons.inj same).2
  exact ⟨left,wordBytesInj (by decide) rest⟩

theorem inputsApart {hash} {input : Hash → Hash → Bytes}
    (injective : ∀ {a b c d}, input a b = input c d → a = c ∧ b = d) {pairs}
    (distinct : NoCollision hash (pairs.map fun pair => input pair.1 pair.2)) :
      Apart (fun a b => hash (input a b)) pairs := by
  intro p memP q memQ same
  have inputs := distinct _ (mem_map_of_mem memP) _ (mem_map_of_mem memQ) same
  obtain ⟨left,right⟩ := injective inputs
  exact Prod.ext left right

theorem noCollisionApart {sha3 pairs} (distinct : NoCollision sha3 (pairInputs pairs)) : Apart (hashPair sha3) pairs :=
  inputsApart hashInputInj distinct

namespace MerkleTree
variable {sha3 : Bytes → Hash}

def pairs (tree : MerkleTree) : List (Hash × Hash) := childPairs tree.nodes (tree.paddedLeafCount - 1)

theorem Built.inner {hashes tree} (built : Built sha3 hashes tree) :
    tree.paddedLeafCount - 1 = paddedCount hashes.length - 1 := by
  have padded := built.padded
  split at padded
  · rename_i none
    rw [padded,none]
    rfl
  · rw [padded]

theorem Built.heapPadded {hashes tree} (built : Built sha3 hashes tree) :
    Heap (hashPair sha3) (tree.paddedLeafCount - 1) tree.nodes := built.inner ▸ built.heap

def pathIndex : List ProofNode → Nat
  | [] => 0
  | node::rest => 2 * pathIndex rest + if node.position = .left then 1 else 0

structure Spelled (tree : MerkleTree) (proof : MerkleProof) : Prop where
  levels : 2^proof.path.length = tree.paddedLeafCount
  index : pathIndex proof.path = proof.txIndex
  known : proof.txIndex < tree.transactionCount

def pathPairs (sha3 : Bytes → Hash) (leafHash : Hash) (path : List ProofNode) : List (Hash × Hash) :=
  HeapTree.pathPairs (hashPair sha3) leafHash (path.map ProofNode.turn)

theorem placeIndex (path) : place (path.map ProofNode.turn) + 1 = 2^path.length + pathIndex path := by
  induction path with
  | nil => rfl
  | cons node rest ih =>
    rcases node with ⟨hash,position⟩
    cases position <;> simp only [map_cons,place,ProofNode.turn,pathIndex,length_cons,Nat.pow_succ,decide_true,
      decide_false,reduceCtorEq,if_true,if_false,Bool.false_eq_true] <;> omega

theorem spelledSound {hashes tree proof} (built : Built sha3 hashes tree) (spelled : Spelled tree proof)
    (distinct : NoCollision sha3 (pairInputs (tree.pairs ++ pathPairs sha3 proof.leafHash proof.path)))
    (accepted : tree.verifyProof sha3 proof = true) : hashes[proof.txIndex]? = some proof.leafHash := by
  have known := spelled.known
  have levels := spelled.levels
  have size := built.heapPadded.size
  have index := placeIndex proof.path
  rw [built.count] at known
  rw [spelled.index,levels] at index
  have padded := built.padded
  rw [if_neg (by omega)] at padded
  have covers := paddedCountCovers hashes.length
  have rebuilt : tree.nodes[0]? = some (rebuild (hashPair sha3) proof.leafHash (proof.path.map ProofNode.turn)) := by
    rw [← hashAlongRebuilds,beq_iff_eq.mp accepted,built.root]
  have opened := pathOpens built.heapPadded (noCollisionApart distinct) (by omega) rebuilt
  rw [show place (proof.path.map ProofNode.turn) = tree.paddedLeafCount - 1 + proof.txIndex by omega,built.leaf known]
    at opened
  exact opened

theorem generatedSpelled {hashes tree} (built : Built sha3 hashes tree) {i blockHeight blockHash proof}
    (generates : tree.generateProof i blockHeight blockHash = .ok proof) :
    Spelled tree proof := by
  rcases Nat.lt_or_ge i hashes.length with inside | outside
  · obtain ⟨path,generated,levels,_,placed⟩ := generateProofOk built inside blockHeight blockHash
    cases generated.symm.trans generates
    have index := placeIndex path
    have positive := Nat.two_pow_pos path.length
    exact ⟨levels,by show pathIndex path = i; omega,built.count ▸ inside⟩
  · cases (generateProofRefused built outside blockHeight blockHash).symm.trans generates

theorem Built.rows {hashes tree} (built : Built sha3 hashes tree) : ∃ d, (paddedLeaves hashes).length = 2^d ∧
    climb (hashPair sha3) (paddedLeaves hashes).length (paddedLeaves hashes) = [tree.root] ∧
      joined (hashPair sha3) (paddedLeaves hashes).length (paddedLeaves hashes) ⊆ tree.pairs := by
  obtain ⟨d,power⟩ := paddedCountPower hashes.length
  have heap := built.heap
  have width := (paddedLeavesLength hashes).trans power
  have leaves : row tree.nodes d = paddedLeaves hashes := by
    refine ext_getElem? fun i => ?_
    rw [rowGet,← power,built.leaves]
    split
    · rfl
    · exact (List.getElem?_eq_none (by rw [paddedLeavesLength]; omega)).symm
  have top : row tree.nodes 0 = [tree.root] := by
    refine ext_getElem? fun i => ?_
    rw [rowGet]
    cases i with
    | zero => exact built.root
    | succ i => rfl
  rw [power] at heap
  obtain ⟨climbs,children⟩ := rowsClimb heap (Nat.le_refl d)
  rw [leaves,top] at climbs
  rw [leaves,← power,← built.inner] at children
  exact ⟨d,width,climbs,children⟩

theorem acceptedIff {hashes tree proof} (built : Built sha3 hashes tree)
    (distinct : NoCollision sha3 (pairInputs (tree.pairs ++ pathPairs sha3 proof.leafHash proof.path))) :
    tree.verifyProof sha3 proof = true ↔
      OnTree (hashPair sha3) (paddedLeaves hashes) proof.leafHash (proof.path.map ProofNode.turn) := by
  obtain ⟨_,_,top,children⟩ := built.rows
  have apart := (noCollisionApart distinct).sub (append_subset.mpr
    ⟨List.Subset.trans children (subset_append_left _ _),subset_append_right _ _⟩)
  rw [← onTreeIff top apart,← hashAlongRebuilds]
  exact beq_iff_eq

theorem proofsSound (sha3 : Bytes → Hash) (hashes : List Hash) : ∃ tree, build sha3 hashes = some tree ∧
      (∀ proof : MerkleProof, NoCollision sha3 (pairInputs (tree.pairs ++ pathPairs sha3 proof.leafHash proof.path)) →
        (tree.verifyProof sha3 proof = true ↔
          OnTree (hashPair sha3) (paddedLeaves hashes) proof.leafHash (proof.path.map ProofNode.turn)) ∧
        (Spelled tree proof → tree.verifyProof sha3 proof = true → hashes[proof.txIndex]? = some proof.leafHash)) ∧
      ∀ i blockHeight blockHash proof, tree.generateProof i blockHeight blockHash = .ok proof → Spelled tree proof := by
  obtain ⟨tree,builds,built⟩ := buildBuilt sha3 hashes
  exact ⟨tree,builds,fun proof distinct => ⟨acceptedIff built distinct,fun spelled => spelledSound built spelled distinct⟩,
    fun _ _ _ _ generates => generatedSpelled built generates⟩

def threeLeaves : List Hash := [5,6,7]

theorem proofsSoundFirst : ∃ tree, build residue threeLeaves = some tree ∧ ∃ proof, tree.generateProof 0 1 9 = .ok proof ∧
    NoCollision residue (pairInputs (tree.pairs ++ pathPairs residue proof.leafHash proof.path)) ∧
    tree.verifyProof residue proof = true ∧ threeLeaves[proof.txIndex]? = some proof.leafHash := by
  obtain ⟨tree,builds,sound,spelled⟩ := proofsSound residue threeLeaves
  have evaluated : (build residue threeLeaves).any (fun tree => (tree.generateProof 0 1 9).toOption.any fun proof =>
      decide (NoCollision residue (pairInputs (tree.pairs ++ pathPairs residue proof.leafHash proof.path))) &&
      tree.verifyProof residue proof) = true := by decide +kernel
  rw [builds,any_some] at evaluated
  cases generates : tree.generateProof 0 1 9 with
  | error e =>
    rw [generates] at evaluated
    exact absurd evaluated Bool.false_ne_true
  | ok proof =>
    rw [generates,Except.toOption,any_some,Bool.and_eq_true,decide_eq_true_eq] at evaluated
    exact ⟨tree,builds,proof,generates,evaluated.1,evaluated.2,
      (sound proof evaluated.1).2 (spelled 0 1 9 proof generates) evaluated.2⟩

-- the root as a transaction, the padding as a fourth one, the first transaction in the second place
def internalNode (tree : MerkleTree) : MerkleProof := ⟨tree.root,0,1,9,tree.root,[]⟩

def paddingLeaf : MerkleProof := ⟨sentinelHash,3,1,9,0,[⟨7,.left⟩,⟨hashPair residue 5 6,.left⟩]⟩

def wrongPlace : MerkleProof := ⟨5,1,1,9,0,[⟨6,.right⟩,⟨hashPair residue 7 sentinelHash,.right⟩]⟩

theorem unspelledAccepted : ∃ tree, build residue threeLeaves = some tree ∧
    ∀ proof ∈ [internalNode tree,paddingLeaf,wrongPlace],
      NoCollision residue (pairInputs (tree.pairs ++ pathPairs residue proof.leafHash proof.path)) ∧
      tree.verifyProof residue proof = true ∧ threeLeaves[proof.txIndex]? ≠ some proof.leafHash := by
  obtain ⟨tree,builds,_⟩ := buildBuilt residue threeLeaves
  have evaluated : (build residue threeLeaves).any (fun tree => decide (∀ proof ∈ [internalNode tree,paddingLeaf,wrongPlace],
      NoCollision residue (pairInputs (tree.pairs ++ pathPairs residue proof.leafHash proof.path)) ∧
      tree.verifyProof residue proof = true ∧ threeLeaves[proof.txIndex]? ≠ some proof.leafHash)) = true := by decide +kernel
  rw [builds,any_some,decide_eq_true_eq] at evaluated
  exact ⟨tree,builds,evaluated⟩

theorem paddedLeavesInj {xs ys} (noneX : sentinelHash ∉ xs) (noneY : sentinelHash ∉ ys)
    (same : paddedLeaves xs = paddedLeaves ys) : xs = ys := by
  have stripped : ∀ zs, sentinelHash ∉ zs → (paddedLeaves zs).filter (· ≠ sentinelHash) = zs := by
    intro zs none
    rw [paddedLeavesEq,filter_append,filter_eq_self.mpr]
    · simp
    · intro hash mem
      exact decide_eq_true fun zero => none (zero ▸ mem)
  rw [← stripped xs noneX,same,stripped ys noneY]

-- the levels that the padded leaves stand over
def height (hashes : List Hash) : Nat := depth (paddedLeaves hashes)

theorem rootsEqual {xs ys treeX treeY} (builtX : Built sha3 xs treeX) (builtY : Built sha3 ys treeY)
    (distinct : NoCollision sha3 (pairInputs (treeX.pairs ++ treeY.pairs))) : treeX.root = treeY.root ↔
      up (hashPair sha3) (height xs - height ys) (paddedLeaves xs) =
        up (hashPair sha3) (height ys - height xs) (paddedLeaves ys) := by
  obtain ⟨dx,sizeX,topX,childrenX⟩ := builtX.rows
  obtain ⟨dy,sizeY,topY,childrenY⟩ := builtY.rows
  have apart := (noCollisionApart distinct).sub (append_subset.mpr
    ⟨List.Subset.trans childrenX (subset_append_left _ _),List.Subset.trans childrenY (subset_append_right _ _)⟩)
  have alike := climbAlike apart
  rw [topX,topY,singleton_inj] at alike
  rw [alike,alikeWhole sizeX sizeY,height,height,depthWhole sizeX,depthWhole sizeY]

theorem paddedCountSame {x y} (same : (if x = 0 then 0 else paddedCount x) = if y = 0 then 0 else paddedCount y) :
    paddedCount x = paddedCount y := by
  have someX := paddedCountPos x
  have someY := paddedCountPos y
  split at same <;> split at same
  · simp_all
  all_goals omega

theorem equalWidthIdentifies {xs ys treeX treeY} (builtX : Built sha3 xs treeX) (builtY : Built sha3 ys treeY)
    (distinct : NoCollision sha3 (pairInputs (treeX.pairs ++ treeY.pairs)))
    (width : treeX.paddedLeafCount = treeY.paddedLeafCount) (root : treeX.root = treeY.root) :
    paddedLeaves xs = paddedLeaves ys := by
  have same := (rootsEqual builtX builtY distinct).mp root
  rw [builtX.padded,builtY.padded] at width
  have level : height xs = height ys := by
    rw [height,height,depth,depth,paddedLeavesLength,paddedLeavesLength,paddedCountSame width]
  rwa [level,Nat.sub_self] at same

theorem rootIdentifies (sha3 : Bytes → Hash) (xs ys : List Hash) :
    ∃ treeX treeY, build sha3 xs = some treeX ∧ build sha3 ys = some treeY ∧
      (NoCollision sha3 (pairInputs (treeX.pairs ++ treeY.pairs)) →
        (treeX.root = treeY.root ↔ up (hashPair sha3) (height xs - height ys) (paddedLeaves xs) =
          up (hashPair sha3) (height ys - height xs) (paddedLeaves ys)) ∧
        (treeX.paddedLeafCount = treeY.paddedLeafCount → sentinelHash ∉ xs → sentinelHash ∉ ys →
          treeX.root = treeY.root → xs = ys)) := by
  obtain ⟨treeX,buildsX,builtX⟩ := buildBuilt sha3 xs
  obtain ⟨treeY,buildsY,builtY⟩ := buildBuilt sha3 ys
  refine ⟨treeX,treeY,buildsX,buildsY,fun distinct => ⟨rootsEqual builtX builtY distinct,?_⟩⟩
  intro width noneX noneY root
  exact paddedLeavesInj noneX noneY (equalWidthIdentifies builtX builtY distinct width root)

def pairOfPairs : List Hash := [hashPair residue 5 6,hashPair residue 7 8]

theorem rootIdentifiesThree : ∃ treeX treeY treeZ, build residue threeLeaves = some treeX ∧
    build residue [5,6,8] = some treeY ∧ build residue [5] = some treeZ ∧
    NoCollision residue (pairInputs (treeX.pairs ++ treeY.pairs)) ∧ treeX.root ≠ treeY.root ∧
    NoCollision residue (pairInputs (treeZ.pairs ++ treeX.pairs)) ∧ treeZ.root ≠ treeX.root := by
  obtain ⟨treeX,treeY,buildsX,buildsY,identifies⟩ := rootIdentifies residue threeLeaves [5,6,8]
  obtain ⟨treeZ,_,buildsZ,again,across⟩ := rootIdentifies residue [5] threeLeaves
  cases buildsX.symm.trans again
  have evaluated : (build residue threeLeaves).any (fun treeX => (build residue [5,6,8]).any fun treeY =>
      (build residue [5]).any fun treeZ => decide (NoCollision residue (pairInputs (treeX.pairs ++ treeY.pairs)) ∧
        treeX.paddedLeafCount = treeY.paddedLeafCount ∧
        NoCollision residue (pairInputs (treeZ.pairs ++ treeX.pairs)))) = true := by decide +kernel
  rw [buildsX,buildsY,buildsZ,any_some,any_some,any_some,decide_eq_true_eq] at evaluated
  obtain ⟨distinct,width,distinctZ⟩ := evaluated
  have different : threeLeaves ≠ [5,6,8] := by decide
  refine ⟨treeX,treeY,treeZ,buildsX,buildsY,buildsZ,distinct,?_,distinctZ,?_⟩
  · exact fun root => different ((identifies distinct).2 width (by decide) (by decide) root)
  · exact fun root => absurd ((across distinctZ).1.mp root) (by decide +kernel)

def SharesRoot (xs ys : List Hash) : Prop :=
  xs ≠ ys ∧ ∃ treeX treeY, build residue xs = some treeX ∧ build residue ys = some treeY ∧
    NoCollision residue (pairInputs (treeX.pairs ++ treeY.pairs)) ∧ treeX.root = treeY.root

theorem sharesRoot {xs ys : List Hash} (different : xs ≠ ys)
    (evaluated : (build residue xs).any (fun treeX => (build residue ys).any fun treeY =>
      decide (NoCollision residue (pairInputs (treeX.pairs ++ treeY.pairs)) ∧ treeX.root = treeY.root)) = true) :
    SharesRoot xs ys := by
  obtain ⟨treeX,buildsX,_⟩ := buildBuilt residue xs
  obtain ⟨treeY,buildsY,_⟩ := buildBuilt residue ys
  rw [buildsX,buildsY,any_some,any_some,decide_eq_true_eq] at evaluated
  exact ⟨different,treeX,treeY,buildsX,buildsY,evaluated⟩

-- a trailing zero hash is read as padding, and a row of inner nodes as a row of transactions
theorem rootShared : SharesRoot [7] [7,sentinelHash] ∧ SharesRoot pairOfPairs [5,6,7,8] :=
  ⟨sharesRoot (by decide) (by decide +kernel),sharesRoot (by decide) (by decide +kernel)⟩

end MerkleTree

structure MultiProof where
  leafIndices : List Nat
  leafHashes : List Hash
  siblings : List (Nat × Nat × Hash)
  root : Hash
  blockHeight : U64
  blockHash : Hash
  deriving DecidableEq, Repr

def MultiProof.verify (proof : MultiProof) : Bool :=
  if proof.leafIndices.isEmpty || proof.leafHashes.isEmpty then false
  else if proof.leafIndices.length ≠ proof.leafHashes.length then false
  else !(wordBytes proof.root).all (· == 0)

namespace MerkleTree
variable {sha3 : Bytes → Hash}

theorem allZeroBytes (hash : Hash) : (wordBytes hash).all (· == 0) = true ↔ hash = sentinelHash := by
  constructor
  · intro zeros
    have zeroBytes : ∀ b ∈ wordBytes hash, b = 0 := fun b mem => beq_iff_eq.mp (all_eq_true.mp zeros b mem)
    have same : wordBytes hash = wordBytes sentinelHash := by
      rw [eq_replicate_of_mem zeroBytes,wordBytesLength]
      decide +kernel
    exact wordBytesInj (by decide) same
  · rintro rfl
    decide +kernel

theorem verifyIff (proof : MultiProof) : proof.verify = true ↔
    proof.leafIndices ≠ [] ∧ proof.leafIndices.length = proof.leafHashes.length ∧ proof.root ≠ sentinelHash := by
  rcases proof with ⟨indices,hashes,siblings,root,height,blockHash⟩
  have zeros := allZeroBytes root
  cases indices <;> cases hashes <;> simp [MultiProof.verify,← zeros]

end MerkleTree
end QuantumChain.Indexing
