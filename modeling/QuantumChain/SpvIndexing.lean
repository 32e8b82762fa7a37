import QuantumChain.SpvProofs

/-! Index proofs read by the light client.
Both hashes are parameters; where they must agree is stated. -/
namespace QuantumChain.LightClient
open HeapTree (MeetOn rebuild)
open Indexing (MerkleTree hashPair paddedCount)

def carried (path : List Indexing.ProofNode) : List ProofNode :=
  path.map fun node => ⟨node.hash,match node.position with
    | .left => .left
    | .right => .right⟩

theorem carriedTurns (path) :
    (carried path).map ProofNode.turn = path.map Indexing.ProofNode.turn := by
  unfold carried
  rw [List.map_map]
  refine List.map_congr_left fun node _ => ?_
  obtain ⟨hash,position⟩ := node
  cases position <;> rfl

def JoinsAgree (sha256 sha3 : Bytes → Hash) (leafHash : Hash) (path : List Indexing.ProofNode) : Prop :=
  ∀ pair ∈ MerkleTree.pathPairs sha3 leafHash path, hashConcat sha256 pair.1 pair.2 = hashPair sha3 pair.1 pair.2

def JoinsMeet (sha256 sha3 : Bytes → Hash) (leafHash : Hash) (path : List Indexing.ProofNode) : Prop :=
  MeetOn (hashConcat sha256) (hashPair sha3)
    (HeapTree.pathPairs (hashConcat sha256) leafHash (path.map Indexing.ProofNode.turn))
    (MerkleTree.pathPairs sha3 leafHash path)

theorem paddedShallow {n} : paddedCount n ≤ 2^32 ↔ n ≤ 2^32 := by
  refine ⟨(Indexing.paddedCountCovers n).trans,fun small => ?_⟩
  unfold paddedCount nextPowerOfTwo
  split
  · decide
  · split
    · decide
    · rename_i several
      have low : Nat.log2 (n - 1) < 32 := (Nat.log2_lt (by omega)).mpr (by omega)
      exact Nat.pow_le_pow_right (by decide) low

theorem depthIff {n depth} (levels : 2^depth = paddedCount n) : depth ≤ maxProofDepth ↔ n ≤ 2^32 := by
  rw [← paddedShallow,← levels]
  exact (Nat.pow_le_pow_iff_right (by decide)).symm

theorem indexProofAcceptedIff (sha256 sha3 : Bytes → Hash) (hashes : List Hash) (i : Nat) (inside : i < hashes.length)
    (blockHeight : U64) (blockHash : Hash) : ∃ tree path, MerkleTree.build sha3 hashes = some tree ∧
      tree.generateProof i blockHeight blockHash = .ok ⟨hashes[i],i,blockHeight,blockHash,tree.root,path⟩ ∧
      (JoinsAgree sha256 sha3 hashes[i] path → hashes.length ≤ 2^32 →
        verifyMerkleProof sha256 hashes[i] (carried path) tree.root = true) ∧
      (JoinsMeet sha256 sha3 hashes[i] path →
        (verifyMerkleProof sha256 hashes[i] (carried path) tree.root = true ↔
          JoinsAgree sha256 sha3 hashes[i] path ∧ hashes.length ≤ 2^32)) := by
  obtain ⟨tree,builds,built⟩ := MerkleTree.buildBuilt sha3 hashes
  obtain ⟨path,generated,levels,reaches,_⟩ := MerkleTree.generateProofOk built inside blockHeight blockHash
  have padded := built.padded
  rw [if_neg (by omega)] at padded
  have depth := depthIff (levels.trans padded)
  rw [MerkleTree.hashAlongRebuilds] at reaches
  have accepts : verifyMerkleProof sha256 hashes[i] (carried path) tree.root = true ↔
      hashes.length ≤ 2^32 ∧ rebuild (hashConcat sha256) hashes[i] (path.map Indexing.ProofNode.turn) =
        rebuild (hashPair sha3) hashes[i] (path.map Indexing.ProofNode.turn) := by
    rw [verifyIff,carriedTurns,reaches,carried,List.length_map,depth]
  refine ⟨tree,path,builds,generated,fun agree shallow => ?_,fun meet => ?_⟩
  · exact accepts.mpr ⟨shallow,HeapTree.rebuildSame agree⟩
  · rw [accepts,HeapTree.rebuildSameIff meet,and_comm]
    exact Iff.rfl

def domainHash (bytes : Bytes) : Hash := residue (Indexing.nodeDomain::bytes)

theorem indexProofDomain : 1 < [(5 : Hash),6,7].length ∧ ∃ tree path, MerkleTree.build residue [5,6,7] = some tree ∧
    tree.generateProof 1 1 9 = .ok ⟨6,1,1,9,tree.root,path⟩ ∧ verifyMerkleProof domainHash 6
      (carried path) tree.root = true := by
  obtain ⟨tree,path,builds,generated,accepted,_⟩ := indexProofAcceptedIff domainHash residue [5,6,7] 1 (by decide) 1 9
  exact ⟨by decide,tree,path,builds,generated,accepted (fun _ _ => rfl) (by decide)⟩

theorem indexProofRefused : ∃ tree proof, MerkleTree.build residue [5,6,7] = some tree ∧
    tree.generateProof 1 1 9 = .ok proof ∧
    proof.leafHash = 6 ∧ tree.verifyProof residue proof = true ∧
    verifyMerkleProof residue 6 (carried proof.path) tree.root = false := by
  have evaluated : (MerkleTree.build residue [5,6,7]).any (fun tree => (tree.generateProof 1 1 9).toOption.any fun proof =>
      decide (proof.leafHash = 6) && tree.verifyProof residue proof &&
        !verifyMerkleProof residue 6 (carried proof.path) tree.root) = true := by decide +kernel
  obtain ⟨tree,builds,rest⟩ := (Option.any_eq_true _ _).mp evaluated
  obtain ⟨proof,generated,facts⟩ := (Option.any_eq_true _ _).mp rest
  simp only [Bool.and_eq_true,decide_eq_true_eq,Bool.not_eq_true'] at facts
  have generates : tree.generateProof 1 1 9 = .ok proof := by
    cases result : tree.generateProof 1 1 9 with
    | error e =>
      rw [result] at generated
      cases generated
    | ok other =>
      rw [result] at generated
      cases generated
      rfl
  exact ⟨tree,proof,builds,generates,facts.1.1,facts.1.2,facts.2⟩

end QuantumChain.LightClient
