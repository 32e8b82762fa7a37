import QuantumChain.HeaderSync
import QuantumChain.ShardRoots

/-! Merkle proofs of the light client.
A proof binds under no collision on the pairs hashed. -/
namespace QuantumChain.LightClient
open List Sharding
open LevelTree
open HeapTree (Turn joinTurn rebuild pathPairs)
open Indexing (NoCollision)

inductive Position where
  | left
  | right
  deriving DecidableEq, Repr

structure ProofNode where
  hash : Hash
  position : Position
  deriving DecidableEq, Repr

def ProofNode.turn (node : ProofNode) : Turn Hash := ⟨node.hash,node.position = .left⟩

structure MerkleProof where
  txHash : Hash
  path : List ProofNode
  merkleRoot : Hash
  blockHash : Hash
  blockHeight : U64
  deriving DecidableEq, Repr

def maxProofDepth : Nat := 32

section Verifier
variable (sha256 : Bytes → Hash)

def hashConcat (left right : Hash) : Hash := Sharding.hashConcat sha256 left right

def verifyMerkleProof (txHash : Hash) (proofPath : List ProofNode) (expectedRoot : Hash) : Bool :=
  if maxProofDepth < proofPath.length then false
  else if proofPath.isEmpty then txHash == expectedRoot
  else
    let current := proofPath.foldl (fun current node =>
      match node.position with
      | .left => hashConcat sha256 node.hash current
      | .right => hashConcat sha256 current node.hash) txHash
    current == expectedRoot

def computeMerkleRoot (txHashes : List Hash) : Hash := Sharding.computeMerkleRoot sha256 txHashes

def proofStep (level : List Hash) (index : Nat) : List ProofNode :=
  let siblingIndex := if index % 2 = 0 then index + 1 else index - 1
  match level[siblingIndex]? with
  | some sibling => [⟨sibling,if index % 2 = 0 then .right else .left⟩]
  | none => if index + 1 = level.length then (level[index]?.map fun hash => ProofNode.mk hash .right).toList else []

def proofSteps : Nat → List Hash → Nat → List ProofNode
  | 0,_,_ => []
  | fuel+1,level,index =>
    if 1 < level.length then proofStep level index ++ proofSteps fuel (parents (hashConcat sha256) level) (index / 2) else []

def buildMerkleProof (txHashes : List Hash) (txIndex : Nat) : Option (List ProofNode) :=
  if txHashes.length ≤ txIndex then none
  else if txHashes.length = 1 then some []
  else some (proofSteps sha256 txHashes.length txHashes txIndex)

end Verifier

inductive VerifyError where
  | headerNotFound (blockHash : Hash)
  | notFetched (error : LightClientError)
  | invalidProof
  | insufficientConfirmations (got required : U64)
  deriving DecidableEq, Repr

def LightClientService.verifyTransaction (sha256 : Bytes → Hash) (requiredConfirmations : U64) (s : LightClientService)
    (txHash blockHash : Hash) (proofs : List (Option MerkleProof)) : Except VerifyError Bool :=
  match s.headerChain.headers.lookup blockHash with
  | none => .error (.headerNotFound blockHash)
  | some header =>
    match fetchWithConsensus s.config.minFullNodes proofs with
    | .error e => .error (.notFetched e)
    | .ok proof =>
      if verifyMerkleProof sha256 txHash proof.path header.merkleRoot then
        let confirmations := if s.headerChain.height < header.height then 0 else s.headerChain.height - header.height
        if confirmations < requiredConfirmations then .error (.insufficientConfirmations confirmations requiredConfirmations)
        else .ok true
      else .error .invalidProof

section Roots
variable {sha256 : Bytes → Hash}

def rootInputs (sha256 : Bytes → Hash) (txHashes : List Hash) : List Bytes :=
  concatInputs (joined (hashConcat sha256) txHashes.length txHashes)

def pathInputs (sha256 : Bytes → Hash) (txHash : Hash) (path : List ProofNode) : List Bytes :=
  concatInputs (pathPairs (hashConcat sha256) txHash (path.map ProofNode.turn))

theorem rootClimb (sha256) {txHashes} (some' : txHashes ≠ []) :
    climb (hashConcat sha256) txHashes.length txHashes = [computeMerkleRoot sha256 txHashes] :=
  merkleRootClimb sha256 (length_pos_iff.mpr some')

theorem inputsApart {first second}
    (distinct : NoCollision sha256 (concatInputs first ++ concatInputs second)) :
    HeapTree.Apart (hashConcat sha256) (first ++ second) := by
  refine concatApart ?_
  rw [concatInputs,map_append]
  exact distinct

theorem pathRebuilds (txHash : Hash) (path : List ProofNode) :
    path.foldl (fun current node =>
      match node.position with
      | .left => hashConcat sha256 node.hash current
      | .right => hashConcat sha256 current node.hash) txHash =
          rebuild (hashConcat sha256) txHash (path.map ProofNode.turn) := by
  unfold rebuild
  rw [foldl_map]
  congr 1
  funext current node
  obtain ⟨hash,position⟩ := node
  cases position <;> rfl

theorem verifyIff {txHash expectedRoot path} :
    verifyMerkleProof sha256 txHash path expectedRoot = true ↔
      path.length ≤ maxProofDepth ∧ rebuild (hashConcat sha256) txHash (path.map ProofNode.turn) = expectedRoot := by
  unfold verifyMerkleProof
  split
  · rename_i deep
    exact ⟨fun wrong => (Bool.false_ne_true wrong).elim,fun ok => absurd ok.1 (not_le.mpr deep)⟩
  · rename_i shallow
    have bound := not_lt.mp shallow
    split
    · rename_i empty
      rw [isEmpty_iff.mp empty]
      exact ⟨fun same => ⟨Nat.zero_le _,beq_iff_eq.mp same⟩,fun ok => beq_iff_eq.mpr ok.2⟩
    · dsimp only
      rw [pathRebuilds,beq_iff_eq]
      exact ⟨fun same => ⟨bound,same⟩,fun ok => ok.2⟩

theorem rootAndLengthIff {txs others} (some' : txs ≠ [])
    (distinct : NoCollision sha256 (rootInputs sha256 txs ++ rootInputs sha256 others)) :
    (computeMerkleRoot sha256 others = computeMerkleRoot sha256 txs ∧ others.length = txs.length) ↔ others = txs := by
  constructor
  · rintro ⟨root,size⟩
    have someOthers : others ≠ [] := by
      intro none'
      rw [none'] at size
      exact some' (length_eq_zero_iff.mp size.symm)
    have top := rootClimb sha256 some'
    have topOthers := rootClimb sha256 someOthers
    rw [root,← top] at topOthers
    exact (climbInj (inputsApart distinct) size.symm topOthers.symm).symm
  · rintro rfl
    exact ⟨rfl,rfl⟩

theorem rootsAlikeIff {txs others} (some' : txs ≠ []) (someOthers : others ≠ [])
    (distinct : NoCollision sha256 (rootInputs sha256 txs ++ rootInputs sha256 others)) :
    computeMerkleRoot sha256 txs = computeMerkleRoot sha256 others ↔ Alike (hashConcat sha256) txs others :=
  rootsAlike sha256 some' someOthers (inputsApart distinct)

theorem acceptedIff {txs txHash path} (some' : txs ≠ [])
    (distinct : NoCollision sha256 (rootInputs sha256 txs ++ pathInputs sha256 txHash path)) :
    verifyMerkleProof sha256 txHash path (computeMerkleRoot sha256 txs) = true ↔
      path.length ≤ maxProofDepth ∧ OnTree (hashConcat sha256) txs txHash (path.map ProofNode.turn) := by
  rw [verifyIff]
  exact and_congr_right fun _ => onTreeIff (rootClimb sha256 some') (inputsApart distinct)

theorem acceptedMember {txs txHash path} (some' : txs ≠ [])
    (distinct : NoCollision sha256 (rootInputs sha256 txs ++ pathInputs sha256 txHash path))
    (high : path.length = Nat.clog 2 txs.length)
    (accepted : verifyMerkleProof sha256 txHash path (computeMerkleRoot sha256 txs) = true) : txHash ∈ txs :=
  onTreeMember (by rw [length_map]; exact high) ((acceptedIff some' distinct).mp accepted).2

variable (sha256) in
theorem proofStepParent {level index value} (at' : level[index]? = some value) :
    ∃ node, proofStep level index = [node] ∧
      (parents (hashConcat sha256) level)[index / 2]? = some (joinTurn (hashConcat sha256) value node.turn) := by
  obtain ⟨inside,_⟩ := List.getElem?_eq_some_iff.mp at'
  unfold parents
  rw [List.getElem?_map,pairUpGet]
  unfold proofStep
  rcases Nat.mod_two_eq_zero_or_one index with even | odd
  · have half : 2 * (index / 2) = index := by omega
    rw [half,at']
    simp only [even,if_true]
    cases beside : level[index + 1]? with
    | some sibling => exact ⟨_,rfl,rfl⟩
    | none =>
      have last : index + 1 = level.length := by
        have past := getElem?_eq_none_iff.mp beside
        omega
      simp only [last,if_true]
      exact ⟨_,rfl,rfl⟩
  · have half : 2 * (index / 2) = index - 1 := by omega
    have next : index - 1 + 1 = index := by omega
    have before := getElem?_eq_getElem (l := level) (i := index - 1) (by omega)
    generalize level[index - 1] = sibling at before
    rw [half,next,at',before]
    simp only [odd,one_ne_zero,if_false,before]
    exact ⟨_,rfl,rfl⟩

theorem singleValue {root value : Hash} {index : Nat} (at' : [root][index]? = some value) : value = root := by
  cases index with
  | zero => exact (Option.some.inj at').symm
  | succ index => cases at'

theorem proofStepsReach {fuel level index value root} (enough : level.length ≤ fuel + 1)
    (at' : level[index]? = some value) (top : climb (hashConcat sha256) fuel level = [root]) :
    (proofSteps sha256 fuel level index).length = Nat.clog 2 level.length ∧
      rebuild (hashConcat sha256) value ((proofSteps sha256 fuel level index).map ProofNode.turn) = root := by
  induction fuel generalizing level index value with
  | zero =>
    cases top
    exact ⟨rfl,singleValue at'⟩
  | succ fuel ih =>
    unfold climb at top
    unfold proofSteps
    split at top
    · rename_i several
      obtain ⟨node,step,above⟩ := proofStepParent sha256 at'
      have size := parentsLength (hashConcat sha256) level
      obtain ⟨high,reaches⟩ := ih (by omega) above top
      rw [if_pos several,step,levelsAbove (hashConcat sha256) several]
      exact ⟨congrArg Nat.succ high,reaches⟩
    · rename_i few
      cases top
      exact ⟨rfl,singleValue at'⟩

theorem builtAccepted {txs index} (inside : index < txs.length) (shallow : txs.length ≤ 2^32) :
    ∃ path, buildMerkleProof sha256 txs index = some path ∧ path.length = Nat.clog 2 txs.length ∧
      verifyMerkleProof sha256 txs[index] path (computeMerkleRoot sha256 txs) = true := by
  have some' := length_pos_iff.mp (Nat.zero_lt_of_lt inside)
  have depth := Nat.clog_le_of_le_pow shallow
  obtain ⟨high,reaches⟩ := proofStepsReach (Nat.le_succ _) (getElem?_eq_getElem inside) (rootClimb sha256 some')
  refine ⟨proofSteps sha256 txs.length txs index,?_,high,verifyIff.mpr ⟨high ▸ depth,reaches⟩⟩
  unfold buildMerkleProof
  rw [if_neg (not_le.mpr inside)]
  split
  · rename_i single
    rw [single,Nat.clog_one_right] at high
    rw [single,length_eq_zero_iff.mp high]
  · rfl

end Roots

theorem spvProves (sha256 : Bytes → Hash) (txs : List Hash) (nonempty : txs ≠ []) :
    (∀ others, others ≠ [] → NoCollision sha256 (rootInputs sha256 txs ++ rootInputs sha256 others) →
      (computeMerkleRoot sha256 txs = computeMerkleRoot sha256 others ↔ Alike (hashConcat sha256) txs others) ∧
      (others.length = txs.length → (Alike (hashConcat sha256) txs others ↔ others = txs))) ∧
    (∀ x path, NoCollision sha256 (rootInputs sha256 txs ++ pathInputs sha256 x path) →
      (verifyMerkleProof sha256 x path (computeMerkleRoot sha256 txs) = true ↔
        path.length ≤ maxProofDepth ∧ OnTree (hashConcat sha256) txs x (path.map ProofNode.turn)) ∧
      (path.length = Nat.clog 2 txs.length → OnTree (hashConcat sha256) txs x (path.map ProofNode.turn) → x ∈ txs)) ∧
    (∀ index, (inside : index < txs.length) → txs.length ≤ 2^32 → ∃ path, buildMerkleProof sha256 txs index = some path ∧
      path.length = Nat.clog 2 txs.length ∧ verifyMerkleProof sha256 txs[index] path (computeMerkleRoot sha256 txs) =
        true) := by
  refine ⟨fun others someOthers distinct => ?_,fun x path distinct => ?_,fun _ inside shallow => builtAccepted inside shallow⟩
  · have alike := rootsAlikeIff nonempty someOthers distinct
    refine ⟨alike,fun size => alike.symm.trans ?_⟩
    rw [← rootAndLengthIff nonempty distinct,and_iff_left size]
    exact eq_comm
  · exact ⟨acceptedIff nonempty distinct,fun high => onTreeMember (by rw [length_map]; exact high)⟩

def fourTransactions : List Hash := [5,6,7,8]

def fourthPath : List ProofNode := [⟨7,.left⟩,⟨hashConcat residue 5 6,.left⟩]

theorem spvProvesFour :
    computeMerkleRoot residue fourTransactions ≠ computeMerkleRoot residue [5,6,7] ∧
    verifyMerkleProof residue 8 fourthPath (computeMerkleRoot residue fourTransactions) = true ∧
    (8 : Hash) ∈ fourTransactions := by
  obtain ⟨roots,paths,_⟩ := spvProves residue fourTransactions (cons_ne_nil _ _)
  have told := (roots [5,6,7] (cons_ne_nil _ _) (by decide +kernel)).1
  obtain ⟨accepted,member⟩ := paths 8 fourthPath (by decide +kernel)
  have verified : verifyMerkleProof residue 8 fourthPath (computeMerkleRoot residue fourTransactions) = true := by
    decide +kernel
  refine ⟨fun same => ?_,verified,member (by decide +kernel) (accepted.mp verified).2⟩
  have apart : ¬ Alike (hashConcat residue) fourTransactions [5,6,7] := by
    unfold Alike
    decide +kernel
  exact apart (told.mp same)

theorem spvForged :
    (([5,6,7] : List Hash) ≠ [5,6,7,7] ∧ computeMerkleRoot residue [5,6,7] = computeMerkleRoot residue [5,6,7,7] ∧
      NoCollision residue (rootInputs residue [5,6,7] ++ rootInputs residue [5,6,7,7])) ∧
    (hashConcat residue 5 6 ∉ fourTransactions ∧
      verifyMerkleProof residue (hashConcat residue 5 6) [⟨hashConcat residue 7 8,.right⟩]
        (computeMerkleRoot residue fourTransactions) = true ∧
      NoCollision residue (rootInputs residue fourTransactions ++
        pathInputs residue (hashConcat residue 5 6) [⟨hashConcat residue 7 8,.right⟩])) := by
  refine ⟨⟨?_,?_,?_⟩,?_,?_,?_⟩ <;> decide +kernel

theorem builtPathsComplete (sha256) (txHashes) (few : txHashes.length ≤ 2^32) :
    (∀ i, (inside : i < txHashes.length) → ∃ path, buildMerkleProof sha256 txHashes i = some path ∧
      verifyMerkleProof sha256 txHashes[i] path (computeMerkleRoot sha256 txHashes) = true) ∧
    ∀ i, txHashes.length ≤ i → buildMerkleProof sha256 txHashes i = none := by
  refine ⟨fun i inside => ?_,fun i past => if_pos past⟩
  obtain ⟨path,built,_,accepted⟩ := builtAccepted inside few
  exact ⟨path,built,accepted⟩

theorem builtPathsCompleteFour : fourTransactions.length ≤ 2^32 ∧
    (∃ path, buildMerkleProof residue fourTransactions 3 = some path ∧
      verifyMerkleProof residue 8 path (computeMerkleRoot residue fourTransactions) = true) ∧
    buildMerkleProof residue fourTransactions 4 = none := by
  have few : fourTransactions.length ≤ 2^32 := by decide
  obtain ⟨built,refused⟩ := builtPathsComplete residue fourTransactions few
  exact ⟨few,built 3 (by decide),refused 4 (by decide)⟩

theorem verifiedIncluded (sha256) (requiredConfirmations) (s : LightClientService)
    (txHash blockHash) (proofs) (answer)
    (verified : s.verifyTransaction sha256 requiredConfirmations txHash blockHash proofs = .ok answer) :
    answer = true ∧ ∃ header proof, s.headerChain.headers.lookup blockHash = some header ∧
      fetchWithConsensus s.config.minFullNodes proofs = .ok proof ∧
      requiredConfirmations.toNat ≤ s.headerChain.height.toNat - header.height.toNat ∧
      ∀ txs, txs ≠ [] → header.merkleRoot = computeMerkleRoot sha256 txs → proof.path.length = Nat.clog 2 txs.length →
        NoCollision sha256 (rootInputs sha256 txs ++ pathInputs sha256 txHash proof.path) → txHash ∈ txs := by
  unfold LightClientService.verifyTransaction at verified
  split at verified
  · cases verified
  · rename_i header stored
    split at verified
    · cases verified
    · rename_i proof agreed
      by_cases accepted : verifyMerkleProof sha256 txHash proof.path header.merkleRoot = true
      · rw [if_pos accepted] at verified
        dsimp only at verified
        generalize depth : (if s.headerChain.height < header.height then 0 else s.headerChain.height - header.height) = deep
          at verified
        split at verified
        · cases verified
        · rename_i enough
          cases verified
          refine ⟨rfl,header,proof,stored,agreed,?_,fun txs some' root high distinct => ?_⟩
          · split at depth <;> bv_omega
          · exact acceptedMember some' distinct high (root ▸ accepted)
      · rw [if_neg accepted] at verified
        cases verified

def fourNode : LightClientService :=
  ⟨⟨1,100⟩,HeaderChain.new ⟨7,0,0,1,computeMerkleRoot residue fourTransactions,0,0⟩,false,0⟩

theorem fourthIncluded :
    fourNode.verifyTransaction residue 0 8 7 [some ⟨8,fourthPath,0,7,0⟩] = .ok true ∧ (8 : Hash) ∈ fourTransactions := by
  have verified : fourNode.verifyTransaction residue 0 8 7 [some ⟨8,fourthPath,0,7,0⟩] = .ok true := by decide +kernel
  obtain ⟨_,header,proof,stored,agreed,_,included⟩ := verifiedIncluded _ _ _ _ _ _ _ verified
  have root : header.merkleRoot = computeMerkleRoot residue fourTransactions := by
    cases stored
    rfl
  have path : proof.path = fourthPath := by
    cases agreed
    rfl
  rw [path] at included
  exact ⟨verified,included _ (cons_ne_nil _ _) root (by decide +kernel) (by decide +kernel)⟩

end QuantumChain.LightClient
