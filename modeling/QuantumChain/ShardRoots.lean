import QuantumChain.IndexingProofs
import QuantumChain.KeyedMap
import QuantumChain.LevelTree
import QuantumChain.ShardCommit

/-! The global state root over the shard roots, and what it tells about the list. Keccak is
any function; results ask for no collision among the strings hashed for the trees at hand. -/
namespace QuantumChain.Sharding
open List
open LevelTree
open HeapTree (Apart)
open Indexing (NoCollision)

structure ShardStateRoot where
  shardId : ShardId
  stateRoot : Hash
  blockHeight : U64
  epoch : U64
  deriving DecidableEq, Repr

structure GlobalStateRoot where
  root : Hash
  shardRoots : List ShardStateRoot
  blockHeight : U64
  epoch : U64
  deriving DecidableEq, Repr

def concatInput (left right : Hash) : Bytes := wordBytes left ++ wordBytes right

def hashConcat (keccak : Bytes → Hash) (left right : Hash) : Hash := keccak (concatInput left right)

def computeMerkleRoot (keccak : Bytes → Hash) : List Hash → Hash
  | [] => 0
  | [only] => only
  | hashes => (climb (hashConcat keccak) hashes.length hashes).headD 0

def sortRoots (shardRoots : List ShardStateRoot) : List ShardStateRoot :=
  shardRoots.insertionSort fun a b => a.shardId ≤ b.shardId

def computeGlobalStateRoot (keccak : Bytes → Hash) (shardRoots : List ShardStateRoot) (blockHeight epoch : U64) :
    GlobalStateRoot :=
  if shardRoots.isEmpty then ⟨0,[],blockHeight,epoch⟩
  else
    let sorted := sortRoots shardRoots
    ⟨computeMerkleRoot keccak (sorted.map ShardStateRoot.stateRoot),sorted,blockHeight,epoch⟩

def verifyShardInclusion (keccak : Bytes → Hash) (shardRoot : Hash) (proof : List Hash) (globalRoot : Hash) : Bool :=
  climbSorted (hashConcat keccak) shardRoot proof == globalRoot

section Hashing
variable {keccak : Bytes → Hash}

def concatInputs (pairs : List (Hash × Hash)) : List Bytes := pairs.map fun pair => concatInput pair.1 pair.2

theorem concatInputInj {a b c d} (same : concatInput a b = concatInput c d) : a = c ∧ b = d := by
  obtain ⟨left,rest⟩ := wordFirst (by decide) same
  exact ⟨left,wordBytesInj (by decide) rest⟩

theorem concatApart {pairs} (distinct : NoCollision keccak (concatInputs pairs)) :
    Apart (hashConcat keccak) pairs :=
  Indexing.inputsApart concatInputInj distinct

theorem merkleRootClimb (keccak) {hashes} (some' : 0 < hashes.length) :
    climb (hashConcat keccak) hashes.length hashes = [computeMerkleRoot keccak hashes] := by
  obtain ⟨root,top⟩ := climbEnds (hashConcat keccak) some' (Nat.le_succ _)
  match hashes with
  | [] => cases some'
  | [only] => rfl
  | a::b::rest =>
    rw [computeMerkleRoot,top]
    · rfl
    · exact nofun
    · exact nofun

end Hashing

def levelOf (shardRoots : List ShardStateRoot) : List Hash := (sortRoots shardRoots).map ShardStateRoot.stateRoot

def rootInputs (keccak : Bytes → Hash) (shardRoots : List ShardStateRoot) : List Bytes :=
  concatInputs (joined (hashConcat keccak) (levelOf shardRoots).length (levelOf shardRoots))

def ids (shardRoots : List ShardStateRoot) : List ShardId := shardRoots.map ShardStateRoot.shardId

def entries (shardRoots : List ShardStateRoot) : List (ShardId × Hash) :=
  shardRoots.map fun root => (root.shardId,root.stateRoot)

theorem sortRootsPerm (shardRoots) : (sortRoots shardRoots).Perm shardRoots :=
  perm_insertionSort _ _

theorem sortRootsSorted (shardRoots) :
    (sortRoots shardRoots).Pairwise fun a b => a.shardId ≤ b.shardId :=
  sortedBy ShardStateRoot.shardId shardRoots

theorem globalRoot (keccak) (shardRoots) (blockHeight epoch) :
    computeGlobalStateRoot keccak shardRoots blockHeight epoch =
      ⟨computeMerkleRoot keccak (levelOf shardRoots),sortRoots shardRoots,blockHeight,epoch⟩ := by
  cases shardRoots with
  | nil => rfl
  | cons first rest => rfl

theorem idsSorted {xs ys} (distinctX : (ids xs).Nodup) (distinctY : (ids ys).Nodup)
    (same : ∀ id, id ∈ ids xs ↔ id ∈ ids ys) : ids (sortRoots xs) = ids (sortRoots ys) := by
  have perm : (ids (sortRoots xs)).Perm (ids (sortRoots ys)) :=
    ((sortRootsPerm xs).map _).trans (((perm_ext_iff_of_nodup distinctX distinctY).mpr same).trans
      ((sortRootsPerm ys).map _).symm)
  refine perm.eq_of_pairwise (fun a b _ _ => le_antisymm) ?_ ?_
  · exact pairwise_map.mpr (sortRootsSorted xs)
  · exact pairwise_map.mpr (sortRootsSorted ys)

theorem entriesDistinct {shardRoots} (distinct : (ids shardRoots).Nodup) : (entries shardRoots).Nodup := by
  have first : (entries shardRoots).map Prod.fst = ids shardRoots := by
    rw [entries,map_map]
    rfl
  exact (first ▸ distinct).of_map

theorem entriesZip (shardRoots) :
    entries shardRoots = (ids shardRoots).zip (shardRoots.map ShardStateRoot.stateRoot) := by
  rw [ids,zip_map',entries]

theorem entriesSame {xs ys} (same : entries (sortRoots xs) = entries (sortRoots ys)) (entry) :
    entry ∈ entries xs ↔ entry ∈ entries ys := by
  have left := ((sortRootsPerm xs).map fun root => (root.shardId,root.stateRoot)).mem_iff (a := entry)
  have right := ((sortRootsPerm ys).map fun root => (root.shardId,root.stateRoot)).mem_iff (a := entry)
  exact left.symm.trans ((iff_of_eq (congrArg (entry ∈ ·) same)).trans right)

theorem entriesSorted {xs ys} (distinctX : (ids xs).Nodup) (distinctY : (ids ys).Nodup)
    (same : ∀ entry, entry ∈ entries xs ↔ entry ∈ entries ys) : entries (sortRoots xs) = entries (sortRoots ys) := by
  have perm : (entries (sortRoots xs)).Perm (entries (sortRoots ys)) :=
    ((sortRootsPerm xs).map _).trans (((perm_ext_iff_of_nodup (entriesDistinct distinctX)
      (entriesDistinct distinctY)).mpr same).trans ((sortRootsPerm ys).map _).symm)
  have sortedIds : ((entries (sortRoots ys)).map Prod.fst).Nodup := by
    rw [entries,map_map]
    exact (((sortRootsPerm ys).map ShardStateRoot.shardId).nodup_iff).mpr distinctY
  exact sortedByUnique perm sortedIds (pairwise_map.mpr (sortRootsSorted xs)) (pairwise_map.mpr (sortRootsSorted ys))

section Commitment
variable (keccak : Bytes → Hash) (xs ys : List ShardStateRoot)

theorem levelsSame (distinct : NoCollision keccak (rootInputs keccak xs ++ rootInputs keccak ys))
    (size : (levelOf xs).length = (levelOf ys).length)
    (same : computeMerkleRoot keccak (levelOf xs) = computeMerkleRoot keccak (levelOf ys)) : levelOf xs = levelOf ys := by
  rcases Nat.eq_zero_or_pos (levelOf xs).length with none | some'
  · have noneY := size ▸ none
    rw [length_eq_zero_iff.mp none,length_eq_zero_iff.mp noneY]
  have topX := merkleRootClimb keccak some'
  have topY := merkleRootClimb keccak (size ▸ some')
  unfold rootInputs concatInputs at distinct
  rw [← map_append] at distinct
  exact climbInj (concatApart distinct) size (topX.trans (same ▸ topY.symm))

theorem rootsAlike (keccak) {xs ys} (someX : xs ≠ []) (someY : ys ≠ [])
    (apart : Apart (hashConcat keccak) (joined (hashConcat keccak) xs.length xs ++ joined (hashConcat keccak) ys.length ys)) :
    computeMerkleRoot keccak xs = computeMerkleRoot keccak ys ↔ Alike (hashConcat keccak) xs ys := by
  rw [← climbAlike apart,merkleRootClimb keccak (length_pos_iff.mpr someX),
    merkleRootClimb keccak (length_pos_iff.mpr someY)]
  exact ⟨fun same => by rw [same],fun same => (List.cons.inj same).1⟩

theorem levelOfSome {shardRoots} (some' : shardRoots ≠ []) : levelOf shardRoots ≠ [] := by
  intro none'
  rw [levelOf,map_eq_nil_iff] at none'
  have same := (sortRootsPerm shardRoots).length_eq
  rw [none'] at same
  exact some' (length_eq_zero_iff.mp same.symm)

theorem sameIdsCommit (distinctX : (ids xs).Nodup) (distinctY : (ids ys).Nodup)
    (distinct : NoCollision keccak (rootInputs keccak xs ++ rootInputs keccak ys))
    (sameIds : ∀ id, id ∈ ids xs ↔ id ∈ ids ys) : computeMerkleRoot keccak (levelOf xs) = computeMerkleRoot keccak
      (levelOf ys) ↔
      ∀ entry, entry ∈ entries xs ↔ entry ∈ entries ys := by
  constructor
  · intro root
    have sorted := idsSorted distinctX distinctY sameIds
    have size : (levelOf xs).length = (levelOf ys).length := by
      have lengths := congrArg List.length sorted
      rw [ids,ids,length_map,length_map] at lengths
      rw [levelOf,levelOf,length_map,length_map,lengths]
    have level := levelsSame keccak xs ys distinct size root
    refine entriesSame ?_
    rw [entriesZip,entriesZip,sorted]
    exact congrArg _ level
  · intro same
    have sorted := entriesSorted distinctX distinctY same
    have level : levelOf xs = levelOf ys := by
      have roots := congrArg (List.map Prod.snd) sorted
      rw [entries,entries,map_map,map_map] at roots
      exact roots
    exact congrArg (computeMerkleRoot keccak) level

theorem rootCommits (heightX epochX heightY epochY : U64) (someX : xs ≠ []) (someY : ys ≠ []) (distinctX : (ids xs).Nodup)
    (distinctY : (ids ys).Nodup) (distinct : NoCollision keccak (rootInputs keccak xs ++ rootInputs keccak ys)) :
    ((computeGlobalStateRoot keccak xs heightX epochX).root = (computeGlobalStateRoot keccak ys heightY epochY).root ↔
      Alike (hashConcat keccak) (levelOf xs) (levelOf ys)) ∧
    ((∀ id, id ∈ ids xs ↔ id ∈ ids ys) →
      (Alike (hashConcat keccak) (levelOf xs) (levelOf ys) ↔ ∀ entry, entry ∈ entries xs ↔ entry ∈ entries ys)) := by
  have apart : Apart (hashConcat keccak) (joined (hashConcat keccak) (levelOf xs).length (levelOf xs) ++
      joined (hashConcat keccak) (levelOf ys).length (levelOf ys)) := by
    refine concatApart ?_
    rw [concatInputs,map_append]
    exact distinct
  have alike := rootsAlike keccak (levelOfSome someX) (levelOfSome someY) apart
  rw [globalRoot,globalRoot]
  exact ⟨alike,fun sameIds => alike.symm.trans (sameIdsCommit keccak xs ys distinctX distinctY distinct sameIds)⟩

end Commitment

def threeShards : List ShardStateRoot := [⟨1,5,0,0⟩,⟨0,6,0,0⟩,⟨2,7,0,0⟩]

def otherShards : List ShardStateRoot := [⟨4,5,0,0⟩,⟨3,6,0,0⟩,⟨5,8,0,0⟩,⟨6,8,0,0⟩]

theorem rootCommitsThree :
    (computeGlobalStateRoot residue threeShards 0 0).root = (computeGlobalStateRoot residue threeShards.reverse 1 1).root ∧
    (computeGlobalStateRoot residue threeShards 0 0).root ≠ (computeGlobalStateRoot residue otherShards 0 0).root := by
  constructor
  · obtain ⟨same,commits⟩ := rootCommits residue threeShards threeShards.reverse 0 0 1 1 (by decide) (by decide) (by decide)
      (by decide) (by decide +kernel)
    have perm := (reverse_perm threeShards).symm
    exact same.mpr ((commits fun id => (perm.map _).mem_iff).mpr fun entry => (perm.map _).mem_iff)
  · have told := (rootCommits residue threeShards otherShards 0 0 0 0 (by decide) (by decide) (by decide) (by decide)
      (by decide +kernel)).1
    decide +kernel

theorem rootAmbiguous : ((ids [⟨0,7,0,0⟩]).Nodup ∧ (ids [⟨1,7,0,0⟩]).Nodup ∧
      NoCollision residue (rootInputs residue [⟨0,7,0,0⟩] ++ rootInputs residue [⟨1,7,0,0⟩]) ∧
      (computeGlobalStateRoot residue [⟨0,7,0,0⟩] 0 0).root = (computeGlobalStateRoot residue [⟨1,7,0,0⟩] 0 0).root ∧
      (0,7) ∈ entries [⟨0,7,0,0⟩] ∧ (0,7) ∉ entries [⟨1,7,0,0⟩]) ∧
    (ids [⟨0,5,0,0⟩,⟨1,6,0,0⟩,⟨2,7,0,0⟩]).Nodup ∧ (ids [⟨0,5,0,0⟩,⟨1,6,0,0⟩,⟨2,7,0,0⟩,⟨3,7,0,0⟩]).Nodup ∧
      NoCollision residue (rootInputs residue [⟨0,5,0,0⟩,⟨1,6,0,0⟩,⟨2,7,0,0⟩] ++
        rootInputs residue [⟨0,5,0,0⟩,⟨1,6,0,0⟩,⟨2,7,0,0⟩,⟨3,7,0,0⟩]) ∧
      (computeGlobalStateRoot residue [⟨0,5,0,0⟩,⟨1,6,0,0⟩,⟨2,7,0,0⟩] 0 0).root =
        (computeGlobalStateRoot residue [⟨0,5,0,0⟩,⟨1,6,0,0⟩,⟨2,7,0,0⟩,⟨3,7,0,0⟩] 0 0).root ∧
      (3,7) ∉ entries [⟨0,5,0,0⟩,⟨1,6,0,0⟩,⟨2,7,0,0⟩] ∧ (3,7) ∈ entries [⟨0,5,0,0⟩,⟨1,6,0,0⟩,⟨2,7,0,0⟩,⟨3,7,0,0⟩] := by
  decide +kernel

variable (keccak : Bytes → Hash) (shardRoots : List ShardStateRoot)

def inclusionTrail (i : Nat) : List (Joint Hash) :=
  trail (hashConcat keccak) (levelOf shardRoots).length (levelOf shardRoots) i

def inclusionProof (i : Nat) : List Hash :=
  (inclusionTrail keccak shardRoots i).map Joint.other

def inclusionInputs (i : Nat) (shardRoot : Hash) : List Bytes :=
  concatInputs ((inclusionTrail keccak shardRoots i).map Joint.pair ++
    sortedPairs (hashConcat keccak) shardRoot (inclusionProof keccak shardRoots i))

def Ascending (i : Nat) : Prop :=
  ∀ joint ∈ inclusionTrail keccak shardRoots i, joint.left ≤ joint.right

section Inclusion
variable (keccak : Bytes → Hash) (shardRoots : List ShardStateRoot) {i : Nat} {shard : ShardStateRoot}

theorem inclusionLinked (at' : (sortRoots shardRoots)[i]? = some shard) :
    Linked (hashConcat keccak) shard.stateRoot (inclusionTrail keccak shardRoots i)
      (computeMerkleRoot keccak (levelOf shardRoots)) := by
  have node : (levelOf shardRoots)[i]? = some shard.stateRoot := by
    rw [levelOf,getElem?_map,at']
    rfl
  obtain ⟨inside,_⟩ := List.getElem?_eq_some_iff.mp node
  exact trailLinked _ (Nat.le_succ _) node (merkleRootClimb keccak (Nat.zero_lt_of_lt inside))

theorem inclusionAccepted (blockHeight epoch : U64) (mem : shard ∈ shardRoots) :
    (∃ i : Nat, (computeGlobalStateRoot keccak shardRoots blockHeight epoch).shardRoots[i]? = some shard) ∧
    ∀ i : Nat, (computeGlobalStateRoot keccak shardRoots blockHeight epoch).shardRoots[i]? = some shard →
      (Ascending keccak shardRoots i →
        verifyShardInclusion keccak shard.stateRoot (inclusionProof keccak shardRoots i)
          (computeGlobalStateRoot keccak shardRoots blockHeight epoch).root = true) ∧
      (NoCollision keccak (inclusionInputs keccak shardRoots i shard.stateRoot) →
        verifyShardInclusion keccak shard.stateRoot (inclusionProof keccak shardRoots i)
          (computeGlobalStateRoot keccak shardRoots blockHeight epoch).root = true → Ascending keccak shardRoots i) := by
  rw [globalRoot]
  refine ⟨mem_iff_getElem?.mp ((sortRootsPerm shardRoots).mem_iff.mpr mem),fun i at' => ?_⟩
  have linked := inclusionLinked keccak shardRoots at'
  refine ⟨fun ordered => ?_,fun distinct accepted => ?_⟩
  · exact beq_iff_eq.mpr (linkedSorted linked ordered)
  · exact sortedLinked linked (concatApart distinct) (beq_iff_eq.mp accepted)

end Inclusion

theorem inclusionAcceptedFirst : Ascending residue [⟨0,5,0,0⟩,⟨1,6,0,0⟩] 0 ∧
    verifyShardInclusion residue 5 (inclusionProof residue [⟨0,5,0,0⟩,⟨1,6,0,0⟩] 0)
      (computeGlobalStateRoot residue [⟨0,5,0,0⟩,⟨1,6,0,0⟩] 0 0).root = true := by
  have ordered : Ascending residue [⟨0,5,0,0⟩,⟨1,6,0,0⟩] 0 := by
    unfold Ascending
    decide +kernel
  have mem : (⟨0,5,0,0⟩ : ShardStateRoot) ∈ [(⟨0,5,0,0⟩ : ShardStateRoot),⟨1,6,0,0⟩] := mem_cons_self
  exact ⟨ordered,((inclusionAccepted residue _ 0 0 mem).2 0 (by decide)).1 ordered⟩

theorem inclusionRefused : (ids [⟨0,2,0,0⟩,⟨1,1,0,0⟩]).Nodup ∧
    (computeGlobalStateRoot residue [⟨0,2,0,0⟩,⟨1,1,0,0⟩] 0 0).shardRoots[0]? = some ⟨0,2,0,0⟩ ∧
    NoCollision residue (inclusionInputs residue [⟨0,2,0,0⟩,⟨1,1,0,0⟩] 0 2) ∧
    inclusionProof residue [⟨0,2,0,0⟩,⟨1,1,0,0⟩] 0 = [1] ∧
    verifyShardInclusion residue 2 [1] (computeGlobalStateRoot residue [⟨0,2,0,0⟩,⟨1,1,0,0⟩] 0 0).root = false := by
  decide +kernel

end QuantumChain.Sharding
