import QuantumChain.StateRuns

/-! State proofs: the nodes on the way of a hashed address, what `generate_proof` puts into one and what
`verify_proof` checks of one. Keccak is a parameter, and the results ask that it has no collision on the inputs hashed
here. Verification follows no node to the next, so acceptance alone says nothing about the account. -/
namespace QuantumChain.State
open List TrieNode
open PrefixTree (emptyIff lookupNext nextProper route routeLength routeNext)

structure StateProof where
  address : Address
  accountState : Option AccountState
  proofNodes : List Bytes
  stateRoot : Hash
  deriving DecidableEq, Repr

def TrieNode.processForProof (node : TrieNode) (key : Nibbles) (depth : Nat) : Outcome (Option (Hash × Nat)) :=
  match node with
  | .empty => .ok none
  | .leaf _ _ => .ok none
  | .extension path child =>
    match Nibbles.slice key depth with
    | none => .error .panic
    | some remaining => if path <+: remaining then .ok (some (child,depth + path.length)) else .ok none
  | .branch children _ =>
    match key[depth]? with
    | none => .ok none
    | some nibble =>
      match children[nibble.toNat]? with
      | none => .error .panic
      | some none => .ok none
      | some (some child) => .ok (some (child,depth + 1))

def proofWalk (nodes : Nodes) (address : Address) (key : Nibbles) : Nat → Hash → Nat → Option (Outcome (List Bytes))
  | 0,_,_ => none
  | turns+1,current,depth =>
    if current = emptyTrieRoot then some (.ok [])
    else
      match nodes.lookup current with
      | none => some (.error (.error (.proofGenerationFailed address)))
      | some node =>
        match node.processForProof key depth with
        | .error e => some (.error e)
        | .ok none => some (.ok [node.rlpEncode])
        | .ok (some (next,deeper)) =>
          (proofWalk nodes address key turns next deeper).map (fun result => result.map (node.rlpEncode :: ·))

section
variable (keccak : Bytes → Hash)

def generateProof (turns : Nat) (t : PatriciaMerkleTrie) (address : Address) : Option (Outcome StateProof) :=
  (proofWalk t.nodes address (accountKey keccak address) turns t.root 0).map (fun result =>
    result.map (fun nodes => ⟨address,t.accounts.lookup address,nodes,t.root⟩))

def verifyProof (proof : StateProof) (address : Address) (expectedRoot : Hash) : Bool :=
  if proof.stateRoot ≠ expectedRoot then false
  else if proof.address ≠ address then false
  else
    match proof.proofNodes with
    | [] => proof.accountState.isNone
    | [_] => true
    | first::_ => decide (keccak first ≠ 0)

def Follows (key : Nibbles) : Hash → Nat → List TrieNode → Prop
  | root,_,[] => root = emptyTrieRoot
  | root,depth,node::rest =>
    keccak node.rlpEncode = root ∧
      match node.processForProof key depth with
      | .ok (some (next,deeper)) => Follows key next deeper rest
      | _ => rest = []

end

def leafValue (node : TrieNode) (remaining : Nibbles) : Option Bytes :=
  match node with
  | .leaf path value => if path = remaining then some value else none
  | _ => none

def finalLeaf (key : Nibbles) : Nat → List TrieNode → Option Bytes
  | _,[] => none
  | depth,node::rest =>
    match node.processForProof key depth with
    | .ok (some (_,deeper)) => finalLeaf key deeper rest
    | _ => leafValue node (key.drop depth)

structure Authentic (keccak : Bytes → Hash) (proof : StateProof) (nodes : List TrieNode) : Prop where
  encoded : proof.proofNodes = nodes.map TrieNode.rlpEncode
  sound : ∀ node ∈ nodes, node.Sound
  follows : Follows keccak (accountKey keccak proof.address) proof.stateRoot 0 nodes
  final : finalLeaf (accountKey keccak proof.address) 0 nodes = proof.accountState.map AccountState.rlpEncode

section
variable {keccak : Bytes → Hash} {key : Nibbles} {depth : Nat}

theorem childSlot (children : UInt8 → AccountTree) {nibble} (small : nibble < 16) :
    ((List.range 16).map (fun n => slot keccak (children (UInt8.ofNat n))))[nibble.toNat]? =
      some (slot keccak (children nibble)) := by
  have bound : nibble.toNat < 16 := UInt8.lt_iff_toNat_lt.mp small
  rw [getElem?_map,getElem?_range bound,Option.map_some,UInt8.ofNat_toNat]

theorem processNext {tree} (valid : key.Valid) (inside : depth ≤ key.length) :
    (nodeOf keccak tree).processForProof key depth =
      .ok ((tree.next (key.drop depth)).map (fun step => (rootOf keccak step.1,depth + step.2))) := by
  cases tree with
  | empty => rfl
  | leaf path value => rfl
  | extension path child =>
    simp only [nodeOf,processForProof,sliceSome inside,PrefixTree.next]
    split <;> rfl
  | branch children value =>
    have first : key[depth]? = (key.drop depth).head? := head?_drop.symm
    have own : nodeOf keccak (.branch children value) =
      .branch ((List.range 16).map (fun n => slot keccak (children (UInt8.ofNat n)))) value := rfl
    rw [own,processForProof,first]
    cases shape : key.drop depth with
    | nil => rfl
    | cons nibble rest =>
      have small := valid nibble (mem_of_mem_drop (shape ▸ mem_cons_self))
      simp only [head?_cons,childSlot children small]
      rw [PrefixTree.next,slot]
      by_cases none' : (children nibble).isEmpty = true
      · rw [if_pos none',if_pos none']
        rfl
      · rw [if_neg none',if_neg none']
        rfl

theorem nextMade {tree child : AccountTree} {used} (valid : key.Valid)
    (step : tree.next (key.drop depth) = some (child,used)) {node} (mem : node ∈ made keccak child) :
    node ∈ made keccak tree := by
  cases tree with
  | empty => cases step
  | leaf path value => cases step
  | extension path below =>
    rw [PrefixTree.next] at step
    split at step
    · cases step
      exact mem_append_left _ mem
    · cases step
  | branch children value =>
    cases shape : key.drop depth with
    | nil =>
      rw [shape] at step
      cases step
    | cons nibble rest =>
      have small := valid nibble (mem_of_mem_drop (shape ▸ mem_cons_self))
      rw [shape,PrefixTree.next] at step
      split at step
      · cases step
      · cases step
        refine mem_append_left _ (mem_flatMap.mpr ⟨nibble.toNat,?_,?_⟩)
        · exact mem_range.mpr (UInt8.lt_iff_toNat_lt.mp small)
        · rw [UInt8.ofNat_toNat]
          exact mem

theorem nextInside {tree child : AccountTree} {used} (proper : tree.Proper) (inside : depth ≤ key.length)
    (step : tree.next (key.drop depth) = some (child,used)) : child.Proper ∧ depth + used ≤ key.length := by
  obtain ⟨below,_,fits⟩ := nextProper proper step
  rw [length_drop] at fits
  exact ⟨below,by omega⟩

theorem ownLeaf {tree} (proper : tree.Proper) (remaining) :
    tree.ownValue remaining = leafValue (nodeOf keccak tree) remaining := by
  cases tree with
  | empty => rfl
  | leaf path value => rfl
  | extension path child => rfl
  | branch children value =>
    cases remaining with
    | nil => exact proper.1
    | cons nibble rest => rfl

theorem routeFollows {tree} (proper : tree.Proper) (valid : key.Valid) (inside : depth ≤ key.length) :
    Follows keccak key (rootOf keccak tree) depth ((tree.route (key.drop depth)).map (nodeOf keccak)) ∧
      finalLeaf key depth ((tree.route (key.drop depth)).map (nodeOf keccak)) = tree.lookup (key.drop depth) := by
  induction tree using PrefixTree.descend generalizing depth with
  | each tree ih =>
    cases occupied : tree.isEmpty with
    | true =>
      rw [emptyIff.mp occupied]
      exact ⟨rfl,rfl⟩
    | false =>
      rw [routeNext occupied,map_cons,Follows,finalLeaf,processNext valid inside,lookupNext]
      rw [and_assoc]
      refine ⟨(hashOccupied (nodeOccupied occupied)).symm,?_⟩
      cases step : tree.next (key.drop depth) with
      | none => exact ⟨rfl,(ownLeaf proper _).symm⟩
      | some found =>
        obtain ⟨child,used⟩ := found
        obtain ⟨below,deeper⟩ := nextInside proper inside step
        have rest := ih _ _ _ step below deeper
        rwa [← drop_drop] at rest

theorem followsLookup {tree nodes} (proper : tree.Proper) (valid : key.Valid) (inside : depth ≤ key.length)
    (distinct : DistinctHashes keccak (nodes.map TrieNode.rlpEncode ++ (made keccak tree).map TrieNode.rlpEncode))
    (claimed : ∀ node ∈ nodes, node.Sound) (sound : ∀ node ∈ made keccak tree, node.Sound)
    (follows : Follows keccak key (rootOf keccak tree) depth nodes) :
    finalLeaf key depth nodes = tree.lookup (key.drop depth) := by
  induction tree using PrefixTree.descend generalizing depth nodes with
  | each tree ih =>
    have listed : ∀ node ∈ nodes, node.rlpEncode ∈ nodes.map TrieNode.rlpEncode ++
      (made keccak tree).map TrieNode.rlpEncode :=
      fun node mem => mem_append_left _ (mem_map_of_mem mem)
    cases occupied : tree.isEmpty with
    | true =>
      cases emptyIff.mp occupied
      cases nodes with
      | nil => rfl
      | cons node rest =>
        have encodings := distinct.apart _ (mem_cons_of_mem _ (listed node mem_cons_self)) _
          mem_cons_self (follows.1.trans distinct.emptyRoot.symm)
        have none' : node = .empty := by
          by_contra some'
          exact encodedApart some' encodings
        rw [none']
        rfl
    | false =>
      have own : (nodeOf keccak tree).rlpEncode ∈ nodes.map TrieNode.rlpEncode ++ (made keccak tree).map TrieNode.rlpEncode :=
        mem_append_right _ (mem_map_of_mem (nodeMade occupied))
      cases nodes with
      | nil => exact absurd follows (distinct.notEmptyRoot (nodeOccupied occupied) own)
      | cons node rest =>
        obtain ⟨hash,onward⟩ := follows
        rw [rootOf,hashOccupied (nodeOccupied occupied)] at hash
        have encodings := distinct.apart _ (mem_cons_of_mem _ (listed node mem_cons_self)) _
          (mem_cons_of_mem _ own) hash
        have same := TrieNode.rlpEncodeInj (claimed node mem_cons_self) (sound _ (nodeMade occupied)) encodings
        subst same
        rw [processNext valid inside] at onward
        rw [finalLeaf,processNext valid inside,lookupNext]
        cases step : tree.next (key.drop depth) with
        | none => exact (ownLeaf proper _).symm
        | some found =>
          obtain ⟨child,used⟩ := found
          obtain ⟨below,deeper⟩ := nextInside proper inside step
          rw [step] at onward
          have fewer : DistinctHashes keccak (rest.map TrieNode.rlpEncode ++ (made keccak child).map TrieNode.rlpEncode) := by
            refine distinct.sub (fun a mem => ?_)
            rcases mem_append.mp mem with later | there
            · exact mem_append_left _ (mem_cons_of_mem _ later)
            · obtain ⟨node,inside,rfl⟩ := mem_map.mp there
              exact mem_append_right _ (mem_map_of_mem (nextMade valid step inside))
          have later := ih _ _ _ step below deeper fewer
            (fun node mem => claimed node (mem_cons_of_mem _ mem))
            (fun node mem => sound node (nextMade valid step mem)) onward
          rwa [← drop_drop] at later

theorem walkRoute {tree nodes address} (proper : tree.Proper) (valid : key.Valid)
    (inside : depth ≤ key.length) (table : ∀ node ∈ made keccak tree, nodes.lookup (node.hash keccak) = some node)
    (apart : ∀ node ∈ made keccak tree, node.hash keccak ≠ emptyTrieRoot) {turns}
    (enough : (tree.route (key.drop depth)).length < turns) :
    proofWalk nodes address key turns (rootOf keccak tree) depth =
      some (.ok (((tree.route (key.drop depth)).map (nodeOf keccak)).map TrieNode.rlpEncode)) := by
  induction tree using PrefixTree.descend generalizing depth turns with
  | each tree ih =>
    obtain ⟨less,rfl⟩ : ∃ less, turns = less + 1 := ⟨turns - 1,by omega⟩
    rw [proofWalk]
    cases occupied : tree.isEmpty with
    | true =>
      cases emptyIff.mp occupied
      exact if_pos rfl
    | false =>
      have own : nodeOf keccak tree ∈ made keccak tree := nodeMade occupied
      have found : nodes.lookup (rootOf keccak tree) = some (nodeOf keccak tree) := table _ own
      rw [if_neg (show rootOf keccak tree ≠ emptyTrieRoot from apart _ own),found,routeNext occupied]
      simp only [processNext valid inside]
      rw [routeNext occupied,length_cons] at enough
      cases step : tree.next (key.drop depth) with
      | none => rfl
      | some found =>
        obtain ⟨child,used⟩ := found
        obtain ⟨below,deeper⟩ := nextInside proper inside step
        rw [step] at enough
        have fewer : (child.route (key.drop (depth + used))).length < less := by
          rw [← drop_drop]
          exact Nat.lt_of_succ_lt_succ enough
        have later := ih _ _ _ step below deeper
          (fun node mem => table node (nextMade valid step mem)) (fun node mem => apart node (nextMade valid step mem)) fewer
        rw [← drop_drop] at later
        simp only [Option.map_some,later]
        rfl

theorem routeMade {tree} (valid : key.Valid) {node}
    (mem : node ∈ (tree.route (key.drop depth)).map (nodeOf keccak)) : node ∈ made keccak tree := by
  induction tree using PrefixTree.descend generalizing depth with
  | each tree ih =>
    cases occupied : tree.isEmpty with
    | true =>
      rw [emptyIff.mp occupied] at mem
      exact absurd mem not_mem_nil
    | false =>
      rw [routeNext occupied,map_cons] at mem
      rcases mem_cons.mp mem with own | later
      · exact own ▸ nodeMade occupied
      · cases step : tree.next (key.drop depth) with
        | none =>
          rw [step] at later
          exact absurd later not_mem_nil
        | some found =>
          obtain ⟨child,used⟩ := found
          simp only [step,drop_drop] at later
          exact nextMade valid step (ih _ _ _ step later)

end

section
variable (keccak : Bytes → Hash)

def routeNodes (accounts : KeyedMap Address AccountState) (address : Address) : List TrieNode :=
  ((accountTree keccak accounts).route (accountKey keccak address)).map (nodeOf keccak)

def routeProof (t : PatriciaMerkleTrie) (address : Address) : StateProof :=
  ⟨address,t.accounts.lookup address,(routeNodes keccak t.accounts address).map TrieNode.rlpEncode,t.root⟩

end

def spreadHash (bytes : Bytes) : Hash :=
  if bytes = [0x80] then emptyTrieRoot else BitVec.ofNat 256 (bytes.foldl (fun n b => 257*n + b.toNat + 1) 7)

def twoAccounts : PatriciaMerkleTrie :=
  ((PatriciaMerkleTrie.withConfig {}).perform spreadHash (.setBalance 1 5)).perform spreadHash (.setBalance 2 6)

theorem twoReached : Reached spreadHash twoAccounts := .performed (.performed (.started {}) _) _

theorem twoDistinct : DistinctHashes spreadHash (wordBytes (1 : Address)::hashedInputs spreadHash twoAccounts.accounts) := by
  decide +kernel

section
variable {keccak : Bytes → Hash} {t : PatriciaMerkleTrie}

theorem routeGenerated (current : t.Rebuilt keccak) (address)
    (distinct : DistinctHashes keccak (hashedInputs keccak t.accounts)) {turns} (enough : 65 < turns) :
    generateProof keccak turns t address = some (.ok (routeProof keccak t address)) := by
  obtain ⟨root,nodes⟩ := rebuiltRoot current
  have proper : (accountTree keccak t.accounts).Proper :=
    accountTreeProper (distinct.sub (fun _ mem => mem_append_left _ mem))
  have sound : ∀ node ∈ made keccak (accountTree keccak t.accounts), node.Sound := madeSound (accountTreeWithin t.accounts)
  have inputs : ∀ node ∈ made keccak (accountTree keccak t.accounts), node.rlpEncode ∈ hashedInputs keccak t.accounts :=
    fun node mem => mem_append_right _ (mem_map_of_mem mem)
  have table : ∀ node ∈ made keccak (accountTree keccak t.accounts), t.nodes.lookup (node.hash keccak) = some node := by
    intro node mem
    rw [nodes]
    exact recordLookup (distinct.sub (fun _ mem => mem_append_right _ mem)) sound mem _
  have short := routeLength proper (accountKey keccak address)
  have walk : proofWalk t.nodes address (accountKey keccak address) turns (rootOf keccak (accountTree keccak t.accounts)) 0 =
      some (.ok ((routeNodes keccak t.accounts address).map TrieNode.rlpEncode)) :=
    walkRoute proper (accountKeyValid address) (Nat.zero_le _) table
      (fun node mem => distinct.notEmptyRoot (madeOccupied mem) (inputs node mem)) (Nat.lt_of_le_of_lt short enough)
  rw [generateProof,root,walk,routeProof,root]
  rfl

theorem routeNodesMade (accounts) (address) :
    ∀ node ∈ routeNodes keccak accounts address, node ∈ made keccak (accountTree keccak accounts) :=
  fun node mem => routeMade (accountKeyValid address)
    (show node ∈ (route _ ((accountKey keccak address).drop 0)).map _ from mem)

theorem routeEncoded {accounts address bytes}
    (mem : bytes ∈ (routeNodes keccak accounts address).map TrieNode.rlpEncode) : bytes ∈ hashedInputs keccak accounts := by
  obtain ⟨node,inside,rfl⟩ := mem_map.mp mem
  exact mem_append_right _ (mem_map_of_mem (routeNodesMade accounts address node inside))

theorem DistinctHashes.addresses {address : Address} {accounts}
    (distinct : DistinctHashes keccak (wordBytes address::hashedInputs keccak accounts)) :
    DistinctHashes keccak (wordBytes address::addressBytes accounts) := by
  refine distinct.sub (fun a mem => ?_)
  rcases mem_cons.mp mem with own | other
  · exact own ▸ mem_cons_self
  · exact mem_cons_of_mem _ (mem_append_left _ other)

theorem routeAuthentic (current : t.Rebuilt keccak) (address : Address)
    (distinct : DistinctHashes keccak (wordBytes address::addressBytes t.accounts)) :
    Authentic keccak (routeProof keccak t address) (routeNodes keccak t.accounts address) := by
  have proper : (accountTree keccak t.accounts).Proper :=
    accountTreeProper (distinct.sub (fun _ mem => mem_cons_of_mem _ mem))
  have valid : (accountKey keccak address).Valid := accountKeyValid address
  have follows : Follows keccak (accountKey keccak address) (rootOf keccak (accountTree keccak t.accounts)) 0
      (routeNodes keccak t.accounts address) := (routeFollows proper valid (Nat.zero_le _)).1
  have final : finalLeaf (accountKey keccak address) 0 (routeNodes keccak t.accounts address) =
      (accountTree keccak t.accounts).lookup (accountKey keccak address) := (routeFollows proper valid (Nat.zero_le _)).2
  rw [← (rebuiltRoot current).1] at follows
  exact ⟨rfl,fun node mem => madeSound (accountTreeWithin t.accounts) node (routeNodesMade _ _ node mem),follows,
    final.trans (accountTreeLookup distinct)⟩

theorem routeNone (address) : routeNodes keccak t.accounts address = [] ↔ t.accounts = ∅ := by
  constructor
  · intro none'
    rcases t.accounts.emptyOrHolds with empty | ⟨a,account,found⟩
    · exact empty
    · have occupied : (accountTree keccak t.accounts).isEmpty = false :=
        growOccupied (ne_nil_of_mem (memAccountItems.mpr ⟨a,account,found,rfl⟩))
      rw [routeNodes,routeNext occupied] at none'
      cases none'
  · intro none'
    rw [none']
    rfl

theorem proofGenerated (reached : Reached keccak t) (address : Address)
    (distinct : DistinctHashes keccak (wordBytes address::hashedInputs keccak t.accounts)) (turns : Nat)
      (enough : 65 < turns) :
    ∃ proof nodes, generateProof keccak turns t address = some (.ok proof) ∧
      proof.address = address ∧ proof.stateRoot = t.root ∧ proof.accountState = t.accounts.lookup address ∧
      Authentic keccak proof nodes ∧ (proof.proofNodes = [] ↔ t.accounts = ∅) := by
  have current := reachedRebuilt reached
  refine ⟨routeProof keccak t address,routeNodes keccak t.accounts address,?_,rfl,rfl,rfl,?_,?_⟩
  · exact routeGenerated current address (distinct.sub (fun _ mem => mem_cons_of_mem _ mem)) enough
  · exact routeAuthentic current address distinct.addresses
  · exact map_eq_nil_iff.trans (routeNone address)

theorem twoAccountsProved :
    DistinctHashes spreadHash (wordBytes (1 : Address)::hashedInputs spreadHash twoAccounts.accounts) ∧ 65 < 66 ∧
      ∃ proof nodes, generateProof spreadHash 66 twoAccounts 1 = some (.ok proof) ∧
        proof.address = 1 ∧ proof.stateRoot = twoAccounts.root ∧ proof.accountState = twoAccounts.accounts.lookup 1 ∧
        Authentic spreadHash proof nodes ∧ (proof.proofNodes = [] ↔ twoAccounts.accounts = ∅) :=
  ⟨twoDistinct,by decide,proofGenerated twoReached 1 twoDistinct 66 (by decide)⟩

theorem authenticSound (current : t.Rebuilt keccak) {proof nodes}
    (authentic : Authentic keccak proof nodes) (root : proof.stateRoot = t.root) (distinct : DistinctHashes keccak
      (wordBytes proof.address::(nodes.map TrieNode.rlpEncode ++ hashedInputs keccak t.accounts))) :
    proof.accountState = t.accounts.lookup proof.address := by
  have addresses : DistinctHashes keccak (wordBytes proof.address::addressBytes t.accounts) :=
    distinct.sub (fun a mem => (mem_cons.mp mem).elim (fun here => here ▸ mem_cons_self)
      (fun there => mem_cons_of_mem _ (mem_append_right _ (mem_append_left _ there))))
  have encodings : DistinctHashes keccak
      (nodes.map TrieNode.rlpEncode ++ (made keccak (accountTree keccak t.accounts)).map TrieNode.rlpEncode) :=
    distinct.sub (fun a mem => mem_cons_of_mem _ ((mem_append.mp mem).elim (mem_append_left _)
      (fun there => mem_append_right _ (mem_append_right _ there))))
  have follows := authentic.follows
  rw [root,(rebuiltRoot current).1] at follows
  have proper : (accountTree keccak t.accounts).Proper :=
    accountTreeProper (addresses.sub (fun _ mem => mem_cons_of_mem _ mem))
  have final := followsLookup proper (accountKeyValid proof.address) (Nat.zero_le _) encodings authentic.sound
    (madeSound (accountTreeWithin t.accounts)) follows
  rw [authentic.final] at final
  exact Option.map_injective (fun _ _ => AccountState.rlpEncodeInj) (final.trans (accountTreeLookup addresses))

end
end QuantumChain.State
