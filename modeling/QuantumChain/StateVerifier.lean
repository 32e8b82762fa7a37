import QuantumChain.StateProofs

/-! The second verifier of state proofs.
Keccak is a parameter, and the nodes may be any bytes. -/
namespace QuantumChain.State

inductive VerifyError where
  | proofTooDeep (depth max : Nat)
  | emptyProof
  | pathMismatch
  | invalidNode
  | hashMismatch
  | unexpectedNodeType
  deriving DecidableEq, Repr

abbrev Verdict (α : Type) := Except (Fault VerifyError) α

inductive ProofNode where
  | leaf (path value : Bytes)
  | extension (path : Bytes) (childHash : Hash)
  | branch (children : List (Option Hash)) (value : Option Bytes)
  deriving DecidableEq, Repr

def maxProofDepth : Nat := 64
def leafDomain : UInt8 := 0x00
def extensionDomain : UInt8 := 0x01
def branchDomain : UInt8 := 0x02

def addressToNibbles (address : Address) : Nibbles := Nibbles.fromBytes (wordBytes address)

def hashWithDomain (keccak : Bytes → Hash) (domain : UInt8) (data : Bytes) : Hash := keccak (domain :: data)

def serializeExpected (account : AccountState) : Bytes :=
  leBytes 16 account.balance.toNat ++ leBytes 8 account.nonce.toNat ++ wordBytes account.codeHash ++
    wordBytes account.storageRoot

def decodeProofNode (data : Bytes) : Verdict ProofNode :=
  match data with
  | [] => .error (.error .invalidNode)
  | first::rest =>
    if first = 0x00 then
      match rest with
      | pathLen::body =>
        if data.length < 3 ∨ data.length < 2 + pathLen.toNat then .error (.error .invalidNode)
        else .ok (.leaf (body.take pathLen.toNat) (body.drop pathLen.toNat))
      | [] => .error (.error .invalidNode)
    else if first = 0x01 then
      match rest with
      | pathLen::body =>
        if data.length < 35 ∨ data.length < 2 + pathLen.toNat + 32 then .error (.error .invalidNode)
        else .ok (.extension (body.take pathLen.toNat)
          (BitVec.ofNat 256 (beNumber ((body.drop pathLen.toNat).take 32))))
      | [] => .error (.error .invalidNode)
    else if first = 0x02 then .ok (.branch (List.replicate 16 none) none)
    else .error (.error .unexpectedNodeType)

section
variable (keccak : Bytes → Hash)

def verifyNodes (key : Nibbles) (expectedAccount : Option AccountState) : Nat → Nat → Hash → List Bytes → Verdict Bool
  | _,_,_,[] => .error (.error .invalidNode)
  | i,nibbleIdx,currentHash,nodeBytes::rest =>
    match decodeProofNode nodeBytes with
    | .error e => .error e
    | .ok (.leaf path value) =>
      match Nibbles.slice key nibbleIdx with
      | none => .error .panic
      | some remaining =>
        if path ≠ remaining then .error (.error .pathMismatch)
        else if 0 < i ∧ hashWithDomain keccak leafDomain nodeBytes ≠ currentHash then .error (.error .hashMismatch)
        else
          match expectedAccount with
          | some expected => .ok (decide (value = serializeExpected expected))
          | none => .ok true
    | .ok (.extension path childHash) =>
      if key.length < nibbleIdx + path.length then .error (.error .pathMismatch)
      else
        match Nibbles.sliceRange key nibbleIdx (nibbleIdx + path.length) with
        | none => .error .panic
        | some segment =>
          if path ≠ segment then .error (.error .pathMismatch)
          else if 0 < i ∧ hashWithDomain keccak extensionDomain nodeBytes ≠ currentHash then .error (.error .hashMismatch)
          else verifyNodes key expectedAccount (i + 1) (nibbleIdx + path.length) childHash rest
    | .ok (.branch children _) =>
      match key[nibbleIdx]? with
      | none => .error (.error .pathMismatch)
      | some nibble =>
        if 0 < i ∧ hashWithDomain keccak branchDomain nodeBytes ≠ currentHash then .error (.error .hashMismatch)
        else
          match children[nibble.toNat]? with
          | none => .error .panic
          | some none => .error (.error .pathMismatch)
          | some (some child) => verifyNodes key expectedAccount (i + 1) (nibbleIdx + 1) child rest

def verifyProofIterative (proof : StateProof) (expectedAccount : Option AccountState) : Verdict Bool :=
  if maxProofDepth < proof.proofNodes.length then .error (.error (.proofTooDeep proof.proofNodes.length maxProofDepth))
  else if proof.proofNodes = [] then .error (.error .emptyProof)
  else verifyNodes keccak (addressToNibbles proof.address) expectedAccount 0 0 proof.stateRoot proof.proofNodes

end

theorem trieNodeUndecoded (node : TrieNode) : decodeProofNode node.rlpEncode = .error (.error .unexpectedNodeType) := by
  have large : ∃ first rest, node.rlpEncode = first::rest ∧ 128 ≤ first.toNat := by
    by_cases none' : node = .empty
    · exact ⟨0x80,[],by rw [none']; rfl,by decide⟩
    · obtain ⟨first,rest,shape,large⟩ := TrieNode.encodedFirst none'
      exact ⟨first,rest,shape,by omega⟩
  obtain ⟨first,rest,shape,large⟩ := large
  have apart : ∀ domain, domain.toNat < 128 → first ≠ domain := by
    intro domain small same
    rw [same] at large
    omega
  rw [shape]
  unfold decodeProofNode
  dsimp only
  rw [if_neg (apart 0x00 (by decide)),if_neg (apart 0x01 (by decide)),if_neg (apart 0x02 (by decide))]

def refusal (nodes : Nat) : VerifyError :=
  if maxProofDepth < nodes then .proofTooDeep nodes maxProofDepth
  else if nodes = 0 then .emptyProof
  else .unexpectedNodeType

section
variable {keccak : Bytes → Hash}

theorem trieNodesRefused {proof} {nodes : List TrieNode} (encoded : proof.proofNodes = nodes.map TrieNode.rlpEncode)
    (expectedAccount) :
    verifyProofIterative keccak proof expectedAccount = .error (.error (refusal proof.proofNodes.length)) := by
  unfold verifyProofIterative refusal
  split
  · rfl
  · rw [encoded]
    cases nodes with
    | nil => rfl
    | cons node rest =>
      rw [List.map_cons,if_neg (List.cons_ne_nil _ _),verifyNodes,trieNodeUndecoded]
      rfl

theorem walkEncoded {nodes address key turns current depth collected}
    (walk : proofWalk nodes address key turns current depth = some (.ok collected)) :
    ∃ route : List TrieNode, collected = route.map TrieNode.rlpEncode := by
  induction turns generalizing current depth collected with
  | zero => cases walk
  | succ turns ih =>
    rw [proofWalk] at walk
    split at walk
    · cases walk
      exact ⟨[],rfl⟩
    · cases found : nodes.lookup current with
      | none =>
        rw [found] at walk
        cases walk
      | some node =>
        simp only [found] at walk
        split at walk
        · cases walk
        · cases walk
          exact ⟨[node],rfl⟩
        · obtain ⟨result,later,whole⟩ := Option.map_eq_some_iff.mp walk
          cases result with
          | error e => cases whole
          | ok rest =>
            cases whole
            obtain ⟨route,rfl⟩ := ih later
            exact ⟨node::route,rfl⟩

theorem generatedProofRefused (t : PatriciaMerkleTrie) (address : Address) (turns : Nat) (proof : StateProof)
    (generated : generateProof keccak turns t address = some (.ok proof)) :
    ((∀ account, t.accounts.lookup address = some account → verifyProofIterative keccak proof (some account) = .ok true) ↔
        t.accounts.lookup address = none) ∧
      ∀ expectedAccount,
        verifyProofIterative keccak proof expectedAccount = .error (.error (refusal proof.proofNodes.length)) := by
  have refused : ∀ expectedAccount,
      verifyProofIterative keccak proof expectedAccount = .error (.error (refusal proof.proofNodes.length)) := by
    obtain ⟨result,walk,made'⟩ := Option.map_eq_some_iff.mp generated
    cases result with
    | error e => cases made'
    | ok collected =>
      cases made'
      obtain ⟨route,encoded⟩ := walkEncoded walk
      exact fun expectedAccount => trieNodesRefused encoded expectedAccount
  refine ⟨⟨fun accepts => ?_,fun absent account found => ?_⟩,refused⟩
  · cases found : t.accounts.lookup address with
    | none => rfl
    | some account =>
      have accepted := accepts account found
      rw [refused] at accepted
      cases accepted
  · rw [absent] at found
    cases found

theorem twoGenerated : generateProof spreadHash 66 twoAccounts 1 = some (.ok (routeProof spreadHash twoAccounts 1)) :=
  routeGenerated (reachedRebuilt twoReached) 1 (twoDistinct.sub (fun _ mem => List.mem_cons_of_mem _ mem)) (by decide)

theorem twoAccountsRefused :
    generateProof spreadHash 66 twoAccounts 1 = some (.ok (routeProof spreadHash twoAccounts 1)) ∧
      ((∀ account, twoAccounts.accounts.lookup 1 = some account →
          verifyProofIterative spreadHash (routeProof spreadHash twoAccounts 1) (some account) = .ok true) ↔
        twoAccounts.accounts.lookup 1 = none) ∧
      ∀ expectedAccount, verifyProofIterative spreadHash (routeProof spreadHash twoAccounts 1) expectedAccount =
        .error (.error (refusal (routeProof spreadHash twoAccounts 1).proofNodes.length)) :=
  ⟨twoGenerated,generatedProofRefused twoAccounts 1 66 _ twoGenerated⟩

theorem storedAccountRefused : twoAccounts.accounts.lookup 1 = some {balance := 5} ∧
      generateProof spreadHash 66 twoAccounts 1 = some (.ok (routeProof spreadHash twoAccounts 1)) ∧
      verifyProofIterative spreadHash (routeProof spreadHash twoAccounts 1) (some {balance := 5}) =
        .error (.error .unexpectedNodeType) :=
  ⟨by decide +kernel,twoGenerated,by rfl⟩

end
end QuantumChain.State
