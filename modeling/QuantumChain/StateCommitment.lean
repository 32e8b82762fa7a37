import QuantumChain.StateProofs

/-! What the state root commits to.
Equal roots give equal accounts only without collisions. -/
namespace QuantumChain.State
open PatriciaMerkleTrie
open List KeyedMap
open StepRun (Along alongExact)

section
variable {keccak : Bytes → Hash} {t u : PatriciaMerkleTrie}

theorem sameRootAccount (currentT : t.Rebuilt keccak) (currentU : u.Rebuilt keccak) (root : t.root = u.root)
    (distinct : DistinctHashes keccak (hashedInputs keccak t.accounts ++ hashedInputs keccak u.accounts))
    {address : Address} (listed : wordBytes address ∈ hashedInputs keccak t.accounts ++ hashedInputs keccak u.accounts) :
    t.accounts.lookup address = u.accounts.lookup address := by
  have addresses : DistinctHashes keccak (wordBytes address::addressBytes t.accounts) :=
    distinct.sub (fun a mem => (mem_cons.mp mem).elim (fun own => own ▸ listed)
      (fun other => mem_append_left _ (mem_append_left _ other)))
  have nodes : DistinctHashes keccak (wordBytes address::
      ((routeNodes keccak t.accounts address).map TrieNode.rlpEncode ++ hashedInputs keccak u.accounts)) := by
    refine distinct.sub (fun a mem => ?_)
    rcases mem_cons.mp mem with own | other
    · exact own ▸ listed
    · rcases mem_append.mp other with onRoute | there
      · exact mem_append_left _ (routeEncoded onRoute)
      · exact mem_append_right _ there
  exact authenticSound currentU (routeAuthentic currentT address addresses) root nodes

theorem rootCommitsAccounts (reachedT : Reached keccak t) (reachedU : Reached keccak u)
    (distinct : DistinctHashes keccak (hashedInputs keccak t.accounts ++ hashedInputs keccak u.accounts)) :
    (t.root = u.root ↔ t.accounts = u.accounts) ∧
      ∀ visit, rebuiltIn keccak visit t.accounts = some (t.root,t.nodes) := by
  have currentT := reachedRebuilt reachedT
  have currentU := reachedRebuilt reachedU
  refine ⟨⟨fun root => ?_,fun accounts => ?_⟩,fun visit => ?_⟩
  · apply Finmap.ext_lookup
    intro address
    cases left : t.accounts.lookup address with
    | some account =>
      rw [← left]
      exact sameRootAccount currentT currentU root distinct
        (mem_append_left _ (mem_append_left _ (memAddressBytes left)))
    | none =>
      cases right : u.accounts.lookup address with
      | none => rfl
      | some account =>
        rw [← left,← right]
        exact sameRootAccount currentT currentU root distinct
          (mem_append_right _ (mem_append_left _ (memAddressBytes right)))
  · rw [(rebuiltRoot currentT).1,(rebuiltRoot currentU).1,accounts]
  · rw [rebuiltOrder (distinct.sub (fun _ mem => mem_append_left _ (mem_append_left _ mem))) visit]
    exact currentT

end

def twoAccountsBackwards : PatriciaMerkleTrie :=
  ((PatriciaMerkleTrie.withConfig {}).perform spreadHash (.setBalance 2 6)).perform spreadHash (.setBalance 1 5)

theorem twoAccountsCommitted : DistinctHashes spreadHash (hashedInputs spreadHash twoAccounts.accounts ++
        hashedInputs spreadHash twoAccountsBackwards.accounts) ∧
      (twoAccounts.root = twoAccountsBackwards.root ↔ twoAccounts.accounts = twoAccountsBackwards.accounts) ∧
      ∀ visit, rebuiltIn spreadHash visit twoAccounts.accounts = some (twoAccounts.root,twoAccounts.nodes) := by
  have distinct : DistinctHashes spreadHash (hashedInputs spreadHash twoAccounts.accounts ++
      hashedInputs spreadHash twoAccountsBackwards.accounts) := by decide +kernel
  have backwards : Reached spreadHash twoAccountsBackwards := .performed (.performed (.started {}) _) _
  exact ⟨distinct,rootCommitsAccounts twoReached backwards distinct⟩

section
variable (keccak : Bytes → Hash) (t : PatriciaMerkleTrie)

def Committed : Prop :=
  ∀ address account, t.accounts.lookup address = some account → account.storageRoot = t.computeStorageRoot keccak address

def Unslotted (address : Address) : Prop :=
  t.accounts.lookup address = none → t.computeStorageRoot keccak address = emptyTrieRoot

def Orderly : Operation → Prop
  | .insertAccount address account => account.storageRoot = t.computeStorageRoot keccak address
  | .setBalance address _ => Unslotted keccak t address
  | .incrementNonce address => Unslotted keccak t address
  | .applyBalanceChange address delta => delta.msb = false → Unslotted keccak t address
  | .applyNonceIncrement address expected => expected = 0 → Unslotted keccak t address
  | .setStorage _ _ _ => True
  | .deleteStorage _ _ => True

end

section
variable {keccak : Bytes → Hash} {t u : PatriciaMerkleTrie}

theorem computeRootOwn {contract}
    (same : ∀ key, u.storage.lookup (contract,key) = t.storage.lookup (contract,key)) :
    u.computeStorageRoot keccak contract = t.computeStorageRoot keccak contract := by
  have keys : (u.storage.keys.filter (fun slot => slot.1 = contract)).image Prod.snd =
      (t.storage.keys.filter (fun slot => slot.1 = contract)).image Prod.snd := by
    ext key
    simp only [Finset.mem_image,Finset.mem_filter,memKeys,Prod.exists]
    constructor
    · rintro ⟨a,k,⟨⟨v,found⟩,rfl⟩,rfl⟩
      exact ⟨a,k,⟨⟨v,(same k).symm.trans found⟩,rfl⟩,rfl⟩
    · rintro ⟨a,k,⟨⟨v,found⟩,rfl⟩,rfl⟩
      exact ⟨a,k,⟨⟨v,(same k).trans found⟩,rfl⟩,rfl⟩
  simp only [computeStorageRoot,keys,same]

theorem noSlotsRoot {contract} (none' : t.slots contract = 0) :
    t.computeStorageRoot keccak contract = emptyTrieRoot := by
  have empty := Finset.card_eq_zero.mp none'
  rw [computeStorageRoot,empty]
  rfl

theorem entersCommitted (committed : Committed keccak t) {address root}
    (enters : Enters t u address root) : Committed keccak u ↔ root = t.computeStorageRoot keccak address := by
  obtain ⟨⟨account,rfl,accounts⟩,storage,_⟩ := enters
  constructor
  · intro after
    have own := after address account (by rw [accounts,lookupInsert,if_pos rfl])
    rwa [computeRootStorage storage] at own
  · intro root a stored found
    rw [accounts,lookupInsert] at found
    rw [computeRootStorage storage]
    split at found
    · rename_i here
      cases found
      rw [here,root]
    · exact committed a stored found

theorem ownRootCommitted (committed : Committed keccak t) (address) :
    t.ownRoot address = t.computeStorageRoot keccak address ↔ Unslotted keccak t address := by
  rw [ownRoot,Unslotted]
  cases found : t.accounts.lookup address with
  | none => exact ⟨fun same _ => same.symm,fun empty => (empty rfl).symm⟩
  | some account =>
    have own := committed address account found
    exact ⟨fun _ absent => absurd absent (Option.some_ne_none account),fun _ => own⟩

theorem storesCommitted (committed : Committed keccak t) {contract storage counts}
    (stores : Stores keccak t u contract storage counts)
    (others : ∀ slot, slot.1 ≠ contract → storage.lookup slot = t.storage.lookup slot) : Committed keccak u := by
  intro address account found
  rw [stores.accounts] at found
  split at found
  · rename_i here
    obtain ⟨before,_,rfl⟩ := Option.map_eq_some_iff.mp found
    rw [here]
  · rename_i other
    rw [committed address account found]
    refine (computeRootOwn (fun key => ?_)).symm
    rw [stores.storage]
    exact others (address,key) other

theorem storageOpCommitted (committed : Committed keccak t) (contract) (key) :
    (∀ value, Committed keccak (t.setStorage keccak contract key value).2) ∧
      Committed keccak (t.deleteStorage keccak contract key).2 := by
  have elsewhere : ∀ slot, slot.1 ≠ contract → slot ≠ (contract,key) :=
    fun slot other same => other (congrArg Prod.fst same)
  constructor
  · intro value
    rcases @setStorageStores keccak t contract key value with refused | stores
    · rw [refused]
      exact committed
    · exact storesCommitted committed stores (fun slot other => by rw [lookupInsert,if_neg (elsewhere slot other)])
  · rcases @deleteStorageStores keccak t contract key with none' | ⟨value,_,stores⟩
    · rw [none']
      exact committed
    · exact storesCommitted committed stores (fun slot other => by rw [lookupErase,if_neg (elsewhere slot other)])

theorem performCommitted (committed : Committed keccak t) (op) :
    Committed keccak (t.perform keccak op) ↔ Orderly keccak t op := by
  cases op with
  | insertAccount address account => exact entersCommitted committed (rebuildEnters t address account)
  | setBalance address balance =>
    exact (entersCommitted committed (balanceEnters t address balance)).trans (ownRootCommitted committed address)
  | incrementNonce address =>
    exact (entersCommitted committed (nonceEnters t address)).trans (ownRootCommitted committed address)
  | applyBalanceChange address delta =>
    rw [perform,Orderly]
    rcases @changeEnters keccak t address delta with ⟨same,negative⟩ | ⟨enters,creates⟩
    · rw [same,negative]
      simp [committed]
    · rw [entersCommitted committed enters,ownRootCommitted committed]
      exact ⟨fun empty _ => empty,fun empty absent => empty (creates absent) absent⟩
  | applyNonceIncrement address expected =>
    rw [perform,Orderly]
    have fresh : t.accounts.lookup address = none → t.getNonce address = 0 := by
      intro absent
      rw [getNonce,absent]
      rfl
    rcases @bumpEnters keccak t address expected with ⟨same,other⟩ | ⟨enters,own⟩
    · rw [same]
      refine ⟨fun _ zero absent => ?_,fun _ => committed⟩
      exact absurd ((fresh absent).trans zero.symm) other
    · rw [entersCommitted committed enters,ownRootCommitted committed]
      exact ⟨fun empty _ => empty,fun empty absent => empty (own.symm.trans (fresh absent)) absent⟩
  | setStorage contract key value => simp [perform,Orderly,(storageOpCommitted committed contract key).1 value]
  | deleteStorage contract key => simp [perform,Orderly,(storageOpCommitted committed contract key).2]

theorem storageRootsCommitted (keccak : Bytes → Hash) (config : StateConfig) (ops : List Operation) :
    (Along (PatriciaMerkleTrie.perform keccak) (fun t op => Committed keccak (t.perform keccak op))
        (PatriciaMerkleTrie.withConfig config) ops ↔
      Along (PatriciaMerkleTrie.perform keccak) (Orderly keccak) (PatriciaMerkleTrie.withConfig config) ops) ∧
      ∀ (t : PatriciaMerkleTrie) (address : Address), t.slots address = 0 →
        t.computeStorageRoot keccak address = emptyTrieRoot := by
  have start : Committed keccak (withConfig config) := by
    intro address account found
    cases found
  have exact' := fun t op (committed : Committed keccak t) => performCommitted committed op
  refine ⟨alongExact (I := Committed keccak) (fun t op committed => (exact' t op committed).mpr) (fun _ committed =>
    committed)
    (fun t op committed => (exact' t op committed).mp) start,fun _ _ => noSlotsRoot⟩

def lateAccount : List Operation := [.setStorage 1 7 9,.setBalance 1 5]

theorem lateAccountUncommitted :
    (StepRun.run (PatriciaMerkleTrie.perform numberHash) (PatriciaMerkleTrie.withConfig {}) lateAccount).accounts.lookup 1 =
        some {balance := 5, storageRoot := emptyTrieRoot} ∧
      (StepRun.run (perform numberHash) (withConfig {}) lateAccount).computeStorageRoot
        numberHash 1 = 9 ∧ emptyTrieRoot ≠ 9 :=
  ⟨by decide +kernel,by decide +kernel,by decide⟩

end
end QuantumChain.State
