import QuantumChain.StateTransfer
import QuantumChain.StatePersistence

/-! Runs of a trie, saving and loading included.
The root is that of a rebuild at every point. -/
namespace QuantumChain.State
open Option PatriciaMerkleTrie Finset
open KeyedMap
open StepRun (andThenKeeps)

section
variable (keccak : Bytes → Hash)

inductive Reached : PatriciaMerkleTrie → Prop where
  | started (config : StateConfig) : Reached (withConfig config)
  | performed {t} (before : Reached t) (op : Operation) : Reached (t.perform keccak op)
  | reloaded {t u} (before : Reached t) (accountVisit : Visit Address) (slotVisit : Visit (Address × StorageKey))
      (fewAccounts : t.accounts.size < 2^32) (fewSlots : t.storage.size < 2^32) {data : Bytes}
      (saved : t.serialize accountVisit slotVisit = .ok data) (loaded : deserialize keccak data = .ok u) : Reached u

end

section
variable {keccak : Bytes → Hash} {t u : PatriciaMerkleTrie}

theorem reloadRestored {accountVisit slotVisit data}
    (fewAccounts : t.accounts.size < 2^32) (fewSlots : t.storage.size < 2^32)
    (saved : t.serialize accountVisit slotVisit = .ok data) (loaded : deserialize keccak data = .ok u) :
    Restored keccak t u := by
  obtain ⟨bytes,v,saved',loaded',restored⟩ := deserializeSerialize keccak accountVisit slotVisit fewAccounts fewSlots
  cases saved.symm.trans saved'
  cases loaded.symm.trans loaded'
  exact restored

theorem reachedRebuilt (reached : Reached keccak t) : t.Rebuilt keccak := by
  induction reached with
  | started config => exact newRebuilt config
  | performed before op ih => exact performRebuilt ih op
  | reloaded before _ _ fewAccounts fewSlots saved loaded ih => exact
      (reloadRestored fewAccounts fewSlots saved loaded).rebuilt

theorem transferReached (reached : Reached keccak t) (modified) (tx) :
    Reached keccak (applyTransaction keccak t modified tx).2 := by
  unfold applyTransaction
  split
  · exact andThenKeeps (.performed reached (.applyNonceIncrement _ _)) fun _ _ kept => kept
  · refine andThenKeeps (.performed reached (.applyBalanceChange _ _)) fun _ _ debited => andThenKeeps ?_ fun _ _ paid =>
      andThenKeeps (.performed paid (.applyNonceIncrement _ _)) fun _ _ kept => kept
    split
    · exact debited
    · exact andThenKeeps (.performed debited (.applyBalanceChange _ _)) fun _ _ kept => kept

theorem blockReached (reached : Reached keccak t) (modified) (txs) :
    Reached keccak (applyTransactions keccak t modified txs).2 := by
  induction txs generalizing t modified with
  | nil => exact reached
  | cons tx rest ih => exact andThenKeeps (transferReached reached modified tx) fun modified _ kept => ih kept modified

structure Enters (t u : PatriciaMerkleTrie) (address : Address) (root : Hash) : Prop where
  account : ∃ account : AccountState, account.storageRoot = root ∧ u.accounts = t.accounts.insert address account
  storage : u.storage = t.storage
  counts : u.storageCounts = t.storageCounts

def PatriciaMerkleTrie.ownRoot (t : PatriciaMerkleTrie) (address : Address) : Hash :=
  ((t.accounts.lookup address).getD {}).storageRoot

theorem rebuildEnters (t) (address) (account) :
    Enters t (rebuildTrie keccak {t with accounts := t.accounts.insert address account}).2 address
      account.storageRoot := by
  obtain ⟨accounts,storage,counts⟩ := @rebuildKeeps keccak
    {t with accounts := t.accounts.insert address account}
  exact ⟨⟨account,rfl,accounts⟩,storage,counts⟩

theorem balanceEnters (t) (address) (balance) :
    Enters t (t.setBalance keccak address balance).2 address (t.ownRoot address) :=
  rebuildEnters t address {(t.accounts.lookup address).getD {} with balance := balance}

theorem nonceEnters (t) (address) : Enters t (t.incrementNonce keccak address).2 address (t.ownRoot address) := by
  unfold incrementNonce
  dsimp only
  split
  · exact ⟨⟨_,rfl,rfl⟩,rfl,rfl⟩
  · exact rebuildEnters t address {(t.accounts.lookup address).getD {} with nonce := _}

theorem changeEnters (t) (address) (delta) : (t.applyBalanceChange keccak address delta).2 = t ∧ delta.msb = true ∨
      Enters t (t.applyBalanceChange keccak address delta).2 address (t.ownRoot address) ∧
        (t.accounts.lookup address = none → delta.msb = false) := by
  unfold applyBalanceChange
  dsimp only
  cases sign : delta.msb with
  | false => exact .inr ⟨balanceEnters t address _,fun _ => rfl⟩
  | true =>
    by_cases poor : t.getBalance address < -delta
    · rw [if_neg (by decide),if_pos poor]
      exact .inl ⟨rfl,rfl⟩
    · rw [if_neg (by decide),if_neg poor]
      refine .inr ⟨balanceEnters t address _,fun absent => ?_⟩
      -- an account that is not there has nothing to take from
      have zero : t.getBalance address = 0 := by rw [getBalance,absent]; rfl
      rw [zero] at poor
      have none' : -delta = 0 := by simpa using poor
      rw [BitVec.neg_eq_zero_iff.mp none'] at sign
      exact absurd sign (by decide)

theorem bumpEnters (t) (address) (expected) :
    (t.applyNonceIncrement keccak address expected).2 = t ∧ t.getNonce address ≠ expected ∨
      Enters t (t.applyNonceIncrement keccak address expected).2 address (t.ownRoot address) ∧
        t.getNonce address = expected := by
  unfold applyNonceIncrement
  dsimp only
  split
  · rename_i other
    split <;> exact .inl ⟨rfl,other⟩
  · rename_i same
    exact .inr ⟨nonceEnters t address,not_not.mp same⟩

theorem updateRootKeeps (t : PatriciaMerkleTrie) (contract) :
    (t.updateStorageRoot keccak contract).storage = t.storage ∧
      (t.updateStorageRoot keccak contract).storageCounts = t.storageCounts := by
  unfold updateStorageRoot
  split <;> exact ⟨rfl,rfl⟩

theorem updateRootLookup (t : PatriciaMerkleTrie) (contract a) :
    (t.updateStorageRoot keccak contract).accounts.lookup a =
      if a = contract then
        (t.accounts.lookup a).map (fun account => {account with storageRoot := t.computeStorageRoot keccak contract})
      else t.accounts.lookup a := by
  unfold updateStorageRoot
  split
  · rename_i absent
    split
    · rename_i here
      rw [here,absent]
      rfl
    · rfl
  · rename_i account found
    rw [lookupInsert]
    split
    · rename_i here
      rw [here,found]
      rfl
    · rfl

theorem computeRootStorage (same : u.storage = t.storage) (contract) :
    u.computeStorageRoot keccak contract = t.computeStorageRoot keccak contract := by
  rw [computeStorageRoot,computeStorageRoot,same]

structure Stores (keccak : Bytes → Hash) (t u : PatriciaMerkleTrie) (contract : Address)
    (storage : KeyedMap (Address × StorageKey) StorageValue) (counts : KeyedMap Address Nat) : Prop where
  accounts : ∀ a, u.accounts.lookup a =
    if a = contract then
      (t.accounts.lookup a).map (fun account => {account with storageRoot := u.computeStorageRoot keccak contract})
    else t.accounts.lookup a
  storage : u.storage = storage
  counts : u.storageCounts = counts

theorem rebuildStores (t) (contract) (storage) (counts) : Stores keccak t (rebuildTrie keccak
      (PatriciaMerkleTrie.updateStorageRoot keccak {t with storageCounts := counts, storage := storage} contract)).2
      contract storage counts := by
  obtain ⟨accounts,slots,counters⟩ := @rebuildKeeps keccak
    (updateStorageRoot keccak {t with storageCounts := counts, storage := storage} contract)
  obtain ⟨slots',counters'⟩ := @updateRootKeeps keccak {t with storageCounts := counts, storage := storage} contract
  refine ⟨fun a => ?_,slots.trans slots',counters.trans counters'⟩
  rw [accounts,updateRootLookup,computeRootStorage (slots.trans slots')]

theorem setStorageStores (t) (contract) (key) (value) : (t.setStorage keccak contract key value).2 =
        {t with storageCounts := t.storageCounts.insert contract ((t.storageCounts.lookup contract).getD 0)} ∨
      Stores keccak t (t.setStorage keccak contract key value).2 contract (t.storage.insert (contract,key) value)
        (t.storageCounts.insert contract (if (t.storage.lookup (contract,key)).isNone then
          (t.storageCounts.lookup contract).getD 0 + 1 else (t.storageCounts.lookup contract).getD 0)) := by
  unfold setStorage
  dsimp only
  split
  · exact .inl rfl
  · exact .inr (rebuildStores t contract _ _)

theorem deleteStorageStores (t : PatriciaMerkleTrie) (contract) (key) : (t.deleteStorage keccak contract key).2 = t ∨
      ∃ value, t.storage.lookup (contract,key) = some value ∧
        Stores keccak t (t.deleteStorage keccak contract key).2 contract (t.storage.erase (contract,key))
          (match t.storageCounts.lookup contract with
            | some count => t.storageCounts.insert contract (count - 1)
            | none => t.storageCounts) := by
  unfold deleteStorage
  cases found : t.storage.lookup (contract,key) with
  | none => exact .inl rfl
  | some value => exact .inr ⟨value,rfl,rebuildStores t contract _ _⟩

theorem slotsInsertFresh {storage slot} (fresh : storage.lookup slot = none) (value) (contract) :
    slotsOf (storage.insert slot value) contract = slotsOf storage contract + if slot.1 = contract then 1 else 0 := by
  have absent : slot ∉ storage.keys := by
    intro present
    obtain ⟨v,found⟩ := memKeys.mp present
    rw [fresh] at found
    cases found
  rw [slotsOf,keysInsert,filter_insert]
  split
  · exact card_insert_of_notMem (fun inside => absent (mem_of_mem_filter _ inside))
  · rfl

theorem slotsInsertKnown {storage slot old} (known : storage.lookup slot = some old) (value) (contract) :
    slotsOf (storage.insert slot value) contract = slotsOf storage contract := by
  rw [slotsOf,keysInsert,insert_eq_of_mem (memKeys.mpr ⟨old,known⟩)]
  rfl

theorem slotsErase {storage slot old} (known : storage.lookup slot = some old) (contract) :
    slotsOf storage contract = slotsOf (storage.erase slot) contract + if slot.1 = contract then 1 else 0 := by
  have step := slotsInsertFresh (Finmap.lookup_erase slot storage) old contract
  rwa [eraseInsert known] at step

theorem setStorageCounted (counted : t.Counted) (contract : Address) (key) (value) :
    (t.setStorage keccak contract key value).2.Counted := by
  intro a
  have before := counted a
  rcases @setStorageStores keccak t contract key value with refused | stores
  · rw [refused]
    refine Eq.trans ?_ before
    show ((t.storageCounts.insert contract _).lookup a).getD 0 = _
    rw [lookupInsert]
    split
    · rename_i here
      rw [here]
      rfl
    · rfl
  · rw [stores.counts,slots,stores.storage,lookupInsert]
    cases found : t.storage.lookup (contract,key) with
    | none =>
      rw [slotsInsertFresh found]
      by_cases here : a = contract
      · subst here
        simp only [if_true,isNone_none,getD_some,before]
        rfl
      · rw [if_neg here,if_neg (Ne.symm here),before]
        rfl
    | some old =>
      rw [slotsInsertKnown found]
      by_cases here : a = contract
      · subst here
        simp only [if_true,isNone_some,Bool.false_eq_true,if_false,getD_some,before]
        rfl
      · rw [if_neg here,before]
        rfl

theorem deleteStorageCounted (counted : t.Counted) (contract : Address) (key : StorageKey) :
    (t.deleteStorage keccak contract key).2.Counted := by
  rcases @deleteStorageStores keccak t contract key with none' | ⟨value,found,stores⟩
  · rw [none']
    exact counted
  · intro a
    have before := counted a
    have fewer := slotsErase found a
    rw [stores.counts,slots,stores.storage]
    rw [slots] at before
    by_cases here : a = contract
    · subst here
      simp only [if_true] at fewer
      cases count : t.storageCounts.lookup a with
      | none =>
        rw [count,getD_none] at before
        omega
      | some n =>
        rw [count,getD_some] at before
        simp only [lookupInsert,if_true,getD_some]
        omega
    · rw [if_neg (Ne.symm here)] at fewer
      rw [← Nat.add_zero (slotsOf (t.storage.erase (contract,key)) a),← fewer,← before]
      cases t.storageCounts.lookup contract with
      | none => rfl
      | some n => rw [lookupInsert,if_neg here]

theorem entersCounted (counted : t.Counted) {address root} (enters : Enters t u address root) : u.Counted := by
  intro contract
  rw [enters.counts,slots,enters.storage]
  exact counted contract

theorem performCounted (counted : t.Counted) (op : Operation) : (t.perform keccak op).Counted := by
  cases op with
  | insertAccount address account => exact entersCounted counted (rebuildEnters t address account)
  | setBalance address balance => exact entersCounted counted (balanceEnters t address balance)
  | incrementNonce address => exact entersCounted counted (nonceEnters t address)
  | applyBalanceChange address delta =>
    rcases @changeEnters keccak t address delta with same | enters
    · rw [perform,same.1]
      exact counted
    · exact entersCounted counted enters.1
  | applyNonceIncrement address expected =>
    rcases @bumpEnters keccak t address expected with same | enters
    · rw [perform,same.1]
      exact counted
    · exact entersCounted counted enters.1
  | setStorage contract key value => exact setStorageCounted counted contract key value
  | deleteStorage contract key => exact deleteStorageCounted counted contract key

theorem reachedCounted (reached : Reached keccak t) : t.Counted := by
  induction reached with
  | started config => exact fun contract => rfl
  | performed before op ih => exact performCounted ih op
  | reloaded before _ _ fewAccounts fewSlots saved loaded ih => exact
      (reloadRestored fewAccounts fewSlots saved loaded).counted

theorem slotCounted (counted : t.Counted) {contract key value}
    (found : t.storage.lookup (contract,key) = some value) : t.storageCounts.lookup contract = some (t.slots contract) := by
  have occupied := slotsErase found contract
  rw [if_pos rfl] at occupied
  have count := counted contract
  rw [slots] at *
  cases counter : t.storageCounts.lookup contract with
  | none =>
    rw [counter,getD_none] at count
    omega
  | some n =>
    rw [counter,getD_some] at count
    rw [count]

theorem persistenceRoundTrip (reached : Reached keccak t) (fewAccounts : t.accounts.size < 2^32)
    (fewSlots : t.storage.size < 2^32) (accountVisit : Visit Address) (slotVisit : Visit (Address × StorageKey)) :
    ∃ data u, t.serialize accountVisit slotVisit = .ok data ∧ deserialize keccak data = .ok u ∧
      u.accounts = t.accounts ∧ u.storage = t.storage ∧ u.root = t.root ∧ u.nodes = t.nodes ∧
      (∀ contract key value, t.storage.lookup (contract,key) = some value →
        u.storageCounts.lookup contract = t.storageCounts.lookup contract) ∧
      (t.config = {} → u.config = t.config) ∧
      (DistinctHashes keccak (addressBytes t.accounts) →
        ∀ visit, rebuiltIn keccak visit u.accounts = some (t.root,t.nodes)) := by
  obtain ⟨data,u,saved,loaded,restored⟩ := deserializeSerialize keccak accountVisit slotVisit fewAccounts fewSlots
  have current : rebuilt keccak t.accounts = some (t.root,t.nodes) := reachedRebuilt reached
  have again : rebuilt keccak u.accounts = some (u.root,u.nodes) := restored.rebuilt
  rw [restored.accounts] at again
  obtain ⟨root,nodes⟩ := Prod.mk.inj (Option.some.inj (again.symm.trans current))
  refine ⟨data,u,saved,loaded,restored.accounts,restored.storage,root,nodes,?_,fun default =>
    restored.config.trans default.symm,?_⟩
  · intro contract key value found
    rw [slotCounted (reachedCounted reached) found,slotCounted restored.counted (restored.storage ▸ found),
      slots,restored.storage]
    rfl
  · intro distinct visit
    rw [restored.accounts,rebuiltOrder distinct visit,current]

end

def oneContract : PatriciaMerkleTrie :=
  ((withConfig {}).perform numberHash (.setBalance 1 5)).perform numberHash (.setStorage 1 7 9)

theorem oneContractReloads : oneContract.accounts.size < 2^32 ∧ oneContract.storage.size < 2^32 ∧
      ∀ accountVisit slotVisit, ∃ data u, oneContract.serialize accountVisit slotVisit = .ok data ∧
        deserialize numberHash data = .ok u ∧ u.accounts = oneContract.accounts ∧ u.storage = oneContract.storage ∧
        u.root = oneContract.root ∧ u.nodes = oneContract.nodes ∧
        (∀ contract key value, oneContract.storage.lookup (contract,key) = some value →
          u.storageCounts.lookup contract = oneContract.storageCounts.lookup contract) ∧
        (oneContract.config = {} → u.config = oneContract.config) ∧
        (DistinctHashes numberHash (addressBytes oneContract.accounts) →
          ∀ visit, rebuiltIn numberHash visit u.accounts = some (oneContract.root,oneContract.nodes)) := by
  have fewAccounts : oneContract.accounts.size < 2^32 := by decide +kernel
  have fewSlots : oneContract.storage.size < 2^32 := by decide +kernel
  have reached : Reached numberHash oneContract := .performed (.performed (.started {}) _) _
  exact ⟨fewAccounts,fewSlots,persistenceRoundTrip reached fewAccounts fewSlots⟩

end QuantumChain.State
