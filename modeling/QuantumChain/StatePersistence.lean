import QuantumChain.StateTree
import QuantumChain.ByteCursor

/-! Saving and loading the trie.
The maps may be saved in any order. -/
namespace QuantumChain.State
open PatriciaMerkleTrie
open List
open ByteCursor (Reader Reads andRead done repeated wordAt leNumberAt readsThen readsLast readsWord readsLe readsRepeated)

def serializeAccount (entry : Address × AccountState) : Bytes :=
  wordBytes entry.1 ++ (leBytes 16 entry.2.balance.toNat ++ (leBytes 8 entry.2.nonce.toNat ++
    (wordBytes entry.2.codeHash ++ wordBytes entry.2.storageRoot)))

def serializeSlot (entry : (Address × StorageKey) × StorageValue) : Bytes :=
  wordBytes entry.1.1 ++ (wordBytes entry.1.2 ++ wordBytes entry.2)

def countBytes (n : Nat) : Bytes := leBytes 4 (n % 2^32)

def PatriciaMerkleTrie.serialize (accountVisit : Visit Address) (slotVisit : Visit (Address × StorageKey))
    (t : PatriciaMerkleTrie) : Outcome Bytes :=
  .ok (2 :: (wordBytes t.root ++ (countBytes t.accounts.size ++ ((accountVisit.entries t.accounts).flatMap serializeAccount ++
    (countBytes t.storage.size ++ (slotVisit.entries t.storage).flatMap serializeSlot)))))

section
variable (data : Bytes)

def readAccount : Reader (Fault StateError) (Address × AccountState) :=
  andRead (wordAt .panic data 160) fun address =>
  andRead (leNumberAt .panic data 16) fun balance =>
  andRead (leNumberAt .panic data 8) fun nonce =>
  andRead (wordAt .panic data 256) fun codeHash =>
  andRead (wordAt .panic data 256) fun storageRoot =>
  done (address,⟨BitVec.ofNat 128 balance,BitVec.ofNat 64 nonce,codeHash,storageRoot⟩)

def deserializeAccounts : Reader (Fault StateError) (KeyedMap Address AccountState) :=
  andRead (leNumberAt .panic data 4) fun count =>
  repeated (readAccount data) (fun accounts entry => accounts.insert entry.1 entry.2) count ∅

def readSlot : Reader (Fault StateError) ((Address × StorageKey) × StorageValue) :=
  andRead (wordAt .panic data 160) fun address =>
  andRead (wordAt .panic data 256) fun key =>
  andRead (wordAt .panic data 256) fun value =>
  done ((address,key),value)

abbrev StoredSlots := KeyedMap (Address × StorageKey) StorageValue × KeyedMap Address Nat

def enterSlot (stored : StoredSlots) (entry : (Address × StorageKey) × StorageValue) : StoredSlots :=
  (stored.1.insert entry.1 entry.2,stored.2.insert entry.1.1 ((stored.2.lookup entry.1.1).getD 0 + 1))

def deserializeStorage : Reader (Fault StateError) StoredSlots :=
  andRead (leNumberAt .panic data 4) fun count =>
  repeated (readSlot data) enterSlot count (∅,∅)

end

def rebuiltFrom (keccak : Bytes → Hash) (accounts : KeyedMap Address AccountState) (stored : StoredSlots) :
    Outcome PatriciaMerkleTrie :=
  let trie : PatriciaMerkleTrie := ⟨emptyTable,emptyTrieRoot,accounts,stored.1,stored.2,{}⟩
  match trie.rebuildTrie keccak with
  | (.ok _,trie) => .ok trie
  | (.error e,_) => .error e

def deserialize (keccak : Bytes → Hash) (data : Bytes) : Outcome PatriciaMerkleTrie :=
  match data with
  | [] => .ok (PatriciaMerkleTrie.withConfig {})
  | version::_ =>
    if version ≠ 1 ∧ version ≠ 2 then
      .error (.error (.databaseError ("Unsupported trie version: " ++ toString version.toNat)))
    else
      -- the 32 bytes of the root behind the version are passed over
      match (andRead (deserializeAccounts data) fun accounts =>
          andRead (deserializeStorage data) fun stored => done (accounts,stored)) 33 with
      | .error e => .error e
      | .ok ((accounts,stored),_) => rebuiltFrom keccak accounts stored

section
variable {data : Bytes}

theorem readsAccount (entry) : Reads data (readAccount data) (serializeAccount entry) entry := by
  obtain ⟨address,balance,nonce,codeHash,storageRoot⟩ := entry
  have read : Reads data (readAccount data) (serializeAccount (address,⟨balance,nonce,codeHash,storageRoot⟩))
      (address,⟨BitVec.ofNat 128 balance.toNat,BitVec.ofNat 64 nonce.toNat,codeHash,storageRoot⟩) :=
    readsThen (readsWord (by decide) (by decide) address) <|
    readsThen (readsLe (by decide) balance.isLt) <|
    readsThen (readsLe (by decide) nonce.isLt) <|
    readsThen (readsWord (by decide) (by decide) codeHash) <|
    readsLast (readsWord (by decide) (by decide) storageRoot)
  rwa [BitVec.ofNat_toNat,BitVec.setWidth_eq,BitVec.ofNat_toNat,BitVec.setWidth_eq] at read

theorem readsSlot (entry) :
    Reads data (readSlot data) (serializeSlot entry) entry :=
  readsThen (readsWord (by decide) (by decide) entry.1.1) <|
  readsThen (readsWord (by decide) (by decide) entry.1.2) <|
  readsLast (readsWord (by decide) (by decide) entry.2)

theorem readsCount {n} (fits : n < 2^32) :
    Reads data (leNumberAt (.panic : Fault StateError) data 4) (countBytes n) n := by
  rw [countBytes,Nat.mod_eq_of_lt fits]
  exact readsLe (by decide) fits

theorem readsAccounts (visit : Visit Address) {accounts} (fits : accounts.size < 2^32) :
    Reads data (deserializeAccounts data)
      (countBytes accounts.size ++ (visit.entries accounts).flatMap serializeAccount) accounts := by
  have each : ∀ entry ∈ visit.entries accounts, Reads data (readAccount data) (serializeAccount entry) entry :=
    fun entry _ => readsAccount entry
  have entries := readsRepeated each (fun (m : KeyedMap Address AccountState) entry => m.insert entry.1 entry.2) ∅
  have whole : (visit.entries accounts).foldl (fun m entry => m.insert entry.1 entry.2) ∅ = accounts :=
    visit.insertEntries accounts
  rw [visit.entriesLength,whole] at entries
  exact readsThen (readsCount fits) entries

theorem readsStorage (visit : Visit (Address × StorageKey)) {storage}
    (fits : storage.size < 2^32) :
    Reads data (deserializeStorage data) (countBytes storage.size ++ (visit.entries storage).flatMap serializeSlot)
      ((visit.entries storage).foldl enterSlot (∅,∅)) := by
  have each : ∀ entry ∈ visit.entries storage, Reads data (readSlot data) (serializeSlot entry) entry :=
    fun entry _ => readsSlot entry
  have entries := readsRepeated each enterSlot (∅,∅)
  rw [visit.entriesLength] at entries
  exact readsThen (readsCount fits) entries

end

theorem enterSlots (entries) (stored) :
    (entries.foldl enterSlot stored).1 = KeyedMap.insertAll Prod.fst Prod.snd entries stored.1 := by
  induction entries generalizing stored with
  | nil => rfl
  | cons entry rest ih => exact ih (enterSlot stored entry)

theorem enterCounts (entries : List ((Address × StorageKey) × StorageValue)) (stored) (address) :
    ((entries.foldl enterSlot stored).2.lookup address).getD 0 =
      (stored.2.lookup address).getD 0 + (entries.filter (fun entry => decide (entry.1.1 = address))).length := by
  induction entries generalizing stored with
  | nil => rfl
  | cons entry rest ih =>
    rw [foldl_cons,ih,enterSlot,KeyedMap.lookupInsert,filter_cons]
    by_cases here : address = entry.1.1
    · subst here
      simp only [if_true,Option.getD_some,decide_true,length_cons]
      omega
    · simp [here,Ne.symm here]

def slotsOf (storage : KeyedMap (Address × StorageKey) StorageValue) (contract : Address) : Nat :=
  (storage.keys.filter (fun slot => slot.1 = contract)).card

def PatriciaMerkleTrie.slots (t : PatriciaMerkleTrie) (contract : Address) : Nat := slotsOf t.storage contract

def PatriciaMerkleTrie.Counted (t : PatriciaMerkleTrie) : Prop :=
  ∀ contract, (t.storageCounts.lookup contract).getD 0 = t.slots contract

structure Restored (keccak : Bytes → Hash) (t u : PatriciaMerkleTrie) : Prop where
  accounts : u.accounts = t.accounts
  storage : u.storage = t.storage
  config : u.config = {}
  rebuilt : u.Rebuilt keccak
  counted : u.Counted

theorem storedSlots (visit : Visit (Address × StorageKey)) (storage) :
    ((visit.entries storage).foldl enterSlot (∅,∅)).1 = storage := by
  rw [enterSlots]
  exact visit.insertEntries storage

theorem storedCounts (visit : Visit (Address × StorageKey)) (t : PatriciaMerkleTrie) (contract) :
    ((((visit.entries t.storage).foldl enterSlot (∅,∅)).2).lookup contract).getD 0 = t.slots contract := by
  have keys : ((visit.entries t.storage).filter (fun entry => decide (entry.1.1 = contract))).map Prod.fst =
      (visit.order t.storage.keys).filter (fun slot => decide (slot.1 = contract)) := by
    rw [← visit.entryKeys,filter_map]
    rfl
  rw [enterCounts,PatriciaMerkleTrie.slots,slotsOf,← visit.countOrder,← keys,length_map]
  simp

theorem rebuiltFromOk (keccak) (accounts) (stored) :
    ∃ root nodes, rebuilt keccak accounts = some (root,nodes) ∧
      rebuiltFrom keccak accounts stored = .ok ⟨nodes,root,accounts,stored.1,stored.2,{}⟩ := by
  obtain ⟨⟨root,nodes⟩,again⟩ := rebuiltSome keccak accounts
  exact ⟨root,nodes,again,by simp [rebuiltFrom,rebuildTrie,again]⟩

theorem rebuiltFromRestored {keccak t stored}
    (slots : stored.1 = t.storage) (counts : ∀ contract, (stored.2.lookup contract).getD 0 = t.slots contract) :
    ∃ u, rebuiltFrom keccak t.accounts stored = .ok u ∧ Restored keccak t u := by
  obtain ⟨root,nodes,again,loaded⟩ := rebuiltFromOk keccak t.accounts stored
  refine ⟨_,loaded,rfl,slots,rfl,again,?_⟩
  intro contract
  rw [PatriciaMerkleTrie.slots,slots]
  exact counts contract

theorem deserializeSerialize (keccak) (accountVisit) (slotVisit)
    {t} (fewAccounts : t.accounts.size < 2^32) (fewSlots : t.storage.size < 2^32) :
    ∃ data u, t.serialize accountVisit slotVisit = .ok data ∧ deserialize keccak data = .ok u ∧ Restored keccak t u := by
  obtain ⟨u,loaded,restored⟩ : ∃ u, rebuiltFrom keccak t.accounts
    ((slotVisit.entries t.storage).foldl enterSlot (∅,∅)) = .ok u ∧
      Restored keccak t u := rebuiltFromRestored (storedSlots slotVisit t.storage) (storedCounts slotVisit t)
  refine ⟨_,u,rfl,?_,restored⟩
  unfold deserialize
  dsimp only
  rw [if_neg (by decide)]
  generalize whole : (2 :: (wordBytes t.root ++ _) : Bytes) = data
  have ahead : data.drop 33 = (countBytes t.accounts.size ++ (accountVisit.entries t.accounts).flatMap serializeAccount) ++
      (countBytes t.storage.size ++ (slotVisit.entries t.storage).flatMap serializeSlot) ++ [] := by
    have root : (wordBytes t.root).length = 32 := wordBytesLength _
    rw [← whole,drop_succ_cons,← root,drop_left,append_nil,append_assoc]
  have both : Reads data (andRead (deserializeAccounts data) fun accounts =>
      andRead (deserializeStorage data) fun stored => done (accounts,stored)) _ _ :=
    readsThen (readsAccounts accountVisit fewAccounts) (readsLast (readsStorage slotVisit fewSlots))
  obtain ⟨later,read,_⟩ := both 33 [] ahead
  rw [read]
  exact loaded

end QuantumChain.State
