import QuantumChain.StateTrie
import QuantumChain.StepRun

/-! Applying the transactions of a validated block.
A failure leaves what was applied before it. -/
namespace QuantumChain.State
open PatriciaMerkleTrie
open StepRun (andThen Agree andThenAgree)

structure TransactionData where
  hash : Hash
  fromAddr : Address
  toAddr : Option Address
  value : U128
  nonce : U64
  deriving DecidableEq, Repr

structure BlockValidatedPayload where
  blockHash : Hash
  blockHeight : U64
  transactions : List TransactionData
  deriving DecidableEq, Repr

structure StateRootComputedPayload where
  blockHash : Hash
  blockHeight : U64
  stateRoot : Hash
  previousStateRoot : Hash
  accountsModified : BitVec 32
  storageSlotsModified : BitVec 32
  computationTimeMs : U64
  deriving DecidableEq, Repr

def consensusId : UInt8 := 8

section
variable (keccak : Bytes → Hash)

def applyTransaction (t : PatriciaMerkleTrie) (modified : BitVec 32) (tx : TransactionData) :
    Outcome (BitVec 32) × PatriciaMerkleTrie :=
  if tx.value = 0 then
    andThen (t.applyNonceIncrement keccak tx.fromAddr tx.nonce) fun _ t => (.ok modified,t)
  else
    -- The cast to a signed word keeps the bits: from half the range on the debit reads as a credit.
    andThen (t.applyBalanceChange keccak tx.fromAddr (-tx.value)) fun _ t =>
    andThen (match tx.toAddr with
      | none => (.ok (modified+1),t)
      | some recipient => andThen (t.applyBalanceChange keccak recipient tx.value) fun _ t => (.ok (modified+1+1),t))
      fun modified t =>
    andThen (t.applyNonceIncrement keccak tx.fromAddr tx.nonce) fun _ t => (.ok modified,t)

def applyTransactions (t : PatriciaMerkleTrie) (modified : BitVec 32) :
    List TransactionData → Outcome (BitVec 32) × PatriciaMerkleTrie
  | [] => (.ok modified,t)
  | tx::rest => andThen (applyTransaction keccak t modified tx) fun modified t => applyTransactions t modified rest

structure IpcHandler where
  trie : PatriciaMerkleTrie
  currentHeight : U64
  stateRoots : KeyedMap U64 Hash
  deriving DecidableEq

def handleBlockValidated (handler : IpcHandler) (verified : Bool) (senderId : UInt8)
    (payload : BlockValidatedPayload) (elapsedMs : U64) : Outcome StateRootComputedPayload × IpcHandler :=
  if verified = false then (.error (.error (.unauthorizedSender senderId)),handler)
  else if senderId ≠ consensusId then (.error (.error (.unauthorizedSender senderId)),handler)
  else
    let previousRoot := handler.trie.root
    match applyTransactions keccak handler.trie 0 payload.transactions with
    | (.error e,trie) => (.error e,{handler with trie := trie})
    | (.ok modified,trie) =>
      (.ok ⟨payload.blockHash,payload.blockHeight,trie.root,previousRoot,modified,0,elapsedMs⟩,
        ⟨trie,payload.blockHeight,handler.stateRoots.insert payload.blockHeight trie.root⟩)

end

abbrev Ledger := KeyedMap Address AccountState

namespace Ledger

def balance (m : Ledger) (address : Address) : U128 := ((m.lookup address).map AccountState.balance).getD 0

def nonce (m : Ledger) (address : Address) : U64 := ((m.lookup address).map AccountState.nonce).getD 0

variable (m : Ledger)

def supply : Nat := m.total (fun account => account.balance.toNat)

variable (address : Address)

def setBalance (amount : U128) : Ledger :=
  m.insert address {(m.lookup address).getD {} with balance := amount}

def setNonce (counter : U64) : Ledger :=
  m.insert address {(m.lookup address).getD {} with nonce := counter}

def change (delta : BitVec 128) : Outcome Unit × Ledger :=
  if delta.msb = false then (.ok (),m.setBalance address (U128.saturatingAdd (m.balance address) delta))
  else if m.balance address < -delta then (.error (.error (.insufficientBalance (-delta) (m.balance address))),m)
  else (.ok (),m.setBalance address (m.balance address - -delta))

def bump (expected : U64) : Outcome Unit × Ledger :=
  let current := m.nonce address
  if current ≠ expected then
    if current + 1 < expected then (.error (.error (.nonceGap (current + 1) expected)),m)
    else (.error (.error (.invalidNonce current expected)),m)
  else if current = BitVec.allOnes 64 then (.error (.error (.invalidNonce current (BitVec.allOnes 64))),m)
  else (.ok (),m.setNonce address (current + 1))

def transfer (modified : BitVec 32) (tx : TransactionData) : Outcome (BitVec 32) × Ledger :=
  if tx.value = 0 then andThen (m.bump tx.fromAddr tx.nonce) fun _ m => (.ok modified,m)
  else
    andThen (m.change tx.fromAddr (-tx.value)) fun _ m =>
    andThen (match tx.toAddr with
      | none => (.ok (modified+1),m)
      | some recipient => andThen (m.change recipient tx.value) fun _ m => (.ok (modified+1+1),m)) fun modified m =>
    andThen (m.bump tx.fromAddr tx.nonce) fun _ m => (.ok modified,m)

def transfers (m : Ledger) (modified : BitVec 32) : List TransactionData → Outcome (BitVec 32) × Ledger
  | [] => (.ok modified,m)
  | tx::rest => andThen (m.transfer modified tx) fun modified m => transfers m modified rest

end Ledger

section
variable {keccak : Bytes → Hash}

structure Shows (keccak : Bytes → Hash) (origin t : PatriciaMerkleTrie) (m : Ledger) : Prop where
  accounts : t.accounts = m
  storage : t.storage = origin.storage
  rebuilt : origin.Rebuilt keccak → t.Rebuilt keccak

theorem showsSelf (t) : Shows keccak t t t.accounts := ⟨rfl,rfl,id⟩

theorem rebuildAgree (origin t : PatriciaMerkleTrie) (storage : t.storage = origin.storage) :
    Agree (Shows keccak origin) (t.rebuildTrie keccak) (.ok (),t.accounts) := by
  obtain ⟨root,nodes,done,ok⟩ := t.rebuildTrieOk
  rw [ok]
  exact ⟨rfl,rfl,storage,fun _ => done⟩

theorem changeAgree {origin t m} (shows' : Shows keccak origin t m)
    (address) (delta) :
    Agree (Shows keccak origin) (t.applyBalanceChange keccak address delta) (m.change address delta) := by
  have same := shows'.accounts
  subst same
  unfold applyBalanceChange Ledger.change
  split
  · exact rebuildAgree origin _ shows'.storage
  · dsimp only
    split
    · rename_i poor
      have poor' : Ledger.balance t.accounts address < -delta := poor
      rw [if_pos poor']
      exact ⟨rfl,shows'⟩
    · rename_i rich
      have rich' : ¬ Ledger.balance t.accounts address < -delta := rich
      rw [if_neg rich']
      exact rebuildAgree origin _ shows'.storage

theorem bumpAgree {origin t m} (shows' : Shows keccak origin t m)
    (address) (expected) :
    Agree (Shows keccak origin) (t.applyNonceIncrement keccak address expected) (m.bump address expected) := by
  have same := shows'.accounts
  subst same
  have current : t.getNonce address = Ledger.nonce t.accounts address := rfl
  have stored : ((t.accounts.lookup address).getD {}).nonce = Ledger.nonce t.accounts address := by
    unfold Ledger.nonce
    cases t.accounts.lookup address <;> rfl
  simp only [applyNonceIncrement,Ledger.bump,current]
  split
  · split <;> exact ⟨rfl,shows'⟩
  · simp only [incrementNonce,stored]
    split
    · rename_i full
      -- a full counter belongs to a stored account, so the entry that is inserted is already there
      cases found : t.accounts.lookup address with
      | none =>
        rw [Ledger.nonce,found] at full
        exact absurd full (by decide)
      | some account =>
        refine ⟨rfl,?_⟩
        simp only [Option.getD_some,KeyedMap.insertSame found]
        exact shows'
    · exact rebuildAgree origin _ shows'.storage

theorem transferAgree {origin t m} (shows' : Shows keccak origin t m)
    (modified) (tx) :
    Agree (Shows keccak origin) (applyTransaction keccak t modified tx) (m.transfer modified tx) := by
  unfold applyTransaction Ledger.transfer
  split
  · exact andThenAgree (bumpAgree shows' _ _) (fun _ _ _ next => ⟨rfl,next⟩)
  · refine andThenAgree (changeAgree shows' _ _) (fun _ t m debited => ?_)
    refine andThenAgree ?_ (fun _ t m credited => ?_)
    · split
      · exact ⟨rfl,debited⟩
      · exact andThenAgree (changeAgree debited _ _) (fun _ _ _ next => ⟨rfl,next⟩)
    · exact andThenAgree (bumpAgree credited _ _) (fun _ _ _ next => ⟨rfl,next⟩)

theorem transfersAgree {origin t m} (shows' : Shows keccak origin t m)
    (modified) (txs) :
    Agree (Shows keccak origin) (applyTransactions keccak t modified txs) (m.transfers modified txs) := by
  induction txs generalizing t m modified with
  | nil => exact ⟨rfl,shows'⟩
  | cons tx rest ih =>
    exact andThenAgree (transferAgree shows' modified tx) (fun modified t m next => ih next modified)

theorem blockAgree (keccak) (t) (modified) (txs) :
    Agree (Shows keccak t) (applyTransactions keccak t modified txs) (Ledger.transfers t.accounts modified txs) :=
  transfersAgree (showsSelf _) modified txs

theorem newRebuilt (config) : (PatriciaMerkleTrie.withConfig config).Rebuilt keccak := by
  simp [PatriciaMerkleTrie.Rebuilt,withConfig,rebuilt]

end
end QuantumChain.State
