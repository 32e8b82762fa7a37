import QuantumChain.StateBlock

/-! The adapter that applies validated blocks.
The error of a change is dropped and the block goes on, as in the source. -/
namespace QuantumChain.NodeRuntime
open State StepRun Ledger

structure StateTransaction where
  fromAddr : Address
  toAddr : Option Address
  value : U128
  gasLimit : U64
  gasPrice : U128
  nonce : U64
  deriving DecidableEq, Repr

def applyTransfer (keccak : Bytes → Hash) (t : PatriciaMerkleTrie) (tx : StateTransaction) : PatriciaMerkleTrie :=
  let debited := (t.applyBalanceChange keccak tx.fromAddr (-tx.value)).2
  match tx.toAddr with
  | none => debited
  | some recipient => (debited.applyBalanceChange keccak recipient tx.value).2

def applyBlock (keccak : Bytes → Hash) (t : PatriciaMerkleTrie) (transactions : List StateTransaction) : PatriciaMerkleTrie :=
  run (applyTransfer keccak) t transactions

def settle (m : Ledger) (tx : StateTransaction) : Ledger :=
  let debited := (m.change tx.fromAddr (-tx.value)).2
  match tx.toAddr with
  | none => debited
  | some recipient => (debited.change recipient tx.value).2

theorem changeAccounts (keccak) (t : PatriciaMerkleTrie) (address) (delta) :
    (t.applyBalanceChange keccak address delta).2.accounts = (Ledger.change t.accounts address delta).2 :=
  (changeAgree (showsSelf t) address delta).2.accounts

theorem transferSettles (keccak) (t) (tx) : (applyTransfer keccak t tx).accounts = settle t.accounts tx := by
  unfold applyTransfer settle
  cases tx.toAddr with
  | none => exact changeAccounts keccak t _ _
  | some recipient =>
    dsimp only
    rw [changeAccounts,changeAccounts]

section Effects
variable (m : Ledger) (a : Address) {v : U128}

theorem debitEffect (small : v.toNat ≤ 2^127) : (m.balance a).toNat < v.toNat ∧ (m.change a (-v)).2 = m ∨
    v.toNat ≤ (m.balance a).toNat ∧
      ∃ rest, rest.toNat = (m.balance a).toNat - v.toNat ∧ (m.change a (-v)).2 = m.setBalance a rest := by
  rcases eq_or_ne v 0 with rfl | positive
  · refine .inr ⟨Nat.zero_le _,U128.saturatingAdd (m.balance a) 0,?_,?_⟩
    · have bound := (m.balance a).isLt
      rw [U128.toNatSaturatingAdd]
      unfold u128Max
      change min ((m.balance a).toNat + 0) _ = (m.balance a).toNat - 0
      omega
    · exact congrArg Prod.snd (creditSmall m a (v := 0) (by decide))
  · rw [debitSmall m a positive small]
    split
    · rename_i poor
      exact .inl ⟨poor,rfl⟩
    · rename_i rich
      have enough := Nat.le_of_not_lt rich
      exact .inr ⟨enough,_,BitVec.toNat_sub_of_le enough,rfl⟩

theorem surplusEffect (large : 2^127 < v.toNat) :
    ∃ sum, sum.toNat = min ((m.balance a).toNat + (2^128 - v.toNat)) u128Max ∧ (m.change a (-v)).2 = m.setBalance a sum := by
  refine ⟨U128.saturatingAdd (m.balance a) (-v),?_,congrArg Prod.snd (debitLarge m a large)⟩
  rw [U128.toNatSaturatingAdd,toNatNeg (by omega)]

theorem creditEffect (small : v.toNat < 2^127) :
    ∃ sum, sum.toNat = min ((m.balance a).toNat + v.toNat) u128Max ∧ (m.change a v).2 = m.setBalance a sum :=
  ⟨_,U128.toNatSaturatingAdd _ _,congrArg Prod.snd (creditSmall m a small)⟩

theorem takeEffect (large : 2^127 ≤ v.toNat) : (m.balance a).toNat < 2^128 - v.toNat ∧ (m.change a v).2 = m ∨
    2^128 - v.toNat ≤ (m.balance a).toNat ∧
      ∃ rest, rest.toNat = (m.balance a).toNat - (2^128 - v.toNat) ∧ (m.change a v).2 = m.setBalance a rest := by
  have lacks := toNatNeg (v := v) (by omega)
  rw [creditLarge m a large]
  split
  · rename_i poor
    have poor := poor
    exact .inl ⟨lacks ▸ poor,rfl⟩
  · rename_i rich
    have enough := Nat.le_of_not_lt rich
    exact .inr ⟨lacks ▸ enough,_,by rw [BitVec.toNat_sub_of_le enough,lacks],rfl⟩

end Effects

def Backed (m : Ledger) (tx : StateTransaction) : Prop :=
  if tx.value.toNat ≤ 2^127 then
    tx.value.toNat = 2^127 ∨ tx.value.toNat ≤ (m.balance tx.fromAddr).toNat ∨
      ∀ recipient, tx.toAddr = some recipient → (m.balance recipient).toNat = u128Max
  else
    (m.balance tx.fromAddr).toNat = u128Max ∨ ∃ recipient, tx.toAddr = some recipient ∧
      (recipient = tx.fromAddr ∨ 2^128 - tx.value.toNat ≤ (m.balance recipient).toNat)

section Supply
variable {m : Ledger} {tx : StateTransaction}

theorem settleNone (nobody : tx.toAddr = none) : settle m tx = (m.change tx.fromAddr (-tx.value)).2 := by
  rw [settle,nobody]

theorem settleSome {recipient} (somebody : tx.toAddr = some recipient) :
    settle m tx = ((m.change tx.fromAddr (-tx.value)).2.change recipient tx.value).2 := by
  rw [settle,somebody]

theorem balanceBound (m : Ledger) (a) : (m.balance a).toNat ≤ u128Max := by
  have bound := (m.balance a).isLt
  unfold u128Max
  omega

theorem backedSmall (small : tx.value.toNat < 2^127) : Backed m tx ↔ tx.value.toNat ≤ (m.balance tx.fromAddr).toNat ∨
      ∀ recipient, tx.toAddr = some recipient → (m.balance recipient).toNat = u128Max := by
  rw [Backed,if_pos (Nat.le_of_lt small)]
  exact or_iff_right (Nat.ne_of_lt small)

theorem supplySmall (small : tx.value.toNat < 2^127) : (settle m tx).supply ≤ m.supply ↔ Backed m tx := by
  rw [backedSmall small]
  rcases debitEffect m tx.fromAddr (Nat.le_of_lt small) with ⟨poor,debited⟩ | ⟨rich,rest,left,debited⟩
  · cases target : tx.toAddr with
    | none =>
      rw [settleNone target,debited]
      exact iff_of_true le_rfl (.inr nofun)
    | some recipient =>
      obtain ⟨sum,credit,credited⟩ := creditEffect m recipient small
      rw [settleSome target,debited,credited]
      have supply := supplySet m recipient sum
      have bound := balanceBound m recipient
      have only : (∀ r, some recipient = some r → (m.balance r).toNat = u128Max) ↔ (m.balance recipient).toNat = u128Max :=
        ⟨fun all => all recipient rfl,fun full r same => Option.some.inj same ▸ full⟩
      rw [only]
      omega
  · refine iff_of_true ?_ (.inl rich)
    have supply := supplySet m tx.fromAddr rest
    cases target : tx.toAddr with
    | none =>
      rw [settleNone target,debited]
      omega
    | some recipient =>
      obtain ⟨sum,credit,credited⟩ := creditEffect (m.setBalance tx.fromAddr rest) recipient small
      rw [settleSome target,debited,credited]
      have supply' := supplySet (m.setBalance tx.fromAddr rest) recipient sum
      omega

theorem supplyHalf (half : tx.value.toNat = 2^127) : (settle m tx).supply ≤ m.supply := by
  have taken : (m.change tx.fromAddr (-tx.value)).2.supply ≤ m.supply := by
    rcases debitEffect m tx.fromAddr (Nat.le_of_eq half) with ⟨_,debited⟩ | ⟨_,rest,left,debited⟩
    · rw [debited]
    · rw [debited]
      have supply := supplySet m tx.fromAddr rest
      omega
  cases target : tx.toAddr with
  | none =>
    rw [settleNone target]
    exact taken
  | some recipient =>
    rw [settleSome target]
    refine le_trans ?_ taken
    generalize (m.change tx.fromAddr (-tx.value)).2 = debited
    rcases takeEffect debited recipient (Nat.le_of_eq half.symm) with ⟨_,kept⟩ | ⟨_,rest,left,credited⟩
    · rw [kept]
    · rw [credited]
      have supply := supplySet debited recipient rest
      omega

theorem supplyLarge (large : 2^127 < tx.value.toNat) : (settle m tx).supply ≤ m.supply ↔ Backed m tx := by
  rw [Backed,if_neg (Nat.not_le.mpr large)]
  have range := tx.value.isLt
  have bound := balanceBound m tx.fromAddr
  obtain ⟨sum,surplus,debited⟩ := surplusEffect m tx.fromAddr large
  have supply := supplySet m tx.fromAddr sum
  cases target : tx.toAddr with
  | none =>
    rw [settleNone target,debited]
    have nobody : ¬ ∃ recipient, none = some recipient ∧
        (recipient = tx.fromAddr ∨ 2^128 - tx.value.toNat ≤ (m.balance recipient).toNat) := nofun
    rw [or_iff_left nobody]
    omega
  | some recipient =>
    have only : (∃ r, some recipient = some r ∧ (r = tx.fromAddr ∨ 2^128 - tx.value.toNat ≤ (m.balance r).toNat)) ↔
        recipient = tx.fromAddr ∨ 2^128 - tx.value.toNat ≤ (m.balance recipient).toNat :=
      ⟨fun ⟨r,same,pays⟩ => Option.some.inj same ▸ pays,fun pays => ⟨recipient,rfl,pays⟩⟩
    rw [settleSome target,debited,only]
    have held := congrArg BitVec.toNat (balanceSet m tx.fromAddr recipient sum)
    rcases takeEffect (m.setBalance tx.fromAddr sum) recipient
      (Nat.le_of_lt large) with ⟨poor,kept⟩ | ⟨rich,rest,left,credited⟩
    · rw [kept]
      rcases eq_or_ne recipient tx.fromAddr with same | apart
      · rw [if_pos same] at held
        unfold u128Max at *
        omega
      · rw [if_neg apart] at held
        rw [or_iff_right apart]
        unfold u128Max at *
        omega
    · rw [credited]
      have supply' := supplySet (m.setBalance tx.fromAddr sum) recipient rest
      rcases eq_or_ne recipient tx.fromAddr with same | apart
      · refine iff_of_true ?_ (.inr (.inl same))
        omega
      · rw [if_neg apart] at held
        refine iff_of_true ?_ (.inr (.inr (held ▸ rich)))
        omega

theorem supplyIff (m) (tx) : (settle m tx).supply ≤ m.supply ↔ Backed m tx := by
  rcases Nat.lt_trichotomy tx.value.toNat (2^127) with small | half | large
  · exact supplySmall small
  · refine iff_of_true (supplyHalf half) ?_
    rw [Backed,if_pos (Nat.le_of_eq half)]
    exact .inl half
  · exact supplyLarge large

end Supply

def stateManagementId : UInt8 := 4

structure StateRootComputed where
  blockHash : Hash
  stateRoot : Hash
  senderId : UInt8
  deriving DecidableEq, Repr

inductive StateAdapterError where
  | publishFailed (text : String)
  | stateError (text : String)
  deriving DecidableEq, Repr

structure StateAdapter where
  trie : PatriciaMerkleTrie
  events : List StateRootComputed
  deriving DecidableEq

def rootComputed (blockHash stateRoot : Hash) : StateRootComputed := ⟨blockHash,stateRoot,stateManagementId⟩

def StateAdapter.publishRoot (adapter : StateAdapter) (blockHash stateRoot : Hash) (bus : Except String Unit) :
    Except StateAdapterError Hash × StateAdapter :=
  match bus with
  | .ok _ => (.ok stateRoot,{adapter with events := adapter.events ++ [rootComputed blockHash stateRoot]})
  | .error text => (.error (.publishFailed text),adapter)

def StateAdapter.processBlockValidated (keccak : Bytes → Hash) (adapter : StateAdapter) (blockHash : Hash)
    (transactions : List StateTransaction) (bus : Except String Unit) : Except StateAdapterError Hash × StateAdapter :=
  let adapter := {adapter with trie := applyBlock keccak adapter.trie transactions}
  adapter.publishRoot blockHash adapter.trie.root bus

theorem publishKeepsTrie (adapter : StateAdapter) (blockHash stateRoot) (bus) :
    (adapter.publishRoot blockHash stateRoot bus).2.trie = adapter.trie := by
  cases bus <;> rfl

def Uncredited (keccak : Bytes → Hash) (t : PatriciaMerkleTrie) (tx : StateTransaction) : Prop :=
  ∀ e recipient, (t.applyBalanceChange keccak tx.fromAddr (-tx.value)).1 = .error e → tx.toAddr = some recipient →
    ((applyTransfer keccak t tx).getBalance recipient).toNat ≤ (t.getBalance recipient).toNat

theorem refusedChange {m : Ledger} {a delta e}
    (refused : (m.change a delta).1 = .error e) : (m.change a delta).2 = m := by
  unfold Ledger.change at refused ⊢
  split at refused
  · cases refused
  · rename_i negative
    rw [if_neg negative]
    split at refused
    · rename_i poor
      rw [if_pos poor]
    · cases refused

theorem changeSets (m : Ledger) (a) (delta) :
    (m.change a delta).2 = m ∨ ∃ amount, (m.change a delta).2 = m.setBalance a amount := by
  unfold Ledger.change
  split
  · exact .inr ⟨_,rfl⟩
  · split
    · exact .inl rfl
    · exact .inr ⟨_,rfl⟩

theorem createdNothing {keccak t tx}
    (kept : Ledger.supply (applyTransfer keccak t tx).accounts ≤ Ledger.supply t.accounts) : Uncredited keccak t tx := by
  intro e recipient refused target
  have self : Shows keccak t t t.accounts := showsSelf t
  have agree := (changeAgree self tx.fromAddr (-tx.value)).1
  have debited := refusedChange (agree ▸ refused)
  rw [transferSettles,settleSome target,debited] at kept
  change (Ledger.balance (applyTransfer keccak t tx).accounts recipient).toNat ≤ (Ledger.balance t.accounts recipient).toNat
  rw [transferSettles,settleSome target,debited]
  rcases changeSets t.accounts recipient tx.value with same | ⟨amount,credited⟩
  · rw [same]
  · rw [credited] at kept ⊢
    rw [balanceSet,if_pos rfl]
    have supply := supplySet t.accounts recipient amount
    omega

theorem transferIff (keccak) (t) (tx) :
    Ledger.supply (applyTransfer keccak t tx).accounts ≤ Ledger.supply t.accounts ↔ Backed t.accounts tx := by
  rw [transferSettles]
  exact supplyIff t.accounts tx

theorem blockCreatesNothingIff (keccak : Bytes → Hash) (adapter : StateAdapter) (blockHash : Hash)
    (transactions : List StateTransaction) (bus : Except String Unit) :
    (Along (applyTransfer keccak) (fun t tx =>
        Ledger.supply (applyTransfer keccak t tx).accounts ≤ Ledger.supply t.accounts ∧ Uncredited keccak t tx)
        adapter.trie transactions ↔
      Along settle Backed adapter.trie.accounts transactions) ∧
    (Along settle Backed adapter.trie.accounts transactions →
      Ledger.supply (adapter.processBlockValidated keccak blockHash transactions bus).2.trie.accounts ≤
        Ledger.supply adapter.trie.accounts) := by
  rw [← alongMap (f := PatriciaMerkleTrie.accounts) (transferSettles keccak)]
  constructor
  · constructor
    · exact alongImplies (I := fun _ => True) (fun _ _ _ => trivial)
        (fun t tx _ both => (transferIff keccak t tx).1 both.1) trivial
    · refine alongImplies (I := fun _ => True) (fun _ _ _ => trivial) (fun t tx _ backed => ?_) trivial
      have kept := (transferIff keccak t tx).2 backed
      exact ⟨kept,createdNothing kept⟩
  · intro backed
    rw [StateAdapter.processBlockValidated,publishKeepsTrie]
    exact runKeeps (I := fun t => Ledger.supply t.accounts ≤ Ledger.supply adapter.trie.accounts)
      (fun t tx bound backed => le_trans ((transferIff keccak t tx).2 backed) bound) le_rfl backed

def untouched : StateAdapter := ⟨.withConfig {},[]⟩

def transferOf (fromAddr toAddr : Address) (value : U128) : StateTransaction := ⟨fromAddr,some toAddr,value,21000,1,0⟩

theorem unbackedPayment : Ledger.supply untouched.trie.accounts = 0 ∧
    (untouched.trie.applyBalanceChange numberHash 1 (-5)).1 = .error (.error (.insufficientBalance 5 0)) ∧
    Ledger.supply (untouched.processBlockValidated numberHash 7 [transferOf 1 2 5] (.ok ())).2.trie.accounts = 5 ∧
    ¬Uncredited numberHash untouched.trie (transferOf 1 2 5) := by
  have refused : (untouched.trie.applyBalanceChange numberHash 1 (-5)).1 = .error (.error (.insufficientBalance 5 0)) := by
    decide +kernel
  refine ⟨by decide +kernel,refused,by decide +kernel,fun quiet => ?_⟩
  have poorer := quiet _ 2 refused rfl
  exact absurd poorer (by decide +kernel)

end QuantumChain.NodeRuntime
