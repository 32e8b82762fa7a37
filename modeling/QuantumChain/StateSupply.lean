import QuantumChain.StateBlock

/-! The supply across a successful block.
Exact sums, with what is burned named apart. -/
namespace QuantumChain.State
open List BitVec StepRun
open StepRun (andThen)

variable (tx : TransactionData)

def sentBy (a : Address) : Nat := if tx.fromAddr = a then tx.value.toNat else 0

def receivedBy (a : Address) : Nat := if tx.toAddr = some a then tx.value.toNat else 0

def burnedBy : Nat := if tx.toAddr = none then tx.value.toNat else 0

variable (txs : List TransactionData)

def sent (a : Address) : Nat := (txs.map (fun tx => sentBy tx a)).sum

def received (a : Address) : Nat := (txs.map (fun tx => receivedBy tx a)).sum

def burned : Nat := (txs.map burnedBy).sum

structure Conserved (before : Ledger) (txs : List TransactionData) (after : Ledger) : Prop where
  supply : after.supply + burned txs = before.supply
  senders : ∀ tx ∈ txs, (after.balance tx.fromAddr).toNat + sent txs tx.fromAddr =
    (before.balance tx.fromAddr).toNat + received txs tx.fromAddr

structure FullyConserved (before : Ledger) (txs : List TransactionData) (after : Ledger) : Prop where
  supply : after.supply + burned txs = before.supply
  accounts : ∀ a, (after.balance a).toNat + sent txs a = (before.balance a).toNat + received txs a

theorem FullyConserved.conserved {before after txs}
    (full : FullyConserved before txs after) : Conserved before txs after :=
  ⟨full.supply,fun tx _ => full.accounts tx.fromAddr⟩

def ExactTransfer (m : Ledger) (tx : TransactionData) : Prop :=
  let value := tx.value.toNat
  match tx.toAddr with
  | none => value ≤ 2^127
  | some recipient =>
    if recipient = tx.fromAddr then
      value < 2^127 ∨ 2^127 < value ∧ (m.balance tx.fromAddr).toNat + (2^128 - value) ≤ u128Max
    else value < 2^127 ∧ (m.balance recipient).toNat + value ≤ u128Max
instance (m) : (tx : TransactionData) → Decidable (ExactTransfer m tx)
  | ⟨_,_,none,_,_⟩ => by
    unfold ExactTransfer
    infer_instance
  | ⟨_,_,some _,_,_⟩ => by
    unfold ExactTransfer
    infer_instance

namespace Ledger

theorem transferMoved {m after : Ledger} {k k' tx}
    (ok : m.transfer k tx = (.ok k',after)) :
    ∃ next, m.move k tx = (.ok k',next) ∧ (∀ a, after.balance a = next.balance a) ∧
      after.supply = next.supply := by
  rw [transferMove] at ok
  generalize moved : m.move k tx = out at ok ⊢
  obtain ⟨result,next⟩ := out
  cases result with
  | error e => simp at ok
  | ok k₁ =>
    rw [andThenOk] at ok
    by_cases refused : next.Refused tx.fromAddr tx.nonce
    · obtain ⟨e,done⟩ := bumpRefused refused
      simp [done] at ok
    · rw [bumpAccepted refused,andThenOk] at ok
      cases ok
      exact ⟨next,rfl,fun a => balanceBump _ _ _ _,supplyBump _ _ _⟩

theorem supplySetTwo (m : Ledger) {a c} (apart : c ≠ a) (x y) :
    ((m.setBalance a x).setBalance c y).supply + (m.balance a).toNat + (m.balance c).toNat =
      m.supply + x.toNat + y.toNat := by
  have first := supplySet m a x
  have second := supplySet (m.setBalance a x) c y
  rw [balanceSet,if_neg apart] at second
  omega

theorem moveSmall {m next : Ledger} {k k' : BitVec 32} {tx : TransactionData} (positive : tx.value.toNat ≠ 0)
    (small : tx.value.toNat < 2^127) (ok : m.move k tx = (.ok k',next)) :
    tx.value.toNat ≤ (m.balance tx.fromAddr).toNat ∧
    match tx.toAddr with
    | none => next = m.setBalance tx.fromAddr (m.balance tx.fromAddr - tx.value)
    | some recipient =>
      if recipient = tx.fromAddr then next = m
      else next = (m.setBalance tx.fromAddr (m.balance tx.fromAddr - tx.value)).setBalance recipient
        (U128.saturatingAdd (m.balance recipient) tx.value) := by
  have nonzero : tx.value ≠ 0 := fun h => positive (by rw [h]; rfl)
  simp only [move,if_neg nonzero,debitSmall m _ nonzero (Nat.le_of_lt small)] at ok
  split at ok
  · simp at ok
  rename_i enough
  refine ⟨Nat.le_of_not_lt enough,?_⟩
  cases target : tx.toAddr with
  | none =>
    simp only [target] at ok
    cases ok
    rfl
  | some recipient =>
    simp only [target,creditSmall _ _ small,andThenOk,balanceSet] at ok
    cases ok
    dsimp only
    split
    · rename_i same
      rw [same]
      exact paidBack positive enough
    · rfl

theorem moveHalf {m next : Ledger} {k k' : BitVec 32} {tx : TransactionData} (half : tx.value.toNat = 2^127)
    (ok : m.move k tx = (.ok k',next)) : tx.value.toNat ≤ (m.balance tx.fromAddr).toNat ∧
    match tx.toAddr with
    | none => next = m.setBalance tx.fromAddr (m.balance tx.fromAddr - tx.value)
    | some recipient => recipient ≠ tx.fromAddr ∧ 2^127 ≤ (m.balance recipient).toNat ∧
      next = (m.setBalance tx.fromAddr (m.balance tx.fromAddr - tx.value)).setBalance recipient
        (m.balance recipient - -tx.value) := by
  have positive : tx.value.toNat ≠ 0 := by omega
  have nonzero : tx.value ≠ 0 := fun h => positive (by rw [h]; rfl)
  have lacks := toNatNeg positive
  simp only [move,if_neg nonzero,debitSmall m _ nonzero (Nat.le_of_eq half)] at ok
  split at ok
  · simp at ok
  rename_i enough
  have atLeast := Nat.le_of_not_lt enough
  refine ⟨atLeast,?_⟩
  rw [andThenOk] at ok
  cases target : tx.toAddr with
  | none =>
    simp only [target] at ok
    cases ok
    rfl
  | some recipient =>
    simp only [target,creditLarge _ _ (Nat.le_of_eq half.symm)] at ok
    split at ok
    · simp at ok
    rename_i covered
    have rich := Nat.le_of_not_lt covered
    have apart : recipient ≠ tx.fromAddr := by
      intro same
      have bound := (m.balance tx.fromAddr).isLt
      rw [balanceSet,if_pos same,toNat_sub,lacks] at rich
      omega
    rw [balanceSet,if_neg apart,lacks] at rich
    rw [andThenOk,balanceSet,if_neg apart] at ok
    cases ok
    exact ⟨apart,by omega,rfl⟩

theorem moveLarge {m next : Ledger} {k k' tx} (large : 2^127 < tx.value.toNat)
    (ok : m.move k tx = (.ok k',next)) :
    match tx.toAddr with
    | none => next = m.setBalance tx.fromAddr (U128.saturatingAdd (m.balance tx.fromAddr) (-tx.value))
    | some recipient =>
      if recipient = tx.fromAddr then
        next = m.setBalance tx.fromAddr (U128.saturatingAdd (m.balance tx.fromAddr) (-tx.value) - -tx.value)
      else next = (m.setBalance tx.fromAddr (U128.saturatingAdd (m.balance tx.fromAddr) (-tx.value))).setBalance
        recipient (m.balance recipient - -tx.value) := by
  have nonzero : tx.value ≠ 0 := fun h => by rw [h] at large; contradiction
  simp only [move,if_neg nonzero,debitLarge m _ large,andThenOk] at ok
  cases target : tx.toAddr with
  | none =>
    simp only [target] at ok
    cases ok
    rfl
  | some recipient =>
    simp only [target,creditLarge _ _ (Nat.le_of_lt large)] at ok
    split at ok
    · simp at ok
    rw [andThenOk,balanceSet] at ok
    cases ok
    dsimp only
    split
    · rename_i same
      rw [same,setTwice]
    · rfl

structure StepLaw (m : Ledger) (tx : TransactionData) (next : Ledger) : Prop where
  supply : next.supply + burnedBy tx = m.supply
  accounts : ∀ a, (next.balance a).toNat + sentBy tx a = (m.balance a).toNat + receivedBy tx a

theorem debitLaw {m tx} (enough : tx.value.toNat ≤ (m.balance tx.fromAddr).toNat)
    (target : tx.toAddr = none) : StepLaw m tx (m.setBalance tx.fromAddr (m.balance tx.fromAddr - tx.value)) := by
  have debited := toNat_sub_of_le enough
  refine ⟨?_,?_⟩
  · have supply := supplySet m tx.fromAddr (m.balance tx.fromAddr - tx.value)
    rw [burnedBy,if_pos target]
    omega
  · intro a
    rw [balanceSet,sentBy,receivedBy,target]
    by_cases own : a = tx.fromAddr
    · subst own
      simp only [if_true,reduceCtorEq,if_false]
      omega
    · simp [own,Ne.symm own]

theorem payLaw {m tx recipient}
    (enough : tx.value.toNat ≤ (m.balance tx.fromAddr).toNat) (target : tx.toAddr = some recipient)
    (apart : recipient ≠ tx.fromAddr) (room : (m.balance recipient).toNat + tx.value.toNat ≤ u128Max) :
    StepLaw m tx ((m.setBalance tx.fromAddr (m.balance tx.fromAddr - tx.value)).setBalance recipient
      (U128.saturatingAdd (m.balance recipient) tx.value)) := by
  have debited := toNat_sub_of_le enough
  have credited := U128.toNatSaturatingAdd (m.balance recipient) tx.value
  rw [Nat.min_eq_left room] at credited
  refine ⟨?_,?_⟩
  · have supply := supplySetTwo m apart (m.balance tx.fromAddr - tx.value)
      (U128.saturatingAdd (m.balance recipient) tx.value)
    rw [burnedBy,target,if_neg (by simp)]
    omega
  · intro a
    rw [balanceSet,balanceSet,sentBy,receivedBy,target]
    by_cases theirs : a = recipient
    · subst theirs
      simp [credited,Ne.symm apart]
    · by_cases own : a = tx.fromAddr
      · subst own
        simp only [if_neg theirs,if_true,Option.some.injEq,apart,if_false]
        omega
      · simp [theirs,own,Ne.symm own,Ne.symm theirs]

theorem selfLaw {m tx} (target : tx.toAddr = some tx.fromAddr) : StepLaw m tx m :=
  ⟨by simp [burnedBy,target],fun a => by simp [sentBy,receivedBy,target]⟩

theorem rewriteLaw {m tx} (target : tx.toAddr = some tx.fromAddr) :
    StepLaw m tx (m.setBalance tx.fromAddr (m.balance tx.fromAddr)) := by
  obtain ⟨supply,accounts⟩ := selfLaw (m := m) target
  have same := supplySet m tx.fromAddr (m.balance tx.fromAddr)
  refine ⟨by omega,?_⟩
  intro a
  rw [balanceSet]
  split
  · rename_i own
    exact own ▸ accounts a
  · exact accounts a

theorem moveLaw {m next k k' tx}
    (ok : m.move k tx = (.ok k',next)) (exact' : ExactTransfer m tx) : StepLaw m tx next := by
  by_cases zero : tx.value.toNat = 0
  · have none' : tx.value = 0 := eq_of_toNat_eq zero
    simp only [move,if_pos none'] at ok
    cases ok
    exact ⟨by simp [burnedBy,zero],fun a => by simp [sentBy,receivedBy,zero]⟩
  unfold ExactTransfer at exact'
  dsimp only at exact'
  cases target : tx.toAddr with
  | none =>
    rw [target] at exact'
    rcases Nat.lt_or_eq_of_le exact' with small | half
    · obtain ⟨enough,result⟩ := moveSmall zero small ok
      rw [target] at result
      exact result ▸ debitLaw enough target
    · obtain ⟨enough,result⟩ := moveHalf half ok
      rw [target] at result
      exact result ▸ debitLaw enough target
  | some recipient =>
    simp only [target] at exact'
    by_cases same : recipient = tx.fromAddr
    · rw [if_pos same] at exact'
      have self := same ▸ target
      rcases exact' with small | ⟨large,room⟩
      · have result := (moveSmall zero small ok).2
        simp only [self,if_true] at result
        exact result ▸ selfLaw self
      · have result := moveLarge large ok
        rw [← toNatNeg zero] at room
        simp only [self,if_true,saturatedBack.mpr room] at result
        exact result ▸ rewriteLaw self
    · rw [if_neg same] at exact'
      obtain ⟨enough,result⟩ := moveSmall zero exact'.1 ok
      simp only [target,if_neg same] at result
      exact result ▸ payLaw enough target same exact'.2

theorem otherExact {m next : Ledger} {k k' : BitVec 32} {tx : TransactionData} {recipient : Address}
    (ok : m.move k tx = (.ok k',next)) (target : tx.toAddr = some recipient) (apart : recipient ≠ tx.fromAddr)
    (supply : next.supply + 0 = m.supply)
    (sender : (next.balance tx.fromAddr).toNat + tx.value.toNat = (m.balance tx.fromAddr).toNat + 0) :
    tx.value.toNat < 2^127 ∧ (m.balance recipient).toNat + tx.value.toNat ≤ u128Max := by
  by_cases zero : tx.value.toNat = 0
  · have bound := (m.balance recipient).isLt
    unfold u128Max
    omega
  have lacks := toNatNeg zero
  rcases Nat.lt_trichotomy tx.value.toNat (2^127) with small | half | large
  · obtain ⟨enough,result⟩ := moveSmall zero small ok
    simp only [target,if_neg apart] at result
    have total := supplySetTwo m apart (m.balance tx.fromAddr - tx.value)
      (U128.saturatingAdd (m.balance recipient) tx.value)
    rw [← result,toNat_sub_of_le enough,U128.toNatSaturatingAdd] at total
    omega
  · obtain ⟨enough,result⟩ := moveHalf half ok
    rw [target] at result
    obtain ⟨_,rich,result⟩ := result
    have total := supplySetTwo m apart (m.balance tx.fromAddr - tx.value) (m.balance recipient - -tx.value)
    rw [← result,toNat_sub_of_le enough,
      toNat_sub_of_le (show (-tx.value).toNat ≤ (m.balance recipient).toNat by omega)] at total
    omega
  · have result := moveLarge large ok
    have grown := U128.toNatSaturatingAdd (m.balance tx.fromAddr) (-tx.value)
    have bound := (m.balance tx.fromAddr).isLt
    simp only [target,if_neg apart] at result
    rw [result,balanceSet,if_neg (Ne.symm apart),balanceSet,if_pos rfl,grown] at sender
    unfold u128Max at sender
    omega

theorem moveExact {m next : Ledger} {k k' : BitVec 32} {tx : TransactionData}
    (ok : m.move k tx = (.ok k',next)) (supply : next.supply + burnedBy tx = m.supply)
    (sender : (next.balance tx.fromAddr).toNat + sentBy tx tx.fromAddr =
      (m.balance tx.fromAddr).toNat + receivedBy tx tx.fromAddr) : ExactTransfer m tx := by
  unfold ExactTransfer
  dsimp only
  rw [sentBy,if_pos rfl,receivedBy] at sender
  rw [burnedBy] at supply
  have bound := (m.balance tx.fromAddr).isLt
  cases target : tx.toAddr with
  | none =>
    rw [target,if_neg (by simp)] at sender
    by_contra large
    have result := moveLarge (Nat.lt_of_not_le large) ok
    have grown := U128.toNatSaturatingAdd (m.balance tx.fromAddr) (-tx.value)
    rw [target] at result
    rw [result,balanceSet,if_pos rfl,grown] at sender
    unfold u128Max at sender
    omega
  | some recipient =>
    simp only [target,reduceCtorEq,if_false,Option.some.injEq] at sender supply
    by_cases same : recipient = tx.fromAddr
    · subst same
      dsimp only
      rw [if_pos rfl] at sender ⊢
      rcases Nat.lt_trichotomy tx.value.toNat (2^127) with small | half | large
      · exact .inl small
      · have result := (moveHalf half ok).2
        rw [target] at result
        exact absurd rfl result.1
      · have result := moveLarge large ok
        simp only [target,if_true] at result
        rw [result,balanceSet,if_pos rfl] at sender
        have back := saturatedBack.mp (eq_of_toNat_eq (Nat.add_right_cancel sender))
        rw [toNatNeg (by omega)] at back
        exact .inr ⟨large,back⟩
    · dsimp only
      rw [if_neg same] at sender ⊢
      exact otherExact ok target same supply sender

theorem transferLaw {m after : Ledger} {k k' : BitVec 32} {tx : TransactionData}
    (ok : m.transfer k tx = (.ok k',after)) (exact' : ExactTransfer m tx) : StepLaw m tx after := by
  obtain ⟨next,moved,balances,supply⟩ := transferMoved ok
  have law := moveLaw moved exact'
  exact ⟨supply ▸ law.supply,fun a => by rw [balances]; exact law.accounts a⟩

theorem transferExact {m after : Ledger} {k k' : BitVec 32} {tx : TransactionData}
    (ok : m.transfer k tx = (.ok k',after)) (supply : after.supply + burnedBy tx = m.supply)
    (sender : (after.balance tx.fromAddr).toNat + sentBy tx tx.fromAddr =
      (m.balance tx.fromAddr).toNat + receivedBy tx tx.fromAddr) : ExactTransfer m tx := by
  obtain ⟨next,moved,balances,same⟩ := transferMoved ok
  exact moveExact moved (same ▸ supply) (balances tx.fromAddr ▸ sender)

theorem transferCount (m : Ledger) (k : BitVec 32) (tx : TransactionData) :
    m.transfer k tx = ((m.transfer 0 tx).1.map (k + ·),(m.transfer 0 tx).2) := by
  unfold transfer
  split
  · rcases m.bump tx.fromAddr tx.nonce with ⟨result,next⟩
    cases result <;> simp [Except.map]
  · rcases m.change tx.fromAddr (-tx.value) with ⟨result,next⟩
    cases result with
    | error e => rfl
    | ok _ =>
      simp only [andThenOk]
      split
      · simp only [andThenOk]
        rcases next.bump tx.fromAddr tx.nonce with ⟨result,last⟩
        cases result <;> simp [Except.map]
      · rename_i recipient _
        rcases next.change recipient tx.value with ⟨result,last⟩
        cases result with
        | error e => rfl
        | ok _ =>
          simp only [andThenOk]
          rcases last.bump tx.fromAddr tx.nonce with ⟨result,last⟩
          cases result <;> simp [Except.map,add_assoc]

def settle (m : Ledger) (tx : TransactionData) : Ledger := (m.transfer 0 tx).2

def Accepts (m : Ledger) (tx : TransactionData) : Prop := ∃ k, m.transfer 0 tx = (.ok k,m.settle tx)

theorem transfersRun {m after : Ledger} {k k' : BitVec 32} {txs : List TransactionData}
    (ok : m.transfers k txs = (.ok k',after)) :
    after = StepRun.run settle m txs ∧ StepRun.Along settle Accepts m txs := by
  induction txs generalizing m k with
  | nil =>
    cases ok
    exact ⟨rfl,trivial⟩
  | cons tx rest ih =>
    rw [transfers,transferCount] at ok
    cases first : (m.transfer 0 tx).1 with
    | error e =>
      rw [first] at ok
      cases ok
    | ok c =>
      rw [first] at ok
      obtain ⟨ran,accepted⟩ := ih ok
      exact ⟨ran,⟨c,Prod.ext first rfl⟩,accepted⟩

theorem transfersAccepted {m : Ledger} (k : BitVec 32) {txs : List TransactionData}
    (accepted : StepRun.Along settle Accepts m txs) : (m.transfers k txs).2 = StepRun.run settle m txs := by
  induction txs generalizing m k with
  | nil => rfl
  | cons tx rest ih =>
    obtain ⟨⟨c,ok⟩,later⟩ := accepted
    rw [transfers,transferCount,ok]
    exact ih (k + c) later

theorem runConserved {m : Ledger} {txs : List TransactionData} (accepted : StepRun.Along settle Accepts m txs)
    (exacts : StepRun.Along settle ExactTransfer m txs) : FullyConserved m txs (StepRun.run settle m txs) := by
  induction txs using List.reverseRecOn with
  | nil => exact ⟨rfl,fun _ => rfl⟩
  | append_singleton front tx ih =>
    rw [alongAppend] at accepted exacts
    obtain ⟨supply,accounts⟩ := ih accepted.1 exacts.1
    obtain ⟨⟨k,ok⟩,_⟩ := accepted.2
    have law := transferLaw ok exacts.2.1
    rw [runAppend,runCons,runNil]
    refine ⟨?_,?_⟩
    · have last := law.supply
      simp only [burned,map_append,sum_append,map_cons,map_nil,sum_singleton] at supply ⊢
      omega
    · intro a
      have before := accounts a
      have last := law.accounts a
      simp only [sent,received,map_append,sum_append,map_cons,map_nil,
        sum_singleton] at before ⊢
      omega

theorem frontsExact {m : Ledger} {txs : List TransactionData} (accepted : StepRun.Along settle Accepts m txs)
    (fronts : ∀ front back, txs = front ++ back → Conserved m front (StepRun.run settle m front)) :
    StepRun.Along settle ExactTransfer m txs := by
  induction txs using List.reverseRecOn with
  | nil => trivial
  | append_singleton front tx ih =>
    -- From the end: the law for the front and for the whole leaves the law for the last transfer.
    have whole := fronts (front ++ [tx]) [] (append_nil _).symm
    rw [alongAppend] at accepted ⊢
    have exacts := ih accepted.1 (fun shorter back same =>
      fronts shorter (back ++ [tx]) (by rw [same,List.append_assoc]))
    obtain ⟨supply,accounts⟩ := runConserved accepted.1 exacts
    obtain ⟨⟨k,ok⟩,_⟩ := accepted.2
    refine ⟨exacts,transferExact ok ?_ ?_,trivial⟩
    · have last := whole.supply
      rw [runAppend,runCons,runNil] at last
      simp only [burned,map_append,sum_append,map_cons,map_nil,sum_singleton] at supply last
      omega
    · have before := accounts tx.fromAddr
      have last := whole.senders tx (by simp)
      rw [runAppend,runCons,runNil] at last
      simp only [sent,received,map_append,sum_append,map_cons,map_nil,
        sum_singleton] at before last
      omega

end Ledger

section
variable {keccak : Bytes → Hash}

theorem settleAccounts (t : PatriciaMerkleTrie) (tx : TransactionData) :
    (applyTransaction keccak t 0 tx).2.accounts = Ledger.settle t.accounts tx :=
  (transferAgree (showsSelf t) 0 tx).2.accounts

theorem handledRun {handler after : IpcHandler} {payload : BlockValidatedPayload} {elapsedMs : U64}
    {out : StateRootComputedPayload}
    (ok : handleBlockValidated keccak handler true consensusId payload elapsedMs = (.ok out,after)) :
    after.trie.accounts = StepRun.run Ledger.settle handler.trie.accounts payload.transactions ∧
      StepRun.Along Ledger.settle Ledger.Accepts handler.trie.accounts payload.transactions := by
  obtain ⟨trie,errors⟩ := handledBlock keccak handler payload elapsedMs
  obtain ⟨result,shown⟩ := blockAgree keccak handler.trie 0 payload.transactions
  rw [ok] at trie errors
  rw [trie,shown.accounts]
  rw [result] at errors
  generalize applied : Ledger.transfers handler.trie.accounts 0 payload.transactions = applied' at errors ⊢
  obtain ⟨result,ledger⟩ := applied'
  cases result with
  | error e => simp at errors
  | ok k => exact Ledger.transfersRun applied

theorem frontHandled {handler after : IpcHandler} {payload : BlockValidatedPayload} {elapsedMs : U64}
    {out : StateRootComputedPayload} {front back : List TransactionData}
    (ok : handleBlockValidated keccak handler true consensusId payload elapsedMs = (.ok out,after))
    (split' : payload.transactions = front ++ back) :
    (handleBlockValidated keccak handler true consensusId {payload with transactions := front} elapsedMs).2.trie.accounts =
      run Ledger.settle handler.trie.accounts front := by
  have accepted := (handledRun ok).2
  rw [split',alongAppend] at accepted
  rw [(handledBlock keccak handler _ elapsedMs).1,(blockAgree keccak handler.trie 0 front).2.accounts]
  exact Ledger.transfersAccepted 0 accepted.1

theorem balancesConservedIff {handler after : IpcHandler} {payload : BlockValidatedPayload} {elapsedMs : U64}
    {out : StateRootComputedPayload}
    (ok : handleBlockValidated keccak handler true consensusId payload elapsedMs = (.ok out,after)) :
    (StepRun.Along (fun t tx => (applyTransaction keccak t 0 tx).2) (fun t tx => ExactTransfer t.accounts tx)
        handler.trie payload.transactions →
      Conserved handler.trie.accounts payload.transactions after.trie.accounts) ∧
    ((∀ front back, payload.transactions = front ++ back → Conserved handler.trie.accounts front
        (handleBlockValidated keccak handler true consensusId {payload with transactions := front}
          elapsedMs).2.trie.accounts) ↔
      StepRun.Along (fun t tx => (applyTransaction keccak t 0 tx).2) (fun t tx => ExactTransfer t.accounts tx)
        handler.trie payload.transactions) := by
  obtain ⟨final,accepted⟩ := handledRun ok
  rw [alongMap (P := ExactTransfer) (f := PatriciaMerkleTrie.accounts) (fun t tx => settleAccounts t tx)]
  refine ⟨?_,?_,?_⟩
  · intro exacts
    rw [final]
    exact (Ledger.runConserved accepted exacts).conserved
  · intro fronts
    apply Ledger.frontsExact accepted
    intro front back split'
    rw [← frontHandled ok split']
    exact fronts front back split'
  · intro exacts front back split'
    rw [frontHandled ok split']
    rw [split',alongAppend] at accepted exacts
    exact (Ledger.runConserved accepted.1 exacts.1).conserved

end

theorem ordinaryPaymentConserved : (∃ out, (handled (handlerWith 1 10) [payment 1 (some 2) 3 0]).1 = .ok out) ∧
    Conserved (handlerWith 1 10).trie.accounts [payment 1 (some 2) 3 0]
      (handled (handlerWith 1 10) [payment 1 (some 2) 3 0]).2.trie.accounts := by
  obtain ⟨out,ok⟩ : ∃ out, handleBlockValidated numberHash (handlerWith 1 10) true consensusId
      ⟨0,1,[payment 1 (some 2) 3 0]⟩ 0 = (.ok out,(handled (handlerWith 1 10) [payment 1 (some 2) 3 0]).2) := ⟨_,rfl⟩
  exact ⟨⟨out,congrArg Prod.fst ok⟩,(balancesConservedIff ok).1 (by decide +kernel)⟩

def nearlyAll : U128 := 0xfffffffffffffffffffffffffffffffd

theorem hugePaymentMints : (∃ out, (handled (handlerWith 1 10) [payment 1 none nearlyAll 0]).1 = .ok out) ∧
    Ledger.supply (handlerWith 1 10).trie.accounts = 10 ∧
    Ledger.supply (handled (handlerWith 1 10) [payment 1 none nearlyAll 0]).2.trie.accounts = 13 ∧
    ¬ Conserved (handlerWith 1 10).trie.accounts [payment 1 none nearlyAll 0]
      (handled (handlerWith 1 10) [payment 1 none nearlyAll 0]).2.trie.accounts := by
  have before : Ledger.supply (handlerWith 1 10).trie.accounts = 10 := by decide +kernel
  have after : Ledger.supply (handled (handlerWith 1 10) [payment 1 none nearlyAll 0]).2.trie.accounts = 13 := by
    decide +kernel
  refine ⟨⟨_,rfl⟩,before,after,?_⟩
  intro conserved
  have law := conserved.supply
  rw [before,after] at law
  omega

end QuantumChain.State
