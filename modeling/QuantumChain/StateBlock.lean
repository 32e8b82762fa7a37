import QuantumChain.StateRuns

/-! Blocks as a whole: failures, and the supply.
Sums are taken over integers, not words. -/
namespace QuantumChain.State
open StepRun (andThen)
open StepRun KeyedMap

namespace Ledger

variable (m : Ledger)

theorem lookupSet (a c) (x) :
    (m.setBalance a x).lookup c = if c = a then some {(m.lookup a).getD {} with balance := x} else m.lookup c :=
  lookupInsert _ _ _ _

theorem balanceSet (a c) (x) : (m.setBalance a x).balance c = if c = a then x else m.balance c := by
  unfold balance
  rw [lookupSet]
  split <;> rfl

theorem nonceSet (a c) (x) : (m.setBalance a x).nonce c = m.nonce c := by
  unfold nonce
  rw [lookupSet]
  split
  · rename_i same
    subst c
    cases m.lookup a <;> rfl
  · rfl

theorem setTwice (a) (x y) : (m.setBalance a x).setBalance a y = m.setBalance a y := by
  apply Finmap.ext_lookup
  intro c
  simp only [lookupSet]
  split <;> rfl

theorem setSameIff {m : Ledger} {a x} : m.setBalance a x = m ↔ (m.lookup a).isSome = true ∧ x = m.balance a := by
  constructor
  · intro same
    have found : m.lookup a = some {(m.lookup a).getD {} with balance := x} := by
      have own := lookupSet m a a x
      rw [same,if_pos rfl] at own
      exact own
    have amount := balanceSet m a a x
    rw [same,if_pos rfl] at amount
    exact ⟨by rw [found]; rfl,amount.symm⟩
  · rintro ⟨present,amount⟩
    obtain ⟨account,found⟩ := Option.isSome_iff_exists.mp present
    apply insertSame
    subst amount
    simp [found,balance]

theorem presentOfBalance {m : Ledger} {a} (positive : 0 < (m.balance a).toNat) : (m.lookup a).isSome = true := by
  unfold balance at positive
  cases found : m.lookup a with
  | none => simp [found] at positive
  | some account => rfl

theorem supplySet (m : Ledger) (a) (x) : (m.setBalance a x).supply + (m.balance a).toNat = m.supply + x.toNat := by
  have moved := totalInsert m a {(m.lookup a).getD {} with balance := x}
    (fun account => account.balance.toNat)
  have old : ((m.lookup a).map (fun account => account.balance.toNat)).getD 0 = (m.balance a).toNat := by
    unfold balance
    cases m.lookup a <;> rfl
  rw [old] at moved
  exact moved

def Refused (m : Ledger) (address : Address) (expected : U64) : Prop :=
  m.nonce address ≠ expected ∨ m.nonce address = BitVec.allOnes 64
instance (m address expected) : Decidable (Refused m address expected) := by
  unfold Refused; infer_instance

theorem refusedSet {m : Ledger} {a c x n} : (m.setBalance a x).Refused c n ↔ m.Refused c n := by
  unfold Refused
  rw [nonceSet]

theorem bumpRefused {m : Ledger} {a n} (refused : m.Refused a n) : ∃ e, m.bump a n = (.error e,m) := by
  unfold bump
  dsimp only
  split
  · split <;> exact ⟨_,rfl⟩
  · rename_i same
    have full := refused.resolve_left same
    rw [if_pos full]
    exact ⟨_,rfl⟩

theorem bumpAccepted {m : Ledger} {a n} (accepted : ¬ m.Refused a n) :
    m.bump a n = (.ok (),m.setNonce a (m.nonce a + 1)) := by
  unfold Refused at accepted
  push Not at accepted
  unfold bump
  rw [if_neg (not_not.mpr accepted.1),if_neg accepted.2]

theorem balanceBump (m : Ledger) (a c) (n) : (m.setNonce a n).balance c = m.balance c := by
  unfold balance setNonce
  rw [lookupInsert]
  split
  · rename_i same
    subst c
    cases m.lookup a <;> rfl
  · rfl

theorem nonceBump (m : Ledger) (a c) (n) : (m.setNonce a n).nonce c = if c = a then n else m.nonce c := by
  unfold nonce setNonce
  rw [lookupInsert]
  split <;> rfl

theorem supplyBump (m : Ledger) (a) (n) : (m.setNonce a n).supply = m.supply := by
  have moved := totalInsert m a {(m.lookup a).getD {} with nonce := n}
    (fun account => account.balance.toNat)
  unfold supply setNonce
  cases found : m.lookup a with
  | none =>
    simp only [found] at moved
    exact moved
  | some account =>
    simp only [found,Option.map_some,Option.getD_some] at moved
    simp only [Option.getD_some]
    omega

section
variable (m : Ledger) (a : Address) {v : U128}

theorem debitSmall (positive : v ≠ 0) (small : v.toNat ≤ 2^127) :
    m.change a (-v) = if m.balance a < v then (.error (.error (.insufficientBalance v (m.balance a))),m)
      else (.ok (),m.setBalance a (m.balance a - v)) := by
  have nonzero : v.toNat ≠ 0 := fun h => positive (BitVec.eq_of_toNat_eq h)
  have sign : (-v).msb = true := by
    rw [BitVec.msb_eq_decide,BitVec.toNat_neg]
    exact decide_eq_true (by omega)
  simp [change,sign]

theorem debitLarge (large : 2^127 < v.toNat) :
    m.change a (-v) = (.ok (),m.setBalance a (U128.saturatingAdd (m.balance a) (-v))) := by
  have sign : (-v).msb = false := by
    rw [BitVec.msb_eq_decide,BitVec.toNat_neg]
    exact decide_eq_false (by omega)
  simp [change,sign]

theorem creditSmall (small : v.toNat < 2^127) :
    m.change a v = (.ok (),m.setBalance a (U128.saturatingAdd (m.balance a) v)) := by
  have sign : v.msb = false := by
    rw [BitVec.msb_eq_decide]
    exact decide_eq_false (by omega)
  simp [change,sign]

theorem creditLarge (large : 2^127 ≤ v.toNat) :
    m.change a v = if m.balance a < -v then (.error (.error (.insufficientBalance (-v) (m.balance a))),m)
      else (.ok (),m.setBalance a (m.balance a - -v)) := by
  have sign : v.msb = true := by
    rw [BitVec.msb_eq_decide]
    exact decide_eq_true (by omega)
  simp [change,sign]

end

def FailsUnchanged {α : Type} (out : Outcome α × Ledger) (m : Ledger) : Prop :=
  (∃ e, out.1 = .error e) ∧ out.2 = m

theorem bumpUnchanged (next m : Ledger) (k : BitVec 32) (a) (n) :
    FailsUnchanged (andThen (next.bump a n) fun _ m => (.ok k,m)) m ↔ next.Refused a n ∧ next = m := by
  by_cases refused : next.Refused a n
  · obtain ⟨e,done⟩ := bumpRefused refused
    simp [FailsUnchanged,done,refused]
  · simp [FailsUnchanged,bumpAccepted refused,refused]

def RejectedUntouched (m : Ledger) (tx : TransactionData) : Prop :=
  let value := tx.value.toNat
  let balance := (m.balance tx.fromAddr).toNat
  if value = 0 then m.Refused tx.fromAddr tx.nonce
  else if value ≤ 2^127 ∧ balance < value then True
  else if value < 2^127 then tx.toAddr = some tx.fromAddr ∧ m.Refused tx.fromAddr tx.nonce
  else if value = 2^127 then False
  else
    match tx.toAddr with
    | none => balance = u128Max ∧ m.Refused tx.fromAddr tx.nonce
    | some recipient =>
      if recipient = tx.fromAddr then
        (m.lookup tx.fromAddr).isSome = true ∧ balance + (2^128 - value) ≤ u128Max ∧
          m.Refused tx.fromAddr tx.nonce
      else balance = u128Max ∧ (m.balance recipient).toNat < 2^128 - value
instance (m tx) : Decidable (RejectedUntouched m tx) := by
  unfold RejectedUntouched
  dsimp only
  repeat' split
  all_goals infer_instance

theorem toNatNeg {v : U128} (nonzero : v.toNat ≠ 0) : (-v).toNat = 2^128 - v.toNat := by
  rw [BitVec.toNat_neg]
  omega

theorem setChanged {m : Ledger} {a x} (other : x ≠ m.balance a) : m.setBalance a x ≠ m := by
  intro same
  exact other (setSameIff.mp same).2

theorem setOtherChanged {m : Ledger} {a c x y} (apart : a ≠ c) (other : x ≠ m.balance a) :
    (m.setBalance a x).setBalance c y ≠ m := by
  intro same
  have amount := balanceSet (m.setBalance a x) c a y
  rw [same,if_neg apart,balanceSet,if_pos rfl] at amount
  exact other amount.symm

theorem lessBalance {b v : U128} (positive : v.toNat ≠ 0) (enough : ¬ b < v) : b - v ≠ b := by
  intro same
  have value := congrArg BitVec.toNat same
  have atLeast := Nat.le_of_not_lt enough
  rw [BitVec.toNat_sub] at value
  omega

theorem paidBack {m : Ledger} {a v} (positive : v.toNat ≠ 0) (enough : ¬ m.balance a < v) :
    (m.setBalance a (m.balance a - v)).setBalance a (U128.saturatingAdd (m.balance a - v) v) = m := by
  have atLeast := Nat.le_of_not_lt enough
  rw [setTwice,setSameIff]
  refine ⟨presentOfBalance (by omega),?_⟩
  apply BitVec.eq_of_toNat_eq
  rw [U128.toNatSaturatingAdd,BitVec.toNat_sub]
  unfold u128Max
  omega

theorem untouchedSmall {m tx} (k) (positive : tx.value.toNat ≠ 0)
    (small : tx.value.toNat < 2^127) (enough : ¬ m.balance tx.fromAddr < tx.value) :
    FailsUnchanged (m.transfer k tx) m ↔ tx.toAddr = some tx.fromAddr ∧ m.Refused tx.fromAddr tx.nonce := by
  have nonzero : tx.value ≠ 0 := fun h => positive (by rw [h]; rfl)
  have less := lessBalance positive enough
  simp only [transfer,if_neg nonzero,debitSmall m _ nonzero (Nat.le_of_lt small),if_neg enough,andThenOk]
  cases tx.toAddr with
  | none =>
    rw [andThenOk,bumpUnchanged]
    simp [setChanged less]
  | some recipient =>
    simp only [creditSmall _ _ small,andThenOk,bumpUnchanged,refusedSet,balanceSet,Option.some.injEq]
    split
    · rename_i same
      subst same
      simp [paidBack positive enough]
    · rename_i apart
      simp [apart,setOtherChanged (Ne.symm apart) less]

theorem touchedHalf {m tx} (k) (half : tx.value.toNat = 2^127)
    (enough : ¬ m.balance tx.fromAddr < tx.value) : ¬ FailsUnchanged (m.transfer k tx) m := by
  have positive : tx.value.toNat ≠ 0 := by omega
  have nonzero : tx.value ≠ 0 := fun h => positive (by rw [h]; rfl)
  have less := lessBalance positive enough
  simp only [transfer,if_neg nonzero,debitSmall m _ nonzero (Nat.le_of_eq half),if_neg enough,andThenOk]
  cases tx.toAddr with
  | none =>
    rw [andThenOk,bumpUnchanged]
    simp [setChanged less]
  | some recipient =>
    simp only [creditLarge _ _ (Nat.le_of_eq half.symm)]
    split
    · simp [FailsUnchanged,setChanged less]
    · simp only [andThenOk,bumpUnchanged,balanceSet]
      split
      · rename_i rich same
        subst same
        have low : (m.balance tx.fromAddr - tx.value).toNat < (-tx.value).toNat := by
          have bound := (m.balance tx.fromAddr).isLt
          have atLeast := Nat.le_of_not_lt enough
          rw [toNatNeg positive,BitVec.toNat_sub]
          omega
        rw [balanceSet,if_pos rfl] at rich
        exact absurd low rich
      · rename_i apart
        simp [setOtherChanged (Ne.symm apart) less]

theorem saturatedSame {b w} (positive : w.toNat ≠ 0) : U128.saturatingAdd b w = b ↔ b.toNat = u128Max := by
  rw [← BitVec.toNat_inj,U128.toNatSaturatingAdd]
  unfold u128Max
  omega

theorem saturatedBack {b w} : U128.saturatingAdd b w - w = b ↔ b.toNat + w.toNat ≤ u128Max := by
  rw [← BitVec.toNat_inj,BitVec.toNat_sub,U128.toNatSaturatingAdd]
  unfold u128Max
  omega

theorem untouchedLarge {m : Ledger} {tx : TransactionData} (k : BitVec 32) (large : 2^127 < tx.value.toNat) :
    FailsUnchanged (m.transfer k tx) m ↔
      match tx.toAddr with
      | none => (m.balance tx.fromAddr).toNat = u128Max ∧ m.Refused tx.fromAddr tx.nonce
      | some recipient =>
        if recipient = tx.fromAddr then
          (m.lookup tx.fromAddr).isSome = true ∧
            (m.balance tx.fromAddr).toNat + (2^128 - tx.value.toNat) ≤ u128Max ∧ m.Refused tx.fromAddr tx.nonce
        else (m.balance tx.fromAddr).toNat = u128Max ∧ (m.balance recipient).toNat < 2^128 - tx.value.toNat := by
  have positive : tx.value.toNat ≠ 0 := by omega
  have nonzero : tx.value ≠ 0 := fun h => positive (by rw [h]; rfl)
  have lacks := toNatNeg positive
  have lacksSome : (-tx.value).toNat ≠ 0 := by omega
  have full : m.setBalance tx.fromAddr (U128.saturatingAdd (m.balance tx.fromAddr) (-tx.value)) = m ↔
      (m.balance tx.fromAddr).toNat = u128Max := by
    rw [setSameIff,saturatedSame lacksSome]
    constructor
    · exact fun h => h.2
    · intro h
      exact ⟨presentOfBalance (by rw [h]; decide),h⟩
  simp only [transfer,if_neg nonzero,debitLarge m _ large,andThenOk]
  cases tx.toAddr with
  | none =>
    rw [andThenOk,bumpUnchanged,refusedSet,full]
    exact and_comm
  | some recipient =>
    simp only [creditLarge _ _ (Nat.le_of_lt large),balanceSet]
    by_cases same : recipient = tx.fromAddr
    · subst same
      have covered : ¬ U128.saturatingAdd (m.balance tx.fromAddr) (-tx.value) < -tx.value := by
        have value := U128.toNatSaturatingAdd (m.balance tx.fromAddr) (-tx.value)
        rw [BitVec.lt_def,value]
        unfold u128Max
        omega
      simp only [if_true,if_neg covered,andThenOk,bumpUnchanged,refusedSet,setTwice,setSameIff]
      rw [saturatedBack,lacks]
      constructor
      · rintro ⟨refused,present,fits⟩
        exact ⟨present,fits,refused⟩
      · rintro ⟨present,fits,refused⟩
        exact ⟨refused,present,fits⟩
    · simp only [if_neg same]
      split
      · rename_i poor
        rw [BitVec.lt_def,lacks] at poor
        exact ⟨fun h => ⟨full.mp h.2,poor⟩,fun h => ⟨⟨_,rfl⟩,full.mpr h.1⟩⟩
      · rename_i rich
        have less := lessBalance lacksSome rich
        rw [BitVec.lt_def,lacks] at rich
        simp only [andThenOk,bumpUnchanged,rich,and_false,iff_false,not_and]
        intro _ unchanged
        have amount := congrArg (fun l => Ledger.balance l recipient) unchanged
        simp only [balanceSet,if_true] at amount
        exact less amount

theorem transferUntouched (m) (k) (tx) : FailsUnchanged (m.transfer k tx) m ↔ RejectedUntouched m tx := by
  unfold RejectedUntouched
  dsimp only
  split
  · rename_i zero
    have none' : tx.value = 0 := BitVec.eq_of_toNat_eq zero
    simp only [transfer,if_pos none',bumpUnchanged,and_true]
  rename_i positive
  have nonzero : tx.value ≠ 0 := fun h => positive (by rw [h]; rfl)
  split
  · rename_i poor
    have less : m.balance tx.fromAddr < tx.value := poor.2
    simp only [transfer,if_neg nonzero,debitSmall m _ nonzero poor.1,if_pos less]
    exact ⟨fun _ => trivial,fun _ => ⟨⟨_,rfl⟩,rfl⟩⟩
  rename_i rich
  split
  · rename_i small
    exact untouchedSmall k positive small (fun less => rich ⟨Nat.le_of_lt small,less⟩)
  split
  · rename_i half
    exact iff_false_intro (touchedHalf k half (fun less => rich ⟨Nat.le_of_eq half,less⟩))
  · rename_i notHalf
    exact untouchedLarge k (by omega)

variable (m : Ledger)

def move (k : BitVec 32) (tx : TransactionData) : Outcome (BitVec 32) × Ledger :=
  if tx.value = 0 then (.ok k,m)
  else
    andThen (m.change tx.fromAddr (-tx.value)) fun _ m =>
    match tx.toAddr with
    | none => (.ok (k+1),m)
    | some recipient => andThen (m.change recipient tx.value) fun _ m => (.ok (k+1+1),m)

theorem transferMove (k : BitVec 32) (tx) :
    m.transfer k tx = andThen (m.move k tx) fun k m => andThen (m.bump tx.fromAddr tx.nonce) fun _ m => (.ok k,m) := by
  unfold transfer move
  split
  · rfl
  · exact (andThenAssoc _ _ _).symm

theorem changeNonce (a c) (delta) : (m.change a delta).2.nonce c = m.nonce c := by
  unfold change
  split
  · exact nonceSet _ _ _ _
  · split
    · rfl
    · exact nonceSet _ _ _ _

theorem moveNonce (k) (tx) (c) : (m.move k tx).2.nonce c = m.nonce c := by
  unfold move
  split
  · rfl
  · have debit := changeNonce m tx.fromAddr c (-tx.value)
    generalize m.change tx.fromAddr (-tx.value) = out at debit ⊢
    obtain ⟨result,next⟩ := out
    cases result with
    | error e => exact debit
    | ok _ =>
      rw [andThenOk]
      split
      · exact debit
      · rename_i recipient _
        have credit := changeNonce next recipient c tx.value
        generalize next.change recipient tx.value = out at credit ⊢
        obtain ⟨result,last⟩ := out
        cases result <;> exact credit.trans debit

theorem transferNonce (k : BitVec 32) (tx : TransactionData) :
    (∀ c, (m.nonce c).toNat ≤ ((m.transfer k tx).2.nonce c).toNat) ∧ ((∃ k', (m.transfer k tx).1 = .ok k') →
      (m.nonce tx.fromAddr).toNat < ((m.transfer k tx).2.nonce tx.fromAddr).toNat) := by
  rw [transferMove]
  have moved := moveNonce m k tx
  generalize m.move k tx = out at moved ⊢
  obtain ⟨result,next⟩ := out
  cases result with
  | error e =>
    refine ⟨fun c => Nat.le_of_eq (congrArg BitVec.toNat (moved c).symm),?_⟩
    rintro ⟨k',impossible⟩
    simp at impossible
  | ok k₁ =>
    rw [andThenOk]
    by_cases refused : next.Refused tx.fromAddr tx.nonce
    · obtain ⟨e,done⟩ := bumpRefused refused
      rw [done]
      refine ⟨fun c => Nat.le_of_eq (congrArg BitVec.toNat (moved c).symm),?_⟩
      rintro ⟨k',impossible⟩
      simp at impossible
    · rw [bumpAccepted refused,andThenOk]
      have room : (next.nonce tx.fromAddr).toNat ≠ 2^64 - 1 := by
        intro full
        exact refused (.inr (BitVec.eq_of_toNat_eq (by rw [full]; rfl)))
      have raised : (next.nonce tx.fromAddr + 1).toNat = (m.nonce tx.fromAddr).toNat + 1 := by
        have bound := (next.nonce tx.fromAddr).isLt
        rw [← moved tx.fromAddr]
        exact toNatNext (by omega)
      refine ⟨?_,?_⟩
      · intro c
        rw [nonceBump]
        split
        · rename_i same
          rw [same,raised]
          exact Nat.le_succ _
        · exact Nat.le_of_eq (congrArg BitVec.toNat (moved c).symm)
      · intro _
        rw [nonceBump,if_pos rfl,raised]
        exact Nat.lt_succ_self _

theorem transfersNonce (k : BitVec 32) (txs : List TransactionData) (c : Address) :
    (m.nonce c).toNat ≤ ((m.transfers k txs).2.nonce c).toNat := by
  induction txs generalizing m k with
  | nil => exact Nat.le_refl _
  | cons tx rest ih =>
    have step := (transferNonce m k tx).1 c
    unfold transfers
    generalize m.transfer k tx = out at step ⊢
    obtain ⟨result,next⟩ := out
    cases result with
    | error e => exact step
    | ok k' => exact step.trans (ih next k')

theorem transfersUntouched (k : BitVec 32) (txs : List TransactionData) :
    FailsUnchanged (m.transfers k txs) m ↔ ∃ tx rest, txs = tx::rest ∧ RejectedUntouched m tx := by
  cases txs with
  | nil => simp [transfers,FailsUnchanged]
  | cons tx rest =>
    have first := transferUntouched m k tx
    have marked := (transferNonce m k tx).2
    simp only [List.cons.injEq,transfers]
    rw [show (∃ tx' rest', (tx = tx' ∧ rest = rest') ∧ RejectedUntouched m tx') ↔ RejectedUntouched m tx by
      constructor
      · rintro ⟨_,_,⟨rfl,rfl⟩,h⟩; exact h
      · exact fun h => ⟨tx,rest,⟨rfl,rfl⟩,h⟩]
    rw [← first]
    generalize m.transfer k tx = out at marked ⊢
    obtain ⟨result,next⟩ := out
    cases result with
    | error e => exact Iff.rfl
    | ok k' =>
      -- Counters never fall again: the raised one shows in whatever the rest leaves.
      refine iff_of_false ?_ (by simp [FailsUnchanged])
      rintro ⟨_,same⟩
      have above := marked ⟨k',rfl⟩
      have kept := transfersNonce next k' rest tx.fromAddr
      rw [andThenOk] at same
      rw [same] at kept
      simp only at above
      omega

end Ledger

section
variable {keccak : Bytes → Hash}

theorem handledBlock (keccak : Bytes → Hash) (handler : IpcHandler) (payload : BlockValidatedPayload) (elapsedMs : U64) :
    (handleBlockValidated keccak handler true consensusId payload elapsedMs).2.trie =
      (applyTransactions keccak handler.trie 0 payload.transactions).2 ∧
    ((∃ e, (handleBlockValidated keccak handler true consensusId payload elapsedMs).1 = .error e) ↔
      ∃ e, (applyTransactions keccak handler.trie 0 payload.transactions).1 = .error e) := by
  unfold handleBlockValidated
  rcases applyTransactions keccak handler.trie 0 payload.transactions with ⟨result,trie⟩
  cases result <;> simp

theorem failedBlockUnchangedIff {handler after : IpcHandler} {payload : BlockValidatedPayload} {elapsedMs : U64}
    {e : Fault StateError} (reached : Reached keccak handler.trie)
    (failed : handleBlockValidated keccak handler true consensusId payload elapsedMs = (.error e,after)) :
    (after.trie.accounts = handler.trie.accounts ∧ after.trie.storage = handler.trie.storage ∧
      after.trie.root = handler.trie.root) ↔
    ∃ tx rest, payload.transactions = tx::rest ∧ Ledger.RejectedUntouched handler.trie.accounts tx := by
  obtain ⟨trie,errors⟩ := handledBlock keccak handler payload elapsedMs
  obtain ⟨result,accounts,storage,rebuilt'⟩ := blockAgree keccak handler.trie 0 payload.transactions
  rw [failed] at trie errors
  have before := reachedRebuilt reached
  have fails := errors.mp ⟨e,rfl⟩
  rw [← Ledger.transfersUntouched handler.trie.accounts 0,Ledger.FailsUnchanged,← result,← accounts,← trie]
  rw [← trie] at storage rebuilt'
  constructor
  · rintro ⟨same,_,_⟩
    exact ⟨fails,same⟩
  · rintro ⟨_,same⟩
    have again := rebuilt' before
    unfold PatriciaMerkleTrie.Rebuilt at again before
    rw [same,before] at again
    exact ⟨same,storage,(congrArg Prod.fst (Option.some.inj again)).symm⟩

end

def handlerWith (address : Address) (balance : U128) : IpcHandler :=
  ⟨((PatriciaMerkleTrie.withConfig {}).setBalance numberHash address balance).2,0,∅⟩

def payment (from' : Address) (to' : Option Address) (value : U128) (nonce : U64) : TransactionData :=
  ⟨0,from',to',value,nonce⟩

def handled (handler : IpcHandler) (txs : List TransactionData) : Outcome StateRootComputedPayload × IpcHandler :=
  handleBlockValidated numberHash handler true consensusId ⟨0,1,txs⟩ 0

theorem selfPaymentUnchanged :
    (handled (handlerWith 1 10) [payment 1 (some 1) 3 5]).2.trie.root = (handlerWith 1 10).trie.root := by
  have failed : handleBlockValidated numberHash (handlerWith 1 10) true consensusId
      ⟨0,1,[payment 1 (some 1) 3 5]⟩ 0 =
      (.error (.error (.nonceGap 1 5)),(handled (handlerWith 1 10) [payment 1 (some 1) 3 5]).2) := rfl
  exact ((failedBlockUnchangedIff (.performed (.started {}) (.setBalance 1 10)) failed).mpr
    ⟨payment 1 (some 1) 3 5,[],rfl,by decide +kernel⟩).2.2

theorem refusedPaymentMade : Reached numberHash (handlerWith 1 10).trie ∧
    (∃ e, (handled (handlerWith 1 10) [payment 1 (some 2) 3 5]).1 = .error e) ∧
    (handlerWith 1 10).trie.getBalance 1 = 10 ∧ (handlerWith 1 10).trie.getBalance 2 = 0 ∧
    (handled (handlerWith 1 10) [payment 1 (some 2) 3 5]).2.trie.getBalance 1 = 7 ∧
    (handled (handlerWith 1 10) [payment 1 (some 2) 3 5]).2.trie.getBalance 2 = 3 := by
  refine ⟨.performed (.started {}) (.setBalance 1 10),⟨_,rfl⟩,?_,?_,?_,?_⟩ <;> decide +kernel

end QuantumChain.State
