import QuantumChain.MempoolRefusal
import QuantumChain.MempoolBatches

/-! Replacement by a higher fee: `100 * new ≥ old * (100 + percent)`.
Pools are reached ones; overflow counts as a failure. -/
namespace QuantumChain.Mempool
open TransactionPool
open StepRun (andThen)
open SecondaryIndex

def PaysBump (old new : U256) (percent : U64) : Prop := old.toNat * (100 + percent.toNat) ≤ new.toNat * 100
instance (old new percent) : Decidable (PaysBump old new percent) := by
  unfold PaysBump; infer_instance

def Misjudged (old new : U256) (percent : U64) : Prop :=
  2^256 ≤ old.toNat * (100 + percent).toNat ∨
    old.toNat * (100 + percent).toNat / 100 ≤ new.toNat ∧ ¬ PaysBump old new percent
instance (old new percent) : Decidable (Misjudged old new percent) := by
  unfold Misjudged; infer_instance

section
variable {old new : U256} {percent : U64}

theorem multiplierLe (percent : U64) : (100 + percent).toNat ≤ 100 + percent.toNat := by
  rw [BitVec.toNat_add]
  exact Nat.mod_le _ _

theorem bumpReached (pays : PaysBump old new percent) : old.toNat * (100 + percent).toNat / 100 ≤ new.toNat :=
  Nat.div_le_of_le_mul (calc
    old.toNat * (100 + percent).toNat ≤ old.toNat * (100 + percent.toNat) := Nat.mul_le_mul_left _ (multiplierLe percent)
    _ ≤ new.toNat * 100 := pays
    _ = 100 * new.toNat := Nat.mul_comm _ _)

theorem validBumpExact :
    isValidRbfBump old new percent = some (decide (PaysBump old new percent)) ↔ ¬ Misjudged old new percent := by
  rw [validRbfBump,Misjudged]
  by_cases fits : old.toNat * (100 + percent).toNat < 2^256
  · rw [if_pos fits,Option.some.injEq,decide_eq_decide]
    constructor
    · rintro same (overflow | ⟨reached,short⟩)
      · omega
      · exact short (same.mp reached)
    · intro fine
      exact ⟨fun reached => by_contra fun short => fine (.inr ⟨reached,short⟩),bumpReached⟩
  · rw [if_neg fits]
    simp only [reduceCtorEq,false_iff,not_not]
    exact .inl (Nat.le_of_not_lt fits)

theorem misjudgedIff (small : 100 + percent.toNat < 2^64) :
    Misjudged old new percent ↔ 2^256 ≤ old.toNat * (100 + percent.toNat) ∨
      new.toNat = old.toNat * (100 + percent.toNat) / 100 ∧ ¬ 100 ∣ old.toNat * (100 + percent.toNat) := by
  have whole : (100 + percent).toNat = 100 + percent.toNat := by
    rw [BitVec.toNat_add]
    exact Nat.mod_eq_of_lt small
  rw [Misjudged,PaysBump,whole]
  generalize old.toNat * (100 + percent.toNat) = product
  omega

end

structure Contends (p : TransactionPool) (tx : MempoolTransaction) : Prop where
  fresh : p.byHash.lookup tx.hash = none
  price : p.config.minGasPrice ≤ tx.gasPrice
  gas : tx.gasLimit ≤ p.config.maxGasPerTx
  enabled : p.config.enableRbf = true

inductive Fate where
  | judged
  | evicted
  | crowdedOut
  deriving DecidableEq, Repr

def TransactionPool.fate (p : TransactionPool) (tx : MempoolTransaction) : Fate :=
  if p.config.maxPerAccount ≤ p.senderCount tx.sender then .judged
  else if p.byHash.size < p.config.maxTransactions then .judged
  else
    match p.evictee tx with
    | none => .crowdedOut
    | some lowest => if slot p.bySender tx.sender tx.nonce = some lowest then .evicted else .judged

def Heeds (out : Outcome Unit) (verdict : Outcome Bool) : Prop :=
  (out = .ok () ↔ verdict = .ok true) ∧ (out = .error .panic ↔ verdict = .error .panic)

namespace TransactionPool
variable {p : TransactionPool} {tx existing : MempoolTransaction} {hash : Hash}

theorem replaceHeeds (low) (found : p.byHash.lookup hash = some existing) :
    Heeds (match canReplace p.config existing tx with
      | .error e => ((.error e : Outcome Unit),p)
      | .ok false => (.error (.error low),p)
      | .ok true => andThen (p.removeInternal hash) fun _ p => (.ok (),p.addInternal tx)).1
      (canReplace p.config existing tx) := by
  have succeeds := @replaceSucceeds p tx _ _ found
  unfold Heeds
  cases canReplace p.config existing tx with
  | error fault => simp
  | ok valid => cases valid <;> simp [succeeds]

theorem rbfOrAddHeeds (enabled : p.config.enableRbf = true) (occupied : slot p.bySender tx.sender tx.nonce = some hash)
    (found : p.byHash.lookup hash = some existing) : Heeds (p.tryRbfOrAdd tx).1 (canReplace p.config existing tx) := by
  have heeds := @replaceHeeds p tx _ _
    (.insufficientFeeBump existing.gasPrice tx.gasPrice p.config.rbfMinBumpPercent) found
  simp only [tryRbfOrAdd,occupied,enabled,Bool.true_eq_false,if_false,found]
  exact heeds

theorem rbfAtLimitHeeds (enabled : p.config.enableRbf = true) (occupied : slot p.bySender tx.sender tx.nonce = some hash)
    (found : p.byHash.lookup hash = some existing) : Heeds (p.tryRbfAtLimit tx).1 (canReplace p.config existing tx) := by
  have heeds := @replaceHeeds p tx _ _ (.accountLimitReached tx.sender p.config.maxPerAccount) found
  simp only [tryRbfAtLimit,occupied,enabled,Bool.true_eq_false,if_false,found]
  exact heeds

theorem contenderAdd (contends : Contends p tx) : p.add tx =
      if p.config.maxPerAccount ≤ p.senderCount tx.sender then p.tryRbfAtLimit tx
      else if p.byHash.size < p.config.maxTransactions then p.tryRbfOrAdd tx
      else
        match p.evictee tx with
        | none => (.error (.error (.poolFull p.config.maxTransactions)),p)
        | some lowest => (p.removeInternal lowest).2.tryRbfOrAdd tx := by
  rw [add,if_neg (by simp [contends.fresh]),if_neg (not_lt.mpr contends.price),if_neg (not_lt.mpr contends.gas)]
  refine if_congr Iff.rfl rfl ?_
  rw [p.evicts tx,← ite_not,if_congr Nat.not_le rfl rfl]
  refine if_congr Iff.rfl rfl ?_
  cases p.evictee tx <;> simp

theorem addHeeds (coherent : Coherent p) (contends : Contends p tx)
    (occupied : slot p.bySender tx.sender tx.nonce = some hash) (found : p.byHash.lookup hash = some existing)
    (judged : p.fate tx = .judged) : Heeds (p.add tx).1 (canReplace p.config existing tx) := by
  rw [contenderAdd contends]
  unfold fate at judged
  split
  · exact rbfAtLimitHeeds contends.enabled occupied found
  split
  · exact rbfOrAddHeeds contends.enabled occupied found
  rename_i below full
  rw [if_neg below,if_neg full] at judged
  cases evicts : p.evictee tx with
  | none =>
    rw [evicts] at judged
    contradiction
  | some lowest =>
    simp only [evicts,occupied] at judged
    split at judged
    · contradiction
    rename_i other
    have kept : hash ≠ lowest := fun same => other (congrArg some same)
    have config := p.removeConfig lowest
    have heeds := @rbfOrAddHeeds (p.removeInternal lowest).2 tx existing hash (by rw [config]; exact contends.enabled)
      ((slotAfter coherent).mpr ⟨occupied,kept⟩) (by rw [p.removeLookup,if_neg kept]; exact found)
    rw [config] at heeds
    exact heeds

theorem addEvicts (coherent : Coherent p) (contends : Contends p tx) (evicted : p.fate tx = .evicted) :
    (p.add tx).1 = .ok () := by
  rw [contenderAdd contends]
  unfold fate at evicted
  split at evicted
  · contradiction
  split at evicted
  · contradiction
  rename_i below full
  rw [if_neg below,if_neg full]
  cases evicts : p.evictee tx with
  | none =>
    rw [evicts] at evicted
    contradiction
  | some lowest =>
    simp only [evicts] at evicted
    split at evicted
    · rename_i own
      have free : slot (p.removeInternal lowest).2.bySender tx.sender tx.nonce = none := by
        rw [Option.eq_none_iff_forall_ne_some]
        intro hash held
        obtain ⟨before,other⟩ := (slotAfter coherent).mp held
        rw [own] at before
        exact other (Option.some.inj before).symm
      simp only [tryRbfOrAdd,free]
    · contradiction

theorem addCrowdedOut (contends : Contends p tx) (crowded : p.fate tx = .crowdedOut) :
    (p.add tx).1 = .error (.error (.poolFull p.config.maxTransactions)) := by
  rw [contenderAdd contends]
  unfold fate at crowded
  split at crowded
  · contradiction
  split at crowded
  · contradiction
  rename_i below full
  rw [if_neg below,if_neg full]
  cases evicts : p.evictee tx with
  | none => rfl
  | some lowest =>
    simp only [evicts] at crowded
    split at crowded <;> contradiction

end TransactionPool

def Replaces (p : TransactionPool) (hash : Hash) (tx : MempoolTransaction) : Prop :=
  (p.add tx).1 = .ok () ∧ (p.add tx).2.byHash.lookup hash = none ∧ (p.add tx).2.byHash.lookup tx.hash = some tx
instance (p hash tx) : Decidable (Replaces p hash tx) := by
  unfold Replaces; infer_instance

section
variable {p : TransactionPool} {tx existing : MempoolTransaction} {hash : Hash}

theorem placedStored {next out} (placed : Placed p tx out)
    (done : out = (.ok (),next)) : next.byHash.lookup tx.hash = some tx := by
  cases placed with
  | refused fault => cases done
  | added free =>
    cases done
    exact (KeyedMap.lookupInsert _ _ _ _).trans (if_pos rfl)
  | replaced by' =>
    cases done
    cases by'
    exact (KeyedMap.lookupInsert _ _ _ _).trans (if_pos rfl)

theorem admittedStored {next out} (admitted : Admitted p tx out)
    (done : out = (.ok (),next)) : next.byHash.lookup tx.hash = some tx := by
  cases admitted with
  | refused fault => cases done
  | atLimit fresh by' => exact placedStored (.replaced by') done
  | withRoom fresh below room placed => exact placedStored placed done
  | evicting fresh below found pending placed => exact placedStored placed done

theorem succeedsReplaces (coherent : Coherent p) (contends : Contends p tx)
    (occupied : slot p.bySender tx.sender tx.nonce = some hash) (found : p.byHash.lookup hash = some existing) :
    (p.add tx).1 = .ok () ↔ Replaces p hash tx := by
  refine ⟨fun ok => ?_,fun replaces => replaces.1⟩
  have stored := admittedStored (addAdmits coherent tx) (Prod.ext ok rfl)
  have after := coherent.add tx
  have beside := Beside.admitted (addAdmits coherent tx)
  refine ⟨ok,?_,stored⟩
  -- The slot holds one hash, and that is the new one; what stood there before has left the pool.
  rw [Option.eq_none_iff_forall_ne_some]
  intro other left
  have differs : hash ≠ tx.hash := by
    rintro rfl
    rw [contends.fresh] at found
    contradiction
  rcases beside.found hash other left with before | same
  · obtain ⟨occupant,stood,sender,nonce⟩ := coherent.occupant occupied
    cases Option.some.inj (stood.symm.trans before)
    have old := (after.senders tx.sender tx.nonce hash).mpr ⟨other,left,sender,nonce⟩
    have own := (after.senders tx.sender tx.nonce tx.hash).mpr ⟨tx,stored,rfl,rfl⟩
    rw [own] at old
    exact differs (Option.some.inj old).symm
  · have key := after.keyed hash other left
    rw [same] at key
    exact differs key.symm

end

theorem replacementExactIff (sha256 : Bytes → Hash) (config : MempoolConfig) (requests : List PoolRequest)
    {p : TransactionPool} (reached : StepRun.run (TransactionPool.serve sha256) (.new config) requests = p)
    {hash : Hash} {existing tx : MempoolTransaction} (occupied : slot p.bySender tx.sender tx.nonce = some hash)
    (found : p.byHash.lookup hash = some existing) (pending : existing.isPending = true) (contends : Contends p tx) :
    ((Replaces p hash tx ↔ PaysBump existing.gasPrice tx.gasPrice config.rbfMinBumpPercent) ∧
        (p.add tx).1 ≠ .error .panic ↔
      match p.fate tx with
      | .judged => ¬ Misjudged existing.gasPrice tx.gasPrice config.rbfMinBumpPercent
      | .evicted => PaysBump existing.gasPrice tx.gasPrice config.rbfMinBumpPercent
      | .crowdedOut => ¬ PaysBump existing.gasPrice tx.gasPrice config.rbfMinBumpPercent) ∧
    (isValidRbfBump existing.gasPrice tx.gasPrice config.rbfMinBumpPercent =
        some (decide (PaysBump existing.gasPrice tx.gasPrice config.rbfMinBumpPercent)) ↔
      ¬ Misjudged existing.gasPrice tx.gasPrice config.rbfMinBumpPercent) ∧
    (100 + config.rbfMinBumpPercent.toNat < 2^64 →
      (Misjudged existing.gasPrice tx.gasPrice config.rbfMinBumpPercent ↔
        2^256 ≤ existing.gasPrice.toNat * (100 + config.rbfMinBumpPercent.toNat) ∨
        tx.gasPrice.toNat = existing.gasPrice.toNat * (100 + config.rbfMinBumpPercent.toNat) / 100 ∧
          ¬ 100 ∣ existing.gasPrice.toNat * (100 + config.rbfMinBumpPercent.toNat))) := by
  have within := StepRun.runInvariant (I := Within config) (fun p r inv => inv.serve sha256 r) (Within.new config) requests
  rw [reached] at within
  have coherent := within.coherent
  refine ⟨?_,validBumpExact,misjudgedIff⟩
  obtain ⟨occupant,stood,sender,nonce⟩ := coherent.occupant occupied
  cases Option.some.inj (found.symm.trans stood)
  have available : existing.isPendingInclusion = false := by
    rw [MempoolTransaction.isPendingInclusion,of_decide_eq_true pending]
  rw [← succeedsReplaces coherent contends occupied found]
  cases way : p.fate tx with
  | judged =>
    obtain ⟨succeeds,panics⟩ := addHeeds coherent contends occupied found way
    rw [canReplaceValid sender nonce available,within.configured] at succeeds panics
    rw [succeeds,Ne,panics,← validBumpExact]
    cases isValidRbfBump existing.gasPrice tx.gasPrice config.rbfMinBumpPercent with
    | none => simp
    | some valid =>
      rw [Option.some.injEq,Bool.eq_iff_iff,decide_eq_true_iff]
      simp
  | evicted =>
    rw [addEvicts coherent contends way]
    simp
  | crowdedOut =>
    rw [addCrowdedOut contends way]
    simp

def rival (gasPrice : U256) : MempoolTransaction := .new numberHash {offer 1 gasPrice with gasLimit := 22000} 2000

def soleOffer (capacity : Nat) (gasPrice : U256) : TransactionPool :=
  StepRun.run (TransactionPool.serve numberHash) (.new {maxTransactions := capacity, minGasPrice := 1})
    [.call (.add (offer 1 gasPrice) 1000)]

theorem paidBumpReplaces : Replaces (soleOffer 2 100) ((offer 1 100).hash numberHash) (rival 110) ∧
    isValidRbfBump 100 110 10 = some true := by
  have exact' := @replacementExactIff numberHash {maxTransactions := 2, minGasPrice := 1}
    [.call (.add (offer 1 100) 1000)] (soleOffer 2 100) rfl ((offer 1 100).hash numberHash)
    (.new numberHash (offer 1 100) 1000) (rival 110)
    (by decide +kernel) (by decide +kernel) (by decide +kernel)
    ⟨by decide +kernel,by decide +kernel,by decide +kernel,by decide +kernel⟩
  have judged : (soleOffer 2 100).fate (rival 110) = .judged := by decide +kernel
  rw [judged] at exact'
  have pays : PaysBump 100 110 10 := by decide
  exact ⟨(exact'.1.mpr (by decide)).1.mpr pays,exact'.2.1.mpr (by decide)⟩

theorem unpaidBumpReplaces : Replaces (soleOffer 2 5) ((offer 1 5).hash numberHash) (rival 5) ∧
    ¬ PaysBump 5 5 10 ∧ isValidRbfBump 5 5 10 = some true ∧
    ((soleOffer 2 (2^256 - 1)).add (rival (2^256 - 1))).1 = .error .panic ∧
    isValidRbfBump (2^256 - 1) (2^256 - 1) 10 = none ∧
    Replaces (soleOffer 1 100) ((offer 1 100).hash numberHash) (rival 101) ∧ ¬ PaysBump 100 101 10 := by
  refine ⟨?_,?_,?_,?_,?_,?_,?_⟩ <;> decide +kernel

end QuantumChain.Mempool
