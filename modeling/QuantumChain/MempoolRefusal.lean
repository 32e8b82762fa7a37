import QuantumChain.MempoolIndex

/-! What a refused transaction leaves.
The one refusal that changes the pool is singled out. -/
namespace QuantumChain.Mempool
open TransactionPool KeyedMap
open StepRun (andThen)
open SecondaryIndex

def Underbids (config : MempoolConfig) (existing tx : MempoolTransaction) : Prop :=
  let product := existing.gasPrice.toNat * (100 + config.rbfMinBumpPercent).toNat
  product < 2^256 ∧ tx.gasPrice.toNat < product / 100

def KeepsSlot (config : MempoolConfig) (existing tx : MempoolTransaction) : Prop :=
  config.enableRbf = false ∨ existing.isPendingInclusion = true ∨ Underbids config existing tx

def calculateRbfMinPrice (oldPrice : U256) (bumpPercent : U64) : Option U256 :=
  (U256.checkedMul oldPrice ((100 + bumpPercent).setWidth 256)).map (· / 100)

def isValidRbfBump (oldPrice newPrice : U256) (bumpPercent : U64) : Option Bool :=
  (calculateRbfMinPrice oldPrice bumpPercent).map (fun minimum => decide (minimum ≤ newPrice))

theorem validRbfBump (oldPrice newPrice) (bumpPercent) : isValidRbfBump oldPrice newPrice bumpPercent =
      if oldPrice.toNat * (100 + bumpPercent).toNat < 2^256
      then some (decide (oldPrice.toNat * (100 + bumpPercent).toNat / 100 ≤ newPrice.toNat)) else none := by
  have bump : ((100 + bumpPercent).setWidth 256).toNat = (100 + bumpPercent).toNat :=
    BitVec.toNat_setWidth_of_le (by decide)
  rw [isValidRbfBump,calculateRbfMinPrice,U256.checkedMul,bump]
  split
  · rename_i fits
    have quotient : (oldPrice * (100 + bumpPercent).setWidth 256 / 100).toNat =
        oldPrice.toNat * (100 + bumpPercent).toNat / 100 := by
      rw [BitVec.toNat_udiv,BitVec.toNat_mul,bump,Nat.mod_eq_of_lt fits]
      rfl
    simp only [Option.map_some,BitVec.le_def,quotient]
  · rfl

theorem canReplaceValid {config} {existing tx : MempoolTransaction}
    (sender : existing.sender = tx.sender) (nonce : existing.nonce = tx.nonce)
    (available : existing.isPendingInclusion = false) : canReplace config existing tx =
      match isValidRbfBump existing.gasPrice tx.gasPrice config.rbfMinBumpPercent with
      | none => .error .panic
      | some valid => .ok valid := by
  unfold canReplace isValidRbfBump calculateRbfMinPrice
  simp only [available,Bool.false_eq_true,if_false,sender,nonce,ne_eq,not_true_eq_false,or_self]
  cases U256.checkedMul existing.gasPrice ((100 + config.rbfMinBumpPercent).setWidth 256) <;> rfl

theorem canReplaceRefuses {config existing tx}
    (sender : existing.sender = tx.sender) (nonce : existing.nonce = tx.nonce) :
    (canReplace config existing tx = .ok false ∨ ∃ e, canReplace config existing tx = .error (.error e)) ↔
      existing.isPendingInclusion = true ∨ Underbids config existing tx := by
  cases available : existing.isPendingInclusion with
  | true => simp [canReplace,available]
  | false =>
    rw [canReplaceValid sender nonce available,validRbfBump,Underbids]
    by_cases fits : existing.gasPrice.toNat * (100 + config.rbfMinBumpPercent).toNat < 2^256
    · rw [if_pos fits]
      simp only [Except.ok.injEq,decide_eq_false_iff_not,Nat.not_le,reduceCtorEq,exists_false,or_false,Bool.false_eq_true,
        false_or,fits,true_and]
    · rw [if_neg fits]
      simp only [reduceCtorEq,Except.error.injEq,exists_false,or_self,Bool.false_eq_true,fits,false_and]

namespace TransactionPool
variable {p : TransactionPool} {tx : MempoolTransaction}

theorem replaceSucceeds {hash existing} (found : p.byHash.lookup hash = some existing) :
    (andThen (p.removeInternal hash) fun _ p => ((.ok () : Outcome Unit),p.addInternal tx)).1 = .ok () := by
  simp [removeInternal,found]

theorem replaceUnchanged {hash existing} {f low : Fault MempoolError} {after}
    (found : p.byHash.lookup hash = some existing)
    (refused : (match canReplace p.config existing tx with
      | .error e => (.error e,p)
      | .ok false => (.error low,p)
      | .ok true => andThen (p.removeInternal hash) fun _ p => ((.ok () : Outcome Unit),p.addInternal tx)) =
          (.error f,after)) :
    after = p := by
  split at refused
  · cases refused
    rfl
  · cases refused
    rfl
  · have ok := @replaceSucceeds p tx _ _ found
    rw [refused] at ok
    contradiction

theorem rbfOrAddUnchanged {f after}
    (refused : p.tryRbfOrAdd tx = (.error f,after)) : after = p := by
  unfold tryRbfOrAdd at refused
  split at refused
  · cases refused
  · split at refused
    · cases refused
      rfl
    · split at refused
      · cases refused
        rfl
      · rename_i found
        exact replaceUnchanged found refused

theorem rbfAtLimitUnchanged {f after}
    (refused : p.tryRbfAtLimit tx = (.error f,after)) : after = p := by
  unfold tryRbfAtLimit at refused
  dsimp only at refused
  split at refused
  · cases refused
    rfl
  · split at refused
    · cases refused
      rfl
    · split at refused
      · cases refused
        rfl
      · rename_i found
        exact replaceUnchanged found refused

theorem rbfOrAddRefused (coherent : Coherent p) : (∃ e, (p.tryRbfOrAdd tx).1 = .error (.error e)) ↔ ∃ hash existing,
      slot p.bySender tx.sender tx.nonce = some hash ∧ p.byHash.lookup hash = some existing ∧
        KeepsSlot p.config existing tx := by
  unfold tryRbfOrAdd
  cases occupied : slot p.bySender tx.sender tx.nonce with
  | none => simp
  | some hash =>
    obtain ⟨existing,found,sender,nonce⟩ := coherent.occupant occupied
    have refuses := @canReplaceRefuses p.config _ _ sender nonce
    have occupant : (∃ hash' existing', some hash = some hash' ∧ p.byHash.lookup hash' = some existing' ∧
        KeepsSlot p.config existing' tx) ↔ KeepsSlot p.config existing tx := by
      constructor
      · rintro ⟨_,existing',same,found',keeps⟩
        cases same
        rw [found] at found'
        cases found'
        exact keeps
      · exact fun keeps => ⟨hash,existing,rfl,found,keeps⟩
    rw [occupant,KeepsSlot,← refuses]
    cases enabled : p.config.enableRbf with
    | false => simp
    | true =>
      simp only [Bool.true_eq_false,if_false,found,false_or]
      cases canReplace p.config existing tx with
      | error f => simp
      | ok replaces =>
        cases replaces with
        | false => simp
        | true => simp [replaceSucceeds found]

theorem slotAfter (coherent : Coherent p) {lowest hash sender nonce} :
    slot (p.removeInternal lowest).2.bySender sender nonce = some hash ↔
      slot p.bySender sender nonce = some hash ∧ hash ≠ lowest := by
  rw [(coherent.removeInternal lowest).senders,coherent.senders]
  unfold removeInternal
  split
  · rename_i absent
    refine ⟨?_,fun h => h.1⟩
    rintro ⟨tx,found,rest⟩
    refine ⟨⟨tx,found,rest⟩,?_⟩
    rintro rfl
    rw [absent] at found
    contradiction
  · rw [lookupErase]
    constructor
    · rintro ⟨tx,found,rest⟩
      split at found
      · contradiction
      · rename_i other
        exact ⟨⟨tx,found,rest⟩,other⟩
    · rintro ⟨⟨tx,found,rest⟩,other⟩
      rw [if_neg other]
      exact ⟨tx,found,rest⟩

end TransactionPool

def EvictsInVain (p : TransactionPool) (tx : MempoolTransaction) : Prop :=
  p.byHash.lookup tx.hash = none ∧ p.config.minGasPrice ≤ tx.gasPrice ∧ tx.gasLimit ≤ p.config.maxGasPerTx ∧
  p.senderCount tx.sender < p.config.maxPerAccount ∧ p.config.maxTransactions ≤ p.byHash.size ∧
  ∃ lowest hash existing, p.evictee tx = some lowest ∧ slot p.bySender tx.sender tx.nonce = some hash ∧ hash ≠ lowest ∧
    p.byHash.lookup hash = some existing ∧ KeepsSlot p.config existing tx

section
variable {p : TransactionPool} {tx : MempoolTransaction}

theorem evicteeFound {hash} (evicts : p.evictee tx = some hash) : ∃ lowestTx, p.byHash.lookup hash = some lowestTx := by
  unfold evictee at evicts
  simp only [Option.bind_eq_some_iff] at evicts
  obtain ⟨lowest,_,lowestTx,found,rest⟩ := evicts
  split at rest
  · cases rest
    exact ⟨lowestTx,found⟩
  · contradiction

theorem removedDiffers {hash lowestTx} (found : p.byHash.lookup hash = some lowestTx) :
    (p.removeInternal hash).2 ≠ p := by
  intro same
  have gone : (p.removeInternal hash).2.byHash.lookup hash = none := by
    simp only [removeInternal,found,lookupErase,if_true]
  rw [same,found] at gone
  contradiction

theorem vainEvictionLoses (coherent : Coherent p) (vain : EvictsInVain p tx) :
    ∃ e after, p.add tx = (.error (.error e),after) ∧ after ≠ p := by
  obtain ⟨fresh,price,gas,below,full,lowest,hash,existing,evicts,occupied,other,found,keeps⟩ := vain
  obtain ⟨lowestTx,stored⟩ := evicteeFound evicts
  have path : p.add tx = (p.removeInternal lowest).2.tryRbfOrAdd tx := by
    rw [add,if_neg (by simp [fresh]),if_neg (not_lt.mpr price),if_neg (not_lt.mpr gas),
      if_neg (Nat.not_le.mpr below),if_pos full,p.evicts tx,evicts]
    rfl
  have refused : ∃ e, ((p.removeInternal lowest).2.tryRbfOrAdd tx).1 = .error (.error e) := by
    rw [rbfOrAddRefused (coherent.removeInternal lowest)]
    refine ⟨hash,existing,(slotAfter coherent).mpr ⟨occupied,other⟩,?_,?_⟩
    · simp only [removeInternal,stored,lookupErase,if_neg other]
      exact found
    · simp only [removeInternal,stored]
      exact keeps
  obtain ⟨e,result⟩ := refused
  have unchanged := rbfOrAddUnchanged (Prod.ext result rfl)
  refine ⟨e,_,path.trans (Prod.ext result rfl),?_⟩
  rw [unchanged]
  exact removedDiffers stored

theorem otherwiseUnchanged (coherent : Coherent p) (fine : ¬ EvictsInVain p tx) {e after}
    (refused : p.add tx = (.error (.error e),after)) : after = p := by
  unfold add at refused
  split at refused
  · cases refused
    rfl
  rename_i absent
  split at refused
  · cases refused
    rfl
  rename_i price
  split at refused
  · cases refused
    rfl
  rename_i gas
  split at refused
  · exact rbfAtLimitUnchanged refused
  rename_i below
  split at refused
  · rename_i full
    rw [p.evicts tx] at refused
    cases evicts : p.evictee tx with
    | none =>
      simp only [evicts,StepRun.andThenOk,if_true] at refused
      cases refused
      rfl
    | some lowest =>
      simp only [evicts,StepRun.andThenOk,Bool.true_eq_false,if_false] at refused
      obtain ⟨lowestTx,stored⟩ := evicteeFound evicts
      obtain ⟨hash,existing,occupied,found,keeps⟩ :=
        (rbfOrAddRefused (coherent.removeInternal lowest)).mp ⟨e,congrArg Prod.fst refused⟩
      obtain ⟨before,other⟩ := (slotAfter coherent).mp occupied
      simp only [removeInternal,stored,lookupErase,if_neg other] at found keeps
      exact absurd ⟨by simpa using absent,not_lt.mp price,not_lt.mp gas,Nat.lt_of_not_le below,full,lowest,hash,
        existing,evicts,before,other,found,keeps⟩ fine
  · exact rbfOrAddUnchanged refused

end

theorem refusedAddUnchangedIff (sha256 : Bytes → Hash) (config : MempoolConfig) (calls : List PoolCall)
    (tx : MempoolTransaction) :
    (∀ e after, (StepRun.run (TransactionPool.call sha256) (.new config) calls).add tx = (.error (.error e),after) →
      after = StepRun.run (TransactionPool.call sha256) (.new config) calls) ↔
    ¬ EvictsInVain (StepRun.run (TransactionPool.call sha256) (.new config) calls) tx := by
  have coherent := Coherent.run sha256 config calls
  constructor
  · intro unchanged vain
    obtain ⟨e,after,refused,differs⟩ := vainEvictionLoses coherent vain
    exact differs (unchanged e after refused)
  · intro fine e after refused
    exact otherwiseUnchanged coherent fine refused

def offer (sender : Address) (gasPrice : U256) : SignedTransaction := ⟨sender,none,0,0,gasPrice,21000,[],0⟩

def fullPool : TransactionPool :=
  StepRun.run (TransactionPool.call numberHash) (.new {maxTransactions := 2, minGasPrice := 1})
    [.add (offer 1 100) 1000,.add (offer 2 5) 1000]

theorem refusedOfferEvicts :
    (fullPool.add (.new numberHash (offer 1 101) 2000)).1 = .error (.error (.insufficientFeeBump 100 101 10)) ∧
    fullPool.byHash.lookup ((offer 2 5).hash numberHash) = some (.new numberHash (offer 2 5) 1000) ∧
    (fullPool.add (.new numberHash (offer 1 101) 2000)).2.byHash.lookup ((offer 2 5).hash numberHash) = none := by
  refine ⟨?_,?_,?_⟩ <;> decide +kernel

end QuantumChain.Mempool
