import QuantumChain.MempoolPool

/-! The two indices of the pool over whole runs.
Only calls of the pool's own interface are made. -/
namespace QuantumChain.Mempool
open TransactionPool StepRun
open StepRun (andThen)
open SecondaryIndex

structure Coherent (p : TransactionPool) : Prop where
  keyed : Keyed MempoolTransaction.hash p.byHash
  prices : Listed MempoolTransaction.isPending MempoolTransaction.priced p.byHash p.byPrice
  senders : Filed MempoolTransaction.sender MempoolTransaction.nonce p.byHash p.bySender
  rows : NoEmptyRow p.bySender

theorem pricedTells (v w : MempoolTransaction) (same : v.priced = w.priced) : v.hash = w.hash :=
  congrArg PricedTransaction.hash same

theorem MempoolTransaction.proposed {tx : MempoolTransaction} {blockHeight now}
    (available : ¬ tx.isPendingInclusion = true) : (tx.propose blockHeight now).2 =
      {tx with state := .pendingInclusion blockHeight now, targetBlock := some blockHeight} := by
  rw [propose,if_neg available]

theorem MempoolTransaction.rolledBack {tx : MempoolTransaction} (proposed : ¬ tx.isPendingInclusion = false) :
    tx.rollback.2 = {tx with state := .pending, targetBlock := none} := by
  rw [rollback,if_neg proposed]

namespace TransactionPool

def evictee (p : TransactionPool) (tx : MempoolTransaction) : Option Hash :=
  (ascending p.byPrice).getLast?.bind fun lowest =>
    (p.byHash.lookup lowest.hash).bind fun lowestTx =>
      if lowestTx.gasPrice < tx.gasPrice ∨ tx.gasPrice = lowestTx.gasPrice ∧ tx.addedAt < lowestTx.addedAt
      then some lowest.hash else none

theorem evicts (p : TransactionPool) (tx) : p.tryEvictFor tx =
      match p.evictee tx with
      | none => (.ok false,p)
      | some hash => (.ok true,(p.removeInternal hash).2) := by
  unfold tryEvictFor evictee
  cases (ascending p.byPrice).getLast? with
  | none => rfl
  | some lowest =>
    cases found : p.byHash.lookup lowest.hash with
    | none => simp [found]
    | some lowestTx =>
      simp only [Option.bind_some,found,← not_or,ite_not]
      split
      · simp [removeInternal,found]
      · rfl

theorem freshAfter {p : TransactionPool} {h} (fresh : p.byHash.lookup h = none) (hash) :
    (p.removeInternal hash).2.byHash.lookup h = none := by
  unfold removeInternal
  split
  · exact fresh
  · rw [KeyedMap.lookupErase]
    split
    · rfl
    · exact fresh

end TransactionPool

namespace Coherent
variable {p : TransactionPool}

theorem new (config) : Coherent (.new config) :=
  ⟨fun _ _ found => (nomatch found),listedEmpty,filedEmpty,fun _ _ found => (nomatch found)⟩

theorem batches (coherent : Coherent p) (batches) :
    Coherent {p with pendingBatches := batches} :=
  ⟨coherent.keyed,coherent.prices,coherent.senders,coherent.rows⟩

theorem removeInternal (coherent : Coherent p) (hash) : Coherent (p.removeInternal hash).2 := by
  unfold TransactionPool.removeInternal
  split
  · exact coherent
  · rename_i tx found
    exact ⟨keyedErase coherent.keyed hash,listedErase pricedTells coherent.keyed coherent.prices found,
      filedErase coherent.senders found,noEmptyUnfile coherent.rows _ _⟩

theorem unpriced (coherent : Coherent p) {tx : MempoolTransaction} (fresh : p.byHash.lookup tx.hash = none) :
    tx.priced ∉ p.byPrice := by
  intro listed
  obtain ⟨hash,other,found,_,same⟩ := (coherent.prices tx.priced).mp listed
  have own := coherent.keyed hash other found
  rw [pricedTells other tx same] at own
  rw [own,found] at fresh
  contradiction

theorem addInternal (coherent : Coherent p) {tx}
    (fresh : p.byHash.lookup tx.hash = none) (free : slot p.bySender tx.sender tx.nonce = none) :
    Coherent (p.addInternal tx) := by
  have prices := listedInsert pricedTells coherent.keyed coherent.prices (v := tx) rfl
    (fun w found => by rw [fresh] at found; contradiction)
  rw [Finset.erase_eq_of_notMem (coherent.unpriced fresh)] at prices
  exact ⟨keyedInsert coherent.keyed rfl,prices,filedInsert coherent.senders fresh free,noEmptyFile coherent.rows _ _ _⟩

theorem setState (coherent : Coherent p) {hash tx}
    (found : p.byHash.lookup hash = some tx) (state) (target) :
    Coherent {p with
      byPrice := if decide (state = .pending) then insert tx.priced p.byPrice else p.byPrice.erase tx.priced
      byHash := p.byHash.insert hash {tx with state := state, targetBlock := target}} := by
  have own := coherent.keyed hash tx found
  refine ⟨keyedInsert coherent.keyed own,?_,filedUpdate coherent.senders found rfl rfl,coherent.rows⟩
  apply listedInsert pricedTells coherent.keyed coherent.prices (v := {tx with state := state, targetBlock := target}) own
  intro w found'
  rw [found] at found'
  cases found'
  rfl

theorem occupant (coherent : Coherent p) {sender nonce hash}
    (occupied : slot p.bySender sender nonce = some hash) :
    ∃ tx, p.byHash.lookup hash = some tx ∧ tx.sender = sender ∧ tx.nonce = nonce :=
  (coherent.senders sender nonce hash).mp occupied

theorem replace (coherent : Coherent p) {tx : MempoolTransaction} {hash}
    (fresh : p.byHash.lookup tx.hash = none) (occupied : slot p.bySender tx.sender tx.nonce = some hash) :
    Coherent (andThen (p.removeInternal hash) fun _ p => ((.ok () : Outcome Unit),p.addInternal tx)).2 := by
  obtain ⟨existing,found,sender,nonce⟩ := coherent.occupant occupied
  have removed := coherent.removeInternal hash
  simp only [TransactionPool.removeInternal,found] at removed ⊢
  refine removed.addInternal ?_ ?_
  · rw [KeyedMap.lookupErase]
    split
    · rfl
    · exact fresh
  · rw [slotUnfile,if_pos ⟨sender.symm,nonce.symm⟩]

theorem tryRbfOrAdd (coherent : Coherent p) {tx}
    (fresh : p.byHash.lookup tx.hash = none) : Coherent (p.tryRbfOrAdd tx).2 := by
  unfold TransactionPool.tryRbfOrAdd
  split
  · rename_i free
    exact coherent.addInternal fresh free
  · rename_i hash occupied
    split
    · exact coherent
    · split
      · exact coherent
      · split
        · exact coherent
        · exact coherent
        · exact coherent.replace fresh occupied

theorem tryRbfAtLimit (coherent : Coherent p) {tx}
    (fresh : p.byHash.lookup tx.hash = none) : Coherent (p.tryRbfAtLimit tx).2 := by
  unfold TransactionPool.tryRbfAtLimit
  dsimp only
  split
  · exact coherent
  · split
    · exact coherent
    · rename_i hash occupied
      split
      · exact coherent
      · split
        · exact coherent
        · exact coherent
        · exact coherent.replace fresh occupied

theorem add (coherent : Coherent p) (tx) : Coherent (p.add tx).2 := by
  unfold TransactionPool.add
  split
  · exact coherent
  rename_i absent
  have fresh : p.byHash.lookup tx.hash = none := by simpa using absent
  split
  · exact coherent
  split
  · exact coherent
  split
  · exact coherent.tryRbfAtLimit fresh
  split
  · rw [p.evicts tx]
    split
    · exact coherent
    · rename_i hash _
      exact (coherent.removeInternal hash).tryRbfOrAdd (freshAfter fresh hash)
  · exact coherent.tryRbfOrAdd fresh

theorem proposeOne {a} (coherent : Coherent a.pool) (blockHeight) (now)
    (hash) : Coherent (TransactionPool.proposeOne blockHeight now a hash).pool := by
  unfold TransactionPool.proposeOne
  split
  · exact coherent
  · rename_i tx found
    split
    · exact coherent
    · rename_i available
      dsimp only
      rw [MempoolTransaction.proposed available]
      exact coherent.setState found (.pendingInclusion blockHeight now) (some blockHeight)

theorem rollbackOne {a} (coherent : Coherent a.2) (hash) :
    Coherent (TransactionPool.rollbackOne a hash).2 := by
  unfold TransactionPool.rollbackOne
  split
  · exact coherent
  · rename_i tx found
    split
    · exact coherent
    · rename_i proposed
      dsimp only
      rw [MempoolTransaction.rolledBack proposed]
      exact coherent.setState found .pending none

theorem confirmOne {a} (coherent : Coherent a.2) (hash) :
    Coherent (TransactionPool.confirmOne a hash).2 := by
  have removed := coherent.removeInternal hash
  unfold TransactionPool.confirmOne
  generalize a.2.removeInternal hash = out at removed ⊢
  obtain ⟨result,next⟩ := out
  cases result <;> exact removed

theorem propose (coherent : Coherent p) (hashes) (blockHeight) (now) :
    Coherent (p.propose hashes blockHeight now).2 :=
  batches (@runInvariant _ _ (TransactionPool.proposeOne blockHeight now) (fun a => Coherent a.pool)
    (fun _ hash inv => proposeOne inv blockHeight now hash) ⟨p,{},[]⟩ coherent hashes) _

theorem confirm (coherent : Coherent p) (hashes) : Coherent (p.confirm hashes).2 :=
  batches (@runInvariant _ _ TransactionPool.confirmOne (fun a => Coherent a.2)
    (fun _ hash inv => confirmOne inv hash) ([],p) coherent hashes) _

theorem rollback (coherent : Coherent p) (hashes) : Coherent (p.rollback hashes).2 :=
  batches (@runInvariant _ _ TransactionPool.rollbackOne (fun a => Coherent a.2)
    (fun _ hash inv => rollbackOne inv hash) ([],p) coherent hashes) _

theorem call (coherent : Coherent p) (sha256) (c) : Coherent (p.call sha256 c) := by
  cases c with
  | add transaction addedAt => exact coherent.add _
  | remove hash => exact coherent.removeInternal hash
  | propose hashes blockHeight now => exact coherent.propose hashes blockHeight now
  | confirm hashes => exact coherent.confirm hashes
  | rollback hashes => exact coherent.rollback hashes
  | cleanupTimeouts visit now => exact coherent.rollback _

theorem counts (coherent : Coherent p) : p.pendingInclusionCount ≠ none := by
  unfold pendingInclusionCount
  rw [if_pos (listedCard coherent.prices)]
  simp

theorem run (sha256) (config) (calls) :
    Coherent (StepRun.run (TransactionPool.call sha256) (.new config) calls) :=
  @runInvariant _ _ (TransactionPool.call sha256) Coherent (fun _ c inv => inv.call sha256 c) _ (new config) calls

end Coherent

theorem poolIndicesCoherent (sha256 : Bytes → Hash) (config : MempoolConfig) (calls : List PoolCall) :
    Coherent (StepRun.run (TransactionPool.call sha256) (.new config) calls) ∧
    (StepRun.run (TransactionPool.call sha256) (.new config) calls).pendingInclusionCount ≠ none :=
  ⟨Coherent.run sha256 config calls,(Coherent.run sha256 config calls).counts⟩

end QuantumChain.Mempool
