import QuantumChain.MempoolCapacity

/-! The batches of proposed transactions.
A batch lives until it is confirmed, rolled back or timed out. -/
namespace QuantumChain.Mempool
open List KeyedMap PendingInclusionBatch StepRun
open StepRun (andThen Along)

def PendingInclusionBatch.lists (hash : Hash) (batch : PendingInclusionBatch) : Bool :=
  batch.transactionHashes.contains hash

theorem PendingInclusionBatch.listsIff {hash} {batch : PendingInclusionBatch} :
    batch.lists hash = true ↔ hash ∈ batch.transactionHashes := contains_iff_mem

structure Booked (p : TransactionPool) : Prop where
  once : ∀ hash tx, p.byHash.lookup hash = some tx → tx.isPendingInclusion = true →
    p.pendingBatches.countP (lists hash) = 1
  listed : ∀ batch ∈ p.pendingBatches, ∀ hash ∈ batch.transactionHashes,
    ∃ tx, p.byHash.lookup hash = some tx ∧ tx.isPendingInclusion = true

theorem Booked.refuted {p} (batch) {hash} (mem : batch ∈ p.pendingBatches)
    (member : hash ∈ batch.transactionHashes) (gone : p.byHash.lookup hash = none) : ¬ Booked p := by
  intro booked
  obtain ⟨tx,found,_⟩ := booked.listed batch mem hash member
  rw [gone] at found
  contradiction

theorem Booked.unlisted {p} (booked : Booked p) {hash tx}
    (found : p.byHash.lookup hash = some tx) (available : tx.isPendingInclusion = false) :
    p.pendingBatches.countP (lists hash) = 0 := by
  apply countP_eq_zero.mpr
  intro batch mem member
  obtain ⟨other,stored,included⟩ := booked.listed batch mem hash (listsIff.mp member)
  cases Option.some.inj (found.symm.trans stored)
  rw [available] at included
  contradiction

theorem Booked.entry {p} (booked : Booked p) {hash tx}
    (found : p.byHash.lookup hash = some tx) (included : tx.isPendingInclusion = true) :
    ∃ batch ∈ p.pendingBatches, hash ∈ batch.transactionHashes := by
  have one := booked.once hash tx found included
  obtain ⟨batch,mem,member⟩ := countP_pos_iff.mp (Nat.lt_of_lt_of_eq Nat.zero_lt_one one.symm)
  exact ⟨batch,mem,listsIff.mp member⟩

structure Tracked (p : TransactionPool) : Prop where
  coherent : Coherent p
  booked : Booked p
  stamped : ∀ batch ∈ p.pendingBatches, ∀ hash ∈ batch.transactionHashes, ∀ tx, p.byHash.lookup hash = some tx →
    tx.state = .pendingInclusion batch.blockHeight batch.proposedAt

def Whole (p : TransactionPool) (hashes : List Hash) : Prop :=
  ∀ batch ∈ p.pendingBatches,
    (∀ hash ∈ batch.transactionHashes, hash ∈ hashes) ∨ ∀ hash ∈ batch.transactionHashes, hash ∉ hashes

instance (p : TransactionPool) (hashes : List Hash) : Decidable (Whole p hashes) :=
  inferInstanceAs (Decidable (∀ batch ∈ p.pendingBatches, _ ∨ _))

namespace PoolCall

def Whole (p : TransactionPool) : PoolCall → Prop
  | .remove hash => (p.byHash.lookup hash).all (fun tx => !tx.isPendingInclusion) = true
  | .confirm hashes => Mempool.Whole p hashes
  | .rollback hashes => Mempool.Whole p hashes
  | .add _ _ | .propose _ _ _ | .cleanupTimeouts _ _ => True

instance (p : TransactionPool) : (c : PoolCall) → Decidable (c.Whole p)
  | .remove _ => inferInstanceAs (Decidable (_ = true))
  | .confirm hashes => inferInstanceAs (Decidable (Mempool.Whole p hashes))
  | .rollback hashes => inferInstanceAs (Decidable (Mempool.Whole p hashes))
  | .add _ _ => isTrue trivial
  | .propose _ _ _ => isTrue trivial
  | .cleanupTimeouts _ _ => isTrue trivial

end PoolCall

namespace PoolRequest

def Whole (p : TransactionPool) : PoolRequest → Prop
  | .submit tx => tx.isPendingInclusion = false
  | .call c => c.Whole p

instance (p : TransactionPool) : (r : PoolRequest) → Decidable (r.Whole p)
  | .submit tx => inferInstanceAs (Decidable (tx.isPendingInclusion = false))
  | .call c => inferInstanceAs (Decidable (c.Whole p))

end PoolRequest

namespace MempoolTransaction

def proposing (blockHeight : U64) (now : Timestamp) (tx : MempoolTransaction) : MempoolTransaction :=
  if tx.isPendingInclusion then tx
  else {tx with state := .pendingInclusion blockHeight now, targetBlock := some blockHeight}

def rollingBack (tx : MempoolTransaction) : MempoolTransaction :=
  if tx.isPendingInclusion = false then tx else {tx with state := .pending, targetBlock := none}

theorem proposingIncluded (blockHeight) (now) (tx : MempoolTransaction) :
    (tx.proposing blockHeight now).isPendingInclusion = true := by
  unfold proposing
  split
  · assumption
  · rfl

theorem rollingBackPending (tx : MempoolTransaction) : tx.rollingBack.isPendingInclusion = false := by
  unfold rollingBack
  split
  · assumption
  · rfl

end MempoolTransaction

namespace TransactionPool
variable {p : TransactionPool}

theorem proposeOneLookup (blockHeight) (now) (a) (k h) : (proposeOne blockHeight now a k).pool.byHash.lookup h =
      if h = k then (a.pool.byHash.lookup h).bind (fun tx => some (tx.proposing blockHeight now))
      else a.pool.byHash.lookup h := by
  refine lookupTouched (fun missing => ?_) (fun tx found => ?_) h
  · rw [proposeOne,missing]
  · unfold proposeOne MempoolTransaction.proposing
    rw [found]
    dsimp only
    split
    · exact (insertSame found).symm
    · rename_i available
      rw [MempoolTransaction.proposed available]

theorem rollbackOneLookup (a) (k h) : (rollbackOne a k).2.byHash.lookup h =
      if h = k then (a.2.byHash.lookup h).bind (fun tx => some tx.rollingBack) else a.2.byHash.lookup h := by
  refine lookupTouched (fun missing => ?_) (fun tx found => ?_) h
  · rw [rollbackOne,missing]
  · unfold rollbackOne MempoolTransaction.rollingBack
    rw [found]
    dsimp only
    split
    · exact (insertSame found).symm
    · rename_i proposed
      rw [MempoolTransaction.rolledBack proposed]

theorem removeLookup (p : TransactionPool) (k h) :
    (p.removeInternal k).2.byHash.lookup h = if h = k then none else p.byHash.lookup h := by
  unfold removeInternal
  cases found : p.byHash.lookup k with
  | none =>
    dsimp only
    split
    · rename_i here
      subst here
      exact found
    · rfl
  | some tx => exact lookupErase _ _ _

theorem removeBatches (p : TransactionPool) (k) : (p.removeInternal k).2.pendingBatches = p.pendingBatches := by
  unfold removeInternal
  split <;> rfl

theorem confirmOnePool (a) (k) : (confirmOne a k).2 = (a.2.removeInternal k).2 := by
  unfold confirmOne
  split <;> simp_all

theorem rollbackLookup (p : TransactionPool) (hashes) (h) : (p.rollback hashes).2.byHash.lookup h =
      if h ∈ hashes then (p.byHash.lookup h).bind (fun tx => some tx.rollingBack) else p.byHash.lookup h :=
  foldTouches (fun a : List Hash × TransactionPool => a.2.byHash)
    (fun v w last => by
      cases last
      rw [MempoolTransaction.rollingBack,if_pos v.rollingBackPending])
    rollbackOneLookup ([],p) hashes h

theorem confirmLookup (p : TransactionPool) (hashes) (h) :
    (p.confirm hashes).2.byHash.lookup h = if h ∈ hashes then none else p.byHash.lookup h := by
  have touched := foldTouches (fun a : List Hash × TransactionPool => a.2.byHash) (f := fun _ => none)
    (fun _ _ last => (nomatch last))
    (fun a k h => by rw [confirmOnePool,removeLookup,Option.bind_fun_none]) ([],p) hashes h
  rw [Option.bind_fun_none] at touched
  exact touched

theorem proposeLookup (p : TransactionPool) (hashes) (blockHeight) (now) (h) :
    (p.propose hashes blockHeight now).2.byHash.lookup h =
      if h ∈ hashes then (p.byHash.lookup h).bind (fun tx => some (tx.proposing blockHeight now))
      else p.byHash.lookup h :=
  foldTouches (fun a : Proposing => a.pool.byHash)
    (fun v w last => by
      cases last
      rw [MempoolTransaction.proposing,if_pos (v.proposingIncluded blockHeight now)])
    (proposeOneLookup blockHeight now) ⟨p,{},[]⟩ hashes h

theorem confirmOneConfirms (coherent : Coherent p) (acc) (k h) :
    h ∈ (confirmOne (acc,p) k).1 ↔ h ∈ acc ∨ h = k ∧ ∃ tx, p.byHash.lookup k = some tx := by
  unfold confirmOne removeInternal
  cases found : p.byHash.lookup k with
  | none => simp
  | some tx => simp [coherent.keyed k tx found]

theorem confirmedAll (coherent : Coherent p) (acc hashes : List Hash) (h) :
    h ∈ (hashes.foldl confirmOne (acc,p)).1 ↔ h ∈ acc ∨ h ∈ hashes ∧ ∃ tx, p.byHash.lookup h = some tx := by
  induction hashes generalizing acc p with
  | nil => simp
  | cons k rest ih =>
    have pool := confirmOnePool (acc,p) k
    have confirms := confirmOneConfirms coherent acc k h
    have lookup := p.removeLookup k h
    have kept := coherent.removeInternal k
    rw [foldl_cons]
    generalize confirmOne (acc,p) k = next at pool confirms
    obtain ⟨acc',p'⟩ := next
    cases pool
    rw [ih kept,confirms,lookup,mem_cons]
    by_cases here : h = k
    · subst here
      simp
    · simp [here]

theorem rollbackBatches (p : TransactionPool) (hashes) : (p.rollback hashes).2.pendingBatches =
      p.pendingBatches.filter (fun batch => !batch.transactionHashes.any (fun h => decide (h ∈ hashes))) := by
  have one : ∀ a k, (rollbackOne a k).2.pendingBatches = a.2.pendingBatches := by
    intro a k
    unfold rollbackOne
    split
    · rfl
    split <;> rfl
  exact congrArg (List.filter _) (runFrame (fun a => a.2.pendingBatches) one ([],p) hashes)

theorem confirmBatches (p : TransactionPool) (hashes) :
    (p.confirm hashes).2.pendingBatches = p.pendingBatches.filter (fun batch =>
      !batch.transactionHashes.all (fun h => decide (h ∈ (hashes.foldl confirmOne ([],p)).1))) := by
  have one : ∀ a k, (confirmOne a k).2.pendingBatches = a.2.pendingBatches := by
    intro a k
    rw [confirmOnePool,removeBatches]
  exact congrArg (List.filter _) (runFrame (fun a => a.2.pendingBatches) one ([],p) hashes)

theorem proposeOneProposes (blockHeight) (now) (a) (k h) : h ∈ (proposeOne blockHeight now a k).proposedHashes ↔
      h ∈ a.proposedHashes ∨ h = k ∧ ∃ tx, a.pool.byHash.lookup k = some tx ∧ tx.isPendingInclusion = false := by
  unfold proposeOne
  cases found : a.pool.byHash.lookup k with
  | none => simp
  | some tx =>
    dsimp only
    split
    · rename_i included
      simp [included]
    · rename_i available
      simp [available]

def proposedIn (p : TransactionPool) (hashes : List Hash) (blockHeight : U64) (now : Timestamp) : List Hash :=
  (hashes.foldl (proposeOne blockHeight now) ⟨p,{},[]⟩).proposedHashes

theorem foldProposes (blockHeight) (now) (a) (hashes : List Hash) (h) :
    h ∈ (hashes.foldl (proposeOne blockHeight now) a).proposedHashes ↔
      h ∈ a.proposedHashes ∨ h ∈ hashes ∧ ∃ tx, a.pool.byHash.lookup h = some tx ∧ tx.isPendingInclusion = false := by
  induction hashes generalizing a with
  | nil => simp
  | cons k rest ih =>
    rw [foldl_cons,ih,proposeOneProposes,proposeOneLookup,mem_cons]
    by_cases here : h = k
    · subst here
      cases found : a.pool.byHash.lookup h with
      | none => simp
      | some tx => simp [MempoolTransaction.proposingIncluded]
    · simp [here]

theorem memProposedIn {hashes blockHeight now h} : h ∈ p.proposedIn hashes blockHeight now ↔
      h ∈ hashes ∧ ∃ tx, p.byHash.lookup h = some tx ∧ tx.isPendingInclusion = false := by
  rw [proposedIn,foldProposes]
  simp

theorem proposeBatches (p : TransactionPool) (hashes) (blockHeight) (now) :
    (p.propose hashes blockHeight now).2.pendingBatches =
      if (p.proposedIn hashes blockHeight now).isEmpty then p.pendingBatches
      else p.pendingBatches ++ [⟨blockHeight,none,now,p.proposedIn hashes blockHeight now⟩] := by
  have one : ∀ a k, (proposeOne blockHeight now a k).pool.pendingBatches = a.pool.pendingBatches := by
    intro a k
    unfold proposeOne
    split
    · rfl
    split <;> rfl
  have kept : (hashes.foldl (proposeOne blockHeight now) ⟨p,{},[]⟩).pool.pendingBatches = p.pendingBatches :=
    runFrame (fun a : Proposing => a.pool.pendingBatches) one ⟨p,{},[]⟩ hashes
  unfold propose
  dsimp only
  rw [kept]
  rfl

theorem proposeCounts (p : TransactionPool) (hashes) (blockHeight) (now) (h) :
    (p.propose hashes blockHeight now).2.pendingBatches.countP (lists h) =
      p.pendingBatches.countP (lists h) +
        if h ∈ p.proposedIn hashes blockHeight now then 1 else 0 := by
  rw [proposeBatches]
  split
  · rename_i none
    rw [isEmpty_iff.mp none]
    simp
  · simp [countP_append,countP_cons,lists]

end TransactionPool

structure Beside (tx : MempoolTransaction) (p next : TransactionPool) : Prop where
  batches : next.pendingBatches = p.pendingBatches
  found : ∀ hash other, next.byHash.lookup hash = some other → p.byHash.lookup hash = some other ∨ other = tx
  kept : ∀ hash other, p.byHash.lookup hash = some other → other.isPendingInclusion = true →
    next.byHash.lookup hash = some other

namespace Beside
variable {tx : MempoolTransaction} {p q next : TransactionPool}

theorem refl (tx) (p) : Beside tx p p :=
  ⟨rfl,fun _ _ found => .inl found,fun _ _ found _ => found⟩

theorem trans (first : Beside tx p q) (second : Beside tx q next) : Beside tx p next := by
  refine ⟨second.batches.trans first.batches,fun hash other found => ?_,fun hash other found included => ?_⟩
  · rcases second.found hash other found with before | same
    · exact first.found hash other before
    · exact .inr same
  · exact second.kept hash other (first.kept hash other found included) included

theorem remove (tx) {hash gone} (found : p.byHash.lookup hash = some gone)
    (available : gone.isPendingInclusion = false) : Beside tx p (p.removeInternal hash).2 := by
  refine ⟨p.removeBatches hash,fun h other stored => ?_,fun h other stored included => ?_⟩
  · rw [p.removeLookup] at stored
    split at stored <;> try contradiction
    exact .inl stored
  · rw [p.removeLookup]
    split
    · rename_i same
      subst same
      rw [found] at stored
      cases stored
      rw [available] at included
      contradiction
    · exact stored

theorem add (fresh : p.byHash.lookup tx.hash = none) : Beside tx p (p.addInternal tx) := by
  refine ⟨rfl,fun h other stored => ?_,fun h other stored _ => ?_⟩
  · rw [TransactionPool.addInternal,lookupInsert] at stored
    split at stored
    · exact .inr (Option.some.inj stored).symm
    · exact .inl stored
  · rw [TransactionPool.addInternal,lookupInsert]
    split
    · rename_i same
      subst same
      rw [fresh] at stored
      contradiction
    · exact stored

theorem replaced (fresh : p.byHash.lookup tx.hash = none) (by' : Replaced p tx next) : Beside tx p next := by
  obtain ⟨_,found,_,available⟩ := by'
  exact (remove tx found available).trans (add (TransactionPool.freshAfter fresh _))

theorem placed (fresh : p.byHash.lookup tx.hash = none) {out} (placed : Placed p tx out) : Beside tx p out.2 := by
  cases placed with
  | refused fault => exact refl tx p
  | added free => exact add fresh
  | replaced by' => exact replaced fresh by'

theorem admitted {out} (admitted : Admitted p tx out) : Beside tx p out.2 := by
  cases admitted with
  | refused fault => exact refl tx p
  | atLimit fresh by' => exact replaced fresh by'
  | withRoom fresh below room next => exact placed fresh next
  | @evicting lowest lowestTx _ fresh below found pending next =>
    have available : lowestTx.isPendingInclusion = false := by
      rw [MempoolTransaction.isPendingInclusion,of_decide_eq_true pending]
    exact (remove tx found available).trans (placed (TransactionPool.freshAfter fresh lowest) next)

end Beside

namespace Tracked
variable {p next : TransactionPool}

theorem new (config) : Tracked (.new config) :=
  ⟨.new config,⟨fun _ _ found => (nomatch found),fun _ mem => (nomatch mem)⟩,fun _ mem => (nomatch mem)⟩

theorem beside (tracked : Tracked p) {tx} (available : tx.isPendingInclusion = false)
    (coherent : Coherent next) (beside : Beside tx p next) : Tracked next := by
  refine ⟨coherent,⟨fun hash other found included => ?_,fun batch mem hash member => ?_⟩,
    fun batch mem hash member other found => ?_⟩
  · rw [beside.batches]
    rcases beside.found hash other found with before | same
    · exact tracked.booked.once hash other before included
    · rw [same,available] at included
      contradiction
  · rw [beside.batches] at mem
    obtain ⟨other,found,included⟩ := tracked.booked.listed batch mem hash member
    exact ⟨other,beside.kept hash other found included,included⟩
  · rw [beside.batches] at mem
    obtain ⟨before,stored,included⟩ := tracked.booked.listed batch mem hash member
    cases Option.some.inj ((beside.kept hash before stored included).symm.trans found)
    exact tracked.stamped batch mem hash member other stored

theorem settle (tracked : Tracked p) (hashes : List Hash) {keep}
    (coherent : Coherent next) (batches : next.pendingBatches = p.pendingBatches.filter keep)
    (clear : ∀ batch ∈ p.pendingBatches, keep batch = true → ∀ hash ∈ batch.transactionHashes, hash ∉ hashes)
    (stays : ∀ batch ∈ p.pendingBatches, ∀ hash ∈ batch.transactionHashes, hash ∉ hashes → keep batch = true)
    (outside : ∀ hash, hash ∉ hashes → next.byHash.lookup hash = p.byHash.lookup hash)
    (inside : ∀ hash tx, hash ∈ hashes → next.byHash.lookup hash = some tx → tx.isPendingInclusion = false) :
    Tracked next := by
  have before : ∀ batch ∈ next.pendingBatches, batch ∈ p.pendingBatches ∧
    ∀ hash ∈ batch.transactionHashes, hash ∉ hashes := by
    intro batch mem
    rw [batches,mem_filter] at mem
    exact ⟨mem.1,clear batch mem.1 mem.2⟩
  refine ⟨coherent,⟨fun hash tx found included => ?_,fun batch mem hash member => ?_⟩,
    fun batch mem hash member tx found => ?_⟩
  · have spared : hash ∉ hashes := by
      intro named
      rw [inside hash tx named found] at included
      contradiction
    rw [outside hash spared] at found
    have one := tracked.booked.once hash tx found included
    rw [batches,countP_filter,← one]
    apply countP_congr
    intro batch mem
    simp only [Bool.and_eq_true,listsIff,and_iff_left_iff_imp]
    exact fun member => stays batch mem hash member spared
  · obtain ⟨old,spared⟩ := before batch mem
    rw [outside hash (spared hash member)]
    exact tracked.booked.listed batch old hash member
  · obtain ⟨old,spared⟩ := before batch mem
    rw [outside hash (spared hash member)] at found
    exact tracked.stamped batch old hash member tx found

theorem rollback (tracked : Tracked p) {hashes} (whole : Whole p hashes) : Tracked (p.rollback hashes).2 := by
  refine tracked.settle hashes (tracked.coherent.rollback hashes) (p.rollbackBatches hashes) ?_ ?_ ?_ ?_
  · intro batch _ keep hash member named
    simp only [Bool.not_eq_true',any_eq_false,decide_eq_true_eq] at keep
    exact keep hash member named
  · intro batch mem hash member spared
    simp only [Bool.not_eq_true',any_eq_false,decide_eq_true_eq]
    rcases whole batch mem with all | none
    · exact absurd (all hash member) spared
    · exact none
  · intro hash spared
    rw [p.rollbackLookup,if_neg spared]
  · intro hash tx named found
    rw [p.rollbackLookup,if_pos named] at found
    obtain ⟨before,_,last⟩ := Option.bind_eq_some_iff.mp found
    cases last
    exact before.rollingBackPending

theorem confirmed (tracked : Tracked p) (hashes : List Hash) {batch}
    (mem : batch ∈ p.pendingBatches) {hash} (member : hash ∈ batch.transactionHashes) :
    hash ∈ (hashes.foldl TransactionPool.confirmOne ([],p)).1 ↔ hash ∈ hashes := by
  obtain ⟨tx,found,_⟩ := tracked.booked.listed batch mem hash member
  rw [TransactionPool.confirmedAll tracked.coherent]
  simp [found]

theorem confirm (tracked : Tracked p) {hashes} (whole : Whole p hashes) : Tracked (p.confirm hashes).2 := by
  refine tracked.settle hashes (tracked.coherent.confirm hashes) (p.confirmBatches hashes) ?_ ?_ ?_ ?_
  · intro batch mem keep
    rcases whole batch mem with all | none
    · simp only [Bool.not_eq_true',all_eq_false,decide_eq_true_eq] at keep
      obtain ⟨hash,member,left⟩ := keep
      exact absurd ((tracked.confirmed hashes mem member).mpr (all hash member)) left
    · exact none
  · intro batch mem hash member spared
    simp only [Bool.not_eq_true',all_eq_false,decide_eq_true_eq]
    exact ⟨hash,member,fun inside => spared ((tracked.confirmed hashes mem member).mp inside)⟩
  · intro hash spared
    rw [p.confirmLookup,if_neg spared]
  · intro hash tx named found
    rw [p.confirmLookup,if_pos named] at found
    contradiction

theorem remove (tracked : Tracked p) {hash}
    (whole : (p.byHash.lookup hash).all (fun tx => !tx.isPendingInclusion) = true) :
    Tracked (p.removeInternal hash).2 := by
  cases found : p.byHash.lookup hash with
  | none =>
    have same : (p.removeInternal hash).2 = p := by rw [TransactionPool.removeInternal,found]
    rw [same]
    exact tracked
  | some tx =>
    have available : tx.isPendingInclusion = false := by simpa [found] using whole
    exact tracked.beside available (tracked.coherent.removeInternal hash) (.remove tx found available)

theorem propose (tracked : Tracked p) (hashes) (blockHeight) (now) : Tracked (p.propose hashes blockHeight now).2 := by
  have old : ∀ hash tx, p.byHash.lookup hash = some tx → tx.isPendingInclusion = true →
      (p.propose hashes blockHeight now).2.byHash.lookup hash = some tx := by
    intro hash tx found included
    rw [p.proposeLookup,found]
    simp [MempoolTransaction.proposing,included]
  have fresh : ∀ hash ∈ p.proposedIn hashes blockHeight now, ∃ tx,
      (p.propose hashes blockHeight now).2.byHash.lookup hash = some tx ∧
        tx.state = .pendingInclusion blockHeight now := by
    intro hash proposed
    obtain ⟨named,tx,found,available⟩ := TransactionPool.memProposedIn.mp proposed
    rw [p.proposeLookup,if_pos named,found]
    exact ⟨_,rfl,by rw [MempoolTransaction.proposing,if_neg (by rw [available]; exact Bool.false_ne_true)]⟩
  have member : ∀ batch ∈ (p.propose hashes blockHeight now).2.pendingBatches, ∀ hash ∈ batch.transactionHashes,
      ∃ tx, (p.propose hashes blockHeight now).2.byHash.lookup hash = some tx ∧
        tx.state = .pendingInclusion batch.blockHeight batch.proposedAt := by
    intro batch mem hash inBatch
    have either : batch ∈ p.pendingBatches ∨ batch = ⟨blockHeight,none,now,p.proposedIn hashes blockHeight now⟩ := by
      rw [p.proposeBatches] at mem
      split at mem
      · exact .inl mem
      · simpa using mem
    rcases either with before | new
    · obtain ⟨tx,found,included⟩ := tracked.booked.listed batch before hash inBatch
      exact ⟨tx,old hash tx found included,tracked.stamped batch before hash inBatch tx found⟩
    · cases new
      exact fresh hash inBatch
  refine ⟨tracked.coherent.propose hashes blockHeight now,⟨fun hash tx found included => ?_,fun batch mem hash inBatch => ?_⟩,
    fun batch mem hash inBatch tx found => ?_⟩
  · rw [p.proposeCounts]
    rw [p.proposeLookup] at found
    cases before : p.byHash.lookup hash with
    | none => simp [before] at found
    | some prior =>
      cases state : prior.isPendingInclusion with
      | true =>
        have left : hash ∉ p.proposedIn hashes blockHeight now := by simp [TransactionPool.memProposedIn,before,state]
        rw [tracked.booked.once hash prior before state,if_neg left]
      | false =>
        have named : hash ∈ hashes := by
          by_contra spared
          rw [if_neg spared,before] at found
          cases found
          rw [state] at included
          contradiction
        have taken : hash ∈ p.proposedIn hashes blockHeight now :=
          TransactionPool.memProposedIn.mpr ⟨named,prior,before,state⟩
        rw [tracked.booked.unlisted before state,if_pos taken]
  · obtain ⟨tx,found,state⟩ := member batch mem hash inBatch
    exact ⟨tx,found,by rw [MempoolTransaction.isPendingInclusion,state]⟩
  · obtain ⟨other,stored,state⟩ := member batch mem hash inBatch
    cases Option.some.inj (found.symm.trans stored)
    exact state

theorem timedOutIff (tracked : Tracked p) (visit) (now) {batch}
    (mem : batch ∈ p.pendingBatches) {hash} (member : hash ∈ batch.transactionHashes) :
    hash ∈ p.timedOut visit now ↔ p.config.pendingInclusionTimeoutMs.toNat ≤ now.toNat - batch.proposedAt.toNat := by
  obtain ⟨tx,found,_⟩ := tracked.booked.listed batch mem hash member
  have stamp := tracked.stamped batch mem hash member tx found
  have due : tx.isTimedOut now p.config.pendingInclusionTimeoutMs =
      decide (p.config.pendingInclusionTimeoutMs.toNat ≤ now.toNat - batch.proposedAt.toNat) := by
    rw [MempoolTransaction.isTimedOut,stamp]
  rw [← decide_eq_true_iff (p := p.config.pendingInclusionTimeoutMs.toNat ≤ _),← due,TransactionPool.timedOut,mem_filterMap]
  constructor
  · intro ⟨key,_,picked⟩
    obtain ⟨other,kept,same⟩ := Option.map_eq_some_iff.mp picked
    obtain ⟨stored,late⟩ := Option.filter_eq_some_iff.mp kept
    have own := tracked.coherent.keyed key other stored
    rw [← own,same,found] at stored
    cases stored
    exact late
  · intro late
    refine ⟨hash,(visit.complete _ _).mpr (memKeys.mpr ⟨tx,found⟩),Option.map_eq_some_iff.mpr ⟨tx,?_,?_⟩⟩
    · exact Option.filter_eq_some_iff.mpr ⟨found,late⟩
    · exact tracked.coherent.keyed hash tx found

theorem timeoutWhole (tracked : Tracked p) (visit) (now) : Whole p (p.timedOut visit now) := by
  intro batch mem
  by_cases due : p.config.pendingInclusionTimeoutMs.toNat ≤ now.toNat - batch.proposedAt.toNat
  · exact .inl (fun hash member => (tracked.timedOutIff visit now mem member).mpr due)
  · exact .inr (fun hash member named => due ((tracked.timedOutIff visit now mem member).mp named))

theorem call (tracked : Tracked p) (sha256) {c} (whole : c.Whole p) : Tracked (p.call sha256 c) := by
  cases c with
  | add transaction addedAt =>
    exact tracked.beside rfl (tracked.coherent.add _) (.admitted (addAdmits tracked.coherent _))
  | remove hash => exact tracked.remove whole
  | propose hashes blockHeight now => exact tracked.propose hashes blockHeight now
  | confirm hashes => exact tracked.confirm whole
  | rollback hashes => exact tracked.rollback whole
  | cleanupTimeouts visit now => exact tracked.rollback (tracked.timeoutWhole visit now)

theorem serve (tracked : Tracked p) (sha256) {r} (whole : r.Whole p) : Tracked (p.serve sha256 r) := by
  cases r with
  | submit tx => exact tracked.beside whole (tracked.coherent.add tx) (.admitted (addAdmits tracked.coherent tx))
  | call c => exact tracked.call sha256 whole

theorem splitBatch {hashes} (split : ¬ Whole p hashes) :
    ∃ batch ∈ p.pendingBatches, ∃ left ∈ batch.transactionHashes, left ∉ hashes ∧
      ∃ named ∈ batch.transactionHashes, named ∈ hashes := by
  unfold Whole at split
  push Not at split
  obtain ⟨batch,mem,⟨left,leftIn,spared⟩,named,namedIn,inHashes⟩ := split
  exact ⟨batch,mem,left,leftIn,spared,named,namedIn,inHashes⟩

theorem rollbackNeeds (tracked : Tracked p) {hashes} (after : Booked (p.rollback hashes).2) : Whole p hashes := by
  by_contra split
  obtain ⟨batch,mem,left,leftIn,spared,named,namedIn,inHashes⟩ := splitBatch split
  -- The batch goes with its named member, and the other member stays proposed without one.
  obtain ⟨tx,found,included⟩ := tracked.booked.listed batch mem left leftIn
  have one := tracked.booked.once left tx found included
  have still := after.once left tx (by rw [p.rollbackLookup,if_neg spared]; exact found) included
  rw [p.rollbackBatches] at still
  rw [countP_eq_countP_filter_add _ _
    (fun batch : PendingInclusionBatch => !batch.transactionHashes.any (fun h => decide (h ∈ hashes))),still] at one
  have dropped : 0 < List.countP (lists left) (p.pendingBatches.filter (fun batch =>
      !(!batch.transactionHashes.any (fun h => decide (h ∈ hashes))))) := by
    apply countP_pos_iff.mpr
    refine ⟨batch,mem_filter.mpr ⟨mem,?_⟩,listsIff.mpr leftIn⟩
    simp only [Bool.not_not,any_eq_true,decide_eq_true_eq]
    exact ⟨named,namedIn,inHashes⟩
  omega

theorem confirmNeeds (tracked : Tracked p) {hashes} (after : Booked (p.confirm hashes).2) : Whole p hashes := by
  by_contra split
  obtain ⟨batch,mem,left,leftIn,spared,named,namedIn,inHashes⟩ := splitBatch split
  have kept : batch ∈ (p.confirm hashes).2.pendingBatches := by
    rw [p.confirmBatches,mem_filter]
    refine ⟨mem,?_⟩
    simp only [Bool.not_eq_true',all_eq_false,decide_eq_true_eq]
    exact ⟨left,leftIn,fun confirmed => spared ((tracked.confirmed hashes mem leftIn).mp confirmed)⟩
  have gone : (p.confirm hashes).2.byHash.lookup named = none := by rw [p.confirmLookup,if_pos inHashes]
  exact Booked.refuted batch kept namedIn gone after

theorem removeNeeds (tracked : Tracked p) {hash} (after : Booked (p.removeInternal hash).2) :
    (p.byHash.lookup hash).all (fun tx => !tx.isPendingInclusion) = true := by
  cases found : p.byHash.lookup hash with
  | none => rfl
  | some tx =>
    cases included : tx.isPendingInclusion with
    | false => simp [included]
    | true =>
      obtain ⟨batch,mem,member⟩ := tracked.booked.entry found included
      rw [← p.removeBatches hash] at mem
      have gone : (p.removeInternal hash).2.byHash.lookup hash = none := by rw [p.removeLookup,if_pos rfl]
      exact absurd after (Booked.refuted batch mem member gone)

theorem needs (tracked : Tracked p) (sha256) {c} (after : Booked (p.call sha256 c)) : c.Whole p := by
  cases c with
  | remove hash => exact tracked.removeNeeds after
  | confirm hashes => exact tracked.confirmNeeds after
  | rollback hashes => exact tracked.rollbackNeeds after
  | add _ _ => trivial
  | propose _ _ _ => trivial
  | cleanupTimeouts _ _ => trivial

end Tracked

theorem batchesBookedWhole (sha256 : Bytes → Hash) (config : MempoolConfig) :
    (∀ requests, Along (TransactionPool.serve sha256) (fun p r => r.Whole p) (.new config) requests →
      Along (TransactionPool.serve sha256) (fun p r => Booked (p.serve sha256 r)) (.new config) requests) ∧
    ∀ calls, Along (TransactionPool.call sha256) (fun p c => Booked (p.call sha256 c)) (.new config) calls ↔
      Along (TransactionPool.call sha256) (fun p c => c.Whole p) (.new config) calls := by
  refine ⟨fun requests whole => ?_,fun calls => ?_⟩
  · exact alongKeeps (I := Tracked) (fun p r tracked whole => tracked.serve sha256 whole)
      (fun p tracked => tracked.booked) (.new config) whole
  · exact alongExact (I := Tracked) (fun p c tracked whole => tracked.call sha256 whole)
      (fun p tracked => tracked.booked) (fun p c tracked after => tracked.needs sha256 after) (.new config)

def pairCalls (last : Hash → PoolCall) : List PoolCall :=
  let first : SignedTransaction := ⟨1,none,0,0,100,21000,[],0⟩
  let second : SignedTransaction := ⟨2,none,0,0,200,21000,[],0⟩
  [.add first 10,.add second 10,.propose [first.hash numberHash,second.hash numberHash] 5 20,last (first.hash numberHash)]

def pairPool (last : Hash → PoolCall) : TransactionPool :=
  StepRun.run (TransactionPool.call numberHash) (.new {minGasPrice := 1}) (pairCalls last)

theorem halfBatchLeft :
    ¬ Booked (pairPool (fun hash => .confirm [hash])) ∧ ¬ Booked (pairPool (fun hash => .rollback [hash])) ∧
    ¬ Booked (pairPool .remove) := by
  let first : SignedTransaction := ⟨1,none,0,0,100,21000,[],0⟩
  let second : SignedTransaction := ⟨2,none,0,0,200,21000,[],0⟩
  let batch : PendingInclusionBatch := ⟨5,none,20,[first.hash numberHash,second.hash numberHash]⟩
  have member : first.hash numberHash ∈ batch.transactionHashes := mem_cons_self
  refine ⟨Booked.refuted batch (by decide +kernel) member (by decide +kernel),fun booked => ?_,
    Booked.refuted batch (by decide +kernel) member (by decide +kernel)⟩
  have table : (pairPool (fun hash => .rollback [hash])).pendingBatches = [] := by decide +kernel
  have kept : (pairPool (fun hash => .rollback [hash])).byHash.lookup (second.hash numberHash) =
      some {MempoolTransaction.new numberHash second 10 with state := .pendingInclusion 5 20, targetBlock := some 5} := by
    decide +kernel
  obtain ⟨batch,mem,_⟩ := booked.entry kept rfl
  rw [table] at mem
  exact (not_mem_nil mem).elim

theorem wholeBatchTaken :
    Along (TransactionPool.serve numberHash) (fun p r => Booked (p.serve numberHash r)) (.new {minGasPrice := 1})
      ((pairCalls (fun _ => .cleanupTimeouts .upwards 40000)).map .call) ∧
    Along (TransactionPool.call numberHash) (fun p c => Booked (p.call numberHash c)) (.new {minGasPrice := 1})
      (pairCalls (fun _ => .cleanupTimeouts .upwards 40000)) :=
  ⟨(batchesBookedWhole numberHash {minGasPrice := 1}).1 _ (by decide +kernel),
    ((batchesBookedWhole numberHash {minGasPrice := 1}).2 _).mpr (by decide +kernel)⟩

end QuantumChain.Mempool
