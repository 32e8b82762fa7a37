import QuantumChain.MempoolIndex

/-! How many transactions the pool holds, in all and by sender.
The bounds are shown for whole runs. -/
namespace QuantumChain.Mempool
open TransactionPool KeyedMap
open StepRun (andThen)
open SecondaryIndex

inductive Replaced (p : TransactionPool) (tx : MempoolTransaction) : TransactionPool → Prop where
  | slot {hash existing} (occupied : slot p.bySender tx.sender tx.nonce = some hash)
      (found : p.byHash.lookup hash = some existing) (sender : existing.sender = tx.sender)
      (available : existing.isPendingInclusion = false) :
      Replaced p tx ((p.removeInternal hash).2.addInternal tx)

inductive Placed (p : TransactionPool) (tx : MempoolTransaction) : Outcome Unit × TransactionPool → Prop where
  | refused (fault : Fault MempoolError) : Placed p tx (.error fault,p)
  | added (free : slot p.bySender tx.sender tx.nonce = none) : Placed p tx (.ok (),p.addInternal tx)
  | replaced {next} (by' : Replaced p tx next) : Placed p tx (.ok (),next)

inductive Admitted (p : TransactionPool) (tx : MempoolTransaction) : Outcome Unit × TransactionPool → Prop where
  | refused (fault : Fault MempoolError) : Admitted p tx (.error fault,p)
  | atLimit {next} (fresh : p.byHash.lookup tx.hash = none) (by' : Replaced p tx next) : Admitted p tx (.ok (),next)
  | withRoom {out} (fresh : p.byHash.lookup tx.hash = none) (below : p.senderCount tx.sender < p.config.maxPerAccount)
      (room : p.byHash.size < p.config.maxTransactions) (next : Placed p tx out) : Admitted p tx out
  | evicting {lowest lowestTx out} (fresh : p.byHash.lookup tx.hash = none)
      (below : p.senderCount tx.sender < p.config.maxPerAccount) (found : p.byHash.lookup lowest = some lowestTx)
      (pending : lowestTx.isPending = true) (next : Placed (p.removeInternal lowest).2 tx out) : Admitted p tx out

theorem replaces {p} {tx : MempoolTransaction} (coherent : Coherent p) {hash existing}
    (occupied : slot p.bySender tx.sender tx.nonce = some hash)
    (found : p.byHash.lookup hash = some existing) (allowed : canReplace p.config existing tx = .ok true) :
    ∃ next, (andThen (p.removeInternal hash) fun _ p => ((.ok () : Outcome Unit),p.addInternal tx)) = (.ok (),next) ∧
      Replaced p tx next := by
  obtain ⟨other,stored,sender,_⟩ := coherent.occupant occupied
  cases Option.some.inj (found.symm.trans stored)
  have available : existing.isPendingInclusion = false := by
    cases inclusion : existing.isPendingInclusion with
    | false => rfl
    | true => simp [canReplace,inclusion] at allowed
  have removed : p.removeInternal hash = (.ok existing,(p.removeInternal hash).2) := by
    simp [removeInternal,found]
  rw [removed]
  exact ⟨_,rfl,.slot occupied found sender available⟩

theorem rbfOrAddPlaces {p} (coherent : Coherent p) (tx) : Placed p tx (p.tryRbfOrAdd tx) := by
  unfold tryRbfOrAdd
  split
  · exact .added (by assumption)
  rename_i hash occupied
  split
  · exact .refused _
  split
  · exact .refused _
  rename_i existing found
  cases allowed : canReplace p.config existing tx with
  | error fault => exact .refused _
  | ok replaces' =>
    cases replaces' with
    | false => exact .refused _
    | true =>
      obtain ⟨next,done,by'⟩ := replaces coherent occupied found allowed
      dsimp only
      rw [done]
      exact .replaced by'

theorem rbfAtLimitReplaces {p} (coherent : Coherent p) (tx) :
    (∃ fault, p.tryRbfAtLimit tx = (.error fault,p)) ∨ ∃ next, p.tryRbfAtLimit tx = (.ok (),next) ∧ Replaced p tx next := by
  unfold tryRbfAtLimit
  dsimp only
  split
  · exact .inl ⟨_,rfl⟩
  split
  · exact .inl ⟨_,rfl⟩
  rename_i hash occupied
  split
  · exact .inl ⟨_,rfl⟩
  rename_i existing found
  cases allowed : canReplace p.config existing tx with
  | error fault => exact .inl ⟨_,rfl⟩
  | ok replaces' =>
    cases replaces' with
    | false => exact .inl ⟨_,rfl⟩
    | true => exact .inr (replaces coherent occupied found allowed)

theorem evicteePending {p} (coherent : Coherent p) {tx hash}
    (evicts : p.evictee tx = some hash) : ∃ lowestTx, p.byHash.lookup hash = some lowestTx ∧ lowestTx.isPending = true := by
  simp only [evictee,Option.bind_eq_some_iff] at evicts
  obtain ⟨lowest,last,lowestTx,found,rest⟩ := evicts
  split at rest <;> try contradiction
  cases Option.some.inj rest
  have listed := memAscending.mp (List.mem_of_getLast? last)
  obtain ⟨key,listedTx,stored,pending,same⟩ := (coherent.prices lowest).mp listed
  have own : key = lowest.hash := by
    rw [← coherent.keyed key listedTx stored,← same]
    rfl
  rw [own] at stored
  exact ⟨listedTx,stored,pending⟩

theorem addAdmits {p} (coherent : Coherent p) (tx) : Admitted p tx (p.add tx) := by
  unfold add
  split
  · exact .refused _
  rename_i absent
  have fresh : p.byHash.lookup tx.hash = none := by simpa using absent
  split
  · exact .refused _
  split
  · exact .refused _
  split
  · rcases rbfAtLimitReplaces coherent tx with ⟨fault,done⟩ | ⟨next,done,by'⟩
    · rw [done]
      exact .refused fault
    · rw [done]
      exact .atLimit fresh by'
  rename_i below
  split
  · rw [p.evicts tx]
    cases evicts : p.evictee tx with
    | none => exact .refused _
    | some lowest =>
      obtain ⟨lowestTx,found,pending⟩ := evicteePending coherent evicts
      exact .evicting fresh (Nat.lt_of_not_le below) found pending (rbfOrAddPlaces (coherent.removeInternal lowest) tx)
  · exact .withRoom fresh (Nat.lt_of_not_le below) (Nat.lt_of_not_le (by assumption)) (rbfOrAddPlaces coherent tx)

namespace TransactionPool

def held (p : TransactionPool) (P : MempoolTransaction → Bool) : Nat := p.byHash.count P

def sentBy (p : TransactionPool) (sender : Address) : Nat := p.held (fun tx => decide (tx.sender = sender))

variable {p : TransactionPool} {tx : MempoolTransaction} {P : MempoolTransaction → Bool}

theorem removeConfig (p : TransactionPool) (hash) : (p.removeInternal hash).2.config = p.config := by
  unfold removeInternal
  split <;> rfl

theorem heldFound {hash} (found : p.byHash.lookup hash = some tx) (P) :
    p.held P = (if P tx then 1 else 0) + (p.removeInternal hash).2.held P := by
  unfold removeInternal
  rw [found]
  exact countErase found P

theorem heldRemove (p : TransactionPool) (hash) (P) : (p.removeInternal hash).2.held P ≤ p.held P := by
  cases found : p.byHash.lookup hash with
  | none => simp [removeInternal,found]
  | some tx =>
    rw [heldFound found]
    exact Nat.le_add_left _ _

theorem heldAdd (fresh : p.byHash.lookup tx.hash = none) (P) :
    (p.addInternal tx).held P = (if P tx then 1 else 0) + p.held P :=
  countInsertFresh fresh P tx

theorem heldReplace (fresh : p.byHash.lookup tx.hash = none) {next} (by' : Replaced p tx next)
    (same : ∀ existing, existing.sender = tx.sender → P existing = P tx) :
    next.held P = p.held P ∧ next.config = p.config := by
  obtain ⟨occupied,found,sender,_⟩ := by'
  rw [heldAdd (freshAfter fresh _),heldFound found,same _ sender]
  exact ⟨rfl,removeConfig p _⟩

theorem heldPlace (fresh : p.byHash.lookup tx.hash = none) {out} (placed : Placed p tx out)
    (same : ∀ existing, existing.sender = tx.sender → P existing = P tx) :
    out.2.held P ≤ (if P tx then 1 else 0) + p.held P ∧ out.2.config = p.config := by
  cases placed with
  | refused fault => exact ⟨Nat.le_add_left _ _,rfl⟩
  | added free => exact ⟨Nat.le_of_eq (heldAdd fresh P),rfl⟩
  | replaced by' =>
    obtain ⟨held,config⟩ := heldReplace fresh by' same
    exact ⟨by rw [held]; exact Nat.le_add_left _ _,config⟩

end TransactionPool

structure Within (config : MempoolConfig) (p : TransactionPool) : Prop where
  configured : p.config = config
  coherent : Coherent p
  pool : p.held (fun _ => true) ≤ config.maxTransactions
  sender : ∀ s, p.sentBy s ≤ config.maxPerAccount

namespace Within
variable {config : MempoolConfig} {p : TransactionPool}

theorem heldSize (p : TransactionPool) : p.held (fun _ => true) = p.byHash.size := sizeCount p.byHash

theorem sentByCount (coherent : Coherent p) (s) : p.sentBy s ≤ p.senderCount s := filedCount coherent.senders s

theorem placed {tx : MempoolTransaction} {out : Outcome Unit × TransactionPool} (same : p.config = config)
    (fresh : p.byHash.lookup tx.hash = none) (placed : Placed p tx out) (coherent : Coherent out.2)
    (room : p.held (fun _ => true) < config.maxTransactions) (below : p.sentBy tx.sender < config.maxPerAccount)
    (sender : ∀ s, p.sentBy s ≤ config.maxPerAccount) : Within config out.2 := by
  obtain ⟨pool,kept⟩ := heldPlace (P := fun _ => true) fresh placed (fun _ _ => rfl)
  refine ⟨kept.trans same,coherent,?_,fun s => ?_⟩
  · simp only [if_true] at pool
    omega
  · have own := (heldPlace (P := fun tx => decide (tx.sender = s)) fresh placed
      (fun _ same => by rw [same])).1
    have before := sender s
    unfold sentBy at *
    cases eq : decide (tx.sender = s) with
    | true =>
      rw [of_decide_eq_true eq] at below
      simp only [eq,if_true] at own
      omega
    | false =>
      simp only [eq,Bool.false_eq_true,if_false] at own
      omega

theorem replaced {tx next} (within : Within config p)
    (fresh : p.byHash.lookup tx.hash = none) (by' : Replaced p tx next) (coherent : Coherent next) :
    Within config next := by
  obtain ⟨pool,kept⟩ := heldReplace (P := fun _ => true) fresh by' (fun _ _ => rfl)
  refine ⟨kept.trans within.configured,coherent,?_,fun s => ?_⟩
  · rw [pool]
    exact within.pool
  · have own := (heldReplace (P := fun tx => decide (tx.sender = s)) fresh by'
      (fun _ same => by rw [same])).1
    unfold sentBy
    rw [own]
    exact within.sender s

theorem add (within : Within config p) (tx) : Within config (p.add tx).2 := by
  have coherent := within.coherent.add tx
  have admitted := addAdmits within.coherent tx
  have count := sentByCount within.coherent tx.sender
  have pool := within.pool
  generalize p.add tx = out at coherent admitted
  cases admitted with
  | refused fault => exact within
  | atLimit fresh by' => exact within.replaced fresh by' coherent
  | withRoom fresh below room next =>
    rw [within.configured] at below room
    exact placed within.configured fresh next coherent (by rw [heldSize]; exact room) (Nat.lt_of_le_of_lt count below)
      within.sender
  | @evicting lowest lowestTx _ fresh below found pending next =>
    rw [within.configured] at below
    have one := heldFound found (fun _ => true)
    have fewer := fun s => p.heldRemove lowest (fun tx => decide (tx.sender = s))
    simp only [if_true] at one
    -- The evicted transaction makes the room that the new one takes.
    exact placed ((p.removeConfig lowest).trans within.configured) (freshAfter fresh lowest) next coherent
      (by omega) (Nat.lt_of_le_of_lt (fewer tx.sender) (Nat.lt_of_le_of_lt count below))
      (fun s => Nat.le_trans (fewer s) (within.sender s))

theorem new (config) : Within config (.new config) :=
  ⟨rfl,.new config,Nat.zero_le _,fun _ => Nat.zero_le _⟩

end Within

def Stateless (P : MempoolTransaction → Bool) : Prop :=
  ∀ tx state target, P {tx with state := state, targetBlock := target} = P tx

structure Lighter (p next : TransactionPool) : Prop where
  config : next.config = p.config
  held : ∀ P, Stateless P → next.held P ≤ p.held P

namespace Lighter
variable {p next : TransactionPool}

theorem refl (p) : Lighter p p := ⟨rfl,fun _ _ => Nat.le_refl _⟩

theorem trans (a b c) (first : Lighter a b) (second : Lighter b c) : Lighter a c :=
  ⟨second.config.trans first.config,fun P stateless => Nat.le_trans (second.held P stateless) (first.held P stateless)⟩

theorem within {config} (lighter : Lighter p next) (coherent : Coherent next)
    (within : Within config p) : Within config next := by
  have pool := lighter.held (fun _ => true) (fun _ _ _ => rfl)
  have sender := fun s => lighter.held (fun tx => decide (tx.sender = s)) (fun _ _ _ => rfl)
  exact ⟨lighter.config.trans within.configured,coherent,Nat.le_trans pool within.pool,
    fun s => Nat.le_trans (sender s) (within.sender s)⟩

theorem remove (p) (hash) : Lighter p (p.removeInternal hash).2 :=
  ⟨p.removeConfig hash,fun P _ => p.heldRemove hash P⟩

theorem setState {hash tx} (found : p.byHash.lookup hash = some tx) (state) (target) (prices) :
    Lighter p {p with
      byPrice := prices
      byHash := p.byHash.insert hash {tx with state := state, targetBlock := target}} :=
  ⟨rfl,fun _ stateless => Nat.le_of_eq (countUpdate found (stateless tx state target))⟩

theorem proposeOne (blockHeight) (now) (a) (hash) :
    Lighter a.pool (TransactionPool.proposeOne blockHeight now a hash).pool := by
  unfold TransactionPool.proposeOne
  split
  · exact refl _
  rename_i tx found
  split
  · exact refl _
  rename_i available
  dsimp only
  rw [MempoolTransaction.proposed available]
  exact setState found _ _ _

theorem rollbackOne (a) (hash) : Lighter a.2 (TransactionPool.rollbackOne a hash).2 := by
  unfold TransactionPool.rollbackOne
  split
  · exact refl _
  rename_i tx found
  split
  · exact refl _
  rename_i proposed
  dsimp only
  rw [MempoolTransaction.rolledBack proposed]
  exact setState found _ _ _

theorem confirmOne (a) (hash) : Lighter a.2 (TransactionPool.confirmOne a hash).2 := by
  have removed := remove a.2 hash
  unfold TransactionPool.confirmOne
  generalize a.2.removeInternal hash = out at removed
  obtain ⟨result,next⟩ := out
  cases result <;> exact removed

theorem folds {σ : Type} (pool : σ → TransactionPool) {one}
    (lighter : ∀ a hash, Lighter (pool a) (pool (one a hash))) (start) (hashes : List Hash) :
    Lighter (pool start) (pool (hashes.foldl one start)) :=
  StepRun.runRelates (R := fun a b => Lighter (pool a) (pool b)) (fun a => refl (pool a))
    (fun a b c => trans (pool a) (pool b) (pool c)) (StepRun.alongAlways lighter start hashes)

theorem batches (lighter : Lighter p next) (batches) : Lighter p {next with pendingBatches := batches} :=
  ⟨lighter.config,lighter.held⟩

theorem propose (p) (hashes) (blockHeight) (now) : Lighter p (p.propose hashes blockHeight now).2 :=
  (folds TransactionPool.Proposing.pool (proposeOne blockHeight now) ⟨p,{},[]⟩ hashes).batches _

theorem confirm (p) (hashes) : Lighter p (p.confirm hashes).2 :=
  (folds Prod.snd confirmOne ([],p) hashes).batches _

theorem rollback (p) (hashes) : Lighter p (p.rollback hashes).2 :=
  (folds Prod.snd rollbackOne ([],p) hashes).batches _

end Lighter

inductive PoolRequest where
  | submit (tx : MempoolTransaction)
  | call (c : PoolCall)

def TransactionPool.serve (sha256 : Bytes → Hash) (p : TransactionPool) : PoolRequest → TransactionPool
  | .submit tx => (p.add tx).2
  | .call c => p.call sha256 c

theorem Within.call {config p} (within : Within config p) (sha256) (c) : Within config (p.call sha256 c) := by
  have coherent := within.coherent.call sha256 c
  cases c with
  | add transaction addedAt => exact within.add _
  | remove hash => exact (Lighter.remove p hash).within coherent within
  | propose hashes blockHeight now => exact (Lighter.propose p hashes blockHeight now).within coherent within
  | confirm hashes => exact (Lighter.confirm p hashes).within coherent within
  | rollback hashes => exact (Lighter.rollback p hashes).within coherent within
  | cleanupTimeouts visit now => exact (Lighter.rollback p _).within coherent within

theorem Within.serve {config p} (within : Within config p) (sha256) (r) : Within config (p.serve sha256 r) := by
  cases r with
  | submit tx => exact within.add tx
  | call c => exact within.call sha256 c

theorem poolLimitsKept (sha256 : Bytes → Hash) (config : MempoolConfig) (requests : List PoolRequest) :
    (StepRun.run (TransactionPool.serve sha256) (.new config) requests).byHash.size ≤ config.maxTransactions ∧
    ∀ s, (StepRun.run (TransactionPool.serve sha256) (.new config) requests).sentBy s ≤ config.maxPerAccount := by
  have within := StepRun.runInvariant (I := Within config) (fun p r inv => inv.serve sha256 r) (Within.new config) requests
  exact ⟨by rw [← Within.heldSize]; exact within.pool,within.sender⟩

end QuantumChain.Mempool
