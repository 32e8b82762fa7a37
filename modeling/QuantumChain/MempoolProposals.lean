import Mathlib.Algebra.BigOperators.Group.List.Basic
import QuantumChain.MempoolBatches

/-! Transactions for the next block.
Order is by price; gas limits are words. -/
namespace QuantumChain.Mempool
open Option TransactionPool MempoolTransaction KeyedMap
open List
open SecondaryIndex

theorem Coherent.serve {p} (coherent : Coherent p) (sha256) (r) : Coherent (p.serve sha256 r) := by
  cases r with
  | submit tx => exact coherent.add tx
  | call c => exact coherent.call sha256 c

theorem Coherent.served (sha256) (config) (requests) :
    Coherent (StepRun.run (TransactionPool.serve sha256) (.new config) requests) :=
  StepRun.runInvariant (I := Coherent) (fun _ r inv => inv.serve sha256 r) (Coherent.new config) requests

structure Candidates where
  result : List MempoolTransaction
  totalGas : U64
  senderNextNonce : KeyedMap Address U64

namespace TransactionPool
variable (p : TransactionPool)

def lowestNonce (sender : Address) : Option U64 := (p.bySender.lookup sender).bind fun row => (ascending row.keys).head?

def expectedNonce (c : Candidates) (tx : MempoolTransaction) : U64 :=
  (c.senderNextNonce.lookup tx.sender).getD ((p.lowestNonce tx.sender).getD tx.nonce)

/-- One entry of the price index; `none` is the panic of a nonce that cannot be counted up. -/
def consider (checks : Bool) (maxCount : Nat) (maxGas : U64) (c : Candidates) (priced : PricedTransaction) :
    Option Candidates :=
  -- the loop ends here, and each later entry would end it here again
  if maxCount ≤ c.result.length then some c
  else
    match p.byHash.lookup priced.hash with
    | none => some c
    | some tx =>
      if maxGas < U64.saturatingAdd c.totalGas tx.gasLimit then some c
      else if tx.nonce ≠ p.expectedNonce c tx then some c
      else (addWord checks tx.nonce 1).map fun next =>
        ⟨c.result ++ [tx],U64.saturatingAdd c.totalGas tx.gasLimit,c.senderNextNonce.insert tx.sender next⟩

def getForBlock (checks : Bool) (maxCount : Nat) (maxGas : U64) : Option (List MempoolTransaction) :=
  ((ascending p.byPrice).foldlM (p.consider checks maxCount maxGas) ⟨[],0,∅⟩).map Candidates.result

def PooledNonce (sender : Address) (nonce : U64) : Prop :=
  ∃ hash tx, p.byHash.lookup hash = some tx ∧ tx.sender = sender ∧ tx.nonce = nonce

end TransactionPool

def ofSender (txs : List MempoolTransaction) (sender : Address) : List MempoolTransaction :=
  txs.filter fun tx => tx.sender = sender

def InSequence (p : TransactionPool) (sender : Address) (txs : List MempoolTransaction) : Prop :=
  txs = [] ∨ ∃ lowest, IsLeast {nonce | p.PooledNonce sender nonce} lowest ∧
    txs.map (fun tx => tx.nonce.toNat) = List.range' lowest.toNat txs.length

structure Executable (p : TransactionPool) (maxCount : Nat) (maxGas : U64) (result : List MempoolTransaction) : Prop where
  count : result.length ≤ maxCount
  distinct : result.Nodup
  pooled : ∀ tx ∈ result, p.byHash.lookup tx.hash = some tx
  pending : ∀ tx ∈ result, tx.isPending = true
  gas : (result.map fun tx => tx.gasLimit.toNat).sum ≤ maxGas.toNat
  nonces : ∀ sender, InSequence p sender (ofSender result sender)

section Scan
variable {p : TransactionPool} {checks : Bool} {maxCount : Nat} {maxGas : U64} {c : Candidates} {tx : MempoolTransaction}

theorem Coherent.lowest (coherent : Coherent p) {sender nonce} (first : p.lowestNonce sender = some nonce) :
    IsLeast {nonce | p.PooledNonce sender nonce} nonce := by
  obtain ⟨row,found,head⟩ := bind_eq_some_iff.mp first
  have pooled : {nonce | p.PooledNonce sender nonce} = (row.keys : Set U64) := by
    ext nonce
    change p.PooledNonce sender nonce ↔ nonce ∈ row.keys
    rw [memKeys]
    refine exists_congr fun hash => ?_
    rw [← coherent.senders sender nonce hash,slot,found,bind_some]
  rw [pooled]
  exact headAscending head

theorem Coherent.lowestKnown (coherent : Coherent p) {hash} (found : p.byHash.lookup hash = some tx) :
    ∃ nonce, p.lowestNonce tx.sender = some nonce := by
  have filed := (coherent.senders tx.sender tx.nonce hash).mpr ⟨tx,found,rfl,rfl⟩
  obtain ⟨row,stored,held⟩ := bind_eq_some_iff.mp filed
  have mem := memAscending.mpr (memKeys.mpr ⟨hash,held⟩)
  unfold lowestNonce
  rw [stored,bind_some]
  exact isSome_iff_exists.mp (isSome_head?.mpr (ne_nil_of_mem mem))

theorem Coherent.priced (coherent : Coherent p) {priced} (listed : priced ∈ p.byPrice) :
    ∃ tx, p.byHash.lookup priced.hash = some tx ∧ tx.isPending = true ∧ tx.priced = priced := by
  obtain ⟨hash,tx,found,pending,rfl⟩ := (coherent.prices priced).mp listed
  have own : tx.priced.hash = hash := coherent.keyed hash tx found
  exact ⟨tx,own ▸ found,pending,rfl⟩

inductive Awaiting (p : TransactionPool) (sender : Address) : Option U64 → List MempoolTransaction → Prop where
  | first : Awaiting p sender none []
  | later {lowest next : U64} {txs : List MempoolTransaction} (least : p.lowestNonce sender = some lowest)
      (taken : txs.map (fun tx => tx.nonce.toNat) = List.range' lowest.toNat txs.length)
      (follows : next.toNat = lowest.toNat + txs.length) : Awaiting p sender (some next) txs

theorem Awaiting.inSequence {sender next txs} (coherent : Coherent p)
    (awaiting : Awaiting p sender next txs) : InSequence p sender txs := by
  cases awaiting with
  | first => exact .inl rfl
  | later least taken follows => exact .inr ⟨_,coherent.lowest least,taken⟩

theorem Awaiting.take {next txs} (awaiting : Awaiting p tx.sender next txs)
    (known : ∃ lowest, p.lowestNonce tx.sender = some lowest)
    (expected : tx.nonce = next.getD ((p.lowestNonce tx.sender).getD tx.nonce)) (room : tx.nonce.toNat + 1 < 2^64) :
    Awaiting p tx.sender (some (tx.nonce + 1)) (txs ++ [tx]) := by
  cases awaiting with
  | first =>
    obtain ⟨lowest,least⟩ := known
    rw [getD_none,least,getD_some] at expected
    subst expected
    exact .later least rfl (toNatNext room)
  | @later lowest next txs least taken follows =>
    subst expected
    refine .later least ?_ ?_
    · rw [map_append,taken,length_append,length_singleton,List.range'_1_concat,← follows]
      rfl
    · rw [toNatNext room,length_append,length_singleton,follows,Nat.add_assoc]

structure Taken (p : TransactionPool) (maxCount : Nat) (maxGas : U64) (seen : List PricedTransaction)
    (c : Candidates) : Prop where
  count : c.result.length ≤ maxCount
  scanned : (c.result.map MempoolTransaction.priced).Sublist seen
  pooled : ∀ tx ∈ c.result, p.byHash.lookup tx.hash = some tx ∧ tx.isPending = true
  gas : c.totalGas.toNat = (c.result.map fun tx => tx.gasLimit.toNat).sum
  within : c.totalGas ≤ maxGas
  nonces : ∀ sender, Awaiting p sender (c.senderNextNonce.lookup sender) (ofSender c.result sender)

theorem Taken.pass {seen} (taken : Taken p maxCount maxGas seen c) (priced) :
    Taken p maxCount maxGas (seen ++ [priced]) c :=
  {taken with scanned := taken.scanned.trans (sublist_append_left _ _)}

theorem sumFits {total limit maxGas} (below : maxGas.toNat < 2^64 - 1) (fits : ¬maxGas < U64.saturatingAdd total limit) :
    (U64.saturatingAdd total limit).toNat = total.toNat + limit.toNat := by
  have fits : ¬maxGas.toNat < (U64.saturatingAdd total limit).toNat := fits
  rw [U64.toNatSaturatingAdd] at fits ⊢
  omega

theorem Taken.accept {seen} (taken : Taken p maxCount maxGas seen c) (coherent : Coherent p)
    (below : maxGas.toNat < 2^64 - 1) (few : c.result.length < maxCount) (found : p.byHash.lookup tx.hash = some tx)
    (pending : tx.isPending = true) (fits : ¬maxGas < U64.saturatingAdd c.totalGas tx.gasLimit)
    (expected : tx.nonce = p.expectedNonce c tx) (room : tx.nonce.toNat + 1 < 2^64) :
    Taken p maxCount maxGas (seen ++ [tx.priced])
      ⟨c.result ++ [tx],U64.saturatingAdd c.totalGas tx.gasLimit,c.senderNextNonce.insert tx.sender (tx.nonce + 1)⟩ where
  count := by
    rw [length_append]
    exact few
  scanned := by
    rw [map_append]
    exact taken.scanned.append (List.Sublist.refl _)
  pooled := by
    intro other mem
    rcases mem_append.mp mem with before | own
    · exact taken.pooled other before
    · cases mem_singleton.mp own
      exact ⟨found,pending⟩
  gas := by
    rw [sumFits below fits,taken.gas,map_append,sum_append]
    rfl
  within := not_lt.mp fits
  nonces := by
    intro sender
    have before := taken.nonces sender
    rw [lookupInsert,ofSender,filter_append,← ofSender]
    by_cases own : sender = tx.sender
    · subst own
      rw [if_pos rfl,filter_singleton,decide_eq_true rfl]
      exact before.take (coherent.lowestKnown found) expected room
    · rw [if_neg own,filter_singleton,decide_eq_false (Ne.symm own)]
      rw [cond_false,append_nil]
      exact before

variable (checks) in
theorem considerTakes {seen priced} (taken : Taken p maxCount maxGas seen c)
    (coherent : Coherent p) (below : maxGas.toNat < 2^64 - 1)
    (small : ∀ hash tx, p.byHash.lookup hash = some tx → tx.nonce.toNat < 2^64 - 1) (listed : priced ∈ p.byPrice) :
    ∃ c', p.consider checks maxCount maxGas c priced = some c' ∧ Taken p maxCount maxGas (seen ++ [priced]) c' := by
  obtain ⟨tx,found,pending,rfl⟩ := coherent.priced listed
  have room : tx.nonce.toNat + 1 < 2^64 := by
    have bound := small _ tx found
    omega
  unfold consider
  rw [found]
  dsimp only
  split
  · exact ⟨c,rfl,taken.pass _⟩
  rename_i few
  split
  · exact ⟨c,rfl,taken.pass _⟩
  rename_i fits
  split
  · exact ⟨c,rfl,taken.pass _⟩
  rename_i expected
  obtain ⟨next,counted,_⟩ := addWordFits checks (a := tx.nonce) (b := 1) room
  rw [counted,addWordSome counted]
  exact ⟨_,rfl,taken.accept coherent below (Nat.lt_of_not_le few) found pending fits (not_not.mp expected) room⟩

variable (checks) in
theorem scanTakes (coherent : Coherent p) (below : maxGas.toNat < 2^64 - 1)
    (small : ∀ hash tx, p.byHash.lookup hash = some tx → tx.nonce.toNat < 2^64 - 1) {seen rest}
    (listed : ∀ priced ∈ rest, priced ∈ p.byPrice) (taken : Taken p maxCount maxGas seen c) :
    ∃ c', rest.foldlM (p.consider checks maxCount maxGas) c = some c' ∧ Taken p maxCount maxGas (seen ++ rest) c' := by
  induction rest generalizing seen c with
  | nil => exact ⟨c,rfl,(append_nil seen).symm ▸ taken⟩
  | cons priced rest ih =>
    obtain ⟨mid,considered,step⟩ := considerTakes checks taken coherent below small (listed priced mem_cons_self)
    obtain ⟨last,scanned,done⟩ := ih (fun other mem => listed other (mem_cons_of_mem _ mem)) step
    rw [append_assoc] at done
    exact ⟨last,by rw [foldlM_cons,considered]; exact scanned,done⟩

theorem Taken.start (p) (maxCount) (maxGas) : Taken p maxCount maxGas [] ⟨[],0,∅⟩ where
  count := Nat.zero_le _
  scanned := List.Sublist.refl _
  pooled _ mem := absurd mem not_mem_nil
  gas := rfl
  within := Nat.zero_le maxGas.toNat
  nonces _ := .first

theorem Taken.executable (taken : Taken p maxCount maxGas (ascending p.byPrice) c) (coherent : Coherent p) :
    Executable p maxCount maxGas c.result where
  count := taken.count
  distinct := List.Nodup.of_map _ (taken.scanned.nodup (nodupAscending p.byPrice))
  pooled tx mem := (taken.pooled tx mem).1
  pending tx mem := (taken.pooled tx mem).2
  gas := taken.gas ▸ taken.within
  nonces sender := (taken.nonces sender).inSequence coherent

end Scan

theorem candidatesExecutable (checks : Bool) (sha256 : Bytes → Hash) (config : MempoolConfig) (requests : List PoolRequest)
    (maxCount : Nat) (maxGas : U64)
    (small : ∀ hash tx, (StepRun.run (TransactionPool.serve sha256) (.new config) requests).byHash.lookup hash = some tx →
      tx.nonce.toNat < 2^64 - 1) (below : maxGas.toNat < 2^64 - 1) :
    ∃ result, (StepRun.run (TransactionPool.serve sha256) (.new config) requests).getForBlock checks maxCount maxGas =
      some result ∧
      Executable (StepRun.run (TransactionPool.serve sha256) (.new config) requests) maxCount maxGas result := by
  have coherent := Coherent.served sha256 config requests
  generalize StepRun.run (serve sha256) (.new config) requests = p at coherent small ⊢
  obtain ⟨c,scanned,taken⟩ := scanTakes checks coherent below small (fun _ mem => memAscending.mp mem)
    (Taken.start p maxCount maxGas)
  exact ⟨c.result,by rw [getForBlock,scanned]; rfl,taken.executable coherent⟩

theorem TransactionPool.eachHeld {p : TransactionPool} {P}
    (keys : ((ascending p.byHash.keys).all fun hash => (p.byHash.lookup hash).all P) = true) (hash) (tx)
    (found : p.byHash.lookup hash = some tx) : P tx = true := by
  have held := all_eq_true.mp keys hash (memAscending.mpr (memKeys.mpr ⟨tx,found⟩))
  rwa [found] at held

def bid (sender : Address) (nonce : U64) (gasPrice : U256) : SignedTransaction := ⟨sender,none,0,nonce,gasPrice,21000,[],0⟩

def bids : List PoolRequest :=
  [.call (.add (bid 1 0 2000000000) 1000),.call (.add (bid 1 1 3000000000) 1000),.call (.add (bid 2 0 4000000000) 1000)]

def bidPool : TransactionPool := StepRun.run (TransactionPool.serve numberHash) (.new {}) bids

theorem bidsSmall (hash) (tx) (found : bidPool.byHash.lookup hash = some tx) :
    decide (tx.nonce.toNat < 2^64 - 1) = true :=
  eachHeld (P := fun tx => decide (tx.nonce.toNat < 2^64 - 1)) (by decide +kernel) hash tx found

theorem bidsExecutable :
    (bidPool.getForBlock true 10 50000).map (List.map fun tx => (tx.sender,tx.nonce)) = some [(2,0),(1,0)] ∧
    ∃ result, bidPool.getForBlock true 10 50000 = some result ∧ Executable bidPool 10 50000 result := by
  refine ⟨by decide +kernel,?_⟩
  exact candidatesExecutable true numberHash {} bids 10 50000
    (fun hash tx found => of_decide_eq_true (bidsSmall hash tx found))
    (by decide)

theorem Coherent.determined {p q} (left : Coherent p) (right : Coherent q) (same : p.byHash = q.byHash) :
    p.byPrice = q.byPrice ∧ p.bySender = q.bySender := by
  have prices := right.prices
  rw [← same] at prices
  refine ⟨listedUnique left.prices prices,slotsUnique left.rows right.rows fun sender nonce => Option.ext fun hash => ?_⟩
  rw [left.senders,right.senders,same]

def MempoolTransaction.NoStrayTarget (tx : MempoolTransaction) : Prop := tx.isPending = true → tx.targetBlock = none

theorem MempoolTransaction.notBoth {tx : MempoolTransaction} (pending : tx.isPending = true) :
    tx.isPendingInclusion = false := by
  rw [isPendingInclusion,of_decide_eq_true pending]

theorem MempoolTransaction.undone {tx : MempoolTransaction} (pending : tx.isPending = true) (clean : tx.NoStrayTarget)
    (blockHeight) (now) : (tx.proposing blockHeight now).rollingBack = tx := by
  have target := clean pending
  have state := of_decide_eq_true pending
  obtain ⟨transaction,hash,sender,nonce,gasPrice,gasLimit,_,addedAt,_⟩ := tx
  cases state
  cases target
  rfl

def NoStrayTargets (p : TransactionPool) : Prop := ∀ hash tx, p.byHash.lookup hash = some tx → tx.NoStrayTarget

namespace NoStrayTargets
variable {p next : TransactionPool}

theorem touched (clean : NoStrayTargets p) {hashes : List Hash} {f}
    (keeps : ∀ tx tx', tx.NoStrayTarget → f tx = some tx' → tx'.NoStrayTarget)
    (lookup : ∀ hash, next.byHash.lookup hash =
      if hash ∈ hashes then (p.byHash.lookup hash).bind f else p.byHash.lookup hash) :
    NoStrayTargets next := by
  intro hash tx found
  rw [lookup] at found
  split at found
  · obtain ⟨before,stored,changed⟩ := bind_eq_some_iff.mp found
    exact keeps before tx (clean hash before stored) changed
  · exact clean hash tx found

theorem add (clean : NoStrayTargets p) (coherent : Coherent p) {tx} (own : tx.NoStrayTarget) :
    NoStrayTargets (p.add tx).2 := by
  intro hash other found
  rcases (Beside.admitted (addAdmits coherent tx)).found hash other found with before | rfl
  · exact clean hash other before
  · exact own

theorem remove (clean : NoStrayTargets p) (hash) : NoStrayTargets (p.removeInternal hash).2 := by
  intro other tx found
  rw [p.removeLookup] at found
  split at found
  · cases found
  · exact clean other tx found

theorem propose (clean : NoStrayTargets p) (hashes) (blockHeight) (now) :
    NoStrayTargets (p.propose hashes blockHeight now).2 := by
  refine clean.touched (fun tx tx' _ changed pending => ?_) (p.proposeLookup hashes blockHeight now)
  cases changed
  have included := tx.proposingIncluded blockHeight now
  rw [notBoth pending] at included
  cases included

theorem rollback (clean : NoStrayTargets p) (hashes) : NoStrayTargets (p.rollback hashes).2 := by
  refine clean.touched (fun tx tx' own changed pending => ?_) (p.rollbackLookup hashes)
  cases changed
  unfold rollingBack at pending ⊢
  split
  · rename_i available
    rw [if_pos available] at pending
    exact own pending
  · rfl

theorem confirm (clean : NoStrayTargets p) (hashes) : NoStrayTargets (p.confirm hashes).2 := by
  intro hash tx found
  rw [p.confirmLookup] at found
  split at found
  · cases found
  · exact clean hash tx found

theorem call (clean : NoStrayTargets p) (coherent : Coherent p) (sha256) (c) : NoStrayTargets (p.call sha256 c) := by
  cases c with
  | add transaction addedAt => exact clean.add coherent fun _ => rfl
  | remove hash => exact clean.remove hash
  | propose hashes blockHeight now => exact clean.propose hashes blockHeight now
  | confirm hashes => exact clean.confirm hashes
  | rollback hashes => exact clean.rollback hashes
  | cleanupTimeouts visit now => exact clean.rollback _

theorem served (sha256) (config) (requests) (made : ∀ tx, PoolRequest.submit tx ∈ requests → tx.NoStrayTarget) :
    NoStrayTargets (StepRun.run (TransactionPool.serve sha256) (.new config) requests) := by
  have each : ∀ r ∈ requests, ∀ tx, r = .submit tx → tx.NoStrayTarget := fun r mem tx same => made tx (same ▸ mem)
  have keeps : ∀ p r, Coherent p ∧ NoStrayTargets p → (∀ tx, r = PoolRequest.submit tx → tx.NoStrayTarget) →
      Coherent (p.serve sha256 r) ∧ NoStrayTargets (p.serve sha256 r) := by
    intro p r inv own
    refine ⟨inv.1.serve sha256 r,?_⟩
    cases r with
    | submit tx => exact inv.2.add inv.1 (own tx rfl)
    | call c => exact inv.2.call inv.1 sha256 c
  have start : Coherent (.new config) ∧ NoStrayTargets (.new config) := ⟨.new config,fun _ _ found => (nomatch found)⟩
  exact (StepRun.runKeeps keeps start (StepRun.alongEach _ each)).2

end NoStrayTargets

theorem undoneLookup {p} (clean : NoStrayTargets p) {hashes} (blockHeight) (now)
    (available : ∀ hash ∈ hashes, ∀ tx, p.byHash.lookup hash = some tx → tx.isPending = true) :
    ((p.propose hashes blockHeight now).2.rollback hashes).2.byHash = p.byHash := by
  refine Finmap.ext_lookup fun hash => ?_
  rw [rollbackLookup,proposeLookup]
  split
  · rename_i listed
    cases found : p.byHash.lookup hash with
    | none => rfl
    | some tx =>
      have undone := undone (available hash listed tx found) (clean hash tx found) blockHeight now
      rw [bind_some,bind_some,undone]
  · rfl

theorem rollbackUndoes (sha256 : Bytes → Hash) (config : MempoolConfig) (requests : List PoolRequest)
    (made : ∀ tx, PoolRequest.submit tx ∈ requests → tx.NoStrayTarget) (hashes : List Hash) (blockHeight : U64)
      (now : Timestamp)
    {p : TransactionPool} (reached : StepRun.run (TransactionPool.serve sha256) (.new config) requests = p)
    (available : ∀ hash ∈ hashes, ∀ tx, p.byHash.lookup hash = some tx → tx.isPending = true) :
    ((p.propose hashes blockHeight now).2.rollback hashes).2.byHash = p.byHash ∧
    ((p.propose hashes blockHeight now).2.rollback hashes).2.byPrice = p.byPrice ∧
    ((p.propose hashes blockHeight now).2.rollback hashes).2.bySender = p.bySender := by
  have coherent := Coherent.served sha256 config requests
  have clean := NoStrayTargets.served sha256 config requests made
  rw [reached] at coherent clean
  have same := undoneLookup clean blockHeight now available
  exact ⟨same,((coherent.propose hashes blockHeight now).rollback hashes).determined coherent same⟩

def named : List Hash := [(bid 1 0 2000000000).hash numberHash,7,(bid 1 0 2000000000).hash numberHash]

theorem bidsPending (hash) (tx) (found : bidPool.byHash.lookup hash = some tx) : tx.isPending = true :=
  eachHeld (by decide +kernel) hash tx found

theorem bidsMade (tx) (mem : PoolRequest.submit tx ∈ bids) : tx.NoStrayTarget := by
  simp [bids] at mem

theorem rollbackUndoesNamed : (bidPool.propose named 5 2000).1 = ⟨1,[(bid 1 0 2000000000).hash numberHash],[7]⟩ ∧
    ((bidPool.propose named 5 2000).2.rollback named).2.byHash = bidPool.byHash ∧
    ((bidPool.propose named 5 2000).2.rollback named).2.byPrice = bidPool.byPrice ∧
    ((bidPool.propose named 5 2000).2.rollback named).2.bySender = bidPool.bySender := by
  refine ⟨by decide +kernel,?_⟩
  exact rollbackUndoes numberHash {} bids bidsMade named 5 2000 rfl fun hash _ tx found => bidsPending hash tx found

end QuantumChain.Mempool
