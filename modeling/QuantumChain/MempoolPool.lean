import QuantumChain.FixedWidth
import QuantumChain.SecondaryIndex
import QuantumChain.StepRun
import Mathlib.Data.Prod.Lex

/-! The transaction pool and the two-phase inclusion in blocks.
Balances are not looked at; arithmetic may panic. -/
namespace QuantumChain.Mempool
open StepRun (andThen)
open SecondaryIndex (slot file unfile)
open OrderDual

abbrev Timestamp := U64

structure SignedTransaction where
  fromAddr : Address
  toAddr : Option Address
  value : U256
  nonce : U64
  gasPrice : U256
  gasLimit : U64
  data : Bytes
  signature : BitVec 512
  deriving DecidableEq, Repr

def SignedTransaction.hash (sha256 : Bytes → Hash) (tx : SignedTransaction) : Hash :=
  sha256 (wordBytes tx.fromAddr ++ (tx.toAddr.map wordBytes).getD [] ++ wordBytes tx.value ++
    leBytes 8 tx.nonce.toNat ++ wordBytes tx.gasPrice ++ leBytes 8 tx.gasLimit.toNat ++ tx.data)

inductive TransactionState where
  | pending
  | pendingInclusion (blockHeight : U64) (proposedAt : Timestamp)
  deriving DecidableEq, Repr

structure PricedTransaction where
  gasPrice : U256
  hash : Hash
  addedAt : Timestamp
  deriving DecidableEq, Repr

namespace PricedTransaction

def cmp (a b : PricedTransaction) : Ordering :=
  (compare b.gasPrice a.gasPrice).then ((compare a.addedAt b.addedAt).then (compare a.hash b.hash))

def rank (p : PricedTransaction) : U256ᵒᵈ ×ₗ U64 ×ₗ Hash :=
  toLex (toDual p.gasPrice,toLex (p.addedAt,p.hash))

theorem rankInj : Function.Injective rank := by
  rintro ⟨price,hash,time⟩ ⟨price',hash',time'⟩ same
  cases same
  rfl

instance : LinearOrder PricedTransaction := LinearOrder.lift' rank rankInj

theorem cmpLess (a b : PricedTransaction) : a.cmp b = .lt ↔ a < b := by
  show _ ↔ a.rank < b.rank
  simp only [cmp,rank,Ordering.then_eq_lt,compare_lt_iff_lt,compare_eq_iff_eq,Prod.Lex.toLex_lt_toLex,
    toDual_lt_toDual,toDual_inj,@eq_comm _ b.gasPrice]

end PricedTransaction

structure MempoolTransaction where
  transaction : SignedTransaction
  hash : Hash
  sender : Address
  nonce : U64
  gasPrice : U256
  gasLimit : U64
  state : TransactionState
  addedAt : Timestamp
  targetBlock : Option U64
  deriving DecidableEq, Repr

namespace MempoolTransaction

def new (sha256 : Bytes → Hash) (transaction : SignedTransaction) (addedAt : Timestamp) : MempoolTransaction :=
  ⟨transaction,transaction.hash sha256,transaction.fromAddr,transaction.nonce,transaction.gasPrice,
    transaction.gasLimit,.pending,addedAt,none⟩

variable (tx : MempoolTransaction)

def isPending : Bool := decide (tx.state = .pending)

def isPendingInclusion : Bool :=
  match tx.state with
  | .pending => false
  | .pendingInclusion _ _ => true

def priced : PricedTransaction := ⟨tx.gasPrice,tx.hash,tx.addedAt⟩

def propose (blockHeight : U64) (now : Timestamp) : Except String Unit × MempoolTransaction :=
  if tx.isPendingInclusion then (.error "Transaction already pending inclusion",tx)
  else (.ok (),{tx with state := .pendingInclusion blockHeight now, targetBlock := some blockHeight})

def rollback : Except String Unit × MempoolTransaction :=
  if tx.isPendingInclusion = false then (.error "Transaction not pending inclusion",tx)
  else (.ok (),{tx with state := .pending, targetBlock := none})

def isTimedOut (now : Timestamp) (timeoutMs : U64) : Bool :=
  match tx.state with
  | .pending => false
  | .pendingInclusion _ proposedAt => decide (timeoutMs.toNat ≤ now.toNat - proposedAt.toNat)

end MempoolTransaction

structure MempoolConfig where
  maxTransactions : Nat := 5000
  maxPerAccount : Nat := 16
  minGasPrice : U256 := 1000000000
  maxGasPerTx : U64 := 30000000
  pendingInclusionTimeoutMs : U64 := 30000
  enableRbf : Bool := true
  rbfMinBumpPercent : U64 := 10
  deriving DecidableEq, Repr

inductive MempoolError where
  | duplicateTransaction (hash : Hash)
  | gasPriceTooLow (price minimum : U256)
  | gasLimitTooHigh (limit maximum : U64)
  | accountLimitReached (address : Address) (limit : Nat)
  | poolFull (capacity : Nat)
  | transactionNotFound (hash : Hash)
  | insufficientFeeBump (oldPrice newPrice : U256) (minBumpPercent : U64)
  | rbfDisabled
  | transactionPendingInclusion (hash : Hash)
  deriving DecidableEq, Repr

abbrev Outcome (α : Type) := Except (Fault MempoolError) α

structure PendingInclusionBatch where
  blockHeight : U64
  blockHash : Option Hash
  proposedAt : Timestamp
  transactionHashes : List Hash
  deriving DecidableEq, Repr

structure ProposeResult where
  proposedCount : Nat := 0
  alreadyPending : List Hash := []
  notFound : List Hash := []
  deriving DecidableEq, Repr

structure TransactionPool where
  config : MempoolConfig
  byHash : KeyedMap Hash MempoolTransaction
  byPrice : Finset PricedTransaction
  bySender : KeyedMap Address (KeyedMap U64 Hash)
  pendingBatches : List PendingInclusionBatch
  deriving DecidableEq

def canReplace (config : MempoolConfig) (existing new : MempoolTransaction) : Outcome Bool :=
  if existing.isPendingInclusion then .error (.error (.transactionPendingInclusion existing.hash))
  else if existing.sender ≠ new.sender ∨ existing.nonce ≠ new.nonce then .ok false
  else
    let bumpMultiplier : U256 := (100 + config.rbfMinBumpPercent).setWidth 256
    match U256.checkedMul existing.gasPrice bumpMultiplier with
    | none => .error .panic
    | some product => .ok (decide (product / 100 ≤ new.gasPrice))

namespace TransactionPool

def new (config : MempoolConfig) : TransactionPool := ⟨config,∅,∅,∅,[]⟩

variable (p : TransactionPool)

def pendingInclusionCount : Option Nat :=
  if p.byPrice.card ≤ p.byHash.size then some (p.byHash.size - p.byPrice.card) else none

def senderCount (sender : Address) : Nat := ((p.bySender.lookup sender).map KeyedMap.size).getD 0

def addInternal (tx : MempoolTransaction) : TransactionPool :=
  {p with
    byPrice := if tx.isPending then insert tx.priced p.byPrice else p.byPrice
    bySender := file p.bySender tx.sender tx.nonce tx.hash
    byHash := p.byHash.insert tx.hash tx}

def removeInternal (hash : Hash) : Outcome MempoolTransaction × TransactionPool :=
  match p.byHash.lookup hash with
  | none => (.error (.error (.transactionNotFound hash)),p)
  | some tx =>
    (.ok tx,{p with
      byHash := p.byHash.erase hash
      byPrice := p.byPrice.erase tx.priced
      bySender := unfile p.bySender tx.sender tx.nonce})

def remove (hash : Hash) : Outcome MempoolTransaction × TransactionPool := p.removeInternal hash

def tryEvictFor (newTx : MempoolTransaction) : Outcome Bool × TransactionPool :=
  -- The index puts the best price first, so the last entry is the one to give way.
  match (ascending p.byPrice).getLast? with
  | none => (.ok false,p)
  | some lowest =>
    match p.byHash.lookup lowest.hash with
    | none => (.ok false,p)
    | some lowestTx =>
      let hasHigherGas := lowestTx.gasPrice < newTx.gasPrice
      let hasSameGasEarlierTime := newTx.gasPrice = lowestTx.gasPrice ∧ newTx.addedAt < lowestTx.addedAt
      if ¬ hasHigherGas ∧ ¬ hasSameGasEarlierTime then (.ok false,p)
      else andThen (p.removeInternal lowest.hash) fun _ p => (.ok true,p)

variable (tx : MempoolTransaction)

def tryRbfAtLimit : Outcome Unit × TransactionPool :=
  let limitReached := Fault.error (MempoolError.accountLimitReached tx.sender p.config.maxPerAccount)
  if p.config.enableRbf = false then (.error limitReached,p)
  else
    match slot p.bySender tx.sender tx.nonce with
    | none => (.error limitReached,p)
    | some hash =>
      match p.byHash.lookup hash with
      | none => (.error (.error (.transactionNotFound hash)),p)
      | some existing =>
        match canReplace p.config existing tx with
        | .error e => (.error e,p)
        | .ok false => (.error limitReached,p)
        | .ok true => andThen (p.removeInternal hash) fun _ p => (.ok (),p.addInternal tx)

def tryRbfOrAdd : Outcome Unit × TransactionPool :=
  match slot p.bySender tx.sender tx.nonce with
  | none => (.ok (),p.addInternal tx)
  | some hash =>
    if p.config.enableRbf = false then (.error (.error .rbfDisabled),p)
    else
      match p.byHash.lookup hash with
      | none => (.error (.error (.transactionNotFound hash)),p)
      | some existing =>
        match canReplace p.config existing tx with
        | .error e => (.error e,p)
        | .ok false =>
          (.error (.error (.insufficientFeeBump existing.gasPrice tx.gasPrice p.config.rbfMinBumpPercent)),p)
        | .ok true => andThen (p.removeInternal hash) fun _ p => (.ok (),p.addInternal tx)

def add : Outcome Unit × TransactionPool :=
  if (p.byHash.lookup tx.hash).isSome then (.error (.error (.duplicateTransaction tx.hash)),p)
  else if tx.gasPrice < p.config.minGasPrice then
    (.error (.error (.gasPriceTooLow tx.gasPrice p.config.minGasPrice)),p)
  else if p.config.maxGasPerTx < tx.gasLimit then
    (.error (.error (.gasLimitTooHigh tx.gasLimit p.config.maxGasPerTx)),p)
  else if p.config.maxPerAccount ≤ p.senderCount tx.sender then p.tryRbfAtLimit tx
  else if p.config.maxTransactions ≤ p.byHash.size then
    andThen (p.tryEvictFor tx) fun evicted p =>
      if evicted = false then (.error (.error (.poolFull p.config.maxTransactions)),p) else p.tryRbfOrAdd tx
  else p.tryRbfOrAdd tx

structure Proposing where
  pool : TransactionPool
  result : ProposeResult
  proposedHashes : List Hash

def proposeOne (blockHeight : U64) (now : Timestamp) (a : Proposing) (hash : Hash) : Proposing :=
  match a.pool.byHash.lookup hash with
  | none => {a with result := {a.result with notFound := a.result.notFound ++ [hash]}}
  | some tx =>
    if tx.isPendingInclusion then
      {a with result := {a.result with alreadyPending := a.result.alreadyPending ++ [hash]}}
    else
      let pool := {a.pool with
        byPrice := a.pool.byPrice.erase tx.priced
        byHash := a.pool.byHash.insert hash (tx.propose blockHeight now).2}
      ⟨pool,{a.result with proposedCount := a.result.proposedCount + 1},a.proposedHashes ++ [hash]⟩

def propose (p : TransactionPool) (hashes : List Hash) (blockHeight : U64) (now : Timestamp) :
    ProposeResult × TransactionPool :=
  let a := hashes.foldl (proposeOne blockHeight now) ⟨p,{},[]⟩
  let batches :=
    if a.proposedHashes.isEmpty then a.pool.pendingBatches
    else a.pool.pendingBatches ++ [⟨blockHeight,none,now,a.proposedHashes⟩]
  (a.result,{a.pool with pendingBatches := batches})

def confirmOne (a : List Hash × TransactionPool) (hash : Hash) : List Hash × TransactionPool :=
  match a.2.removeInternal hash with
  | (.ok tx,p) => (a.1 ++ [tx.hash],p)
  | (.error _,p) => (a.1,p)

def confirm (p : TransactionPool) (hashes : List Hash) : List Hash × TransactionPool :=
  let (confirmed,p) := hashes.foldl confirmOne ([],p)
  let batches := p.pendingBatches.filter (fun batch =>
    !batch.transactionHashes.all (fun h => decide (h ∈ confirmed)))
  (confirmed,{p with pendingBatches := batches})

def rollbackOne (a : List Hash × TransactionPool) (hash : Hash) : List Hash × TransactionPool :=
  match a.2.byHash.lookup hash with
  | none => a
  | some tx =>
    if tx.isPendingInclusion = false then a
    else
      let pool := {a.2 with
        byPrice := insert tx.priced a.2.byPrice
        byHash := a.2.byHash.insert hash tx.rollback.2}
      (a.1 ++ [hash],pool)

def rollback (p : TransactionPool) (hashes : List Hash) : List Hash × TransactionPool :=
  let (rolledBack,p) := hashes.foldl rollbackOne ([],p)
  let batches := p.pendingBatches.filter (fun batch =>
    !batch.transactionHashes.any (fun h => decide (h ∈ hashes)))
  (rolledBack,{p with pendingBatches := batches})

def timedOut (visit : Visit Hash) (p : TransactionPool) (now : Timestamp) : List Hash :=
  (visit.order p.byHash.keys).filterMap (fun h =>
    ((p.byHash.lookup h).filter (fun tx => tx.isTimedOut now p.config.pendingInclusionTimeoutMs)).map MempoolTransaction.hash)

def cleanupTimeouts (visit : Visit Hash) (p : TransactionPool) (now : Timestamp) : List Hash × TransactionPool :=
  p.rollback (p.timedOut visit now)

end TransactionPool

inductive PoolCall where
  | add (transaction : SignedTransaction) (addedAt : Timestamp)
  | remove (hash : Hash)
  | propose (hashes : List Hash) (blockHeight : U64) (now : Timestamp)
  | confirm (hashes : List Hash)
  | rollback (hashes : List Hash)
  | cleanupTimeouts (visit : Visit Hash) (now : Timestamp)

def TransactionPool.call (sha256 : Bytes → Hash) (p : TransactionPool) : PoolCall → TransactionPool
  | .add transaction addedAt => (p.add (.new sha256 transaction addedAt)).2
  | .remove hash => (p.remove hash).2
  | .propose hashes blockHeight now => (p.propose hashes blockHeight now).2
  | .confirm hashes => (p.confirm hashes).2
  | .rollback hashes => (p.rollback hashes).2
  | .cleanupTimeouts visit now => (p.cleanupTimeouts visit now).2

end QuantumChain.Mempool
