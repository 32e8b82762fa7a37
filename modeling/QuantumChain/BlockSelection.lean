import Mathlib.Data.List.Chain
import Mathlib.Data.List.MinMax
import Mathlib.Data.List.Sort
import QuantumChain.Command
import QuantumChain.ConsensusService

/-! The transactions of a new block, taken from a heap of senders.
Which of several best entries comes first is left open; simulation is the source's mock. -/
namespace QuantumChain.Production
open List KeyedMap Command Consensus

structure TransactionCandidate where
  transaction : Bytes
  fromAddr : Address
  nonce : U64
  gasPrice : U256
  gasLimit : U64
  signatureValid : Bool
  deriving DecidableEq, Repr

structure StateChange where
  address : Address
  storageKey : Option Hash
  oldValue : Bytes
  newValue : Bytes
  deriving DecidableEq, Repr

structure SimulationResult where
  txHash : Hash
  success : Bool
  gasUsed : U64
  stateChanges : List StateChange
  error : Option String
  deriving DecidableEq, Repr

structure AccountState where
  nonce : U64
  balance : U256
  codeHash : Option Hash
  deriving DecidableEq, Repr

structure StatePrefetchCache where
  parentStateRoot : Hash
  accounts : KeyedMap Address AccountState
  storage : KeyedMap (Address × Hash) Bytes

def simulateTransaction (transactionHash : Bytes → Hash) (tx : Bytes) : SimulationResult :=
  let success := tx.length % 2 == 0 || tx.isEmpty
  ⟨transactionHash tx,success,if success then 21000 else 0,[],
    if success then none else some "Mock: odd-length transaction failed"⟩

def applyStateChange (checks : Bool) (cache : StatePrefetchCache) (change : StateChange) : Option StatePrefetchCache :=
  let account := (cache.accounts.lookup change.address).getD ⟨0,0,none⟩
  match change.storageKey with
  | none => (addWord checks account.nonce 1).map fun nonce =>
      {cache with accounts := cache.accounts.insert change.address {account with nonce}}
  | some key => some {cache with
      accounts := cache.accounts.insert change.address account
      storage := cache.storage.insert (change.address,key) change.newValue}

def applyStateChanges (checks : Bool) (changes : List StateChange) (cache : StatePrefetchCache) : Option StatePrefetchCache :=
  changes.foldlM (applyStateChange checks) cache

structure TransactionSelector where
  gasLimit : U64
  minGasPrice : U256
  deriving DecidableEq, Repr

/-- Candidates below the least price are left out. -/
def groupBySender (minGasPrice : U256) (candidates : List TransactionCandidate) :
    KeyedMap Address (List TransactionCandidate) :=
  pushAll TransactionCandidate.fromAddr id (candidates.filter fun tx => !decide (tx.gasPrice < minGasPrice))

def senderQueue (minGasPrice : U256) (candidates : List TransactionCandidate) (sender : Address) :
    List TransactionCandidate :=
  (((groupBySender minGasPrice candidates).lookup sender).getD []).insertionSort fun a b => a.nonce ≤ b.nonce

structure TxRef where
  fromAddr : Address
  idx : Nat
  gasPrice : U256
  deriving DecidableEq, Repr

structure Picker where
  pick : Nat → List TxRef → Option TxRef
  total : ∀ turn queue, pick turn queue = none → queue = []
  dearest : ∀ turn queue ref, pick turn queue = some ref → ref ∈ queue ∧ ∀ other ∈ queue, other.gasPrice ≤ ref.gasPrice

/-- The source keeps the bytes of the selected candidates only. -/
structure Selection where
  queue : List TxRef
  selected : List TransactionCandidate
  totalGas : U64
  cache : StatePrefetchCache
  turn : Nat

def following (checks : Bool) (txs : List TransactionCandidate) (ref : TxRef) (tx : TransactionCandidate) :
    Option (List TxRef) :=
  match txs[ref.idx + 1]? with
  | none => some []
  | some nextTx => (addWord checks tx.nonce 1).map fun expected =>
      if nextTx.nonce = expected then [⟨ref.fromAddr,ref.idx + 1,nextTx.gasPrice⟩] else []

/-- One popped candidate; `none` is a panic. -/
def consider (checks : Bool) (transactionHash : Bytes → Hash) (gasLimit : U64) (txs : List TransactionCandidate) (ref : TxRef)
    (tx : TransactionCandidate) (s : Selection) : Option Selection := do
  let needed ← addWord checks s.totalGas tx.gasLimit
  if gasLimit < needed then return s
  let simResult := simulateTransaction transactionHash tx.transaction
  if simResult.success = false then return s
  let charged ← addWord checks s.totalGas simResult.gasUsed
  if gasLimit < charged then return s
  let cache ← applyStateChanges checks simResult.stateChanges s.cache
  let next ← following checks txs ref tx
  return ⟨s.queue ++ next,s.selected ++ [tx],charged,cache,s.turn⟩

section Selecting
variable (checks : Bool) (transactionHash : Bytes → Hash) (gasLimit : U64) (txsOf : Address → List TransactionCandidate)
  (picker : Picker)

def pop (s : Selection) (ref : TxRef) : Selection := {s with queue := s.queue.erase ref, turn := s.turn + 1}

def turn (s : Selection) : Option Selection :=
  match picker.pick s.turn s.queue with
  | none => some s
  | some ref =>
    match (txsOf ref.fromAddr)[ref.idx]? with
    | none => none
    | some tx => consider checks transactionHash gasLimit (txsOf ref.fromAddr) ref tx (pop s ref)

def exhausted (s : Selection) : Bool := s.queue.isEmpty

def body : Command Selection Unit Unit := fun s =>
  match turn checks transactionHash gasLimit txsOf picker s with
  | none => (.error (),s)
  | some s' => (.ok (),s')

def remaining (queue : List TxRef) : Nat := (queue.map fun ref => (txsOf ref.fromAddr).length - ref.idx + 1).sum

end Selecting

def firstRefs (selector : TransactionSelector) (visit : Visit Address) (candidates : List TransactionCandidate) :
    List TxRef :=
  (visit.entries (groupBySender selector.minGasPrice candidates)).filterMap fun entry =>
    (senderQueue selector.minGasPrice candidates entry.1).head?.map fun tx => ⟨entry.1,0,tx.gasPrice⟩

def select (checks : Bool) (transactionHash : Bytes → Hash) (selector : TransactionSelector) (visit : Visit Address)
    (picker : Picker)
    (candidates : List TransactionCandidate) (cache : StatePrefetchCache) : Option (Except Unit Unit × Selection) :=
  let txsOf := senderQueue selector.minGasPrice candidates
  let refs := firstRefs selector visit candidates
  Command.loop exhausted (body checks transactionHash selector.gasLimit txsOf picker)
    (remaining txsOf refs) ⟨refs,[],0,cache,0⟩

section Queues
variable {minGasPrice : U256} {candidates : List TransactionCandidate} {sender : Address}

end Queues

theorem followingCases {checks txs ref tx next} (h : following checks txs ref tx = some next) :
    next = [] ∨ ∃ nextTx, txs[ref.idx + 1]? = some nextTx ∧ nextTx.nonce = tx.nonce + 1 ∧
      next = [⟨ref.fromAddr,ref.idx + 1,nextTx.gasPrice⟩] := by
  unfold following at h
  split at h
  · exact .inl (Option.some.inj h).symm
  · rename_i nextTx at'
    obtain ⟨expected,sum,result⟩ := Option.map_eq_some_iff.mp h
    cases addWordSome sum
    split at result
    · rename_i follows
      exact .inr ⟨nextTx,at',follows,result.symm⟩
    · exact .inl result.symm

section Turn
variable {checks : Bool} {transactionHash : Bytes → Hash} {gasLimit : U64} {txsOf : Address → List TransactionCandidate}
  {picker : Picker} {s s' : Selection} {ref : TxRef} {tx : TransactionCandidate}

end Turn

def Consecutive (txs : List TransactionCandidate) : Prop := txs.IsChain fun a b => b.nonce.toNat = a.nonce.toNat + 1

def takenOf (selected : List TransactionCandidate) (sender : Address) : List TransactionCandidate :=
  selected.filter fun tx => tx.fromAddr = sender

structure RefSound (txsOf : Address → List TransactionCandidate) (selected : List TransactionCandidate)
    (ref : TxRef) : Prop where
  before : takenOf selected ref.fromAddr = (txsOf ref.fromAddr).take ref.idx
  inside : ref.idx < (txsOf ref.fromAddr).length
  follows : Consecutive ((txsOf ref.fromAddr).take (ref.idx + 1))

structure Sound (txsOf : Address → List TransactionCandidate) (queue : List TxRef)
    (selected : List TransactionCandidate) : Prop where
  once : (queue.map TxRef.fromAddr).Nodup
  refs : ∀ ref ∈ queue, RefSound txsOf selected ref
  firsts : ∀ sender, ∃ count, takenOf selected sender = (txsOf sender).take count ∧ Consecutive (takenOf selected sender)

section Nonces
variable {txsOf : Address → List TransactionCandidate} {queue : List TxRef} {selected : List TransactionCandidate}
  {ref : TxRef}
  {tx : TransactionCandidate}

theorem takenOther {sender} (other : tx.fromAddr ≠ sender) : takenOf (selected ++ [tx]) sender = takenOf selected sender := by
  simp [takenOf,filter_append,other]

theorem takenOwn : takenOf (selected ++ [tx]) tx.fromAddr = takenOf selected tx.fromAddr ++ [tx] := by
  simp [takenOf,filter_append]

theorem Sound.pop (sound : Sound txsOf queue selected) (ref) : Sound txsOf (queue.erase ref) selected :=
  ⟨sound.once.sublist ((erase_sublist).map _),fun other mem => sound.refs other (mem_of_mem_erase mem),sound.firsts⟩

theorem Sound.popped (sound : Sound txsOf queue selected) (mem : ref ∈ queue) :
    ref.fromAddr ∉ (queue.erase ref).map TxRef.fromAddr := by
  have split := ((perm_cons_erase mem).map TxRef.fromAddr).nodup_iff.mp sound.once
  exact (nodup_cons.mp split).1

theorem nonceFollows {a b : TransactionCandidate} (order : a.nonce ≤ b.nonce) (next : b.nonce = a.nonce + 1) :
    b.nonce.toNat = a.nonce.toNat + 1 := by
  have order : a.nonce.toNat ≤ b.nonce.toNat := order
  rw [next] at order ⊢
  rw [BitVec.toNat_add] at order ⊢
  have one : (1 : U64).toNat = 1 := rfl
  omega

section Accept
variable {checks : Bool} {next : List TxRef} (own : ∀ sender, ∀ tx ∈ txsOf sender, tx.fromAddr = sender)
  (sorted : ∀ sender, (txsOf sender).Pairwise fun a b => a.nonce ≤ b.nonce)

theorem takeNext {txs : List TransactionCandidate} {i} (at' : txs[i]? = some tx) : txs.take (i + 1) = txs.take i ++ [tx] := by
  rw [take_add_one,at']
  rfl

include sorted

theorem consecutiveNext {nextTx} (follows : Consecutive ((txsOf ref.fromAddr).take (ref.idx + 1)))
    (at' : (txsOf ref.fromAddr)[ref.idx]? = some tx) (atNext : (txsOf ref.fromAddr)[ref.idx + 1]? = some nextTx)
    (next : nextTx.nonce = tx.nonce + 1) : Consecutive ((txsOf ref.fromAddr).take (ref.idx + 1 + 1)) := by
  obtain ⟨inside,rfl⟩ := List.getElem?_eq_some_iff.mp at'
  obtain ⟨insideNext,rfl⟩ := List.getElem?_eq_some_iff.mp atNext
  have order := pairwise_iff_getElem.mp (sorted ref.fromAddr) ref.idx (ref.idx + 1) inside insideNext (Nat.lt_succ_self _)
  rw [takeNext atNext]
  refine isChain_append.mpr ⟨follows,isChain_singleton _,fun last mem first only => ?_⟩
  rw [takeNext at',getLast?_append] at mem
  cases Option.some.inj mem
  cases Option.some.inj only
  exact nonceFollows order next

include own

theorem Sound.accept (sound : Sound txsOf queue selected) (ready : RefSound txsOf selected ref)
    (alone : ref.fromAddr ∉ queue.map TxRef.fromAddr) (at' : (txsOf ref.fromAddr)[ref.idx]? = some tx)
    (follows : following checks (txsOf ref.fromAddr) ref tx = some next) :
      Sound txsOf (queue ++ next) (selected ++ [tx]) := by
  have sender := own _ _ (mem_of_getElem? at')
  have mine : takenOf (selected ++ [tx]) ref.fromAddr = (txsOf ref.fromAddr).take (ref.idx + 1) := by
    rw [takeNext at',← ready.before,← sender]
    exact takenOwn
  have behind : ∀ other ∈ queue, RefSound txsOf (selected ++ [tx]) other := by
    intro other mem
    have apart : tx.fromAddr ≠ other.fromAddr := fun same => alone (mem_map.mpr ⟨other,mem,same.symm.trans sender⟩)
    have held := sound.refs other mem
    exact ⟨(takenOther apart).trans held.before,held.inside,held.follows⟩
  have firsts : ∀ other, ∃ count, takenOf (selected ++ [tx]) other = (txsOf other).take count ∧
      Consecutive (takenOf (selected ++ [tx]) other) := by
    intro other
    by_cases same : ref.fromAddr = other
    · subst same
      exact ⟨ref.idx + 1,mine,mine ▸ ready.follows⟩
    · rw [takenOther (fun equal => same (sender.symm.trans equal))]
      exact sound.firsts other
  rcases followingCases follows with rfl | ⟨nextTx,atNext,nonce,rfl⟩
  · rw [append_nil]
    exact ⟨sound.once,behind,firsts⟩
  · refine ⟨?_,fun other mem => ?_,firsts⟩
    · rw [map_append]
      refine nodup_append.mpr ⟨sound.once,nodup_singleton _,fun a memA b memB same => ?_⟩
      cases mem_singleton.mp memB
      exact alone (same ▸ memA)
    · rcases mem_append.mp mem with before | now
      · exact behind other before
      · cases mem_singleton.mp now
        exact ⟨mine,(List.getElem?_eq_some_iff.mp atNext).1,consecutiveNext sorted ready.follows at' atNext nonce⟩

end Accept

theorem consecutiveNodup {txs} (consecutive : Consecutive txs) : (txs.map TransactionCandidate.nonce).Nodup := by
  have chain : txs.IsChain fun a b => a.nonce.toNat < b.nonce.toNat :=
    consecutive.imp fun a b next => by omega
  have increasing := isChain_iff_pairwise.mp chain
  refine pairwise_map.mpr (increasing.imp fun less same => ?_)
  rw [same] at less
  exact Nat.lt_irrefl _ less

theorem Sound.distinct (sound : Sound txsOf queue selected) : (selected.map fun tx => (tx.fromAddr,tx.nonce)).Nodup := by
  refine pairwise_map.mpr (pairwise_iff_forall_sublist.mpr fun {a b} pair same => ?_)
  obtain ⟨senders,nonces⟩ := Prod.mk.inj same
  obtain ⟨_,_,consecutive⟩ := sound.firsts a.fromAddr
  have both : [a,b].Sublist (takenOf selected a.fromAddr) := by
    have kept := pair.filter fun tx => tx.fromAddr = a.fromAddr
    unfold takenOf
    simpa [senders] using kept
  have apart := (consecutiveNodup consecutive).sublist (both.map TransactionCandidate.nonce)
  simp [nonces] at apart

end Nonces

theorem filterMapSub {α β : Type} {g} {f : α → β} (same : ∀ a b, g a = some b → b = f a) (l : List α) :
    (l.filterMap g).Sublist (l.map f) := by
  induction l with
  | nil => exact List.Sublist.slnil
  | cons a rest ih =>
    rw [filterMap_cons,map_cons]
    split
    · exact ih.cons _
    · rename_i b found
      rw [same a b found]
      exact ih.cons_cons _

theorem soundStart (selector) (visit) (candidates) :
    Sound (senderQueue selector.minGasPrice candidates) (firstRefs selector visit candidates) [] where
  once := by
    have senders : ((visit.entries (groupBySender selector.minGasPrice candidates)).map Prod.fst).Nodup := by
      rw [Visit.entryKeys]
      exact visit.nodup _
    refine senders.sublist ?_
    rw [firstRefs,map_filterMap]
    refine filterMapSub (fun entry sender found => ?_) _
    simp only [Option.map_map,Option.map_eq_some_iff] at found
    obtain ⟨tx,_,rfl⟩ := found
    rfl
  refs := by
    intro ref mem
    obtain ⟨entry,_,found⟩ := mem_filterMap.mp mem
    obtain ⟨tx,first,rfl⟩ := Option.map_eq_some_iff.mp found
    obtain ⟨rest,queue⟩ := head?_eq_some_iff.mp first
    refine ⟨rfl,?_,?_⟩
    · rw [queue]
      exact Nat.succ_pos _
    · rw [queue]
      exact isChain_singleton _
  firsts := fun _ => ⟨0,rfl,isChain_nil⟩

def gasLimits (txs : List TransactionCandidate) : Nat := (txs.map fun tx => tx.gasLimit.toNat).sum

/-- The candidate passes the two comparisons with the block gas limit and its simulation succeeds. -/
structure Passes (transactionHash : Bytes → Hash) (gasLimit : U64) (tx : TransactionCandidate) (totalGas : U64) : Prop where
  needed : totalGas.toNat + tx.gasLimit.toNat ≤ gasLimit.toNat
  success : (simulateTransaction transactionHash tx.transaction).success = true
  charged : totalGas.toNat + 21000 ≤ gasLimit.toNat

/-- No sum of the turn overflows, and a candidate that passes fits beside the gas limits selected so far. -/
structure Fits (transactionHash : Bytes → Hash) (gasLimit : U64) (txs : List TransactionCandidate) (ref : TxRef)
    (tx : TransactionCandidate) (s : Selection) : Prop where
  needed : s.totalGas.toNat + tx.gasLimit.toNat < 2^64
  charged : s.totalGas.toNat + tx.gasLimit.toNat ≤ gasLimit.toNat →
    (simulateTransaction transactionHash tx.transaction).success = true → s.totalGas.toNat + 21000 < 2^64
  nonce : Passes transactionHash gasLimit tx s.totalGas → txs[ref.idx + 1]? ≠ none → tx.nonce.toNat + 1 < 2^64
  room : Passes transactionHash gasLimit tx s.totalGas → gasLimits s.selected + tx.gasLimit.toNat ≤ gasLimit.toNat

def TurnFits (transactionHash : Bytes → Hash) (gasLimit : U64) (txsOf : Address → List TransactionCandidate) (picker : Picker)
    (s : Selection) : Prop :=
  ∀ ref tx, picker.pick s.turn s.queue = some ref → (txsOf ref.fromAddr)[ref.idx]? = some tx →
    Fits transactionHash gasLimit (txsOf ref.fromAddr) ref tx s

section Gas
variable {checks : Bool} {transactionHash : Bytes → Hash} {gasLimit : U64} {txsOf : Address → List TransactionCandidate}
  {picker : Picker} {s s' : Selection} {ref : TxRef} {tx : TransactionCandidate} {txs : List TransactionCandidate}

end Gas

def pickFirst (_ : Nat) (queue : List TxRef) : Option TxRef := queue.argmax fun ref => ref.gasPrice.toNat

theorem pickFirstTotal (turn) (queue) (none : pickFirst turn queue = none) : queue = [] :=
  argmax_eq_none.mp none

theorem pickFirstDearest (turn) (queue) (ref) (picked : pickFirst turn queue = some ref) :
    ref ∈ queue ∧ ∀ other ∈ queue, other.gasPrice ≤ ref.gasPrice := by
  have top := picked
  refine ⟨argmax_mem top,fun other mem => ?_⟩
  have less := le_of_mem_argmax (f := fun ref => ref.gasPrice.toNat) mem top
  exact less

def Picker.first : Picker := ⟨pickFirst,pickFirstTotal,pickFirstDearest⟩

def chosen (checks : Bool) (candidates : List TransactionCandidate) : Option (Bool × List TransactionCandidate) :=
  (select checks residue ⟨100000,1⟩ Visit.upwards Picker.first candidates ⟨0,∅,∅⟩).map fun out =>
    (out.1.isOk,out.2.selected)

end QuantumChain.Production
