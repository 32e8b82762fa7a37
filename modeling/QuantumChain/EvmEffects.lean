import QuantumChain.EvmService
import QuantumChain.EvmSafety

/-! What a request leaves in the in-memory state adapter, by what each turn stores.
Writes go to the adapter at once; no rollback is modelled because the source has none. -/
namespace QuantumChain.Evm
open Command

structure Unchanged (before after : InMemoryState) : Prop where
  storage : ∀ address key, after.getStorage address key = before.getStorage address key
  balance : ∀ address, after.getBalance address = before.getBalance address
  nonce : ∀ address, after.getNonce address = before.getNonce address
  code : ∀ address, after.getCode address = before.getCode address

theorem unchangedRefl (state) : Unchanged state state := ⟨fun _ _ => rfl,fun _ => rfl,fun _ => rfl,fun _ => rfl⟩

theorem unchangedTrans {before between after} (first : Unchanged before between) (second : Unchanged between after) :
    Unchanged before after :=
  ⟨fun address key => (second.storage address key).trans (first.storage address key),
    fun address => (second.balance address).trans (first.balance address),
    fun address => (second.nonce address).trans (first.nonce address),
    fun address => (second.code address).trans (first.code address)⟩

theorem lookupSet {state : InMemoryState} (address) (key) (value) (slot) :
    (state.setStorage address key value).getStorage slot.1 slot.2 =
      if slot = (address,key) then value else state.getStorage slot.1 slot.2 := by
  unfold InMemoryState.getStorage InMemoryState.setStorage
  rw [KeyedMap.lookupInsert]
  split <;> rfl

theorem unchangedHeld (state : InMemoryState) (address key) :
    Unchanged state (state.setStorage address key (state.getStorage address key)) where
  storage other key' := by
    rw [lookupSet address key _ (other,key')]
    split
    · rename_i here
      cases here
      rfl
    · rfl
  balance _ := rfl
  nonce _ := rfl
  code _ := rfl

namespace Interpreter
variable {checks : Bool} {keccak : Bytes → Hash} {β : Type}

abbrev Machine : Type := Interpreter InMemoryState InMemoryAccessList

structure Kept (m m' : Machine) : Prop where
  state : m'.state = m.state
  context : m'.context = m.context

instance keptSteady : Steady Kept where
  refl _ := ⟨rfl,rfl⟩
  trans _ _ _ first second := ⟨second.state.trans first.state,second.context.trans first.context⟩
  stack _ _ := ⟨rfl,rfl⟩
  gas _ _ := ⟨rfl,rfl⟩
  counter _ _ := ⟨rfl,rfl⟩
  stop _ := ⟨rfl,rfl⟩

theorem keptReports : Reports fun β (c : Exec InMemoryState InMemoryAccessList β) => Follows Kept c where
  toRemembers := remembersFollows Kept fun _ _ => ⟨rfl,rfl⟩
  logs _ _ _ := ⟨rfl,rfl⟩
  returns _ _ := ⟨rfl,rfl⟩
  reverts _ _ := ⟨rfl,rfl⟩

theorem keptAccess (touch) :
    Follows Kept (onAccessList touch : Exec InMemoryState InMemoryAccessList AccessStatus) := fun _ => ⟨rfl,rfl⟩

theorem keptLookup (f) :
    Follows Kept (onState (read f) : Exec InMemoryState InMemoryAccessList β) := fun _ => ⟨rfl,rfl⟩

theorem keptDispatch {opcode} (other : opcode ≠ .sStore) :
    Follows Kept (dispatch (inMemory checks keccak) opcode) := by
  cases opcode with
  | balance =>
    exact followsBind followsPop fun _ => followsBind (keptAccess _) fun _ => followsBind (followsChargeGas _) fun _ =>
      followsBind (keptLookup _) fun _ => followsPush _
  | sLoad =>
    exact followsBind followsPop fun _ => followsBind (followsRead _) fun _ => followsBind (keptAccess _) fun _ =>
      followsBind (followsChargeGas _) fun _ => followsBind (keptLookup _) fun _ => followsPush _
  | sStore => exact absurd rfl other
  | _ => exact calmDispatchMemory keptReports _ rfl

/-- Before an SSTORE outside a static context the slot holds the value to be stored. -/
def Idle (m : Machine) : Prop :=
  m.context.isStatic = true ∨ (m.opcode = .sStore → ∀ key value rest, m.stack.data = key::value::rest →
    value = m.state.getStorage m.context.address key)

def Reads (m m' : Machine) : Prop := Unchanged m.state m'.state

instance readsSteady : Steady Reads where
  refl m := unchangedRefl m.state
  trans _ _ _ := unchangedTrans
  stack m _ := unchangedRefl m.state
  gas m _ := unchangedRefl m.state
  counter m _ := unchangedRefl m.state
  stop m := unchangedRefl m.state

theorem keptReads {m m'} (kept : Kept m m') : Reads m m' := by
  unfold Reads
  rw [kept.state]
  exact unchangedRefl _

theorem keptRan {c : Exec InMemoryState InMemoryAccessList β} (follows : Follows Kept c) {m m' b}
    (ran : c m = (.ok b,m')) : Kept m m' := by
  have kept := follows m
  rwa [ran] at kept

theorem sStoreRefused {m : Machine} (static : m.context.isStatic = true) :
    execSStore (inMemory checks keccak) m = (.error (.error .writeInStaticContext),m) := by
  unfold execSStore
  rw [bindRun,readRun,static]
  rfl

theorem sStoreReads {m : Machine} (idle : m.context.isStatic = true ∨ ∀ key value rest,
      m.stack.data = key::value::rest → value = m.state.getStorage m.context.address key) :
    Reads m (execSStore (inMemory checks keccak) m).2 := by
  rcases idle with static | held
  · rw [sStoreRefused static]
    exact refl_of Reads m
  · refine followsReadAt (followsBindAt (followsEnsure _ _ m) fun _ m₁ allowed => ?_)
    have same : m₁ = m := by
      unfold ensure at allowed
      split at allowed <;> cases allowed
      rfl
    subst same
    refine followsBindAt (keptReads (followsPop m₁)) fun key m₂ popped => ?_
    refine followsBindAt (keptReads (followsPop m₂)) fun value m₃ popped' => followsReadAt ?_
    refine followsBindAt (keptReads (keptAccess _ m₃)) fun status m₄ touched => ?_
    refine followsBindAt (keptReads (followsChargeGas _ m₄)) fun _ m₅ paid => ?_
    obtain ⟨rest,data,left,_⟩ := popTop popped
    obtain ⟨rest',data',_⟩ := popTop popped'
    -- nothing before the write touches the state
    have kept := trans_of Kept (trans_of Kept (keptRan followsPop popped) (keptRan followsPop popped'))
      (trans_of Kept (keptRan (keptAccess _) touched) (keptRan (followsChargeGas _) paid))
    have here : m₃.context.address = m₁.context.address := by
      rw [(keptRan followsPop popped').context,(keptRan followsPop popped).context]
    have stored : value = m₅.state.getStorage m₃.context.address key := by
      rw [kept.state,here]
      exact held key value rest' (by rw [data,← left,data'])
    have writes : Unchanged m₅.state (m₅.state.setStorage m₃.context.address key value) := by
      conv_rhs => rw [stored]
      exact unchangedHeld _ _ _
    exact writes

theorem idleTurn {m : Machine} (idle : Idle m) : Reads m (turn (inMemory checks keccak) m).2 := by
  refine followsEntered ?_
  by_cases store : m.opcode = .sStore
  · rw [store]
    exact sStoreReads (idle.imp_right fun held => held store)
  · exact keptReads (keptDispatch store _)

theorem staticIdle (host) (turns) {m : Machine} (static : m.context.isStatic = true) :
    EachTurn (fun m => m.stopped) (turn host) Idle turns m := by
  refine eachTurnUnder (I := fun m : Machine => m.context.isStatic = true) (fun m m' held _ ran => ?_)
    (fun _ held _ => .inl held)
    static (eachTurnAlways (fun _ => trivial) turns m)
  have context := (turnAdvances host m).context
  rw [ran] at context
  exact context ▸ held

end Interpreter

namespace Service
variable (checks : Bool) (keccak : Bytes → Hash)

def IdleCode (context : ExecutionContext) (code : Buffer) (service : Service) : Prop :=
  let start := Interpreter.new context code service.state (preWarm context service.accessList)
  EachTurn (fun m => m.stopped) (Interpreter.turn (inMemory checks keccak)) Interpreter.Idle start.turnsLeft start

variable {checks keccak}

theorem executeCodeIdle {context code service} (idle : IdleCode checks keccak context code service) :
    Unchanged service.state (executeCode checks keccak context code service).2.state :=
  Interpreter.runFollows (R := Interpreter.Reads) (fun _ => Interpreter.idleTurn) idle

theorem attemptState {β} (c : Command Service (Fault ExecuteError) β) (service) :
    (attempt c service).2 = (c service).2 := by
  unfold attempt
  split <;> simp_all

def Leaves (service service' : Service) : Prop := Unchanged service.state service'.state

instance leavesPreorder : IsPreorder Service Leaves where
  refl service := unchangedRefl service.state
  trans _ _ _ := unchangedTrans

variable (checks keccak)

theorem simulationUnchanged (context : ExecutionContext) (code : Buffer) (service : Service) :
    Unchanged service.state (call checks keccak context code service).2.state ∧
    (IdleCode checks keccak {context with gasLimit := blockGasLimit} code service →
      Unchanged service.state (estimateGas checks keccak context code service).2.state) := by
  constructor
  · refine followsBindAt (R := Leaves) (executeCodeIdle (Interpreter.staticIdle _ _ rfl)) fun result service' _ => ?_
    split
    · exact followsPure _ service'
    · exact followsRaise _ service'
  · intro idle
    exact followsBindAt (R := Leaves) (executeCodeIdle idle) fun _ service' _ => followsLift _ service'

end Service

def storingCode : Buffer := ⟨[0x60,7,0x60,1,0x55],by decide⟩

def failingCode : Buffer := ⟨[0x60,7,0x60,1,0x55,0xFE],by decide⟩

def failingService : Service := .new ⟨∅,Finmap.singleton 2 failingCode,∅⟩ .new

def failingPayload : ExecuteTransactionRequestPayload where
  sender := 1
  toAddr := some 2
  value := 0
  nonce := 0
  gasPrice := 0
  gasLimit := 30000
  data := emptyBuffer
  blockContext := ⟨0,0,0,0,0,0⟩

section Idle
variable {m : Interpreter.Machine}

theorem idleOther (other : m.opcode ≠ .sStore) : m.Idle := .inr fun store => absurd store other

theorem idleStore (key value rest) (data : m.stack.data = key::value::rest)
    (held : value = m.state.getStorage m.context.address key) : m.Idle := by
  refine .inr fun _ key' value' rest' data' => ?_
  rw [data] at data'
  cases data'
  exact held

end Idle

def requestContext : ExecutionContext :=
  Service.transactionContext residue failingPayload.toSignedTransaction failingPayload.blockContext

def estimatedWrite : Except VmFault Nat × Service :=
  Service.estimateGas true residue requestContext storingCode failingService

def zeroingCode : Buffer := ⟨[0x60,0,0x60,1,0x55],by decide⟩

theorem zeroingIdle :
    Service.IdleCode true residue {requestContext with gasLimit := Service.blockGasLimit} zeroingCode failingService := by
  change EachTurn _ _ _ 30000001 _
  refine eachTurnCons (idleOther (by decide +kernel)) (eachTurnCons (idleOther (by decide +kernel)) ?_)
  refine eachTurnCons (idleStore 1 0 [] (by decide +kernel) (by decide +kernel)) ?_
  exact eachTurnCons (idleOther (by decide +kernel)) (.inl (by decide +kernel))

theorem simulationUnchangedZeroing :
    (Service.estimateGas true residue requestContext zeroingCode failingService).1 = .ok 24316 ∧
    Unchanged failingService.state (Service.estimateGas true residue requestContext zeroingCode failingService).2.state :=
  ⟨by decide +kernel,(Service.simulationUnchanged true residue requestContext zeroingCode failingService).2 zeroingIdle⟩

theorem estimateWrites : estimatedWrite.1 = .ok 24316 ∧ failingService.state.getStorage 2 1 = 0 ∧
    estimatedWrite.2.state.getStorage 2 1 = 7 := by
  decide +kernel

end QuantumChain.Evm
