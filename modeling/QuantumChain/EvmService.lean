import QuantumChain.KeyedMap
import QuantumChain.EvmGas

/-! The smart-contract service.
Timeouts are an input; the in-memory adapter stands for the state. -/
namespace QuantumChain.Evm
open Command

structure AccountState where
  balance : U256
  nonce : U64
  deriving DecidableEq, Repr

structure InMemoryState where
  accounts : KeyedMap Address AccountState
  code : KeyedMap Address Buffer
  storage : KeyedMap (Address × Hash) U256

theorem emptyFits : ([] : Bytes).length < 2^63 := by decide

def emptyBuffer : Buffer := ⟨[],emptyFits⟩

namespace InMemoryState

variable (state : InMemoryState) (address : Address)

def getBalance : U256 :=
  match state.accounts.lookup address with
  | some account => account.balance
  | none => 0

def getNonce : U64 :=
  match state.accounts.lookup address with
  | some account => account.nonce
  | none => 0

def getStorage (key : Hash) : U256 :=
  (state.storage.lookup (address,key)).getD 0

def setStorage (key : Hash) (value : U256) : InMemoryState :=
  {state with storage := state.storage.insert (address,key) value}

def getCode : Buffer := (state.code.lookup address).getD emptyBuffer

def port : StateAccess InMemoryState where
  getBalance address := read fun state => state.getBalance address
  getStorage address key := read fun state => state.getStorage address key
  setStorage address key value := update fun state => state.setStorage address key value

end InMemoryState

structure InMemoryAccessList where
  warmAccounts : Finset Address
  warmStorage : KeyedMap Address (Finset Hash)

namespace InMemoryAccessList

def new : InMemoryAccessList := ⟨∅,∅⟩

def touchAccount (address : Address) (list : InMemoryAccessList) : AccessStatus × InMemoryAccessList :=
  if address ∈ list.warmAccounts then (.warm,list)
  else (.cold,{list with warmAccounts := insert address list.warmAccounts})

def slots (list : InMemoryAccessList) (address : Address) : Finset Hash := (list.warmStorage.lookup address).getD ∅

def touchStorage (address : Address) (key : Hash) (list : InMemoryAccessList) : AccessStatus × InMemoryAccessList :=
  let marked := {list with warmAccounts := insert address list.warmAccounts}
  if key ∈ list.slots address then (.warm,marked)
  else (.cold,{marked with warmStorage := list.warmStorage.insert address (insert key (list.slots address))})

def port : AccessList InMemoryAccessList := ⟨touchAccount,touchStorage⟩

end InMemoryAccessList

def inMemory (checks : Bool) (keccak256 : Bytes → Hash) : Host InMemoryState InMemoryAccessList :=
  ⟨checks,InMemoryState.port,InMemoryAccessList.port,keccak256⟩

structure ServiceStats where
  transactionsExecuted : Nat
  successfulExecutions : Nat
  failedExecutions : Nat
  totalGasUsed : Nat
  avgExecutionTimeUs : Nat
  rejectedRequests : Nat
  deriving DecidableEq, Repr

structure Service where
  executionTimeoutMs : U64
  state : InMemoryState
  accessList : InMemoryAccessList
  stats : ServiceStats

def Service.new (state : InMemoryState) (accessList : InMemoryAccessList) : Service :=
  ⟨5000,state,accessList,⟨0,0,0,0,0,0⟩⟩

structure SignedTransaction where
  sender : Address
  toAddr : Option Address
  value : U256
  nonce : U64
  gasPrice : U256
  gasLimit : U64
  data : Buffer
  deriving DecidableEq, Repr

structure ExecuteTransactionRequestPayload extends SignedTransaction where
  blockContext : BlockContext
  deriving DecidableEq, Repr

structure ExecuteTransactionResponsePayload where
  success : Bool
  gasUsed : Nat
  output : Bytes
  logs : List Log
  stateChanges : List StateChange
  contractAddress : Option Address
  revertReason : Option String
  deriving DecidableEq, Repr

structure ExecuteHTLCResponsePayload where
  success : Bool
  gasUsed : Nat
  revertReason : Option String
  deriving DecidableEq, Repr

inductive IpcError where
  | unauthorizedSender (senderId : UInt8) (allowed : List UInt8)
  deriving DecidableEq, Repr

inductive ExecuteError where
  | vm (e : VmError)
  | timeout (elapsedMs maxMs : U64)
  deriving DecidableEq, Repr

inductive LockWait where
  | granted
  | firstTimedOut
  | secondTimedOut
  deriving DecidableEq, Repr

def hexPair (ten : Char) (byte : UInt8) : String :=
  let digit (n : Nat) : Char := if n < 10 then Char.ofNat ('0'.toNat + n) else Char.ofNat (ten.toNat + n - 10)
  String.ofList [digit (byte.toNat / 16),digit (byte.toNat % 16)]

def StateError.text : StateError → String
  | .notFound address => "state not found for address: 0x" ++ String.join ((wordBytes address).map (hexPair 'a'))
  | .corrupted => "state corruption detected"
  | .timeout => "state access timeout"
  | .accessDenied => "state access denied"
  | .unavailable => "state subsystem unavailable"
  | .invalidStateRoot => "invalid state root"
  | .other message => "state error: " ++ message

def VmError.text : VmError → String
  | .outOfGas => "out of gas"
  | .stackOverflow => "stack overflow"
  | .stackUnderflow => "stack underflow"
  | .invalidOpcode byte => "invalid opcode: 0x" ++ hexPair 'A' byte
  | .invalidJump dest => "invalid jump destination: " ++ toString dest
  | .writeInStaticContext => "write operation in static context"
  | .stateError e => "state error: " ++ e.text
  | .revert message => "revert: " ++ message
  | .memoryLimitExceeded requested max => "memory limit exceeded: " ++ toString requested ++ " > " ++ toString max ++ " bytes"
  | .internal message => "internal error: " ++ message

def ExecuteError.text : ExecuteError → String
  | .vm e => e.text
  | .timeout elapsedMs maxMs =>
    "execution timeout: " ++ toString elapsedMs.toNat ++ "ms > " ++ toString maxMs.toNat ++ "ms"

def encodeNonce (n : Nat) : Bytes :=
  let bytes := beBytes 8 n
  bytes.drop ((bytes.findIdx? fun b => b != 0).getD 7)

def computeContractAddress (keccak256 : Bytes → Hash) (sender : Address) (nonce : U64) : Address :=
  let nonceBytes := encodeNonce nonce.toNat
  let content := 0x94::wordBytes sender ++
    if nonce = 0 then [0x80]
    else if nonce.toNat < 128 then [UInt8.ofNat nonce.toNat]
    else UInt8.ofNat (0x80 + nonceBytes.length)::nonceBytes
  let lengthBytes := encodeNonce content.length
  let header := if content.length < 56 then [UInt8.ofNat (0xc0 + content.length)]
    else UInt8.ofNat (0xf7 + lengthBytes.length)::lengthBytes
  (keccak256 (header ++ content)).setWidth 160

namespace Service

def onStats {ε β : Type} (c : Command ServiceStats ε β) : Command Service ε β :=
  focus (fun service => service.stats) (fun stats service => {service with stats := stats}) c

def preWarm (context : ExecutionContext) (list : InMemoryAccessList) : InMemoryAccessList :=
  let list := (list.touchAccount context.origin).2
  let list := (list.touchAccount context.address).2
  if context.caller ≠ context.origin then (list.touchAccount context.caller).2 else list

def warmUp (context : ExecutionContext) (service : Service) : Service :=
  {service with accessList := preWarm context service.accessList}

section
variable (checks : Bool) (keccak256 : Bytes → Hash)

def interpret (context : ExecutionContext) (code : Buffer) : Command Service VmFault ExecutionResult := fun service =>
  let out := Interpreter.run (inMemory checks keccak256)
    (Interpreter.new context code service.state service.accessList)
  (out.1,{service with state := out.2.state, accessList := out.2.accessList})

def executeCode (context : ExecutionContext) (code : Buffer) : Command Service VmFault ExecutionResult := do
  update (warmUp context)
  interpret checks keccak256 context code

def ofVm : VmFault → Fault ExecuteError
  | .error e => .error (.vm e)
  | .panic => .panic

def onVm {β : Type} (c : Command Service VmFault β) : Command Service (Fault ExecuteError) β := fun service =>
  let out := c service
  (out.1.mapError ofVm,out.2)

def transactionCode (tx : SignedTransaction) (service : Service) : Buffer :=
  match tx.toAddr with
  | none => tx.data
  | some address => service.state.getCode address

def transactionContext (tx : SignedTransaction) (block : BlockContext) : ExecutionContext where
  origin := tx.sender
  caller := tx.sender
  address := tx.toAddr.getD (computeContractAddress keccak256 tx.sender tx.nonce)
  value := tx.value
  data := tx.data
  gasLimit := tx.gasLimit
  gasPrice := tx.gasPrice
  block := block
  isStatic := false

def executeTransactionInternal (wait : LockWait) (tx : SignedTransaction) (block : BlockContext) :
    Command Service (Fault ExecuteError) ExecutionResult := do
  let code ← read (transactionCode tx)
  let timeoutMs ← read fun service => service.executionTimeoutMs
  let context := transactionContext keccak256 tx block
  match wait with
  | .granted => onVm (executeCode checks keccak256 context code)
  | .firstTimedOut => raise (.error (.timeout timeoutMs timeoutMs))
  | .secondTimedOut => do
    update (warmUp context)
    raise (.error (.timeout timeoutMs timeoutMs))

def counted (n : Nat) : Except (Fault IpcError) Nat := (fitWord checks n).mapError fun _ => .panic

def addTo (get : ServiceStats → Nat) (set : Nat → ServiceStats → ServiceStats) (n : Nat) :
    Command ServiceStats (Fault IpcError) Unit := do
  let value ← read get
  let sum ← lift (counted checks (value + n))
  update (set sum)

def reject : Command Service (Fault IpcError) Unit :=
  onStats (addTo checks (fun s => s.rejectedRequests) (fun n s => {s with rejectedRequests := n}) 1)

def recordExecution (result : Except ExecuteError ExecutionResult) (elapsedUs : U64) :
    Command ServiceStats (Fault IpcError) Unit := do
  addTo checks (fun s => s.transactionsExecuted) (fun n s => {s with transactionsExecuted := n}) 1
  match result with
  | .ok res =>
    if res.success then do
      addTo checks (fun s => s.successfulExecutions) (fun n s => {s with successfulExecutions := n}) 1
      addTo checks (fun s => s.totalGasUsed) (fun n s => {s with totalGasUsed := n}) res.gasUsed
    else addTo checks (fun s => s.failedExecutions) (fun n s => {s with failedExecutions := n}) 1
  | .error _ => addTo checks (fun s => s.failedExecutions) (fun n s => {s with failedExecutions := n}) 1
  let total ← read fun s => s.transactionsExecuted
  let avg ← read fun s => s.avgExecutionTimeUs
  let before ← lift ((subWord checks total 1).mapError fun _ => .panic)
  let product ← lift (counted checks (avg * before))
  let sum ← lift (counted checks (product + elapsedUs.toNat))
  ensure (total ≠ 0) .panic
  update fun s => {s with avgExecutionTimeUs := sum / total}

/-- An error is handed on as a value; a panic is not caught. -/
def attempt {β : Type} (c : Command Service (Fault ExecuteError) β) :
    Command Service (Fault IpcError) (Except ExecuteError β) := fun service =>
  match c service with
  | (.ok b,last) => (.ok (.ok b),last)
  | (.error (.error e),last) => (.ok (.error e),last)
  | (.error .panic,last) => (.error .panic,last)

def respond (payload : ExecuteTransactionRequestPayload) :
    Except ExecuteError ExecutionResult → ExecuteTransactionResponsePayload
  | .ok result => {
      success := result.success
      gasUsed := result.gasUsed
      output := result.output
      logs := result.logs
      stateChanges := result.stateChanges
      contractAddress := match payload.toAddr with
        | none => some (computeContractAddress keccak256 payload.sender payload.nonce)
        | some _ => none
      revertReason := none
    }
  | .error e => {
      success := false
      gasUsed := payload.gasLimit.toNat
      output := []
      logs := []
      stateChanges := []
      contractAddress := none
      revertReason := some e.text
    }

def isAuthorizedExecutionSender (senderId : UInt8) : Prop := senderId = 8 ∨ senderId = 12

instance (senderId : UInt8) : Decidable (isAuthorizedExecutionSender senderId) :=
  inferInstanceAs (Decidable (senderId = 8 ∨ senderId = 12))

def handleExecuteTransaction (wait : LockWait) (elapsedUs : U64) (senderId : UInt8)
    (payload : ExecuteTransactionRequestPayload) :
    Command Service (Fault IpcError) ExecuteTransactionResponsePayload :=
  if isAuthorizedExecutionSender senderId then do
    let result ← attempt
      (executeTransactionInternal checks keccak256 wait payload.toSignedTransaction payload.blockContext)
    onStats (recordExecution checks result elapsedUs)
    pure (respond keccak256 payload result)
  else do
    reject checks
    raise (.error (.unauthorizedSender senderId [8,12]))

def handleExecuteHtlc (senderId : UInt8) : Command Service (Fault IpcError) ExecuteHTLCResponsePayload :=
  if senderId = 15 then pure ⟨true,21000,none⟩
  else do
    reject checks
    raise (.error (.unauthorizedSender senderId [15]))

def blockGasLimit : U64 := 30000000

def estimateGas (context : ExecutionContext) (code : Buffer) : Command Service VmFault Nat := do
  let result ← executeCode checks keccak256 {context with gasLimit := blockGasLimit} code
  lift (fitWord checks (result.gasUsed + result.gasUsed / 10))

def call (context : ExecutionContext) (code : Buffer) : Command Service VmFault Bytes := do
  let result ← executeCode checks keccak256 {context with isStatic := true} code
  if result.success then pure result.output else raise (.error (.revert "execution reverted"))

end

end Service

end QuantumChain.Evm
