import QuantumChain.EvmMachine

/-! The EVM interpreter over an arbitrary state and access list.
Opcodes without an implementation in the source fail as they do there. -/
namespace QuantumChain.Evm
open Command

structure BlockContext where
  number : U64
  timestamp : U64
  coinbase : Address
  gasLimit : U64
  baseFee : U256
  chainId : U64
  deriving DecidableEq, Repr

structure ExecutionContext where
  origin : Address
  caller : Address
  address : Address
  value : U256
  data : Buffer
  gasLimit : U64
  gasPrice : U256
  block : BlockContext
  isStatic : Bool
  deriving DecidableEq, Repr

inductive AccessStatus where
  | cold
  | warm
  deriving DecidableEq, Repr

structure StateAccess (σ : Type) where
  getBalance : Address → Command σ StateError U256
  getStorage : Address → Hash → Command σ StateError U256
  setStorage : Address → Hash → U256 → Command σ StateError Unit

structure AccessList (α : Type) where
  touchAccount : Address → α → AccessStatus × α
  touchStorage : Address → Hash → α → AccessStatus × α

/-- What an interpreter runs on: the build's overflow checks, its two ports and the hash. -/
structure Host (σ α : Type) where
  checks : Bool
  state : StateAccess σ
  access : AccessList α
  keccak256 : Bytes → Hash

structure Log where
  address : Address
  topics : List Hash
  data : Bytes
  deriving DecidableEq, Repr

inductive StateChange where
  | storageWrite (address : Address) (key : Hash) (value : U256)
  | storageDelete (address : Address) (key : Hash)
  deriving DecidableEq, Repr

structure ExecutionResult where
  success : Bool
  output : Bytes
  gasUsed : Nat
  gasRefund : Nat
  stateChanges : List StateChange
  logs : List Log
  deriving DecidableEq, Repr

structure Interpreter (σ α : Type) where
  state : σ
  context : ExecutionContext
  code : Buffer
  stack : Stack
  memory : Memory
  pc : Nat
  gasRemaining : Nat
  stopped : Bool
  reverted : Bool
  returnData : Bytes
  logs : List Log
  stateChanges : List StateChange
  accessList : α
  jumpDests : List Nat
  gasRefund : Nat

def opcodeAt (code : Bytes) (pc : Nat) : Opcode := (Opcode.fromByte (code.getD pc 0)).getD .invalid

def jumpDestsFrom (code : Bytes) : Nat → Nat → List Nat
  | 0,_ => []
  | turns+1,i =>
    if code.length ≤ i then [] else
      (if opcodeAt code i = .jumpDest then [i] else []) ++
        jumpDestsFrom code turns (i + (opcodeAt code i).pushSize.getD 0 + 1)

def analyzeJumpDests (code : Bytes) : List Nat := jumpDestsFrom code code.length 0

abbrev Exec (σ α β : Type) := Command (Interpreter σ α) VmFault β

namespace Interpreter
variable {σ α β : Type}

def new (context : ExecutionContext) (code : Buffer) (state : σ) (accessList : α) : Interpreter σ α where
  state := state
  context := context
  code := code
  stack := .new
  memory := .new
  pc := 0
  gasRemaining := context.gasLimit.toNat
  stopped := false
  reverted := false
  returnData := []
  logs := []
  stateChanges := []
  accessList := accessList
  jumpDests := analyzeJumpDests code.1
  gasRefund := 0

def fail (e : VmError) : Exec σ α β := raise (.error e)

def notImplemented : Exec σ α β := fail (.internal "Not implemented")

def unreachable : Exec σ α β := raise .panic

def onStack (c : Command Stack VmFault β) : Exec σ α β :=
  focus (fun m => m.stack) (fun stack m => {m with stack := stack}) c

def onMemory (c : Command Memory VmFault β) : Exec σ α β :=
  focus (fun m => m.memory) (fun memory m => {m with memory := memory}) c

def onState (c : Command σ StateError β) : Exec σ α β := fun m =>
  let out := c m.state
  (out.1.mapError (fun e => .error (.stateError e)),{m with state := out.2})

def onAccessList (touch : α → AccessStatus × α) : Exec σ α AccessStatus := fun m =>
  let out := touch m.accessList
  (.ok out.1,{m with accessList := out.2})

def pop : Exec σ α U256 := onStack Stack.pop

def push (value : U256) : Exec σ α Unit := onStack (Stack.push value)

def popUsize : Exec σ α Nat := do
  let value ← pop
  lift (asUsize value)

def expand (size : Nat) : Exec σ α Nat := onMemory (Memory.expand size)

def readMemory (offset size : Nat) : Exec σ α Bytes := do
  let memory ← read (fun m => m.memory)
  lift (memory.readBytes offset size)

def consumeGas (amount : Nat) : Exec σ α Bool := fun m =>
  if amount ≤ m.gasRemaining then (.ok true,{m with gasRemaining := m.gasRemaining - amount}) else (.ok false,m)

def chargeGas (amount : Nat) : Exec σ α Unit := do
  let paid ← consumeGas amount
  ensure (paid = true) (.error .outOfGas)

def pushRead (value : Interpreter σ α → U256) : Exec σ α Unit := do
  let value ← read value
  push value

def unary (op : U256 → U256) : Exec σ α Unit := do
  let a ← pop
  push (op a)

def binary (op : U256 → U256 → Except VmFault U256) : Exec σ α Unit := do
  let a ← pop
  let b ← pop
  let value ← lift (op a b)
  push value

def ternary (op : U256 → U256 → U256 → Except VmFault U256) : Exec σ α Unit := do
  let a ← pop
  let b ← pop
  let c ← pop
  let value ← lift (op a b c)
  push value

def execExp : Exec σ α Unit := do
  let base ← pop
  let exponent ← pop
  -- the base cost is already paid
  chargeGas (expGasCost exponent - costs.exp)
  push (overflowingPow 256 base exponent.toNat)

def execArithmetic (checks : Bool) : Opcode → Exec σ α Unit
  | .add => binary fun a b => .ok (a + b)
  | .mul => binary fun a b => .ok (a * b)
  | .sub => binary fun a b => .ok (a - b)
  | .div => binary fun a b => .ok (if b = 0 then 0 else a / b)
  | .sDiv => binary fun a b => .ok (sdiv a b)
  | .mod => binary fun a b => .ok (if b = 0 then 0 else a % b)
  | .sMod => binary fun a b => .ok (smod a b)
  | .addMod => ternary addmod
  | .mulMod => ternary mulmod
  | .exp => execExp
  | .signExtend => binary (signExtend checks)
  | _ => unreachable

def execComparison : Opcode → Exec σ α Unit
  | .lt => binary fun a b => .ok (flag (a.toNat < b.toNat))
  | .gt => binary fun a b => .ok (flag (b.toNat < a.toNat))
  | .sLt => binary fun a b => .ok (flag (slt a b = true))
  | .sGt => binary fun a b => .ok (flag (sgt a b = true))
  | .eq => binary fun a b => .ok (flag (a = b))
  | .isZero => unary fun a => flag (a = 0)
  | _ => unreachable

def execBitwise : Opcode → Exec σ α Unit
  | .and => binary fun a b => .ok (a &&& b)
  | .or => binary fun a b => .ok (a ||| b)
  | .xor => binary fun a b => .ok (a ^^^ b)
  | .not => unary fun a => ~~~a
  | .byte => binary fun i x => .ok (byteOf i x)
  | .shl => binary shl
  | .shr => binary shr
  | .sar => binary fun shift value => .ok (sar value shift)
  | _ => unreachable

def execKeccak256 (host : Host σ α) : Exec σ α Unit := do
  let offset ← pop
  let size ← pop
  let offset ← lift (asUsize offset)
  let size ← lift (asUsize size)
  let dynamicGas ← lift (keccak256GasCost host.checks size)
  let oldWords ← read (fun m => m.memory.wordSize)
  let stop ← lift (fitWord host.checks (offset + size))
  let memCost ← lift (memoryExpansionCost host.checks oldWords (divCeil stop 32))
  let cost ← lift (fitWord host.checks (dynamicGas + memCost))
  chargeGas cost
  let _ ← expand stop
  let data ← readMemory offset size
  push (host.keccak256 data)

def callDataWord (checks : Bool) (data : Bytes) (offset : U256) : Except VmFault U256 :=
  if data.length < offset.toNat then .ok 0 else do
    let start ← asUsize offset
    let rest ← subWord checks data.length start
    let stop ← fitWord checks (start + min rest 32)
    let bytes ← slice data start stop
    .ok (fromBigEndian (bytes ++ List.replicate (32 - min rest 32) 0))

def copyBytes (checks : Bool) (source : Bytes) (dest src : Nat) : Nat → Nat → Exec σ α Unit
  | 0,_ => pure ()
  | left+1,i => do
    let position ← lift (fitWord checks (src + i))
    let target ← lift (fitWord checks (dest + i))
    let _ ← onMemory (Memory.writeByte checks target (source.getD position 0))
    copyBytes checks source dest src left (i + 1)

def execCopy (checks : Bool) (source : Interpreter σ α → Bytes) : Exec σ α Unit := do
  let dest ← popUsize
  let src ← popUsize
  let size ← popUsize
  let stop ← lift (fitWord checks (dest + size))
  let _ ← expand stop
  let bytes ← read source
  copyBytes checks bytes dest src size 0

def execBalance (host : Host σ α) : Exec σ α Unit := do
  let value ← pop
  let address := addressFromU256 value
  let status ← onAccessList (host.access.touchAccount address)
  chargeGas (if status = .cold then costs.balanceCold else costs.balanceWarm)
  let balance ← onState (host.state.getBalance address)
  push balance

def execCallDataLoad (checks : Bool) : Exec σ α Unit := do
  let offset ← pop
  let data ← read (fun m => m.context.data.1)
  let value ← lift (callDataWord checks data offset)
  push value

def execEnvironmental (host : Host σ α) : Opcode → Exec σ α Unit
  | .address => pushRead fun m => m.context.address.setWidth 256
  | .balance => execBalance host
  | .origin => pushRead fun m => m.context.origin.setWidth 256
  | .caller => pushRead fun m => m.context.caller.setWidth 256
  | .callValue => pushRead fun m => m.context.value
  | .callDataLoad => execCallDataLoad host.checks
  | .callDataSize => pushRead fun m => BitVec.ofNat 256 m.context.data.1.length
  | .callDataCopy => execCopy host.checks fun m => m.context.data.1
  | .codeSize => pushRead fun m => BitVec.ofNat 256 m.code.1.length
  | .codeCopy => execCopy host.checks fun m => m.code.1
  | .gasPrice => pushRead fun m => m.context.gasPrice
  | _ => notImplemented

def execBlockInfo : Opcode → Exec σ α Unit
  | .coinbase => pushRead fun m => m.context.block.coinbase.setWidth 256
  | .timestamp => pushRead fun m => m.context.block.timestamp.setWidth 256
  | .number => pushRead fun m => m.context.block.number.setWidth 256
  | .gasLimit => pushRead fun m => m.context.block.gasLimit.setWidth 256
  | .chainId => pushRead fun m => m.context.block.chainId.setWidth 256
  | .baseFee => pushRead fun m => m.context.block.baseFee
  | .blockHash => unary fun _ => 0
  | _ => notImplemented

variable (checks : Bool)

def execMLoad : Exec σ α Unit := do
  let offset ← popUsize
  let stop ← lift (fitWord checks (offset + 32))
  let _ ← expand stop
  pushRead fun m => fromBigEndian (m.memory.readWord offset)

def execMStore : Exec σ α Unit := do
  let offset ← popUsize
  let value ← pop
  let stop ← lift (fitWord checks (offset + 32))
  let _ ← expand stop
  let _ ← onMemory (Memory.writeWord checks offset (wordBytes value))

def execMStore8 : Exec σ α Unit := do
  let offset ← popUsize
  let value ← pop
  let stop ← lift (fitWord checks (offset + 1))
  let _ ← expand stop
  let _ ← onMemory (Memory.writeByte checks offset (UInt8.ofNat value.toNat))

def execMemoryOps : Opcode → Exec σ α Unit
  | .mLoad => execMLoad checks
  | .mStore => execMStore checks
  | .mStore8 => execMStore8 checks
  | .mSize => pushRead fun m => BitVec.ofNat 256 m.memory.len
  | .mCopy => fail (.internal "MCOPY not implemented")
  | _ => notImplemented

def accessCost (status : AccessStatus) : Nat := if status = .cold then costs.coldSLoad else costs.warmSLoad

variable (host : Host σ α)

def execSLoad : Exec σ α Unit := do
  let key ← pop
  let address ← read (fun m => m.context.address)
  let status ← onAccessList (host.access.touchStorage address key)
  chargeGas (accessCost status)
  let value ← onState (host.state.getStorage address key)
  push value

def execSStore : Exec σ α Unit := do
  let isStatic ← read (fun m => m.context.isStatic)
  ensure (isStatic = false) (.error .writeInStaticContext)
  let key ← pop
  let value ← pop
  let address ← read (fun m => m.context.address)
  let status ← onAccessList (host.access.touchStorage address key)
  chargeGas (accessCost status + costs.sStoreSet)
  onState (host.state.setStorage address key value)
  update fun m => {m with stateChanges := m.stateChanges ++
    [if value = 0 then .storageDelete address key else .storageWrite address key value]}

def execStorageOps : Opcode → Exec σ α Unit
  | .sLoad => execSLoad host
  | .sStore => execSStore host
  | .tLoad | .tStore => fail (.internal "Transient storage not implemented")
  | _ => notImplemented

def jump (dest : Nat) : Exec σ α Unit := do
  let dests ← read (fun m => m.jumpDests)
  ensure (dest ∈ dests) (.error (.invalidJump dest))
  update fun m => {m with pc := dest}

def execJump : Exec σ α Unit := do
  let dest ← popUsize
  jump dest

def execJumpI : Exec σ α Unit := do
  let dest ← popUsize
  let cond ← pop
  if cond = 0 then pure () else jump dest

def execFlowControl : Opcode → Exec σ α Unit
  | .jump => execJump
  | .jumpI => execJumpI
  | .pc => pushRead fun m => BitVec.ofNat 256 (m.pc - 1)
  | .jumpDest => pure ()
  | _ => unreachable

def pushWord (checks : Bool) (code : Bytes) (pc size : Nat) : Except VmFault U256 := do
  let stop := min (pc + size) code.length
  let dataLen ← subWord checks stop pc
  if 0 < dataLen then do
    let data ← slice code pc stop
    .ok (fromBigEndian (List.replicate (32 - size) 0 ++ data ++ List.replicate (size - dataLen) 0))
  else .ok 0

def execPush (checks : Bool) (size : Nat) : Exec σ α Unit := do
  let code ← read (fun m => m.code.1)
  let pc ← read (fun m => m.pc)
  let value ← lift (pushWord checks code pc size)
  push value
  update fun m => {m with pc := m.pc + size}

def execStackOps (checks : Bool) : Opcode → Exec σ α Unit
  | .pop => do let _ ← pop
  | .gas => pushRead fun m => BitVec.ofNat 256 m.gasRemaining
  | .push n => execPush checks n
  | .dup n => onStack (Stack.dup n)
  | .swap n => onStack (Stack.swap (n + 1))
  | _ => unreachable

def popTopics : Nat → Exec σ α (List Hash)
  | 0 => pure []
  | n+1 => do
    let topic ← pop
    let rest ← popTopics n
    pure (topic::rest)

variable (checks : Bool)

def execLog (topicCount : Nat) : Exec σ α Unit := do
  let isStatic ← read (fun m => m.context.isStatic)
  ensure (isStatic = false) (.error .writeInStaticContext)
  let offset ← popUsize
  let size ← popUsize
  let cost ← lift (logGasCost checks size topicCount)
  -- the base cost is already paid
  let charge ← lift (subWord checks cost costs.log)
  chargeGas charge
  let stop ← lift (fitWord checks (offset + size))
  let _ ← expand stop
  let topics ← popTopics topicCount
  let data ← readMemory offset size
  update fun m => {m with logs := m.logs ++ [⟨m.context.address,topics,data⟩]}

def readOutput : Exec σ α Bytes := do
  let offset ← popUsize
  let size ← popUsize
  let stop ← lift (fitWord checks (offset + size))
  let _ ← expand stop
  readMemory offset size

def execReturn : Exec σ α Unit := do
  let data ← readOutput checks
  update fun m => {m with returnData := data, stopped := true}

def execRevert : Exec σ α Unit := do
  let data ← readOutput checks
  update fun m => {m with returnData := data, stopped := true, reverted := true}
  fail (.revert "Revert opcode")

def execSystem : Opcode → Exec σ α Unit
  | .return_ => execReturn checks
  | .revert => execRevert checks
  | .stop => update fun m => {m with stopped := true}
  | .invalid => fail (.invalidOpcode 0xFE)
  | _ => notImplemented

def dispatch (host : Host σ α) (opcode : Opcode) : Exec σ α Unit :=
  match opcode with
  | .add | .mul | .sub | .div | .sDiv | .mod | .sMod | .addMod | .mulMod | .exp | .signExtend =>
    execArithmetic host.checks opcode
  | .lt | .gt | .sLt | .sGt | .eq | .isZero => execComparison opcode
  | .and | .or | .xor | .not | .byte | .shl | .shr | .sar => execBitwise opcode
  | .keccak256 => execKeccak256 host
  | .address | .balance | .origin | .caller | .callValue | .callDataLoad | .callDataSize | .callDataCopy
  | .codeSize | .codeCopy | .gasPrice | .extCodeSize | .extCodeCopy | .returnDataSize | .returnDataCopy
  | .extCodeHash => execEnvironmental host opcode
  | .blockHash | .coinbase | .timestamp | .number | .prevRandao | .gasLimit | .chainId | .selfBalance
  | .baseFee => execBlockInfo opcode
  | .mLoad | .mStore | .mStore8 | .mSize | .mCopy => execMemoryOps host.checks opcode
  | .sLoad | .sStore | .tLoad | .tStore => execStorageOps host opcode
  | .jump | .jumpI | .pc | .jumpDest => execFlowControl opcode
  | .pop | .gas | .push _ | .dup _ | .swap _ => execStackOps host.checks opcode
  | .log n => execLog host.checks n
  | .create | .call | .callCode | .return_ | .delegateCall | .create2 | .staticCall | .revert | .invalid
  | .selfDestruct | .stop => execSystem host.checks opcode

def executeOpcode (host : Host σ α) (opcode : Opcode) : Exec σ α Unit := do
  update fun m => {m with pc := m.pc + 1}
  dispatch host opcode

def opcode (m : Interpreter σ α) : Opcode := opcodeAt m.code.1 m.pc

variable (host : Host σ α)

def turn : Exec σ α Unit := fun m =>
  if m.code.1.length ≤ m.pc then (.ok (),{m with stopped := true})
  else (do
    chargeGas (opcodeGas m.opcode)
    executeOpcode host m.opcode : Exec σ α Unit) m

theorem turnPast {m} (past : m.code.1.length ≤ m.pc) :
    turn host m = (.ok (),{m with stopped := true}) := if_pos past

theorem turnInside {m : Interpreter σ α} (inside : ¬m.code.1.length ≤ m.pc) :
    turn host m = (chargeGas (opcodeGas m.opcode) >>= fun _ => executeOpcode host m.opcode : Exec σ α Unit) m :=
  if_neg inside

def finish (checks : Bool) (m : Interpreter σ α) : Except VmFault ExecutionResult := do
  let gasUsed ← subWord checks m.context.gasLimit.toNat m.gasRemaining
  let effectiveRefund := calculateRefund gasUsed m.gasRefund
  .ok {
    success := !m.reverted
    output := m.returnData
    gasUsed := gasUsed - effectiveRefund
    gasRefund := effectiveRefund
    stateChanges := if m.reverted then [] else m.stateChanges
    logs := m.logs
  }

def execute (host : Host σ α) (turns : Nat) (m : Interpreter σ α) :
    Option (Except VmFault ExecutionResult × Interpreter σ α) :=
  (loop (fun m => m.stopped) (turn host) turns m).map fun out =>
    StepRun.andThen out fun _ m => (finish host.checks m,m)

def runsOpcode (m : Interpreter σ α) : Bool :=
  decide (m.pc < m.code.1.length ∧ opcodeGas m.opcode ≤ m.gasRemaining)

def opcodesRun (host : Host σ α) (turns : Nat) (m : Interpreter σ α) : Nat :=
  turnsWhere (fun m => m.stopped) (turn host) runsOpcode turns m

end Interpreter

end QuantumChain.Evm
