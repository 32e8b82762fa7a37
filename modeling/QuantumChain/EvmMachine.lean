import QuantumChain.FixedWidth
import QuantumChain.Command

/-! The parts of the EVM: opcodes, gas, stack, memory, word arithmetic.
Prices are the source's, not the yellow paper's. -/
namespace QuantumChain.Evm
open Command List

inductive StateError where
  | notFound (address : Address)
  | corrupted
  | timeout
  | accessDenied
  | unavailable
  | invalidStateRoot
  | other (message : String)
  deriving DecidableEq, Repr

inductive VmError where
  | outOfGas
  | stackOverflow
  | stackUnderflow
  | invalidOpcode (byte : UInt8)
  | invalidJump (dest : Nat)
  | writeInStaticContext
  | stateError (e : StateError)
  | revert (message : String)
  | memoryLimitExceeded (requested max : Nat)
  | internal (message : String)
  deriving DecidableEq, Repr

abbrev VmFault := Fault VmError

abbrev Buffer := {bytes : Bytes // bytes.length < 2^63}

def fitWord (checks : Bool) (n : Nat) : Except VmFault Nat :=
  if n < 2^64 then .ok n else if checks then .error .panic else .ok (n % 2^64)

def subWord (checks : Bool) (a b : Nat) : Except VmFault Nat :=
  if b ≤ a then .ok (a - b) else if checks then .error .panic else .ok (2^64 + a - b)

def asUsize (v : U256) : Except VmFault Nat := if v.toNat < 2^64 then .ok v.toNat else .error .panic

def slice (bytes : Bytes) (start stop : Nat) : Except VmFault Bytes :=
  if start ≤ stop ∧ stop ≤ bytes.length then .ok ((bytes.drop start).take (stop - start)) else .error .panic

def divCeil (n d : Nat) : Nat := (n + (d - 1)) / d

def fromBigEndian (bytes : Bytes) : U256 := BitVec.ofNat 256 (beNumber bytes)

theorem fitWordSmall {checks n} (small : n < 2^64) : fitWord checks n = .ok n := if_pos small

theorem fitWordOk {n m} (h : fitWord true n = .ok m) : m = n := by
  unfold fitWord at h
  split at h
  · exact (Except.ok.inj h).symm
  · cases h

inductive Opcode where
  | stop | add | mul | sub | div | sDiv | mod | sMod | addMod | mulMod | exp | signExtend
  | lt | gt | sLt | sGt | eq | isZero | and | or | xor | not | byte | shl | shr | sar
  | keccak256
  | address | balance | origin | caller | callValue | callDataLoad | callDataSize | callDataCopy
  | codeSize | codeCopy | gasPrice | extCodeSize | extCodeCopy | returnDataSize | returnDataCopy | extCodeHash
  | blockHash | coinbase | timestamp | number | prevRandao | gasLimit | chainId | selfBalance | baseFee
  | pop | mLoad | mStore | mStore8 | sLoad | sStore | jump | jumpI | pc | mSize | gas | jumpDest
  | tLoad | tStore | mCopy
  | push (n : Fin 33)
  | dup (n : Fin 16)
  | swap (n : Fin 16)
  | log (n : Fin 5)
  | create | call | callCode | return_ | delegateCall | create2 | staticCall | revert | invalid | selfDestruct
  deriving DecidableEq, Repr

namespace Opcode

def fromByte (byte : UInt8) : Option Opcode :=
  match byte.toNat with
  | 0x00 => some stop
  | 0x01 => some add
  | 0x02 => some mul
  | 0x03 => some sub
  | 0x04 => some div
  | 0x05 => some sDiv
  | 0x06 => some mod
  | 0x07 => some sMod
  | 0x08 => some addMod
  | 0x09 => some mulMod
  | 0x0A => some exp
  | 0x0B => some signExtend
  | 0x10 => some lt
  | 0x11 => some gt
  | 0x12 => some sLt
  | 0x13 => some sGt
  | 0x14 => some eq
  | 0x15 => some isZero
  | 0x16 => some and
  | 0x17 => some or
  | 0x18 => some xor
  | 0x19 => some not
  | 0x1A => some Opcode.byte
  | 0x1B => some shl
  | 0x1C => some shr
  | 0x1D => some sar
  | 0x20 => some keccak256
  | 0x30 => some address
  | 0x31 => some balance
  | 0x32 => some origin
  | 0x33 => some caller
  | 0x34 => some callValue
  | 0x35 => some callDataLoad
  | 0x36 => some callDataSize
  | 0x37 => some callDataCopy
  | 0x38 => some codeSize
  | 0x39 => some codeCopy
  | 0x3A => some gasPrice
  | 0x3B => some extCodeSize
  | 0x3C => some extCodeCopy
  | 0x3D => some returnDataSize
  | 0x3E => some returnDataCopy
  | 0x3F => some extCodeHash
  | 0x40 => some blockHash
  | 0x41 => some coinbase
  | 0x42 => some timestamp
  | 0x43 => some number
  | 0x44 => some prevRandao
  | 0x45 => some gasLimit
  | 0x46 => some chainId
  | 0x47 => some selfBalance
  | 0x48 => some baseFee
  | 0x50 => some pop
  | 0x51 => some mLoad
  | 0x52 => some mStore
  | 0x53 => some mStore8
  | 0x54 => some sLoad
  | 0x55 => some sStore
  | 0x56 => some jump
  | 0x57 => some jumpI
  | 0x58 => some pc
  | 0x59 => some mSize
  | 0x5A => some gas
  | 0x5B => some jumpDest
  | 0x5C => some tLoad
  | 0x5D => some tStore
  | 0x5E => some mCopy
  | 0xF0 => some create
  | 0xF1 => some call
  | 0xF2 => some callCode
  | 0xF3 => some return_
  | 0xF4 => some delegateCall
  | 0xF5 => some create2
  | 0xFA => some staticCall
  | 0xFD => some revert
  | 0xFE => some invalid
  | 0xFF => some selfDestruct
  | n =>
    if within : 0x5F ≤ n ∧ n ≤ 0x7F then some (push ⟨n - 0x5F,by omega⟩)
    else if within : 0x80 ≤ n ∧ n ≤ 0x8F then some (dup ⟨n - 0x80,by omega⟩)
    else if within : 0x90 ≤ n ∧ n ≤ 0x9F then some (swap ⟨n - 0x90,by omega⟩)
    else if within : 0xA0 ≤ n ∧ n ≤ 0xA4 then some (log ⟨n - 0xA0,by omega⟩)
    else none

def pushSize : Opcode → Option Nat
  | push n => some n
  | _ => none

end Opcode

namespace costs
def base : Nat := 2
def veryLow : Nat := 3
def low : Nat := 5
def mid : Nat := 8
def high : Nat := 10
def jumpDest : Nat := 1
def coldSLoad : Nat := 2100
def warmSLoad : Nat := 100
def sStoreSet : Nat := 20000
def create : Nat := 32000
def keccak256Word : Nat := 6
def log : Nat := 375
def logTopic : Nat := 375
def logData : Nat := 8
def keccak256 : Nat := 30
def exp : Nat := 10
def expByte : Nat := 50
def selfDestruct : Nat := 5000
def balanceCold : Nat := 2600
def balanceWarm : Nat := 100
def blockHash : Nat := 20
end costs

def opcodeGas : Opcode → Nat
  | .stop => 0
  | .add | .sub => costs.veryLow
  | .mul | .div | .sDiv | .mod | .sMod | .signExtend => costs.low
  | .addMod | .mulMod => costs.mid
  | .exp => costs.exp
  | .lt | .gt | .sLt | .sGt | .eq | .isZero => costs.veryLow
  | .and | .or | .xor | .not | .byte | .shl | .shr | .sar => costs.veryLow
  | .keccak256 => costs.keccak256
  | .address | .origin | .caller | .callValue | .callDataSize | .codeSize | .gasPrice | .returnDataSize => costs.base
  | .callDataLoad | .callDataCopy | .codeCopy | .returnDataCopy => costs.veryLow
  | .balance | .extCodeSize | .extCodeCopy | .extCodeHash => 0
  | .blockHash => costs.blockHash
  | .coinbase | .timestamp | .number | .prevRandao | .gasLimit | .chainId | .baseFee => costs.base
  | .selfBalance => costs.low
  | .pop | .pc | .mSize | .gas => costs.base
  | .mLoad | .mStore | .mStore8 | .mCopy => costs.veryLow
  | .sLoad | .sStore => 0
  | .jump => costs.mid
  | .jumpI => costs.high
  | .jumpDest => costs.jumpDest
  | .tLoad | .tStore => costs.warmSLoad
  | .push n => if n = 0 then costs.base else costs.veryLow
  | .dup _ | .swap _ => costs.veryLow
  | .log _ => costs.log
  | .create | .create2 => costs.create
  | .call | .callCode | .return_ | .delegateCall | .staticCall | .revert | .invalid => 0
  | .selfDestruct => costs.selfDestruct

def expGasCost (exponent : U256) : Nat :=
  if exponent = 0 then costs.exp else costs.exp + costs.expByte * divCeil (exponent.toNat.log2 + 1) 8

variable (checks : Bool)

def keccak256GasCost (dataSize : Nat) : Except VmFault Nat := do
  let words ← fitWord checks (costs.keccak256Word * divCeil dataSize 32)
  fitWord checks (costs.keccak256 + words)

def logGasCost (dataSize topicCount : Nat) : Except VmFault Nat := do
  let topics ← fitWord checks (costs.logTopic * topicCount)
  let fixed ← fitWord checks (costs.log + topics)
  let data ← fitWord checks (costs.logData * dataSize)
  fitWord checks (fixed + data)

def memoryGasCost (wordSize : Nat) : Except VmFault Nat := do
  let square ← fitWord checks (wordSize * wordSize)
  let linear ← fitWord checks (3 * wordSize)
  fitWord checks (square / 512 + linear)

def memoryExpansionCost (oldWordSize newWordSize : Nat) : Except VmFault Nat :=
  if newWordSize ≤ oldWordSize then .ok 0 else do
    let newCost ← memoryGasCost checks newWordSize
    let oldCost ← memoryGasCost checks oldWordSize
    subWord checks newCost oldCost

def calculateRefund (gasUsed refund : Nat) : Nat := min refund (gasUsed / 2)

def maxStackSize : Nat := 1024

structure Stack where
  data : List U256
  bounded : data.length ≤ maxStackSize
  deriving DecidableEq, Repr

namespace Stack

def new : Stack := ⟨[],by decide⟩

def popped (stack : Stack) : Stack := ⟨stack.data.tail,by have := stack.bounded; rw [length_tail]; omega⟩

def push (value : U256) : Command Stack VmFault Unit := fun stack =>
  if room : stack.data.length < maxStackSize then (.ok (),⟨value::stack.data,room⟩)
  else (.error (.error .stackOverflow),stack)

def pop : Command Stack VmFault U256 := fun stack =>
  match stack.data with
  | [] => (.error (.error .stackUnderflow),stack)
  | value::_ => (.ok value,stack.popped)

def swap (n : Nat) : Command Stack VmFault Unit := fun stack =>
  if n = 0 ∨ stack.data.length ≤ n then (.error (.error .stackUnderflow),stack)
  else (.ok (),⟨(stack.data.set 0 (stack.data.getD n 0)).set n (stack.data.getD 0 0),
    by rw [length_set,length_set]; exact stack.bounded⟩)

def dup (n : Nat) : Command Stack VmFault Unit := fun stack =>
  if stack.data.length ≤ n then (.error (.error .stackUnderflow),stack)
  else push (stack.data.getD n 0) stack

end Stack

def maxMemorySize : Nat := 16 * 1024 * 1024

def wordLength : Nat := 32

structure Memory where
  data : Bytes
  bounded : data.length ≤ maxMemorySize
  deriving DecidableEq, Repr

namespace Memory

def new : Memory := ⟨[],by decide⟩

variable (memory : Memory)

def len : Nat := memory.data.length

def wordSize : Nat := divCeil memory.len wordLength

def resize (size : Nat) (inside : size ≤ maxMemorySize) : Memory where
  data := memory.data ++ replicate (divCeil size wordLength * wordLength - memory.data.length) 0
  bounded := by
    have before := memory.bounded
    rw [length_append,length_replicate]
    unfold divCeil wordLength maxMemorySize at *
    omega

def expand (size : Nat) : Command Memory VmFault Nat := fun memory =>
  if size ≤ memory.len then (.ok 0,memory)
  else if inside : size ≤ maxMemorySize then
    (.ok (divCeil size wordLength - memory.wordSize),memory.resize size inside)
  else (.error (.error (.memoryLimitExceeded size maxMemorySize)),memory)

variable (memory : Memory)

def byteAt (offset i : Nat) : UInt8 := memory.data.getD (min (offset + i) (2^64 - 1)) 0

def readWord (offset : Nat) : Bytes := (range 32).map (memory.byteAt offset)

def readBytes (offset size : Nat) : Except VmFault Bytes :=
  if size < 2^63 then .ok ((range size).map (memory.byteAt offset)) else .error .panic

def setByte (offset : Nat) (value : UInt8) : Command Memory VmFault Unit := fun memory =>
  if offset < memory.len then (.ok (),⟨memory.data.set offset value,by rw [length_set]; exact memory.bounded⟩)
  else (.error .panic,memory)

def writeByte (checks : Bool) (offset : Nat) (value : UInt8) : Command Memory VmFault Nat := do
  let stop ← lift (fitWord checks (offset + 1))
  let wordsAdded ← expand stop
  setByte offset value
  pure wordsAdded

def setBytes (offset stop : Nat) (value : Bytes) : Command Memory VmFault Unit := fun memory =>
  if inside : offset ≤ stop ∧ stop ≤ memory.len ∧ value.length = stop - offset then
    (.ok (),⟨memory.data.take offset ++ value ++ memory.data.drop stop,by
      have before := memory.bounded
      unfold len at inside
      simp only [length_append,length_take,length_drop]
      omega⟩)
  else (.error .panic,memory)

def writeWord (checks : Bool) (offset : Nat) (value : Bytes) : Command Memory VmFault Nat := do
  let stop ← lift (fitWord checks (offset + 32))
  let wordsAdded ← expand stop
  setBytes offset stop value
  pure wordsAdded

end Memory

def addU256 (a b : U256) : Except VmFault U256 := if a.toNat + b.toNat < 2^256 then .ok (a + b) else .error .panic

def subU256 (a b : U256) : Except VmFault U256 := if b.toNat ≤ a.toNat then .ok (a - b) else .error .panic

def mulU256 (a b : U256) : Except VmFault U256 := if a.toNat * b.toNat < 2^256 then .ok (a * b) else .error .panic

def overflowingPow : Nat → U256 → Nat → U256
  | 0,_,_ => 1
  | turns+1,b,exponent =>
    if exponent = 0 then 1
    else if exponent % 2 = 0 then overflowingPow turns (b * b) (exponent / 2)
    else b * overflowingPow turns (b * b) (exponent / 2)

def flag (holds : Prop) [Decidable holds] : U256 := if holds then 1 else 0

def sdiv (a b : U256) : U256 := if b = 0 then 0 else a / b

def smod (a b : U256) : U256 := if b = 0 then 0 else a % b

def addmod (a b c : U256) : Except VmFault U256 :=
  if c = 0 then .ok 0 else do
    let sum ← addU256 a b
    .ok (sum % c)

def mulmod (a b c : U256) : Except VmFault U256 :=
  if c = 0 then .ok 0 else do
    let product ← mulU256 a b
    .ok (product % c)

def signExtend (checks : Bool) (k x : U256) : Except VmFault U256 := do
  let k ← asUsize k
  let bits ← fitWord checks (k * 8)
  let bit ← fitWord checks (bits + 7)
  if 256 ≤ bit then .ok x else do
    let mask ← subU256 ((1 : U256) <<< (bit + 1)) 1
    .ok (if x.getLsbD bit then x ||| ~~~mask else x &&& mask)

def slt (a b : U256) : Bool :=
  if a.getLsbD 255 && !b.getLsbD 255 then true
  else if !a.getLsbD 255 && b.getLsbD 255 then false
  else decide (a.toNat < b.toNat)

def sgt (a b : U256) : Bool := slt b a

def sar (value shift : U256) : U256 :=
  if 256 ≤ shift.toNat then if value.getLsbD 255 then ~~~(0 : U256) else 0
  else
    let result := value >>> shift.toNat
    if value.getLsbD 255 then result ||| (~~~(0 : U256) <<< (256 - shift.toNat)) else result

def byteOf (i x : U256) : U256 := if 31 < i.toNat then 0 else (x >>> (8 * (31 - i.toNat))) &&& 0xFF

def shl (shift value : U256) : Except VmFault U256 := do
  let shift ← asUsize shift
  .ok (value <<< shift)

def shr (shift value : U256) : Except VmFault U256 := do
  let shift ← asUsize shift
  .ok (value >>> shift)

def addressFromU256 (value : U256) : Address := value.setWidth 160

end QuantumChain.Evm
