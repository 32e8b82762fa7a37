import QuantumChain.StateEncoding

/-! RLP as the gateway reads it, through the `rlp` crate. The crate is a parameter: `RlpCrate` names the calls that the
gateway makes, and `Decodes` says of one list that they read it back by the standard rules, where a list is not a byte
string. The decoder below is one of this kind, to run the gateway on single strings: no general result is about it, and
it is no statement about the crate. -/
namespace QuantumChain.RlpDecoder
open List
open State.Rlp

structure RlpCrate (ε ι : Type) where
  debug : ε → String
  isList : Bytes → Bool
  itemCount : Bytes → Except ε Nat
  itemAt : Bytes → Nat → Except ε ι
  asBytes : ι → Except ε Bytes
  asU64 : ι → Except ε U64

inductive Item
  | string (value : Bytes)
  | list (payload : Bytes)

def Item.encode : Item → Bytes
  | .string value => encodeBytes value
  | .list payload => encodeList payload

def listOf (items : List Item) : Bytes := encodeList (items.flatMap Item.encode)

namespace RlpCrate
variable {ε ι : Type} (crate : RlpCrate ε ι)

def Views (view : ι) : Item → Prop
  | .string value => crate.asBytes view = .ok value ∧
      (value.length ≤ 8 → value.head? ≠ some 0 → crate.asU64 view = .ok (BitVec.ofNat 64 (beNumber value)))
  | .list _ => (crate.asBytes view).toOption = none

structure Decodes (items : List Item) : Prop where
  list : crate.isList (listOf items) = true
  count : crate.itemCount (listOf items) = .ok items.length
  item : ∀ i item, items[i]? = some item → ∃ view, crate.itemAt (listOf items) i = .ok view ∧ crate.Views view item

instance [DecidableEq ε] (view : ι) : (item : Item) → Decidable (crate.Views view item)
  | .string value => inferInstanceAs (Decidable (crate.asBytes view = .ok value ∧
      (value.length ≤ 8 → value.head? ≠ some 0 → crate.asU64 view = .ok (BitVec.ofNat 64 (beNumber value)))))
  | .list _ => inferInstanceAs (Decidable ((crate.asBytes view).toOption = none))

instance [DecidableEq ε] (items : List Item) : Decidable (crate.Decodes items) :=
  decidable_of_iff (crate.isList (listOf items) = true ∧ crate.itemCount (listOf items) = .ok items.length ∧
    ∀ i ∈ List.range items.length, ∀ item ∈ items[i]?, ∃ view ∈ (crate.itemAt (listOf items) i).toOption,
      crate.Views view item) <| by
    have view {i item} : (∃ view ∈ (crate.itemAt (listOf items) i).toOption, crate.Views view item) ↔
        ∃ view, crate.itemAt (listOf items) i = .ok view ∧ crate.Views view item := by
      cases crate.itemAt (listOf items) i <;> simp [Except.toOption]
    constructor
    · rintro ⟨list,count,each⟩
      refine ⟨list,count,fun i item here => view.mp (each i (mem_range.mpr ?_) item here)⟩
      exact (List.getElem?_eq_some_iff.mp here).1
    · exact fun decodes => ⟨decodes.list,decodes.count,fun i _ item here => view.mpr (decodes.item i item here)⟩

end RlpCrate

inductive DecoderError
  | rlpIsTooBig
  | rlpIsTooShort
  | rlpExpectedToBeList
  | rlpExpectedToBeData
  | rlpDataLenWithZeroPrefix
  | rlpInvalidIndirection
  | rlpInconsistentLengthAndData
  | rlpInvalidLength
  deriving DecidableEq, Repr

def DecoderError.debug : DecoderError → String
  | .rlpIsTooBig => "RlpIsTooBig"
  | .rlpIsTooShort => "RlpIsTooShort"
  | .rlpExpectedToBeList => "RlpExpectedToBeList"
  | .rlpExpectedToBeData => "RlpExpectedToBeData"
  | .rlpDataLenWithZeroPrefix => "RlpDataLenWithZeroPrefix"
  | .rlpInvalidIndirection => "RlpInvalidIndirection"
  | .rlpInconsistentLengthAndData => "RlpInconsistentLengthAndData"
  | .rlpInvalidLength => "RlpInvalidLength"

structure PayloadInfo where
  headerLen : Nat
  valueLen : Nat
  deriving DecidableEq, Repr

def PayloadInfo.total (info : PayloadInfo) : Nat := info.headerLen + info.valueLen

def decodeUsize (bytes : Bytes) : Except DecoderError Nat :=
  if bytes.length ≤ 8 then
    if bytes.head? = some 0 then .error .rlpInvalidIndirection else .ok (beNumber bytes)
  else .error .rlpIsTooBig

def calculatePayloadInfo (behind : Bytes) (lenOfLen : Nat) : Except DecoderError PayloadInfo :=
  match behind with
  | [] => .error .rlpIsTooShort
  | lead::_ =>
    if lead = 0 then .error .rlpDataLenWithZeroPrefix
    else if behind.length < lenOfLen then .error .rlpIsTooShort
    else do
      let valueLen ← decodeUsize (behind.take lenOfLen)
      if valueLen ≤ 55 then .error .rlpInvalidIndirection else .ok ⟨1 + lenOfLen,valueLen⟩

def payloadFrom : Bytes → Except DecoderError PayloadInfo
  | [] => .error .rlpIsTooShort
  | first::behind =>
    let l := first.toNat
    if l ≤ 0x7f then .ok ⟨0,1⟩
    else if l ≤ 0xb7 then .ok ⟨1,l - 0x80⟩
    else if l ≤ 0xbf then calculatePayloadInfo behind (l - 0xb7)
    else if l ≤ 0xf7 then .ok ⟨1,l - 0xc0⟩
    else calculatePayloadInfo behind (l - 0xf7)

def payloadInfo (bytes : Bytes) : Except DecoderError PayloadInfo := do
  let item ← payloadFrom bytes
  if item.total ≤ bytes.length then .ok item else .error .rlpIsTooShort

def isList : Bytes → Bool
  | [] => false
  | first::_ => 0xc0 ≤ first.toNat

def listPayload (bytes : Bytes) : Except DecoderError Bytes := do
  let item ← payloadInfo bytes
  .ok ((bytes.drop item.headerLen).take item.valueLen)

def consumeItems : (items : Nat) → Bytes → Except DecoderError Bytes
  | 0,bytes => .ok bytes
  | items+1,bytes => do
    let item ← payloadInfo bytes
    consumeItems items (bytes.drop item.total)

def payloadItem (payload : Bytes) (index : Nat) : Except DecoderError Bytes := do
  let bytes ← consumeItems index payload
  let found ← payloadInfo bytes
  .ok (bytes.take found.total)

def itemAt (bytes : Bytes) (index : Nat) : Except DecoderError Bytes :=
  if isList bytes then do
    let payload ← listPayload bytes
    payloadItem payload index
  else .error .rlpExpectedToBeList

def countFrom (bytes : Bytes) : (fuel index : Nat) → Nat
  | 0,_ => 0
  | fuel+1,index =>
    match itemAt bytes index with
    | .error _ => 0
    | .ok _ => countFrom bytes fuel (index + 1) + 1

def itemCount (bytes : Bytes) : Except DecoderError Nat :=
  if isList bytes then .ok (countFrom bytes bytes.length 0) else .error .rlpExpectedToBeList

def decodeValue : Bytes → Except DecoderError Bytes
  | [] => .error .rlpIsTooShort
  | first::behind =>
    let l := first.toNat
    if l ≤ 0x7f then .ok [first]
    else if l ≤ 0xb7 then
      if behind.length < l - 0x80 then .error .rlpInconsistentLengthAndData
      else
        let d := behind.take (l - 0x80)
        if l = 0x81 ∧ (d.headD 0).toNat < 0x80 then .error .rlpInvalidIndirection else .ok d
    else if l ≤ 0xbf then
      let lenOfLen := l - 0xb7
      if behind.length < lenOfLen then .error .rlpInconsistentLengthAndData
      else do
        let len ← decodeUsize (behind.take lenOfLen)
        if 2^64 ≤ 1 + lenOfLen + len then .error .rlpInvalidLength
        else if behind.length < lenOfLen + len then .error .rlpInconsistentLengthAndData
        else .ok ((behind.drop lenOfLen).take len)
    else .error .rlpExpectedToBeData

def numberFrom : Bytes → Except DecoderError U64
  | [] => .ok 0
  | [byte] => if byte = 0 then .error .rlpInvalidIndirection else .ok (BitVec.ofNat 64 byte.toNat)
  | first::second::rest =>
    if (first::second::rest).length ≤ 8 then
      if first = 0 then .error .rlpInvalidIndirection else .ok (BitVec.ofNat 64 (beNumber (first::second::rest)))
    else .error .rlpIsTooBig

def asU64 (item : Bytes) : Except DecoderError U64 := do
  let bytes ← decodeValue item
  numberFrom bytes

def crate : RlpCrate DecoderError Bytes := ⟨DecoderError.debug,isList,itemCount,itemAt,decodeValue,asU64⟩

end QuantumChain.RlpDecoder
