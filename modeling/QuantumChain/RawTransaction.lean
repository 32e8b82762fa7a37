import QuantumChain.RlpDecoder
import QuantumChain.StepRun

/-! Raw transactions at the gateway: the type byte, the fields of each layout, the signing hash and the sender. The RLP
decoder and the signature library are parameters; what a field reads as is derived for lists that the decoder reads by
the standard rules. Whether the library accepts only real signatures is not established here. -/
namespace QuantumChain.Gateway
open List
open State.Rlp RlpDecoder
open StepRun (boundOk boundFails boundSwap mapErrorOk)

def maxTxSize : Nat := 128 * 1024
def minTxSize : Nat := 85

inductive TxType
  | legacy
  | accessList
  | dynamicFee
  deriving DecidableEq, Repr

structure ApiError where
  code : Int
  message : String
  deriving DecidableEq, Repr

def ApiError.invalidParams (details : String) : ApiError := ⟨-32602,"Invalid params: " ++ details⟩

def rlpError {ε : Type} (debug : ε → String) (field : String) (e : ε) : ApiError :=
  .invalidParams ("RLP decode error for " ++ field ++ ": " ++ debug e)

structure ParsedTxFields where
  nonce : U64
  gasPrice : U256
  gasLimit : U64
  toAddr : Option Address
  value : U256
  data : Bytes
  v : U64
  r : Hash
  s : Hash
  deriving DecidableEq

structure ValidatedTransaction where
  hash : Hash
  sender : Address
  nonce : U64
  gasPrice : U256
  gasLimit : U64
  toAddr : Option Address
  value : U256
  data : Bytes
  txType : TxType
  deriving DecidableEq

def hexByte (byte : UInt8) : String :=
  String.ofList [Nat.digitChar (byte.toNat / 16),Nat.digitChar (byte.toNat % 16)]

def detectTxType : (raw : Bytes) → Except ApiError (TxType × Bytes)
  | [] => .error (.invalidParams "Empty transaction")
  | first::rest =>
    if first < 0x7f then
      if first = 0x01 then .ok (.accessList,rest)
      else if first = 0x02 then .ok (.dynamicFee,rest)
      else .error (.invalidParams ("Unknown transaction type: 0x" ++ hexByte first))
    else .ok (.legacy,first::rest)

section Fields
variable {ε ι : Type} (crate : RlpCrate ε ι) (rlp : Bytes) (index : Nat)

def fieldError {α : Type} (read : Except ε α) : Except ApiError α :=
  read.mapError (rlpError crate.debug ("field " ++ toString index))

def decodeU64 : Except ApiError U64 := fieldError crate index (crate.itemAt rlp index >>= crate.asU64)

def decodeBytes : Except ApiError Bytes := fieldError crate index (crate.itemAt rlp index >>= crate.asBytes)

def decodeWide (kind : String) : Except ApiError U256 := do
  let bytes ← decodeBytes crate rlp index
  if 32 < bytes.length then
    .error (.invalidParams (kind ++ " field " ++ toString index ++ " too large: " ++ toString bytes.length ++ " bytes"))
  else .ok (BitVec.ofNat 256 (beNumber (List.replicate (32 - bytes.length) 0 ++ bytes)))

def decodeU256 : Except ApiError U256 := decodeWide crate rlp index "U256"
def decodeBytes32 : Except ApiError Hash := decodeWide crate rlp index "bytes32"

def decodeOptionalAddress : Except ApiError (Option Address) := do
  let bytes ← decodeBytes crate rlp index
  if bytes = [] then .ok none
  else if bytes.length = 20 then .ok (some (BitVec.ofNat 160 (beNumber bytes)))
  else .error (.invalidParams ("Invalid address length at field " ++ toString index ++ ": " ++
    toString bytes.length ++ " bytes"))

end Fields

structure Layout where
  kind : String
  count : Nat
  nonce : Nat
  gasPrice : Nat
  gasLimit : Nat
  toAddr : Nat
  value : Nat
  data : Nat
  v : Nat
  r : Nat
  s : Nat

def legacyLayout : Layout := ⟨"Legacy",9,0,1,2,3,4,5,6,7,8⟩
def accessListLayout : Layout := ⟨"EIP-2930",11,1,2,3,4,5,6,8,9,10⟩
def dynamicFeeLayout : Layout := ⟨"EIP-1559",12,1,3,4,5,6,7,9,10,11⟩

namespace Layout
variable {ε ι : Type} (crate : RlpCrate ε ι) (layout : Layout) (data : Bytes)

def checkCount : Except ApiError Unit :=
  if crate.isList data then do
    let itemCount ← (crate.itemCount data).mapError (rlpError crate.debug "item count")
    if itemCount = layout.count then .ok ()
    else .error (.invalidParams (layout.kind ++ " transaction must have " ++ toString layout.count ++ " fields, got " ++
      toString itemCount))
  else .error (.invalidParams "Transaction must be RLP list")

def parse : Except ApiError ParsedTxFields := do
  layout.checkCount crate data
  return {
    nonce := ← decodeU64 crate data layout.nonce
    gasPrice := ← decodeU256 crate data layout.gasPrice
    gasLimit := ← decodeU64 crate data layout.gasLimit
    toAddr := ← decodeOptionalAddress crate data layout.toAddr
    value := ← decodeU256 crate data layout.value
    data := ← decodeBytes crate data layout.data
    v := ← decodeU64 crate data layout.v
    r := ← decodeBytes32 crate data layout.r
    s := ← decodeBytes32 crate data layout.s}

end Layout

section Parsing
variable {ε ι : Type} (crate : RlpCrate ε ι)

def parseLegacyTx (data : Bytes) : Except ApiError ParsedTxFields := legacyLayout.parse crate data

def parseAccessListTx (data : Bytes) : Except ApiError ParsedTxFields := accessListLayout.parse crate data

def parseDynamicFeeTx (data : Bytes) : Except ApiError ParsedTxFields := do
  dynamicFeeLayout.checkCount crate data
  let maxFeePerGas ← decodeU256 crate data 3
  return {
    nonce := ← decodeU64 crate data 1
    gasPrice := maxFeePerGas
    gasLimit := ← decodeU64 crate data 4
    toAddr := ← decodeOptionalAddress crate data 5
    value := ← decodeU256 crate data 6
    data := ← decodeBytes crate data 7
    v := ← decodeU64 crate data 9
    r := ← decodeBytes32 crate data 10
    s := ← decodeBytes32 crate data 11}

def parseTx : TxType → Bytes → Except ApiError ParsedTxFields
  | .legacy => parseLegacyTx crate
  | .accessList => parseAccessListTx crate
  | .dynamicFee => parseDynamicFeeTx crate

end Parsing

def appendU64 (w : U64) : Bytes := encodeBytes (minimal 8 w.toNat)
def appendU256 (w : U256) : Bytes := encodeBytes (minimal 32 w.toNat)

def appendTo : Option Address → Bytes
  | some toAddr => encodeBytes (wordBytes toAddr)
  | none => encodeBytes []

inductive Envelope
  | legacy
  | accessList (chainId : U64) (accessList : Bytes)
  | dynamicFee (chainId : U64) (maxPriorityFee : U256) (accessList : Bytes)
  deriving DecidableEq

def Envelope.txType : Envelope → TxType
  | .legacy => .legacy
  | .accessList .. => .accessList
  | .dynamicFee .. => .dynamicFee

def readEnvelope {ε ι : Type} (crate : RlpCrate ε ι) : TxType → (rlp : Bytes) → Except ApiError Envelope
  | .legacy,_ => .ok .legacy
  | .accessList,rlp => do
    let chainId ← decodeU64 crate rlp 0
    let accessList ← decodeBytes crate rlp 7
    return .accessList chainId accessList
  | .dynamicFee,rlp => do
    let chainId ← decodeU64 crate rlp 0
    let maxPriorityFee ← decodeU256 crate rlp 2
    let accessList ← decodeBytes crate rlp 8
    return .dynamicFee chainId maxPriorityFee accessList

def legacyChainId (v : U64) : Option U64 := if 35 ≤ v then some ((v - 35) / 2) else none

def signingBytes (tx : ParsedTxFields) : Envelope → Bytes
  | .legacy => encodeList (appendU64 tx.nonce ++ appendU256 tx.gasPrice ++ appendU64 tx.gasLimit ++ appendTo tx.toAddr ++
      appendU256 tx.value ++ encodeBytes tx.data ++
      match legacyChainId tx.v with
      | some chainId => appendU64 chainId ++ encodeBytes [] ++ encodeBytes []
      | none => [])
  | .accessList chainId accessList => 0x01::encodeList (appendU64 chainId ++ appendU64 tx.nonce ++ appendU256 tx.gasPrice ++
      appendU64 tx.gasLimit ++ appendTo tx.toAddr ++ appendU256 tx.value ++ encodeBytes tx.data ++ accessList)
  | .dynamicFee chainId maxPriorityFee accessList => 0x02::encodeList (appendU64 chainId ++ appendU64 tx.nonce ++
      appendU256 maxPriorityFee ++ appendU256 tx.gasPrice ++ appendU64 tx.gasLimit ++ appendTo tx.toAddr ++
      appendU256 tx.value ++ encodeBytes tx.data ++ accessList)

def halfN : U256 := 0x7FFFFFFFFFFFFFFFFFFFFFFFFFFFFFFF5D576E7357A4501DDFE92F46681B20A0

def recoveryId (txType : TxType) (v : U64) : Except ApiError Nat :=
  match txType with
  | .legacy =>
    if v = 27 ∨ v = 28 then .ok (v - 27).toNat
    else if 35 ≤ v then .ok ((v - 35) % 2).toNat
    else .error (.invalidParams ("Invalid v value for legacy tx: " ++ toString v.toNat))
  | .accessList | .dynamicFee =>
    if 1 < v then .error (.invalidParams ("Invalid yParity value: " ++ toString v.toNat)) else .ok v.toNat

def checkSignature (tx : ParsedTxFields) (txType : TxType) : Except ApiError Nat :=
  if tx.r = 0 ∨ tx.s = 0 then .error (.invalidParams "Invalid signature: r or s is zero")
  else if halfN < tx.s then .error (.invalidParams "Invalid signature: s value too high (EIP-2 violation)")
  else recoveryId txType tx.v

structure Secp (σ κ : Type) where
  fromCompact : Bytes → Nat → Except String σ
  recoverEcdsa : Hash → σ → Except String κ
  serializeUncompressed : κ → Bytes

def digestKeys : Secp (Bytes × Nat) Hash where
  fromCompact bytes id := .ok (bytes,id)
  recoverEcdsa digest _ := .ok digest
  serializeUncompressed key := 0x04::(wordBytes key ++ wordBytes key)

section Validation
variable {ε ι σ κ : Type} (crate : RlpCrate ε ι) (keccak : Bytes → Hash) (secp : Secp σ κ)

def addressOf (key : κ) : Address := (keccak ((secp.serializeUncompressed key).drop 1)).setWidth 160

def recoverAddress (id : Nat) (signingHash r s : Hash) : Except ApiError Address := do
  if 3 < id then .error (.invalidParams "Invalid recovery id")
  else do
    let signature ← (secp.fromCompact (wordBytes r ++ wordBytes s) id).mapError fun e =>
      .invalidParams ("Invalid signature: " ++ e)
    let key ← (secp.recoverEcdsa signingHash signature).mapError fun e =>
      .invalidParams ("Signature recovery failed: " ++ e)
    return addressOf keccak secp key

def computeSigningHash (tx : ParsedTxFields) (txType : TxType) (rlp : Bytes) : Except ApiError Hash := do
  let envelope ← readEnvelope crate txType rlp
  return keccak (signingBytes tx envelope)

def recoverSender (tx : ParsedTxFields) (txType : TxType) (rlp : Bytes) : Except ApiError Address := do
  let id ← checkSignature tx txType
  let signingHash ← computeSigningHash crate keccak tx txType rlp
  recoverAddress keccak secp id signingHash tx.r tx.s

def computeTxHash (raw : Bytes) : Hash := keccak raw

def ParsedTxFields.validated (tx : ParsedTxFields) (hash : Hash) (sender : Address) (txType : TxType) :
    ValidatedTransaction :=
  ⟨hash,sender,tx.nonce,tx.gasPrice,tx.gasLimit,tx.toAddr,tx.value,tx.data,txType⟩

def validateRawTransaction (raw : Bytes) : Except ApiError ValidatedTransaction :=
  if raw.length < minTxSize then .error (.invalidParams "Transaction too small")
  else if maxTxSize < raw.length then
    .error (.invalidParams ("Transaction size " ++ toString raw.length ++ " exceeds limit " ++ toString maxTxSize))
  else do
    let (txType,rlp) ← detectTxType raw
    let tx ← parseTx crate txType rlp
    let sender ← recoverSender crate keccak secp tx txType rlp
    return tx.validated (computeTxHash keccak raw) sender txType

end Validation

structure Contents where
  envelope : Envelope
  fields : ParsedTxFields
  deriving DecidableEq

def contents {ε ι : Type} (crate : RlpCrate ε ι) (raw : Bytes) : Except ApiError Contents := do
  let (txType,rlp) ← detectTxType raw
  let fields ← parseTx crate txType rlp
  let envelope ← readEnvelope crate txType rlp
  return ⟨envelope,fields⟩

def senderOf {σ κ : Type} (keccak : Bytes → Hash) (secp : Secp σ κ) (c : Contents) : Except ApiError Address := do
  let id ← checkSignature c.fields c.envelope.txType
  recoverAddress keccak secp id (keccak (signingBytes c.fields c.envelope)) c.fields.r c.fields.s

section Acceptance
variable {ε ι σ κ : Type} {crate : RlpCrate ε ι} {keccak : Bytes → Hash} {secp : Secp σ κ}

theorem envelopeType {txType rlp envelope} (read : readEnvelope crate txType rlp = .ok envelope) :
    envelope.txType = txType := by
  cases txType with
  | legacy =>
    cases read
    rfl
  | accessList =>
    obtain ⟨_,_,read⟩ := boundOk.mp read
    obtain ⟨_,_,read⟩ := boundOk.mp read
    cases read
    rfl
  | dynamicFee =>
    obtain ⟨_,_,read⟩ := boundOk.mp read
    obtain ⟨_,_,read⟩ := boundOk.mp read
    obtain ⟨_,_,read⟩ := boundOk.mp read
    cases read
    rfl

theorem contentsIff {raw c} : contents crate raw = .ok c ↔ ∃ rlp, detectTxType raw = .ok (c.envelope.txType,rlp) ∧
    parseTx crate c.envelope.txType rlp = .ok c.fields ∧ readEnvelope crate c.envelope.txType rlp = .ok c.envelope := by
  constructor
  · intro read
    obtain ⟨⟨txType,rlp⟩,detected,read⟩ := boundOk.mp read
    obtain ⟨fields,parsed,read⟩ := boundOk.mp read
    obtain ⟨envelope,enveloped,read⟩ := boundOk.mp read
    cases read
    have kind := envelopeType enveloped
    subst kind
    exact ⟨rlp,detected,parsed,enveloped⟩
  · rintro ⟨rlp,detected,parsed,enveloped⟩
    exact boundOk.mpr ⟨_,detected,boundOk.mpr ⟨_,parsed,boundOk.mpr ⟨_,enveloped,rfl⟩⟩⟩

theorem acceptedIff {raw tx} : validateRawTransaction crate keccak secp raw = .ok tx ↔
    minTxSize ≤ raw.length ∧ raw.length ≤ maxTxSize ∧ ∃ c sender, contents crate raw = .ok c ∧
      senderOf keccak secp c = .ok sender ∧
      tx = c.fields.validated (keccak raw) sender c.envelope.txType := by
  constructor
  · intro accepted
    unfold validateRawTransaction at accepted
    split at accepted
    · cases accepted
    · rename_i large
      split at accepted
      · cases accepted
      · rename_i small
        obtain ⟨⟨txType,rlp⟩,detected,accepted⟩ := boundOk.mp accepted
        obtain ⟨fields,parsed,accepted⟩ := boundOk.mp accepted
        obtain ⟨sender,recovering,accepted⟩ := boundOk.mp accepted
        obtain ⟨id,checked,signing⟩ := boundOk.mp recovering
        obtain ⟨hash,signed,recovered⟩ := boundOk.mp signing
        obtain ⟨envelope,enveloped,hashed⟩ := boundOk.mp signed
        cases accepted
        cases hashed
        have kind := envelopeType enveloped
        subst kind
        exact ⟨Nat.not_lt.mp large,Nat.not_lt.mp small,⟨envelope,fields⟩,sender,
          contentsIff.mpr ⟨rlp,detected,parsed,enveloped⟩,
          boundOk.mpr ⟨id,checked,recovered⟩,rfl⟩
  · rintro ⟨large,small,c,sender,read,recovered,rfl⟩
    obtain ⟨rlp,detected,parsed,enveloped⟩ := contentsIff.mp read
    obtain ⟨id,checked,recovered⟩ := boundOk.mp recovered
    unfold validateRawTransaction
    rw [if_neg (Nat.not_lt.mpr large),if_neg (Nat.not_lt.mpr small)]
    have hashed : computeSigningHash crate keccak c.fields c.envelope.txType rlp = .ok
      (keccak (signingBytes c.fields c.envelope)) :=
      boundOk.mpr ⟨c.envelope,enveloped,rfl⟩
    have sent : recoverSender crate keccak secp c.fields c.envelope.txType rlp = .ok sender :=
      boundOk.mpr ⟨_,checked,boundOk.mpr ⟨_,hashed,recovered⟩⟩
    exact boundOk.mpr ⟨_,detected,boundOk.mpr ⟨_,parsed,boundOk.mpr ⟨_,sent,rfl⟩⟩⟩

end Acceptance

def addressBytes : Option Address → Bytes
  | some address => wordBytes address
  | none => []

def typePrefix : TxType → Bytes
  | .legacy => []
  | .accessList => [0x01]
  | .dynamicFee => [0x02]

theorem detectList (txType) (items) : detectTxType (typePrefix txType ++ listOf items) = .ok (txType,listOf items) := by
  cases txType with
  | legacy =>
    obtain ⟨first,more,shape,large⟩ := headFirst 0xc0 (by decide) (items.flatMap Item.encode).length
    have typed : ¬ first < 0x7f := by
      rw [UInt8.lt_iff_toNat_lt]
      exact Nat.not_lt.mpr (Nat.le_trans (by decide) large)
    rw [listOf,encodeList,listHeaderHead,shape]
    exact if_neg typed
  | accessList => rfl
  | dynamicFee => rfl

section Places
variable {ε ι : Type} {crate : RlpCrate ε ι} {items : List Item} {i : Nat} {v : Bytes}

theorem bytesRead (decodes : crate.Decodes items) (here : items[i]? = some (.string v)) :
    decodeBytes crate (listOf items) i = .ok v := by
  obtain ⟨_,read,value,_⟩ := decodes.item i _ here
  exact mapErrorOk.mpr (boundOk.mpr ⟨_,read,value⟩)

theorem wordRead {w} (decodes : crate.Decodes items) (here : items[i]? = some (.string (minimal 8 w.toNat))) :
    decodeU64 crate (listOf items) i = .ok w := by
  obtain ⟨_,read,_,number⟩ := decodes.item i _ here
  have word := number (minimalLength 8 _) (minimalLead 8 _)
  rw [minimalNumber w.isLt,BitVec.ofNat_toNat,BitVec.setWidth_eq] at word
  exact mapErrorOk.mpr (boundOk.mpr ⟨_,read,word⟩)

theorem wideRead {kind w} (decodes : crate.Decodes items) (here : items[i]? = some (.string v))
    (short : v.length ≤ 32) (number : beNumber v = w.toNat) : decodeWide crate (listOf items) i kind = .ok w := by
  refine boundOk.mpr ⟨v,bytesRead decodes here,?_⟩
  rw [if_neg (Nat.not_lt.mpr short),beNumberPadded,number,BitVec.ofNat_toNat,BitVec.setWidth_eq]

theorem addressRead {address} (decodes : crate.Decodes items) (here : items[i]? = some (.string (addressBytes address))) :
    decodeOptionalAddress crate (listOf items) i = .ok address := by
  refine boundOk.mpr ⟨_,bytesRead decodes here,?_⟩
  cases address with
  | none => rfl
  | some address =>
    have size := wordBytesLength address
    have occupied : wordBytes address ≠ [] := List.ne_nil_of_length_pos (by omega)
    rw [addressBytes,if_neg occupied,if_pos size,beNumberWord (by decide),BitVec.ofNat_toNat,BitVec.setWidth_eq]

theorem listUnread {payload} (decodes : crate.Decodes items) (here : items[i]? = some (.list payload)) :
    ∃ e, decodeBytes crate (listOf items) i = .error (rlpError crate.debug ("field " ++ toString i) e) := by
  obtain ⟨view,read,refused⟩ := decodes.item i _ here
  unfold RlpCrate.Views at refused
  cases value : crate.asBytes view with
  | ok v =>
    rw [value] at refused
    cases refused
  | error e =>
    refine ⟨e,?_⟩
    unfold decodeBytes
    rw [boundFails read value]
    rfl

end Places

def layoutOf : TxType → Layout
  | .legacy => legacyLayout
  | .accessList => accessListLayout
  | .dynamicFee => dynamicFeeLayout

section Parsed
variable {ε ι : Type} {crate : RlpCrate ε ι}

structure Layout.Kept (crate : RlpCrate ε ι) (layout : Layout) (rlp : Bytes) (f : ParsedTxFields) : Prop where
  nonce : decodeU64 crate rlp layout.nonce = .ok f.nonce
  gasPrice : decodeU256 crate rlp layout.gasPrice = .ok f.gasPrice
  gasLimit : decodeU64 crate rlp layout.gasLimit = .ok f.gasLimit
  toAddr : decodeOptionalAddress crate rlp layout.toAddr = .ok f.toAddr
  value : decodeU256 crate rlp layout.value = .ok f.value
  data : decodeBytes crate rlp layout.data = .ok f.data
  v : decodeU64 crate rlp layout.v = .ok f.v
  r : decodeBytes32 crate rlp layout.r = .ok f.r
  s : decodeBytes32 crate rlp layout.s = .ok f.s

theorem countChecked {layout : Layout} {items} (decodes : crate.Decodes items) (count : items.length = layout.count) :
    layout.checkCount crate (listOf items) = .ok () := by
  unfold Layout.checkCount
  rw [if_pos decodes.list,decodes.count]
  exact if_pos count

-- this parser reads the price before the nonce
theorem parseDynamicIff {rlp f} : parseDynamicFeeTx crate rlp = .ok f ↔ dynamicFeeLayout.parse crate rlp = .ok f := by
  refine boundOk.trans (Iff.trans ?_ boundOk.symm)
  exact exists_congr fun _ => and_congr_right fun _ => boundSwap

theorem parsedKept {txType items f} (decodes : crate.Decodes items) (count : items.length = (layoutOf txType).count)
    (kept : (layoutOf txType).Kept crate (listOf items) f) : parseTx crate txType (listOf items) = .ok f := by
  have checked := countChecked decodes count
  have parsed : (layoutOf txType).parse crate (listOf items) = .ok f := by
    unfold Layout.parse
    rw [checked,kept.nonce,kept.gasPrice,kept.gasLimit,kept.toAddr,kept.value,kept.data,kept.v,kept.r,kept.s]
    rfl
  cases txType with
  | legacy => exact parsed
  | accessList => exact parsed
  | dynamicFee => exact parseDynamicIff.mpr parsed

end Parsed

end QuantumChain.Gateway
