import QuantumChain.RawTransaction

/-! Signed EIP-2930 and EIP-1559 transactions at the gateway, in their canonical encoding: the access list is a list.
Every result is about a decoder that reads the transaction's own items by the standard rules. Other encodings of a
transaction, with the access list in a byte string, are not treated. -/
namespace QuantumChain.Gateway
open List
open State.Rlp RlpDecoder
open StepRun (boundOk boundFails)

structure AccessListItem where
  address : Address
  storageKeys : List Hash

def AccessListItem.encode (item : AccessListItem) : Bytes :=
  encodeList (encodeBytes (wordBytes item.address) ++
    encodeList (item.storageKeys.flatMap fun key => encodeBytes (wordBytes key)))

inductive Fee
  | accessList (gasPrice : U256)
  | dynamicFee (maxPriorityFee maxFee : U256)

namespace Fee

def txType : Fee → TxType
  | .accessList _ => .accessList
  | .dynamicFee .. => .dynamicFee

def strings : Fee → List Bytes
  | .accessList gasPrice => [minimal 32 gasPrice.toNat]
  | .dynamicFee maxPriorityFee maxFee => [minimal 32 maxPriorityFee.toNat,minimal 32 maxFee.toNat]

def price : Fee → U256
  | .accessList gasPrice => gasPrice
  | .dynamicFee _ maxFee => maxFee

def listPlace : Fee → Nat
  | .accessList _ => 7
  | .dynamicFee .. => 8

end Fee

structure TypedTransaction where
  chainId : U256
  nonce : U256
  fee : Fee
  gasLimit : U256
  toAddr : Option Address
  value : U256
  data : Bytes
  accessList : List AccessListItem
  yParity : Bool
  r : Hash
  s : Hash

namespace TypedTransaction

variable (tx : TypedTransaction)

def front : List Bytes :=
  [minimal 32 tx.chainId.toNat,minimal 32 tx.nonce.toNat] ++ tx.fee.strings ++
    [minimal 32 tx.gasLimit.toNat,addressBytes tx.toAddr,minimal 32 tx.value.toNat,tx.data]

def signature : List Bytes :=
  [minimal 8 tx.yParity.toNat,minimal 32 tx.r.toNat,minimal 32 tx.s.toNat]

def accessPayload : Bytes := tx.accessList.flatMap AccessListItem.encode

def items : List Item :=
  tx.front.map .string ++ .list tx.accessPayload::tx.signature.map .string

def signingPayload : Bytes :=
  typePrefix tx.fee.txType ++ listOf (tx.front.map .string ++ [.list tx.accessPayload])

def canonical : Bytes := typePrefix tx.fee.txType ++ listOf tx.items

def Narrow : Prop := tx.chainId.toNat < 2^64 ∧ tx.nonce.toNat < 2^64 ∧ tx.gasLimit.toNat < 2^64

def fields : ParsedTxFields where
  nonce := tx.nonce.setWidth 64
  gasPrice := tx.fee.price
  gasLimit := tx.gasLimit.setWidth 64
  toAddr := tx.toAddr
  value := tx.value
  data := tx.data
  v := BitVec.ofNat 64 tx.yParity.toNat
  r := tx.r
  s := tx.s

structure SignedBy {σ κ : Type} (keccak : Bytes → Hash) (secp : Secp σ κ) (tx : TypedTransaction) (key : κ) : Prop where
  real : tx.r ≠ 0 ∧ tx.s ≠ 0
  low : tx.s ≤ halfN
  recovers : ∃ signature, secp.fromCompact (wordBytes tx.r ++ wordBytes tx.s) tx.yParity.toNat = .ok signature ∧
    secp.recoverEcdsa (keccak tx.signingPayload) signature = .ok key

theorem minimalNarrow {n : U256} (narrow : n.toNat < 2^64) : minimal 32 n.toNat = minimal 8 (n.setWidth 64).toNat := by
  have number := @minimalNumber 8 n.toNat narrow
  have same := @minimalUnique 32 (minimal 8 n.toNat) (Nat.le_trans (minimalLength 8 _) (by decide)) (minimalLead 8 _)
  rw [number] at same
  rw [same,BitVec.toNat_setWidth,Nat.mod_eq_of_lt narrow]

theorem parityWord (parity : Bool) : (BitVec.ofNat 64 parity.toNat).toNat = parity.toNat := by cases parity <;> rfl

section Outcome
variable {ε ι σ κ : Type} {crate : RlpCrate ε ι} {keccak : Bytes → Hash} {secp : Secp σ κ} {tx : TypedTransaction} {key : κ}

theorem SignedBy.checked (signed : tx.SignedBy keccak secp key) : checkSignature tx.fields tx.fee.txType =
    .ok tx.yParity.toNat := by
  have zero : ¬ (tx.fields.r = 0 ∨ tx.fields.s = 0) := not_or.mpr signed.real
  have low : ¬ halfN < tx.fields.s := BitVec.not_lt.mpr signed.low
  have parity : tx.fields.v = BitVec.ofNat 64 tx.yParity.toNat := rfl
  unfold checkSignature recoveryId
  rw [if_neg zero,if_neg low,parity]
  cases tx.fee <;> cases tx.yParity <;> rfl

theorem itemsCount (tx : TypedTransaction) : tx.items.length = (layoutOf tx.fee.txType).count := by
  unfold items front
  cases tx.fee <;> rfl

theorem itemsList (tx : TypedTransaction) : tx.items[tx.fee.listPlace]? = some (.list tx.accessPayload) := by
  unfold items front
  cases tx.fee <;> rfl

theorem envelopeList {rlp envelope} (read : readEnvelope crate tx.fee.txType rlp = .ok envelope) :
    ∃ v, decodeBytes crate rlp tx.fee.listPlace = .ok v := by
  cases fee : tx.fee with
  | accessList gasPrice =>
    rw [fee] at read
    obtain ⟨_,_,read⟩ := boundOk.mp read
    obtain ⟨v,list,_⟩ := boundOk.mp read
    exact ⟨v,list⟩
  | dynamicFee maxPriorityFee maxFee =>
    rw [fee] at read
    obtain ⟨_,_,read⟩ := boundOk.mp read
    obtain ⟨_,_,read⟩ := boundOk.mp read
    obtain ⟨v,list,_⟩ := boundOk.mp read
    exact ⟨v,list⟩

theorem canonicalRefused (keccak) (secp : Secp σ κ) (decodes : crate.Decodes tx.items) :
    ∃ e, validateRawTransaction crate keccak secp tx.canonical = .error e := by
  cases outcome : validateRawTransaction crate keccak secp tx.canonical with
  | error e => exact ⟨e,rfl⟩
  | ok answer =>
    obtain ⟨_,_,c,_,read,_,_⟩ := acceptedIff.mp outcome
    obtain ⟨rlp,detected,_,enveloped⟩ := contentsIff.mp read
    obtain ⟨kind,rfl⟩ := Prod.mk.inj (Except.ok.inj ((detectList tx.fee.txType tx.items).symm.trans detected))
    rw [← kind] at enveloped
    obtain ⟨v,decoded⟩ := envelopeList enveloped
    obtain ⟨e,refused⟩ := listUnread decodes (itemsList tx)
    cases decoded.symm.trans refused

section Read
variable {i : Nat} {n : U256}

theorem narrowRead (decodes : crate.Decodes tx.items) (small : n.toNat < 2^64)
    (here : tx.items[i]? = some (.string (minimal 32 n.toNat))) : decodeU64 crate (listOf tx.items) i = .ok (n.setWidth 64) :=
  wordRead decodes (minimalNarrow small ▸ here)

theorem numberRead {kind} (decodes : crate.Decodes tx.items) (here : tx.items[i]? = some (.string (minimal 32 n.toNat))) :
    decodeWide crate (listOf tx.items) i kind = .ok n := wideRead decodes here (minimalLength 32 _) (minimalNumber n.isLt)

theorem parityRead (decodes : crate.Decodes tx.items) (here : tx.items[i]? = some (.string (minimal 8 tx.yParity.toNat))) :
    decodeU64 crate (listOf tx.items) i = .ok tx.fields.v := by
  have word : tx.fields.v.toNat = tx.yParity.toNat := parityWord _
  exact wordRead decodes (word ▸ here)

end Read

theorem fieldsRead (decodes : crate.Decodes tx.items) (narrow : tx.Narrow) :
    (layoutOf tx.fee.txType).Kept crate (listOf tx.items) tx.fields := by
  obtain ⟨_,nonce,gasLimit⟩ := narrow
  obtain ⟨chainId,n,fee,limit,toAddr,value,data,accessList,yParity,r,s⟩ := tx
  cases fee <;> exact ⟨narrowRead decodes nonce rfl,numberRead decodes rfl,narrowRead decodes gasLimit rfl,
    addressRead decodes rfl,numberRead decodes rfl,bytesRead decodes rfl,parityRead decodes rfl,numberRead decodes rfl,
    numberRead decodes rfl⟩

theorem envelopeRefused (decodes : crate.Decodes tx.items) (narrow : tx.Narrow) : ∃ e,
    readEnvelope crate tx.fee.txType (listOf tx.items) =
      .error (rlpError crate.debug ("field " ++ toString tx.fee.listPlace) e) := by
  obtain ⟨e,list⟩ := listUnread decodes (itemsList tx)
  obtain ⟨chain,_,_⟩ := narrow
  obtain ⟨chainId,n,fee,limit,toAddr,value,data,accessList,yParity,r,s⟩ := tx
  refine ⟨e,?_⟩
  cases fee with
  | accessList gasPrice =>
    refine boundFails (narrowRead decodes chain rfl) ?_
    rw [show decodeBytes crate _ 7 = _ from list]
    rfl
  | dynamicFee maxPriorityFee maxFee =>
    refine boundFails (narrowRead decodes chain rfl) (boundFails (numberRead decodes rfl) ?_)
    rw [show decodeBytes crate _ 8 = _ from list]
    rfl

theorem canonicalError (signed : tx.SignedBy keccak secp key) (decodes : crate.Decodes tx.items) (narrow : tx.Narrow)
    (large : minTxSize ≤ tx.canonical.length) (small : tx.canonical.length ≤ maxTxSize) :
    ∃ e, validateRawTransaction crate keccak secp tx.canonical =
      .error (rlpError crate.debug ("field " ++ toString tx.fee.listPlace) e) := by
  have parsed := parsedKept decodes (itemsCount tx) (fieldsRead decodes narrow)
  obtain ⟨e,enveloped⟩ := envelopeRefused decodes narrow
  have recovered : recoverSender crate keccak secp tx.fields tx.fee.txType (listOf tx.items) =
      .error (rlpError crate.debug ("field " ++ toString tx.fee.listPlace) e) := by
    refine boundFails signed.checked ?_
    unfold computeSigningHash
    rw [enveloped]
    rfl
  refine ⟨e,?_⟩
  unfold validateRawTransaction
  rw [if_neg (Nat.not_lt.mpr large),if_neg (Nat.not_lt.mpr small)]
  refine boundFails (detectList tx.fee.txType tx.items) (boundFails parsed ?_)
  rw [recovered]
  rfl

theorem typedOutcome (signed : tx.SignedBy keccak secp key) (decodes : crate.Decodes tx.items) :
    (∃ e, validateRawTransaction crate keccak secp tx.canonical = .error e) ∧
      (tx.Narrow → minTxSize ≤ tx.canonical.length → tx.canonical.length ≤ maxTxSize →
        ∃ e, validateRawTransaction crate keccak secp tx.canonical =
          .error (rlpError crate.debug ("field " ++ toString tx.fee.listPlace) e)) :=
  ⟨canonicalRefused keccak secp decodes,canonicalError signed decodes⟩

end Outcome

def transfer (fee : Fee) : TypedTransaction where
  chainId := 1
  nonce := 7
  fee := fee
  gasLimit := 21000
  toAddr := some 9
  value := 5
  data := []
  accessList := []
  yParity := false
  r := 2^255
  s := 2^254

theorem transferSigned (fee) :
    (transfer fee).SignedBy residue digestKeys (residue (transfer fee).signingPayload) where
  real := ⟨(by decide +kernel : (2^255 : Hash) ≠ 0),(by decide +kernel : (2^254 : Hash) ≠ 0)⟩
  low := (by decide +kernel : (2^254 : U256) ≤ halfN)
  recovers := ⟨_,rfl,rfl⟩

theorem typedTransferOutcome : ∃ e, validateRawTransaction crate residue digestKeys (transfer (.accessList 30)).canonical =
    .error (rlpError DecoderError.debug "field 7" e) :=
  (typedOutcome (transferSigned (.accessList 30)) (by decide +kernel)).2 (by unfold Narrow; decide +kernel)
    (by decide +kernel)
    (by decide +kernel)

def TransferRefused (fee : Fee) : Prop :=
  (transfer fee).SignedBy residue digestKeys (residue (transfer fee).signingPayload) ∧
    crate.Decodes (transfer fee).items ∧
    minTxSize ≤ (transfer fee).canonical.length ∧ (transfer fee).canonical.length ≤ maxTxSize ∧
    validateRawTransaction crate residue digestKeys (transfer fee).canonical =
      .error (rlpError DecoderError.debug ("field " ++ toString fee.listPlace) .rlpExpectedToBeData)

theorem transfersRefused : TransferRefused (.accessList 30) ∧ TransferRefused (.dynamicFee 2 30) := by
  refine ⟨⟨transferSigned _,?_⟩,⟨transferSigned _,?_⟩⟩ <;> decide +kernel

end TypedTransaction
end QuantumChain.Gateway
