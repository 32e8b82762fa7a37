import QuantumChain.RawTransaction
import QuantumChain.IndexingProofs

/-! One transaction, many raw strings. A 256-bit number may be spelled with zeros in front, so one transaction has
several accepted strings, and its hash is taken over the string. Shown for decoders that read the spelled items by the
standard rules; what a decoder does with bytes behind the list is left open. -/
namespace QuantumChain.Gateway
open List
open State.Rlp RlpDecoder
open StepRun (boundOk)
open Indexing (NoCollision)

inductive Part
  | plain (bytes : Bytes)
  | wide (number : U256)

namespace Part

def word (w : U64) : Part := .plain (minimal 8 w.toNat)

def canonical : Part → Bytes
  | .plain bytes => bytes
  | .wide number => minimal 32 number.toNat

def Spelled : Part → Bytes → Prop
  | .plain bytes,v => v = bytes
  | .wide number,v => v.length ≤ 32 ∧ beNumber v = number.toNat

def isWide : Part → Bool
  | .plain _ => false
  | .wide _ => true

theorem Spelled.trimmed {p : Part} {v} (spelled : p.Spelled v) (lead : p.isWide = true → v.head? ≠ some 0) :
    v = p.canonical := by
  cases p with
  | plain bytes => exact spelled
  | wide number =>
    obtain ⟨short,value⟩ := spelled
    rw [canonical,← value,minimalUnique short (lead rfl)]

end Part

namespace Contents

def parts (c : Contents) : List Part :=
  let f := c.fields
  match c.envelope with
  | .legacy => [.word f.nonce,.wide f.gasPrice,.word f.gasLimit,.plain (addressBytes f.toAddr),.wide f.value,.plain f.data,
      .word f.v,.wide f.r,.wide f.s]
  | .accessList chainId accessList => [.word chainId,.word f.nonce,.wide f.gasPrice,.word f.gasLimit,
      .plain (addressBytes f.toAddr),.wide f.value,.plain f.data,.plain accessList,.word f.v,.wide f.r,.wide f.s]
  | .dynamicFee chainId maxPriorityFee accessList => [.word chainId,.word f.nonce,.wide maxPriorityFee,.wide f.gasPrice,
      .word f.gasLimit,.plain (addressBytes f.toAddr),.wide f.value,.plain f.data,.plain accessList,.word f.v,.wide
        f.r,.wide f.s]

def spell (c : Contents) (values : List Bytes) : Bytes := typePrefix c.envelope.txType ++ listOf (values.map .string)

def encode (c : Contents) : Bytes := c.spell (c.parts.map Part.canonical)

end Contents

def Part.Strict (p : Part) (v : Bytes) : Prop := p.Spelled v ∧ (p.isWide = true → v.head? ≠ some 0)

theorem strictCanonical {parts values} (strict : Forall₂ Part.Strict parts values) : values = parts.map Part.canonical := by
  induction strict with
  | nil => rfl
  | cons first _ ih => rw [map_cons,first.1.trimmed first.2,ih]

theorem partsCount (c : Contents) : c.parts.length = (layoutOf c.envelope.txType).count := by
  obtain ⟨envelope,f⟩ := c
  cases envelope <;> rfl

section Spelled
variable {ε ι : Type} {crate : RlpCrate ε ι} {c : Contents} {values : List Bytes} {i : Nat}

theorem spelledAt (spelled : Forall₂ Part.Spelled c.parts values) {p} (here : c.parts[i]? = some p) :
    ∃ v, (values.map Item.string)[i]? = some (.string v) ∧ p.Spelled v := by
  obtain ⟨inside,rfl⟩ := List.getElem?_eq_some_iff.mp here
  have inside' := spelled.length_eq ▸ inside
  refine ⟨values[i],by rw [getElem?_map,List.getElem?_eq_getElem inside']; rfl,?_⟩
  exact spelled.get inside inside'

theorem spelledPlain (spelled : Forall₂ Part.Spelled c.parts values) {bytes} (here : c.parts[i]? = some (.plain bytes)) :
    (values.map Item.string)[i]? = some (.string bytes) := by
  obtain ⟨_,read,rfl⟩ := spelledAt spelled here
  exact read

theorem spelledWide (decodes : crate.Decodes (values.map .string)) (spelled : Forall₂ Part.Spelled c.parts values) {w kind}
    (here : c.parts[i]? = some (.wide w)) : decodeWide crate (listOf (values.map .string)) i kind = .ok w := by
  obtain ⟨_,read,short,number⟩ := spelledAt spelled here
  exact wideRead decodes read short number

theorem spelledWord (decodes : crate.Decodes (values.map .string)) (spelled : Forall₂ Part.Spelled c.parts values) {w}
    (here : c.parts[i]? = some (.word w)) : decodeU64 crate (listOf (values.map .string)) i = .ok w :=
  wordRead decodes (spelledPlain spelled here)

theorem spelledBytes (decodes : crate.Decodes (values.map .string)) (spelled : Forall₂ Part.Spelled c.parts values)
    {bytes} (here : c.parts[i]? = some (.plain bytes)) : decodeBytes crate (listOf (values.map .string)) i = .ok bytes :=
  bytesRead decodes (spelledPlain spelled here)

theorem spelledKept (decodes : crate.Decodes (values.map .string)) (spelled : Forall₂ Part.Spelled c.parts values) :
    (layoutOf c.envelope.txType).Kept crate (listOf (values.map .string)) c.fields := by
  obtain ⟨envelope,f⟩ := c
  cases envelope <;> exact {
    nonce := spelledWord decodes spelled rfl
    gasPrice := spelledWide decodes spelled rfl
    gasLimit := spelledWord decodes spelled rfl
    toAddr := addressRead decodes (spelledPlain spelled rfl)
    value := spelledWide decodes spelled rfl
    data := spelledBytes decodes spelled rfl
    v := spelledWord decodes spelled rfl
    r := spelledWide decodes spelled rfl
    s := spelledWide decodes spelled rfl}

theorem spelledEnvelope (decodes : crate.Decodes (values.map .string)) (spelled : Forall₂ Part.Spelled c.parts values) :
    readEnvelope crate c.envelope.txType (listOf (values.map .string)) = .ok c.envelope := by
  obtain ⟨envelope,f⟩ := c
  cases envelope with
  | legacy => rfl
  | accessList chainId accessList =>
    exact boundOk.mpr ⟨_,spelledWord decodes spelled rfl,boundOk.mpr ⟨_,spelledBytes decodes spelled rfl,rfl⟩⟩
  | dynamicFee chainId maxPriorityFee accessList =>
    exact boundOk.mpr ⟨_,spelledWord decodes spelled rfl,boundOk.mpr ⟨_,spelledWide decodes spelled rfl,
      boundOk.mpr ⟨_,spelledBytes decodes spelled rfl,rfl⟩⟩⟩

theorem spelledContents (decodes : crate.Decodes (values.map .string)) (spelled : Forall₂ Part.Spelled c.parts values) :
    contents crate (c.spell values) = .ok c := by
  have count : (values.map Item.string).length = (layoutOf c.envelope.txType).count := by
    rw [length_map,← spelled.length_eq,partsCount]
  exact contentsIff.mpr ⟨_,detectList _ _,parsedKept decodes count (spelledKept decodes spelled),
    spelledEnvelope decodes spelled⟩

end Spelled

section Hashes
variable {ε ι σ κ : Type} {crate : RlpCrate ε ι} {keccak : Bytes → Hash} {secp : Secp σ κ}

theorem acceptedHash {raw tx} (accepted : validateRawTransaction crate keccak secp raw = .ok tx) :
    tx.hash = keccak raw := by
  obtain ⟨_,_,_,_,_,_,rfl⟩ := acceptedIff.mp accepted
  rfl

theorem acceptedAlso {raw raw' tx c} (accepted : validateRawTransaction crate keccak secp raw = .ok tx)
    (read : contents crate raw = .ok c) (read' : contents crate raw' = .ok c) (large : minTxSize ≤ raw'.length)
    (small : raw'.length ≤ maxTxSize) :
    validateRawTransaction crate keccak secp raw' = .ok {tx with hash := keccak raw'} := by
  obtain ⟨_,_,_,sender,again,recovered,rfl⟩ := acceptedIff.mp accepted
  cases again.symm.trans read
  exact acceptedIff.mpr ⟨large,small,c,sender,read',recovered,rfl⟩

theorem acceptedSame {raw raw' tx tx' c} (accepted : validateRawTransaction crate keccak secp raw = .ok tx)
    (accepted' : validateRawTransaction crate keccak secp raw' = .ok tx') (read : contents crate raw = .ok c)
    (read' : contents crate raw' = .ok c) : tx' = {tx with hash := keccak raw'} := by
  obtain ⟨large,small,_⟩ := acceptedIff.mp accepted'
  exact Except.ok.inj (accepted'.symm.trans (acceptedAlso accepted read read' large small))

theorem strictUnmalleable {raw raw' : Bytes} {tx tx' : ValidatedTransaction} {c : Contents}
    (accepted : validateRawTransaction crate keccak secp raw = .ok tx)
    (accepted' : validateRawTransaction crate keccak secp raw' = .ok tx')
    (read : contents crate raw = .ok c) (read' : contents crate raw' = .ok c) (apart : NoCollision keccak [raw,raw']) :
    (tx.hash = tx'.hash ↔ raw = raw') ∧ tx' = {tx with hash := keccak raw'} ∧
      (∀ values values', Forall₂ Part.Strict c.parts values → Forall₂ Part.Strict c.parts values' → raw = c.spell values →
        raw' = c.spell values' → tx.hash = tx'.hash) ∧
      (∀ values, Forall₂ Part.Spelled c.parts values → crate.Decodes (values.map .string) →
        minTxSize ≤ (c.spell values).length → (c.spell values).length ≤ maxTxSize → contents crate (c.spell values) = .ok c ∧
          validateRawTransaction crate keccak secp (c.spell values) = .ok {tx with hash := keccak (c.spell values)}) := by
  have hashes : tx.hash = tx'.hash ↔ raw = raw' := by
    rw [acceptedHash accepted,acceptedHash accepted']
    exact ⟨apart raw mem_cons_self raw' (mem_cons_of_mem _ mem_cons_self),congrArg keccak⟩
  refine ⟨hashes,acceptedSame accepted accepted' read read',fun values values' strict strict' spells spells' =>
    hashes.mpr ?_,fun values spelled decodes large small => ?_⟩
  · rw [spells,spells',strictCanonical strict,strictCanonical strict']
  · have reads := spelledContents decodes spelled
    exact ⟨reads,acceptedAlso accepted read reads large small⟩

end Hashes

def sample : Contents where
  envelope := .legacy
  fields := {
    nonce := 1
    gasPrice := 128
    gasLimit := 21000
    toAddr := some 9
    value := 5
    data := []
    v := 27
    r := 2^255
    s := 2^254}

def zeroLedValues : List Bytes :=
  [[1],[0,128],[82,8],wordBytes (9 : Address),[5],[],[27],wordBytes (2^255 : Hash),wordBytes (2^254 : Hash)]

def zeroLed : Bytes := sample.spell zeroLedValues

def sampleAs (raw : Bytes) : ValidatedTransaction :=
  sample.fields.validated (residue raw) (addressOf residue digestKeys (residue (signingBytes sample.fields .legacy)))
    .legacy

instance : (p : Part) → (v : Bytes) → Decidable (p.Spelled v)
  | .plain bytes,v => inferInstanceAs (Decidable (v = bytes))
  | .wide number,v => inferInstanceAs (Decidable (v.length ≤ 32 ∧ beNumber v = number.toNat))

theorem strictUnmalleableSample : (sampleAs sample.encode).hash ≠ (sampleAs zeroLed).hash ∧
    contents crate zeroLed = .ok sample ∧ validateRawTransaction crate residue digestKeys zeroLed =
      .ok {sampleAs sample.encode with hash := residue zeroLed} := by
  obtain ⟨hashes,_,_,spelled⟩ := @strictUnmalleable _ _ _ _ crate residue digestKeys sample.encode zeroLed
    (sampleAs sample.encode) (sampleAs zeroLed) sample (by decide +kernel) (by decide +kernel) (by decide +kernel)
    (by decide +kernel) (by decide +kernel)
  have different : sample.encode ≠ zeroLed := by decide +kernel
  exact ⟨fun same => different (hashes.mp same),spelled zeroLedValues (by decide +kernel) (by decide +kernel)
    (by decide +kernel) (by decide +kernel)⟩

theorem hashMalleable : (∀ raw ∈ [sample.encode,zeroLed],
      validateRawTransaction crate residue digestKeys raw = .ok (sampleAs raw) ∧ contents crate raw = .ok sample) ∧
    NoCollision residue [sample.encode,zeroLed] ∧ (sampleAs sample.encode).hash ≠ (sampleAs zeroLed).hash := by
  decide +kernel

end QuantumChain.Gateway
