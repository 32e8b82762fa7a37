import QuantumChain.MempoolPool

/-! The bytes a transaction's hash is taken over and what they tell. SHA-256 is any function;
results ask it not to collide on the two byte strings at hand, nothing more. -/
namespace QuantumChain.Mempool.SignedTransaction
open List

def recipient (toAddr : Option Address) : Bytes := (toAddr.map wordBytes).getD []

def afterRecipient (tx : SignedTransaction) : Bytes :=
  wordBytes tx.value ++ leBytes 8 tx.nonce.toNat ++ wordBytes tx.gasPrice ++ leBytes 8 tx.gasLimit.toNat ++ tx.data

def encoding (tx : SignedTransaction) : Bytes :=
  wordBytes tx.fromAddr ++ recipient tx.toAddr ++ wordBytes tx.value ++ leBytes 8 tx.nonce.toNat ++
    wordBytes tx.gasPrice ++ leBytes 8 tx.gasLimit.toNat ++ tx.data

theorem hashEncoding (sha256) (tx : SignedTransaction) : tx.hash sha256 = sha256 tx.encoding := rfl

def hashed (tx : SignedTransaction) : Address × Option Address × U256 × U64 × U256 × U64 × Bytes :=
  (tx.fromAddr,tx.toAddr,tx.value,tx.nonce,tx.gasPrice,tx.gasLimit,tx.data)

theorem recipientFirst {a b s t} (alike : a.isSome = b.isSome)
    (same : recipient a ++ s = recipient b ++ t) : a = b ∧ s = t := by
  cases a with
  | none =>
    cases b with
    | none => exact ⟨rfl,same⟩
    | some _ => cases alike
  | some addr =>
    cases b with
    | none => cases alike
    | some other =>
      change wordBytes addr ++ s = wordBytes other ++ t at same
      obtain ⟨first,rest⟩ := wordFirst (by decide) same
      exact ⟨congrArg some first,rest⟩

-- the recipient and the fields behind it, read by a transaction without recipient as its own fields
structure Shifted (a b : SignedTransaction) : Prop where
  sent : a.toAddr.isSome = true
  created : b.toAddr = none
  sender : a.fromAddr = b.fromAddr
  bytes : recipient a.toAddr ++ a.afterRecipient = b.afterRecipient

section Pair
variable {a b : SignedTransaction}

theorem encodingSplit : a.encoding = b.encoding ↔ a.fromAddr = b.fromAddr ∧
    recipient a.toAddr ++ a.afterRecipient = recipient b.toAddr ++ b.afterRecipient := by
  have split (tx : SignedTransaction) : tx.encoding = wordBytes tx.fromAddr ++
    (recipient tx.toAddr ++ tx.afterRecipient) := by
    simp only [encoding,afterRecipient,append_assoc]
  rw [split,split]
  constructor
  · exact wordFirst (by decide)
  · rintro ⟨sender,rest⟩
    rw [sender,rest]

theorem afterTells (same : a.afterRecipient = b.afterRecipient) :
    a.value = b.value ∧ a.nonce = b.nonce ∧ a.gasPrice = b.gasPrice ∧ a.gasLimit = b.gasLimit ∧ a.data = b.data := by
  simp only [afterRecipient,append_assoc] at same
  obtain ⟨value,same⟩ := wordFirst (by decide) same
  obtain ⟨nonce,same⟩ := leWordFirst (by decide) same
  obtain ⟨gasPrice,same⟩ := wordFirst (by decide) same
  obtain ⟨gasLimit,data⟩ := leWordFirst (by decide) same
  exact ⟨value,nonce,gasPrice,gasLimit,data⟩

theorem encodingAlike (alike : a.toAddr.isSome = b.toAddr.isSome) (same : a.encoding = b.encoding) : a.hashed = b.hashed := by
  obtain ⟨sender,rest⟩ := encodingSplit.mp same
  obtain ⟨recipient,rest⟩ := recipientFirst alike rest
  obtain ⟨value,nonce,gasPrice,gasLimit,data⟩ := afterTells rest
  simp only [hashed,sender,recipient,value,nonce,gasPrice,gasLimit,data]

theorem hashedEncoding (same : a.hashed = b.hashed) : a.encoding = b.encoding := by
  simp only [hashed,Prod.mk.injEq] at same
  obtain ⟨sender,recipient,value,nonce,gasPrice,gasLimit,data⟩ := same
  simp only [encoding,sender,recipient,value,nonce,gasPrice,gasLimit,data]

theorem Shifted.encoding (shifted : Shifted a b) : a.encoding = b.encoding := by
  rw [encodingSplit,shifted.created]
  exact ⟨shifted.sender,shifted.bytes⟩

theorem Shifted.apart (shifted : Shifted a b) : a.hashed ≠ b.hashed := by
  intro same
  have recipients : a.toAddr = b.toAddr := (Prod.mk.inj (Prod.mk.inj same).2).1
  have sent := shifted.sent
  rw [recipients,shifted.created] at sent
  cases sent

theorem Shifted.longer (shifted : Shifted a b) : b.data.length = a.data.length + 20 := by
  obtain ⟨addr,sent⟩ := Option.isSome_iff_exists.mp shifted.sent
  have size : (recipient a.toAddr).length = 20 := by
    rw [sent]
    exact wordBytesLength addr
  have lengths := congrArg length shifted.bytes
  simp only [afterRecipient,length_append,wordBytesLength,leBytesLength,size] at lengths
  omega

theorem encodingTells (same : a.encoding = b.encoding) : a.hashed = b.hashed ∨ Shifted a b ∨ Shifted b a := by
  obtain ⟨sender,rest⟩ := encodingSplit.mp same
  cases left : a.toAddr with
  | none =>
    cases right : b.toAddr with
    | none => exact .inl (encodingAlike (by rw [left,right]) same)
    | some other =>
      rw [left] at rest
      exact .inr (.inr ⟨by rw [right]; rfl,left,sender.symm,rest.symm⟩)
  | some addr =>
    cases right : b.toAddr with
    | none =>
      rw [right] at rest
      exact .inr (.inl ⟨by rw [left]; rfl,right,sender,rest⟩)
    | some other => exact .inl (encodingAlike (by rw [left,right]; rfl) same)

end Pair

theorem hashTells (sha256 : Bytes → Hash) (a b : SignedTransaction)
    (injective : sha256 a.encoding = sha256 b.encoding → a.encoding = b.encoding) :
    ((a.hash sha256 = b.hash sha256 ↔ a.hashed = b.hashed) ↔ ¬ Shifted a b ∧ ¬ Shifted b a) ∧
      (Shifted a b → b.data.length = a.data.length + 20) := by
  refine ⟨?_,Shifted.longer⟩
  rw [hashEncoding,hashEncoding]
  constructor
  · intro tells
    exact ⟨fun shifted => shifted.apart (tells.mp (congrArg sha256 shifted.encoding)),
      fun shifted => shifted.apart (tells.mp (congrArg sha256 shifted.encoding).symm).symm⟩
  · rintro ⟨forwards,backwards⟩
    refine ⟨fun same => ?_,fun same => congrArg sha256 (hashedEncoding same)⟩
    rcases encodingTells (injective same) with told | shifted | shifted
    · exact told
    · exact absurd shifted forwards
    · exact absurd shifted backwards

def transfer : SignedTransaction := ⟨0,some 0,0,0,0,0,[],0⟩

def creation : SignedTransaction := ⟨0,none,0,0,0,0,replicate 20 0,0⟩

def shortCreation : SignedTransaction := ⟨0,none,0,0,0,0,[1],0⟩

theorem hashTellsKinds : residue transfer.encoding ≠ residue shortCreation.encoding ∧
    (transfer.hash residue = shortCreation.hash residue ↔ transfer.hashed = shortCreation.hashed) := by
  have apart : residue transfer.encoding ≠ residue shortCreation.encoding := by decide +kernel
  have tells := (hashTells residue transfer shortCreation fun equal => absurd equal apart).1
  refine ⟨apart,tells.mpr ⟨fun shifted => absurd shifted.bytes (by decide),fun shifted => ?_⟩⟩
  cases shifted.sent

theorem recipientShifted : (∀ sha256, transfer.hash sha256 = creation.hash sha256) ∧ transfer.toAddr ≠ creation.toAddr ∧
    transfer.data ≠ creation.data := by
  have same : transfer.encoding = creation.encoding := by decide
  exact ⟨fun sha256 => congrArg sha256 same,by decide,by decide⟩

end QuantumChain.Mempool.SignedTransaction
