import QuantumChain.ByteCursor

/-! The snapshot of the mempool.
Only its bytes are treated: putting them back into a pool is not. -/
namespace QuantumChain.Mempool
open List BitVec
open ByteCursor (Reader Reads andRead done repeated bytesAt wordAt leNumberAt readsThen readsLast readsDone readsBytes
  readsWord readsLe readsFramed readsRepeated)

structure PersistedTransaction where
  hash : Hash
  sender : Address
  nonce : U64
  gasPrice : U256
  gasLimit : U64
  rawData : Bytes
  firstSeen : U64
  savedAtHeight : U64
  deriving DecidableEq, Repr

inductive IoError where
  | unexpectedEof
  | invalidData (message : String)
  deriving DecidableEq, Repr

structure MempoolPersistence where
  maxReorgDepth : U64
  deriving DecidableEq, Repr

def mempoolMagic : Bytes := [0x51,0x43,0x4d,0x50,0x4f,0x4f,0x4c,0x01]

def u256ToBytes (value : U256) : Bytes :=
  leBytes 16 (value.setWidth 128).toNat ++ leBytes 16 ((value >>> 128).setWidth 128).toNat

def bytesToU256 (bytes : Bytes) : U256 :=
  let low := leNumber (bytes.take 16)
  let high := leNumber ((bytes.drop 16).take 16)
  BitVec.ofNat 256 low + BitVec.ofNat 256 high <<< 128

namespace MempoolPersistence

def new : MempoolPersistence := ⟨100⟩

def writeTx (tx : PersistedTransaction) : Bytes :=
  wordBytes tx.hash ++ (wordBytes tx.sender ++ (leBytes 8 tx.nonce.toNat ++ (u256ToBytes tx.gasPrice ++
    (leBytes 8 tx.gasLimit.toNat ++ (leBytes 8 tx.firstSeen.toNat ++ (leBytes 8 tx.savedAtHeight.toNat ++
      (leBytes 4 (tx.rawData.length % 2^32) ++ tx.rawData)))))))

def serialize (transactions : List PersistedTransaction) (currentHeight : U64) : Bytes :=
  mempoolMagic ++ (leBytes 8 currentHeight.toNat ++ (leBytes 8 (transactions.length % 2^64) ++ transactions.flatMap writeTx))

def readTx (data : Bytes) : Reader IoError (Option PersistedTransaction) :=
  andRead (wordAt .unexpectedEof data 256) fun hash =>
  andRead (wordAt .unexpectedEof data 160) fun sender =>
  andRead (leNumberAt .unexpectedEof data 8) fun nonce =>
  andRead (bytesAt .unexpectedEof data 32) fun gasPrice =>
  andRead (leNumberAt .unexpectedEof data 8) fun gasLimit =>
  andRead (leNumberAt .unexpectedEof data 8) fun firstSeen =>
  andRead (leNumberAt .unexpectedEof data 8) fun savedAtHeight =>
  andRead (andRead (leNumberAt .unexpectedEof data 4) (bytesAt .unexpectedEof data)) fun rawData =>
  done (some ⟨hash,sender,BitVec.ofNat 64 nonce,bytesToU256 gasPrice,BitVec.ofNat 64 gasLimit,rawData,
    BitVec.ofNat 64 firstSeen,BitVec.ofNat 64 savedAtHeight⟩)

def readTransactions (data : Bytes) : Reader IoError (List PersistedTransaction) :=
  andRead (leNumberAt .unexpectedEof data 8) fun count =>
  repeated (readTx data) (fun transactions tx => transactions ++ tx.toList) count []

def readSnapshot (p : MempoolPersistence) (data : Bytes) (currentHeight : U64) : Reader IoError (List PersistedTransaction) :=
  andRead (bytesAt .unexpectedEof data 8) fun magic =>
  if magic ≠ mempoolMagic then fun _ => .error (.invalidData "Invalid magic")
  else
    andRead (leNumberAt .unexpectedEof data 8) fun savedHeight =>
    if p.maxReorgDepth.toNat < currentHeight.toNat - savedHeight then done []
    else readTransactions data

def deserialize (p : MempoolPersistence) (data : Bytes) (currentHeight : U64) : Except IoError (List PersistedTransaction) :=
  (p.readSnapshot data currentHeight 0).map Prod.fst

end MempoolPersistence

theorem u256BytesLength (value) : (u256ToBytes value).length = 32 := by
  rw [u256ToBytes,length_append,leBytesLength,leBytesLength]

theorem bytesU256 (value) : bytesToU256 (u256ToBytes value) = value := by
  have low : (u256ToBytes value).take 16 = leBytes 16 (value.setWidth 128).toNat :=
    take_left' (leBytesLength _ _)
  have high : ((u256ToBytes value).drop 16).take 16 = leBytes 16 ((value >>> 128).setWidth 128).toNat := by
    rw [u256ToBytes,drop_left' (leBytesLength _ _)]
    exact take_of_length_le (Nat.le_of_eq (leBytesLength _ _))
  rw [bytesToU256,low,high,leNumberWhole (value.setWidth 128).isLt,leNumberWhole ((value >>> 128).setWidth 128).isLt]
  apply eq_of_toNat_eq
  have bound := value.isLt
  simp only [toNat_add,toNat_ofNat,toNat_shiftLeft,toNat_setWidth,toNat_ushiftRight,
    Nat.shiftLeft_eq,Nat.shiftRight_eq_div_pow]
  omega

namespace MempoolPersistence
variable {data : Bytes}

theorem readsTx {tx} (short : tx.rawData.length < 2^32) :
    Reads data (readTx data) (writeTx tx) (some tx) := by
  obtain ⟨hash,sender,nonce,gasPrice,gasLimit,rawData,firstSeen,savedAtHeight⟩ := tx
  have price : Reads data (bytesAt IoError.unexpectedEof data 32) (u256ToBytes gasPrice) (u256ToBytes gasPrice) := by
    have read : Reads data (bytesAt IoError.unexpectedEof data (u256ToBytes gasPrice).length) _ _ :=
      readsBytes (ne_nil_of_length_pos (by rw [u256BytesLength]; decide))
    rwa [u256BytesLength] at read
  have payload : Reads data (andRead (leNumberAt IoError.unexpectedEof data 4) (bytesAt .unexpectedEof data))
      (leBytes 4 (rawData.length % 2^32) ++ rawData) rawData := by
    rw [Nat.mod_eq_of_lt short]
    exact readsFramed (by decide) short
  have read : Reads data (readTx data) (writeTx ⟨hash,sender,nonce,gasPrice,gasLimit,rawData,firstSeen,savedAtHeight⟩)
      (some ⟨hash,sender,BitVec.ofNat 64 nonce.toNat,bytesToU256 (u256ToBytes gasPrice),BitVec.ofNat 64 gasLimit.toNat,
        rawData,
        BitVec.ofNat 64 firstSeen.toNat,BitVec.ofNat 64 savedAtHeight.toNat⟩) :=
    readsThen (readsWord (by decide) (by decide) hash) <|
    readsThen (readsWord (by decide) (by decide) sender) <|
    readsThen (readsLe (by decide) nonce.isLt) <|
    readsThen price <|
    readsThen (readsLe (by decide) gasLimit.isLt) <|
    readsThen (readsLe (by decide) firstSeen.isLt) <|
    readsThen (readsLe (by decide) savedAtHeight.isLt) <|
    readsLast payload
  simpa only [bytesU256,ofNat_toNat,setWidth_eq] using read

theorem collected (transactions earlier : List PersistedTransaction) :
    (transactions.map some).foldl (fun transactions tx => transactions ++ tx.toList) earlier = earlier ++ transactions := by
  induction transactions generalizing earlier with
  | nil => rw [map_nil,foldl_nil,append_nil]
  | cons tx rest ih =>
    rw [List.map_cons,List.foldl_cons,ih,Option.toList_some,List.append_assoc]
    rfl

theorem readsTransactions {transactions : List PersistedTransaction} (few : transactions.length < 2^64)
    (short : ∀ tx ∈ transactions, tx.rawData.length < 2^32) :
    Reads data (readTransactions data) (leBytes 8 (transactions.length % 2^64) ++ transactions.flatMap writeTx)
      transactions := by
  have each : ∀ tx ∈ transactions.map some, Reads data (readTx data) (tx.elim [] writeTx) tx := by
    intro tx mem
    obtain ⟨own,held,rfl⟩ := mem_map.mp mem
    exact readsTx (short own held)
  have loop := readsRepeated each (fun transactions tx => transactions ++ tx.toList) []
  rw [collected,nil_append,length_map,flatMap_map] at loop
  rw [Nat.mod_eq_of_lt few]
  exact readsThen (readsLe (by decide) few) loop

section Snapshot
variable (p : MempoolPersistence) {savedHeight currentHeight : U64}

theorem readsMagic : Reads data (bytesAt IoError.unexpectedEof data 8) mempoolMagic mempoolMagic :=
  readsBytes (by decide)

theorem readsSnapshot {transactions} (few : transactions.length < 2^64)
    (short : ∀ tx ∈ transactions, tx.rawData.length < 2^32)
    (near : currentHeight.toNat - savedHeight.toNat ≤ p.maxReorgDepth.toNat) :
    Reads data (p.readSnapshot data currentHeight) (serialize transactions savedHeight) transactions := by
  refine readsThen readsMagic ?_
  rw [if_neg (not_not.mpr rfl)]
  refine readsThen (readsLe (by decide) savedHeight.isLt) ?_
  rw [if_neg (Nat.not_lt.mpr near)]
  exact readsTransactions few short

theorem readsDistant (far : p.maxReorgDepth.toNat < currentHeight.toNat - savedHeight.toNat) :
    Reads data (p.readSnapshot data currentHeight) (mempoolMagic ++ leBytes 8 savedHeight.toNat) [] := by
  refine readsThen readsMagic ?_
  rw [if_neg (not_not.mpr rfl),← append_nil (leBytes 8 savedHeight.toNat)]
  refine readsThen (readsLe (by decide) savedHeight.isLt) ?_
  rw [if_pos far]
  exact readsDone []

theorem deserializeReads {code rest transactions}
    (read : Reads (code ++ rest) (p.readSnapshot (code ++ rest) currentHeight) code transactions) :
    p.deserialize (code ++ rest) currentHeight = .ok transactions := by
  obtain ⟨later,whole,_⟩ := read 0 rest rfl
  rw [deserialize,whole]
  rfl

end Snapshot

theorem snapshotRoundTrip (p : MempoolPersistence) (transactions : List PersistedTransaction)
    (savedHeight currentHeight : U64)
    (few : transactions.length < 2^64) (short : ∀ tx ∈ transactions, tx.rawData.length < 2^32) :
    (currentHeight.toNat - savedHeight.toNat ≤ p.maxReorgDepth.toNat →
      p.deserialize (serialize transactions savedHeight) currentHeight = .ok transactions) ∧
    (p.maxReorgDepth.toNat < currentHeight.toNat - savedHeight.toNat →
      p.deserialize (serialize transactions savedHeight) currentHeight = .ok []) := by
  constructor
  · intro near
    have read : p.deserialize (serialize transactions savedHeight ++ []) currentHeight = .ok transactions :=
      p.deserializeReads (p.readsSnapshot few short near)
    rwa [append_nil] at read
  · intro far
    rw [serialize,← List.append_assoc]
    exact p.deserializeReads (p.readsDistant far)

def remembered : PersistedTransaction := ⟨1,2,3,BitVec.allOnes 256,21000,[1,2,3],1000,100⟩

theorem snapshotRoundTripTwo : new.deserialize (serialize [remembered,{remembered with rawData := []}] 100) 200 =
    .ok [remembered,{remembered with rawData := []}] :=
  (snapshotRoundTrip new _ 100 200 (by decide) (by decide)).1 (by decide)

end MempoolPersistence
end QuantumChain.Mempool
