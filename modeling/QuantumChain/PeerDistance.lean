import QuantumChain.FixedWidth

/-! Node ids and the distance between them.
The source's distance is the first differing bit. -/
namespace QuantumChain.PeerDiscovery
open List

abbrev NodeId := BitVec 256

abbrev Distance := Fin 256

def leadingZeros (byte : UInt8) : Nat := if byte = 0 then 8 else 7 - Nat.log2 byte.toNat

def firstSetBit (i : Nat) : Bytes → Option Nat
  | [] => none
  | xor::rest => if xor ≠ 0 then some (i * 8 + leadingZeros xor) else firstSetBit (i + 1) rest

def xorDistance (a b : NodeId) : Distance :=
  match firstSetBit 0 (zipWith (· ^^^ ·) (wordBytes a) (wordBytes b)) with
  | some bucket => Fin.ofNat 256 bucket
  | none => 255

def calculateBucketIndex (localId remote : NodeId) : Fin 256 := xorDistance localId remote

def bucketForPeer (localId remote : NodeId) : Nat :=
  match firstSetBit 0 (zipWith (· ^^^ ·) (wordBytes localId) (wordBytes remote)) with
  | some bucket => bucket
  | none => 255

theorem leBytesXor (width m n) :
    leBytes width (m ^^^ n) = zipWith (· ^^^ ·) (leBytes width m) (leBytes width n) := by
  induction width generalizing m n with
  | zero => rfl
  | succ width ih =>
    have low : (m ^^^ n) % 256 = m % 256 ^^^ n % 256 := Nat.xor_mod_two_pow (n := 8)
    have high : (m ^^^ n) / 256 = m / 256 ^^^ n / 256 := Nat.xor_div_two_pow (n := 8)
    rw [leBytes,leBytes,leBytes,zipWith_cons_cons,low,high,ih,UInt8.ofNat_xor]

theorem wordBytesXor {n} (a b : BitVec n) :
    zipWith (· ^^^ ·) (wordBytes a) (wordBytes b) = wordBytes (a ^^^ b) := by
  unfold wordBytes beBytes
  rw [BitVec.toNat_xor,leBytesXor,reverse_zipWith]
  rw [leBytesLength,leBytesLength]

theorem log2Cons {b} (real : b ≠ 0) (rest : Bytes) :
    Nat.log2 (beNumber (b::rest)) = 8 * rest.length + Nat.log2 b.toNat := by
  have positive : b.toNat ≠ 0 := fun zero => real (UInt8.toNat_inj.mp zero)
  have below := Nat.log2_self_le positive
  have above : b.toNat < 2^(Nat.log2 b.toNat + 1) := Nat.lt_log2_self
  have low := beNumberLt rest
  have unit : 256^rest.length = 2^(8 * rest.length) := by rw [Nat.pow_mul]
  rw [unit] at low
  rw [beNumberCons,unit]
  have lower : 2^(8 * rest.length + Nat.log2 b.toNat) ≤ beNumber rest + 2^(8 * rest.length) * b.toNat := by
    rw [Nat.pow_add]
    exact Nat.le_trans (Nat.mul_le_mul_left _ below) (Nat.le_add_left _ _)
  refine (Nat.log2_eq_iff (Nat.ne_of_gt (Nat.lt_of_lt_of_le (Nat.two_pow_pos _) lower))).mpr ⟨lower,?_⟩
  calc beNumber rest + 2^(8 * rest.length) * b.toNat
      < 2^(8 * rest.length) * (b.toNat + 1) := by rw [Nat.mul_succ]; omega
    _ ≤ 2^(8 * rest.length) * 2^(Nat.log2 b.toNat + 1) := Nat.mul_le_mul_left _ above
    _ = 2^(8 * rest.length + Nat.log2 b.toNat + 1) := by rw [← Nat.pow_add]; rfl

theorem firstSetBitLog (i) (bytes) : firstSetBit i bytes =
    if beNumber bytes = 0 then none else some (8 * (i + bytes.length) - 1 - Nat.log2 (beNumber bytes)) := by
  induction bytes generalizing i with
  | nil => rfl
  | cons b rest ih =>
    unfold firstSetBit
    split
    · rename_i real
      have small := Nat.le_of_lt_succ
        ((Nat.log2_lt (fun zero => real (UInt8.toNat_inj.mp zero))).mpr b.toNat_lt)
      have some' : beNumber (b::rest) ≠ 0 := by
        rw [beNumberCons]
        have positive := Nat.pos_of_ne_zero (fun zero => real (UInt8.toNat_inj.mp zero))
        have := Nat.mul_pos (Nat.pow_pos (n := rest.length) (a := 256) (by decide)) positive
        omega
      rw [if_neg some',log2Cons real,leadingZeros,if_neg real,length_cons]
      congr 1
      omega
    · rename_i zero
      have zero : b = 0 := by simpa using zero
      have same : beNumber (b::rest) = beNumber rest := by rw [beNumberCons,zero]; simp
      rw [ih,same,length_cons]
      congr 3
      omega

theorem bucketForPeerLog (localId remote) : bucketForPeer localId remote = 255 - Nat.log2 (localId ^^^ remote).toNat := by
  unfold bucketForPeer
  rw [wordBytesXor,firstSetBitLog,beNumberWord (by decide),wordBytesLength]
  split
  · rename_i found
    split at found
    · cases found
    · cases found
      rfl
  · rename_i equal
    split at equal
    · rename_i zero
      rw [zero]
      rfl
    · cases equal

theorem bucketForPeerIndex (localId remote) : bucketForPeer localId remote = (calculateBucketIndex localId remote).val := by
  have fits : bucketForPeer localId remote < 256 := by
    rw [bucketForPeerLog]
    omega
  unfold bucketForPeer at fits ⊢
  unfold calculateBucketIndex xorDistance
  split
  · rename_i bucket found
    rw [found] at fits
    exact (Nat.mod_eq_of_lt fits).symm
  · rfl

theorem xorDistanceLog (a b) : (xorDistance a b).val = 255 - Nat.log2 (a ^^^ b).toNat :=
  (bucketForPeerIndex a b).symm.trans (bucketForPeerLog a b)

end QuantumChain.PeerDiscovery
