import Mathlib.Data.List.Sort
import QuantumChain.GolombRice
import QuantumChain.SortedSearch

/-! The block filter: Golomb-Rice codes of sorted script hashes.
False positives are possible and are not bounded here. -/
namespace QuantumChain.BloomFilters
open List BitVec
open GolombRice SortedSearch

def golombP : Nat := 19
def golombM : U64 := 1 <<< golombP

structure GcsFilter where
  blockHash : Hash
  blockHeight : U64
  n : Nat
  data : Bytes
  key : ByteArrayOf 16

def deriveKey (blockHash : Hash) : ByteArrayOf 16 :=
  ⟨(wordBytes blockHash).take 16,by rw [List.length_take,wordBytesLength]; rfl⟩

def fromLeBytes (bytes : Bytes) : U64 := BitVec.ofNat 64 (leNumber bytes)

def absorb (state : U64) (chunk : Bytes) : U64 :=
  ((state ^^^ fromLeBytes (chunk ++ List.replicate (8 - chunk.length) 0)) * 0x517cc1b727220a95).rotateLeft 13

def mix (data : Bytes) (key : ByteArrayOf 16) : U64 :=
  (pieces 8 data).foldl absorb (fromLeBytes (key.val.take 8) ^^^ fromLeBytes (key.val.drop 8))

/-- `none` is the panic of a remainder by zero. -/
def hashToRange (data : Bytes) (key : ByteArrayOf 16) (max : U64) : Option U64 :=
  if max = 0 then none else some (mix data key % max)

def hashScript (checks : Bool) (key : ByteArrayOf 16) (n : Nat) (script : Bytes) : Option U64 := do
  let max ← mulWord checks (BitVec.ofNat 64 n) golombM
  hashToRange script key max

def codeBits (delta : U64) : List Bool :=
  let q := delta >>> golombP
  let r := delta &&& (golombM - 1)
  List.replicate q.toNat true ++ false::(List.range golombP).reverse.map fun i => (r >>> i) &&& 1 == 1

def golombEncode (deltas : List U64) : Bytes := pack (deltas.flatMap codeBits)

def pushBit (r : U64) (bit : Bool) : U64 := (r <<< 1) ||| (BitVec.ofBool bit).setWidth 64

def decodeBits : (n : Nat) → List Bool → List U64
  | 0,_ => []
  | n+1,bits =>
    if bits = [] then []
    else
      let q := BitVec.ofNat 64 (quotient bits)
      let behind := afterQuotient bits
      let r := (behind.take golombP).foldl pushBit 0
      ((q <<< golombP) ||| r)::decodeBits n (behind.drop golombP)

def golombDecode (data : Bytes) (n : Nat) : List U64 := decodeBits n (unpack data)

def saturatingSub (a b : U64) : U64 := if b ≤ a then a - b else 0
def saturatingAdd (a b : U64) : U64 := if a.toNat + b.toNat < 2^64 then a + b else BitVec.allOnes 64

def deltasFrom : (prev : U64) → List U64 → List U64
  | _,[] => []
  | prev,v::values => saturatingSub v prev::deltasFrom v values

def absoluteFrom : (sum : U64) → List U64 → List U64
  | _,[] => []
  | sum,delta::deltas => saturatingAdd sum delta::absoluteFrom (saturatingAdd sum delta) deltas

def sortUnstable (values : List U64) : List U64 := values.insertionSort fun a b => a ≤ b

namespace GcsFilter

def new (checks : Bool) (blockHash : Hash) (blockHeight : U64) (scripts : List Bytes) : Option GcsFilter :=
  let key := deriveKey blockHash
  if scripts.length = 0 then some ⟨blockHash,blockHeight,0,[],key⟩
  else do
    let values ← scripts.mapM (hashScript checks key scripts.length)
    return ⟨blockHash,blockHeight,scripts.length,golombEncode (deltasFrom 0 (sortUnstable values)),key⟩

def absValues (filter : GcsFilter) : List U64 := absoluteFrom 0 (golombDecode filter.data filter.n)

variable (search : Searcher U64) (checks : Bool)

def scan (filter : GcsFilter) (values : List U64) : List Bytes → Option Bool
  | [] => some false
  | script::scripts => do
    let h ← hashScript checks filter.key filter.n script
    if (search.find values h).isSome then some true else scan filter values scripts

def matchAny (filter : GcsFilter) (scripts : List Bytes) : Option Bool :=
  if filter.n = 0 ∨ scripts = [] then some false else scan search checks filter filter.absValues scripts

end GcsFilter

theorem lowBit (r : U64) (i) : ((r >>> i) &&& 1 == 1) = r.getLsbD i := by
  have one : (r >>> i) &&& 1 = (BitVec.ofBool (r.getLsbD i)).setWidth 64 := by
    rw [← Nat.add_zero i,← getLsbD_ushiftRight]
    exact and_one_eq_setWidth_ofBool_getLsbD
  rw [one]
  cases r.getLsbD i <;> rfl

theorem maskBit : ∀ i < golombP, (golombM - 1).getLsbD i = true := by decide

theorem codeBitsCode (delta) : codeBits delta = code golombP delta.toNat := by
  unfold codeBits code msbBits
  dsimp only
  rw [toNat_ushiftRight,Nat.shiftRight_eq_div_pow]
  congr 2
  refine map_congr_left fun i mem => ?_
  have masked := maskBit i (mem_range.mp (mem_reverse.mp mem))
  rw [lowBit,getLsbD_and,masked,Bool.and_true]
  rfl

theorem toNatPushBit {r} (room : 2 * r.toNat + 1 < 2^64) (bit) : (pushBit r bit).toNat = 2 * r.toNat + bit.toNat := by
  have shifted : (r <<< 1).toNat = 2^1 * r.toNat := by
    rw [toNat_shiftLeft,Nat.shiftLeft_eq,Nat.mod_eq_of_lt (by omega),Nat.mul_comm]
  have low : ((BitVec.ofBool bit).setWidth 64).toNat = bit.toNat := by cases bit <;> rfl
  unfold pushBit
  rw [toNat_or,shifted,low,← Nat.two_pow_add_eq_or_of_lt (by cases bit <;> decide)]

theorem foldHorner {bits} (short : bits.length ≤ 64) : (bits.foldl pushBit 0).toNat = horner bits := by
  induction bits using List.reverseRecOn with
  | nil => rfl
  | append_singleton bits b ih =>
    rw [length_append,length_singleton] at short
    have before := ih (by omega)
    have bound := hornerLt bits
    have power : 2 * 2^bits.length ≤ 2^64 := by
      rw [← Nat.pow_succ']
      exact Nat.pow_le_pow_right (by decide) short
    rw [foldl_append,foldl_cons,foldl_nil,hornerSnoc,toNatPushBit (by omega),before]

theorem joinParts (delta : U64) :
    (BitVec.ofNat 64 (delta.toNat / 2^golombP) <<< golombP).toNat ||| delta.toNat % 2^golombP = delta.toNat := by
  have bound := delta.isLt
  have whole := Nat.div_add_mod delta.toNat (2^golombP)
  have shifted : (BitVec.ofNat 64 (delta.toNat / 2^golombP) <<< golombP).toNat = 2^golombP * (delta.toNat / 2^golombP) := by
    rw [toNat_shiftLeft,toNat_ofNat,Nat.mod_eq_of_lt (Nat.lt_of_le_of_lt (Nat.div_le_self _ _) bound),
      Nat.shiftLeft_eq,Nat.mul_comm,Nat.mod_eq_of_lt (by omega)]
  rw [shifted,← Nat.two_pow_add_eq_or_of_lt (Nat.mod_lt _ (by decide)),whole]

theorem decodeCode (n) (delta) (rest) :
    decodeBits (n + 1) (codeBits delta ++ rest) = delta::decodeBits n rest := by
  have long := msbBitsLength golombP delta.toNat
  rw [codeBitsCode,decodeBits,if_neg (codeNonempty _ _ _),quotientCode,afterQuotientCode]
  dsimp only
  rw [take_left' long,drop_left' long]
  congr 1
  have low := foldHorner (by rw [long]; decide)
  rw [hornerMsb] at low
  refine eq_of_toNat_eq ?_
  rw [toNat_or,low,joinParts]

theorem decodeCodes (deltas) (rest) : decodeBits deltas.length (deltas.flatMap codeBits ++ rest) = deltas := by
  induction deltas with
  | nil => rfl
  | cons delta deltas ih => rw [List.flatMap_cons,List.append_assoc,List.length_cons,decodeCode,ih]

theorem golombRoundTrip (deltas) : golombDecode (golombEncode deltas) deltas.length = deltas := by
  obtain ⟨count,same⟩ := unpackPack (deltas.flatMap codeBits)
  unfold golombDecode golombEncode
  rw [same,decodeCodes]

example : golombDecode (golombEncode [500,1000,50,200,1500]) 5 = [500,1000,50,200,1500] := by decide +kernel

theorem addSub {a b} (below : b ≤ a) : saturatingAdd b (saturatingSub a b) = a := by
  unfold saturatingSub saturatingAdd
  have order := below
  have bound := a.isLt
  rw [if_pos below,toNat_sub_of_le below,if_pos (by omega)]
  rw [add_comm,sub_add_cancel]

theorem absoluteDeltas {prev} {values : List U64} (sorted : (prev::values).Pairwise (· ≤ ·)) :
    absoluteFrom prev (deltasFrom prev values) = values := by
  induction values generalizing prev with
  | nil => rfl
  | cons v values ih =>
    obtain ⟨least,later⟩ := pairwise_cons.mp sorted
    have back := addSub (least v mem_cons_self)
    rw [deltasFrom,absoluteFrom,back,ih later]

theorem deltasLength (prev) (values) : (deltasFrom prev values).length = values.length := by
  induction values generalizing prev with
  | nil => rfl
  | cons v values ih => rw [deltasFrom,List.length_cons,List.length_cons,ih]

theorem sortSorted (values : List U64) : (sortUnstable values).Pairwise (· ≤ ·) := pairwise_insertionSort _ _

theorem sortPerm (values) : (sortUnstable values).Perm values := perm_insertionSort _ _

theorem absoluteSorted (values) : absoluteFrom 0 (deltasFrom 0 (sortUnstable values)) = sortUnstable values :=
  absoluteDeltas (pairwise_cons.mpr ⟨fun v _ => Nat.zero_le v.toNat,sortSorted values⟩)

theorem sortRoundTrip (values) :
    golombDecode (golombEncode (deltasFrom 0 (sortUnstable values))) values.length = deltasFrom 0 (sortUnstable values) := by
  have trip := golombRoundTrip (deltasFrom 0 (sortUnstable values))
  rwa [deltasLength,(sortPerm values).length_eq] at trip

def rangeHash (key : ByteArrayOf 16) (n : Nat) (script : Bytes) : U64 := mix script key % BitVec.ofNat 64 (n * golombM.toNat)

theorem hashScriptFits (checks) (key) {n} (pos : n ≠ 0) (fits : n * golombM.toNat < 2^64)
    (script) : hashScript checks key n script = some (rangeHash key n script) := by
  have scale : 0 < golombM.toNat := by decide
  have word : (BitVec.ofNat 64 n).toNat = n := Nat.mod_eq_of_lt (Nat.lt_of_le_of_lt (Nat.le_mul_of_pos_right n scale) fits)
  obtain ⟨range,product,value⟩ := mulWordFits checks (a := BitVec.ofNat 64 n) (b := golombM) (by rwa [word])
  rw [word] at value
  have real : range ≠ 0 := by
    rintro rfl
    exact absurd value.symm (Nat.mul_pos (Nat.pos_of_ne_zero pos) scale).ne'
  have same : range = BitVec.ofNat 64 (n * golombM.toNat) := by rw [← value,ofNat_toNat,setWidth_eq]
  unfold hashScript hashToRange rangeHash
  rw [product,← same]
  exact if_neg real

theorem hashScriptsFit (checks) (key) {n} (pos : n ≠ 0) (fits : n * golombM.toNat < 2^64)
    (scripts : List Bytes) : scripts.mapM (hashScript checks key n) = some (scripts.map (rangeHash key n)) := by
  have each := funext (hashScriptFits checks key pos fits)
  rw [each]
  exact mapM_pure

namespace GcsFilter
variable {search : Searcher U64} {checks : Bool}

theorem scanFits (filter : GcsFilter) (pos : filter.n ≠ 0) (fits : filter.n * golombM.toNat < 2^64) {values : List U64}
    (sorted : values.Pairwise (· ≤ ·)) (query) :
    scan search checks filter values query = some
      (query.any fun script => values.contains (rangeHash filter.key filter.n script)) := by
  induction query with
  | nil => rfl
  | cons script query ih =>
    have answer := search.findsIff sorted (rangeHash filter.key filter.n script)
    rw [scan,hashScriptFits checks filter.key pos fits,Option.bind_eq_bind,Option.bind_some,ih,any_cons]
    by_cases held : rangeHash filter.key filter.n script ∈ values
    · rw [if_pos (answer.mpr held),contains_iff_mem.mpr held,Bool.true_or]
    · rw [if_neg (mt answer.mp held),Bool.eq_false_iff.mpr (mt contains_iff_mem.mp held),Bool.false_or]

def built (blockHash : Hash) (blockHeight : U64) (scripts : List Bytes) : GcsFilter :=
  ⟨blockHash,blockHeight,scripts.length,
    golombEncode (deltasFrom 0 (sortUnstable (scripts.map (rangeHash (deriveKey blockHash) scripts.length)))),
    deriveKey blockHash⟩

theorem newFits (blockHash) (blockHeight) {scripts} (pos : scripts.length ≠ 0)
    (fits : scripts.length * golombM.toNat < 2^64) :
    new checks blockHash blockHeight scripts = some (built blockHash blockHeight scripts) := by
  unfold new
  dsimp only
  rw [if_neg pos,hashScriptsFit checks _ pos fits]
  rfl

theorem builtDecoded (blockHash) (blockHeight) (scripts) :
    golombDecode (built blockHash blockHeight scripts).data (built blockHash blockHeight scripts).n =
      deltasFrom 0 (sortUnstable (scripts.map (rangeHash (deriveKey blockHash) scripts.length))) := by
  have trip := sortRoundTrip (scripts.map (rangeHash (deriveKey blockHash) scripts.length))
  rwa [length_map] at trip

theorem builtValues (blockHash) (blockHeight) (scripts) :
    (built blockHash blockHeight scripts).absValues =
      sortUnstable (scripts.map (rangeHash (deriveKey blockHash) scripts.length)) := by
  unfold absValues
  rw [builtDecoded,absoluteSorted]

theorem builtMatches (search) (checks) (blockHash) (blockHeight) {scripts}
    (pos : scripts.length ≠ 0) (fits : scripts.length * golombM.toNat < 2^64) (query) :
    ∃ answer, (built blockHash blockHeight scripts).matchAny search checks query = some answer ∧
      (answer = true ↔ ∃ wanted ∈ query, ∃ script ∈ scripts,
        rangeHash (deriveKey blockHash) scripts.length wanted = rangeHash (deriveKey blockHash) scripts.length script) := by
  unfold matchAny
  split
  · rename_i trivial
    have none' := trivial.resolve_left pos
    refine ⟨false,rfl,?_⟩
    simp [none']
  · rw [builtValues,scanFits (built blockHash blockHeight scripts) pos fits (sortSorted _)]
    refine ⟨_,rfl,?_⟩
    rw [any_eq_true]
    refine exists_congr fun wanted => and_congr_right fun _ => ?_
    rw [contains_iff_mem,(sortPerm _).mem_iff,mem_map]
    exact exists_congr fun script => and_congr_right fun _ => eq_comm

theorem noFalseNegatives (search : Searcher U64) (checks : Bool) (blockHash : Hash) (blockHeight : U64) {scripts : List Bytes}
    (nonempty : scripts ≠ []) (fits : scripts.length * golombM.toNat < 2^64) :
    ∃ filter hashes, new checks blockHash blockHeight scripts = some filter ∧
      scripts.mapM (hashScript checks (deriveKey blockHash) scripts.length) = some hashes ∧
      filter.data = golombEncode (deltasFrom 0 (sortUnstable hashes)) ∧
      golombDecode filter.data filter.n = deltasFrom 0 (sortUnstable hashes) ∧
      filter.absValues = sortUnstable hashes ∧ filter.absValues.Pairwise (· ≤ ·) ∧ filter.absValues.Perm hashes ∧
      ∀ query, (∃ script ∈ scripts, script ∈ query) → filter.matchAny search checks query = some true := by
  have pos : scripts.length ≠ 0 := mt length_eq_zero_iff.mp nonempty
  have values := builtValues blockHash blockHeight scripts
  refine ⟨built blockHash blockHeight scripts,_,newFits blockHash blockHeight pos fits,
    hashScriptsFit checks _ pos fits scripts,rfl,
    builtDecoded blockHash blockHeight scripts,values,?_,?_,?_⟩
  · rw [values]
    exact sortSorted _
  · rw [values]
    exact sortPerm _
  · rintro query ⟨script,stored,asked⟩
    obtain ⟨answer,matched,exact'⟩ := builtMatches search checks blockHash blockHeight pos fits query
    rw [matched,exact'.mpr ⟨script,asked,script,stored,rfl⟩]

theorem noFalseNegativesPair : ∃ filter hashes, new true 7 100 [[1,2],[3]] = some filter ∧
    [[1,2],[3]].mapM (hashScript true (deriveKey 7) 2) = some hashes ∧
    filter.data = golombEncode (deltasFrom 0 (sortUnstable hashes)) ∧
    golombDecode filter.data filter.n = deltasFrom 0 (sortUnstable hashes) ∧
    filter.absValues = sortUnstable hashes ∧ filter.absValues.Pairwise (· ≤ ·) ∧ filter.absValues.Perm hashes ∧
    ∀ query, (∃ script ∈ [[1,2],[3]], script ∈ query) → filter.matchAny halving true query = some true :=
  noFalseNegatives halving true 7 100 (by decide) (by decide)

end GcsFilter
end QuantumChain.BloomFilters
