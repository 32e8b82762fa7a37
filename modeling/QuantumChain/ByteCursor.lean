import QuantumChain.FixedWidth

/-! Reading fields from a byte string by a cursor.
A reader either fails or hands on the next position; no format is fixed here. -/
namespace QuantumChain.ByteCursor
open List
variable {ε α β σ : Type}

abbrev Reader (ε α : Type) := Nat → Except ε (α × Nat)

def bytesAt (short : ε) (data : Bytes) (width : Nat) : Reader ε Bytes := fun cursor =>
  if cursor + width ≤ data.length then .ok ((data.drop cursor).take width,cursor + width) else .error short

def done (a : α) : Reader ε α := fun cursor => .ok (a,cursor)

def andRead (first : Reader ε α) (next : α → Reader ε β) : Reader ε β := fun cursor =>
  match first cursor with
  | .ok (a,later) => next a later
  | .error e => .error e

def wordAt (short : ε) (data : Bytes) (n : Nat) : Reader ε (BitVec n) :=
  andRead (bytesAt short data (n / 8)) fun bytes => done (BitVec.ofNat n (beNumber bytes))

def leNumberAt (short : ε) (data : Bytes) (width : Nat) : Reader ε Nat :=
  andRead (bytesAt short data width) fun bytes => done (leNumber bytes)

def repeated (read : Reader ε α) (enter : σ → α → σ) : Nat → σ → Reader ε σ
  | 0,s => done s
  | n+1,s => andRead read fun a => repeated read enter n (enter s a)

def Reads (data : Bytes) (read : Reader ε α) (code : Bytes) (a : α) : Prop :=
  ∀ cursor rest, data.drop cursor = code ++ rest → ∃ later, read cursor = .ok (a,later) ∧ data.drop later = rest

variable {data : Bytes} {short : ε}

theorem readsBytes {code : Bytes} (occupied : code ≠ []) : Reads data (bytesAt short data code.length) code code := by
  intro cursor rest ahead
  have sizes := congrArg List.length ahead
  rw [length_drop,length_append] at sizes
  have some' := length_pos_iff.mpr occupied
  refine ⟨cursor + code.length,?_,?_⟩
  · rw [bytesAt,if_pos (by omega),ahead,take_left]
  · rw [← drop_drop,ahead,drop_left]

theorem readsDone (a) : Reads data (done a : Reader ε α) [] a := fun cursor _ ahead => ⟨cursor,rfl,ahead⟩

theorem readsThen {first} {next : α → Reader ε β} {code code' a b}
    (head : Reads data first code a) (tail : Reads data (next a) code' b) :
    Reads data (andRead first next) (code ++ code') b := by
  intro cursor rest ahead
  rw [append_assoc] at ahead
  obtain ⟨middle,first',ahead⟩ := head cursor _ ahead
  obtain ⟨later,next',ahead⟩ := tail middle rest ahead
  exact ⟨later,by rw [andRead,first']; exact next',ahead⟩

theorem readsLast {first : Reader ε α} {f : α → β} {code a} (head : Reads data first code a) :
    Reads data (andRead first fun a => done (f a)) code (f a) := by
  have both : Reads data (andRead first fun a => done (f a)) (code ++ []) (f a) := readsThen head (readsDone (f a))
  rwa [append_nil] at both

theorem readsWord {n : Nat} (whole : n % 8 = 0) (occupied : 0 < n) (w : BitVec n) :
    Reads data (wordAt short data n) (wordBytes w) w := by
  have some' : wordBytes w ≠ [] := ne_nil_of_length_pos (by rw [wordBytesLength]; omega)
  have read : Reads data (andRead (bytesAt short data (wordBytes w).length) fun bytes =>
    done (BitVec.ofNat n (beNumber bytes)))
      (wordBytes w) (BitVec.ofNat n (beNumber (wordBytes w))) := readsLast (readsBytes some')
  rwa [wordBytesLength,beNumberWord whole,BitVec.ofNat_toNat,BitVec.setWidth_eq] at read

theorem readsLe {width m : Nat} (occupied : 0 < width) (bound : m < 256^width) :
    Reads data (leNumberAt short data width) (leBytes width m) m := by
  have some' : leBytes width m ≠ [] := ne_nil_of_length_pos (by rw [leBytesLength]; exact occupied)
  have read : Reads data (andRead (bytesAt short data (leBytes width m).length) fun bytes => done (leNumber bytes))
      (leBytes width m) (leNumber (leBytes width m)) := readsLast (readsBytes some')
  rwa [leBytesLength,leNumberWhole bound] at read

theorem readsFramed {width code} (occupied : 0 < width) (bound : code.length < 256^width) :
    Reads data (andRead (leNumberAt short data width) (bytesAt short data)) (leBytes width code.length ++ code) code := by
  intro cursor rest ahead
  have sizes := congrArg List.length ahead
  rw [length_drop,length_append,length_append,leBytesLength] at sizes
  rw [append_assoc] at ahead
  have length : leNumberAt short data width cursor = .ok (code.length,cursor + width) := by
    rw [leNumberAt,andRead,bytesAt,if_pos (by omega),ahead,take_left' (leBytesLength _ _)]
    exact congrArg (fun n => Except.ok (n,cursor + width)) (leNumberWhole bound)
  have behind : data.drop (cursor + width) = code ++ rest := by
    rw [← drop_drop,ahead,drop_left' (leBytesLength _ _)]
  refine ⟨cursor + width + code.length,?_,?_⟩
  · rw [andRead,length]
    change bytesAt short data code.length (cursor + width) = _
    rw [bytesAt,if_pos (by omega),behind,take_left]
  · rw [← drop_drop,behind,drop_left]

theorem readsRepeated {read : Reader ε α} {code : α → Bytes} {entries : List α}
    (each : ∀ a ∈ entries, Reads data read (code a) a) (enter : σ → α → σ) (s : σ) :
    Reads data (repeated read enter entries.length s) (entries.flatMap code) (entries.foldl enter s) := by
  induction entries generalizing s with
  | nil => exact readsDone s
  | cons a rest ih =>
    exact readsThen (each a mem_cons_self) (ih (fun b mem => each b (mem_cons_of_mem _ mem)) (enter s a))

end QuantumChain.ByteCursor
