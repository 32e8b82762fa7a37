import QuantumChain.FixedWidth
import QuantumChain.PairedBuckets
import QuantumChain.StepRun

/-! The cuckoo filter, with both hashes and every eviction choice as parameters.
What is kept is shown while inserts succeed. -/
namespace QuantumChain.BloomFilters
open List Function
open PairedBuckets

abbrev Fingerprint := BitVec 16

def entriesPerBucket : Nat := 4

def maxKicks : Nat := 500

structure Bucket where
  entries : List Fingerprint
  four : entries.length = entriesPerBucket
  deriving DecidableEq

namespace Bucket

def free : Bucket := ⟨List.replicate entriesPerBucket 0,rfl⟩

def replace (b : Bucket) (old new : Fingerprint) : Bucket :=
  ⟨b.entries.replace old new,List.length_replace.trans b.four⟩

def insert (b : Bucket) (fp : Fingerprint) : Bool × Bucket := (b.entries.contains 0,b.replace 0 fp)

def contains (b : Bucket) (fp : Fingerprint) : Bool := b.entries.contains fp

def delete (b : Bucket) (fp : Fingerprint) : Bool × Bucket := (b.entries.contains fp,b.replace fp 0)

def slot (choice : U64) : Nat := choice.toNat % entriesPerBucket

theorem slotInside (b : Bucket) (choice) : slot choice < b.entries.length := by
  rw [b.four]
  exact Nat.mod_lt _ (by decide)

def swap (b : Bucket) (fp : Fingerprint) (choice : U64) : Fingerprint × Bucket :=
  (b.entries.get ⟨slot choice,b.slotInside choice⟩,⟨b.entries.set (slot choice) fp,List.length_set.trans b.four⟩)

def Exchanged (old new : Fingerprint) (b b' : Bucket) : Prop :=
  ∀ g, b'.entries.count g + [old].count g = b.entries.count g + [new].count g

theorem countReplace {old new} {entries : List Fingerprint} (mem : old ∈ entries) (g) :
    (entries.replace old new).count g + [old].count g = entries.count g + [new].count g := by
  induction entries with
  | nil => cases mem
  | cons e rest ih =>
    have first x xs : (x::xs).count g = xs.count g + [x].count g := by
      rw [count_cons,count_singleton]
    rcases eq_or_ne old e with rfl | apart
    · rw [replace_cons_self,first new rest,first old rest]
      omega
    · have later := ih ((mem_cons.mp mem).resolve_left apart)
      have kept : (e::rest).replace old new = e::rest.replace old new := by
        rw [replace_cons,beq_eq_false_iff_ne.mpr apart]
      rw [kept,first e (rest.replace old new),first e rest]
      omega

theorem insertExchanged {b fp} (ok : (b.insert fp).1 = true) : Exchanged 0 fp b (b.insert fp).2 :=
  countReplace (contains_iff_mem.mp ok)

theorem deleteExchanged {b fp} (ok : (b.delete fp).1 = true) : Exchanged fp 0 b (b.delete fp).2 :=
  countReplace (contains_iff_mem.mp ok)

theorem swapExchanged (b) (fp) (choice) : Exchanged (b.swap fp choice).1 fp b (b.swap fp choice).2 := by
  intro g
  have inside := b.slotInside choice
  have one : [b.entries[slot choice]].count g ≤ b.entries.count g :=
    List.Sublist.count_le _ (singleton_sublist.mpr (getElem_mem inside))
  unfold swap
  dsimp only [get_eq_getElem]
  rw [count_set inside,count_singleton,count_singleton]
  rw [count_singleton] at one
  omega

theorem swapBack (b : Bucket) (fp) (choice) : (b.swap fp choice).2.swap (b.swap fp choice).1 choice = (fp,b) := by
  cases b with
  | mk entries four =>
    simp only [swap,get_eq_getElem,getElem_set_self,set_set,set_getElem_self]

theorem swapFull {b : Bucket} {fp} (full : (0 : Fingerprint) ∉ b.entries) (real : fp ≠ 0) (choice) :
    (b.swap fp choice).1 ≠ 0 ∧ (0 : Fingerprint) ∉ (b.swap fp choice).2.entries := by
  refine ⟨fun zero => full (zero ▸ get_mem _ _),fun mem => ?_⟩
  rcases mem_or_eq_of_mem_set mem with before | same
  · exact full before
  · exact real same.symm

end Bucket

def bucketCount (capacity : Nat) : Nat := max (nextPowerOfTwo ((capacity + (entriesPerBucket - 1)) / entriesPerBucket)) 4

theorem bucketCountPower (capacity) : ∃ k, bucketCount capacity = 2^k := by
  obtain ⟨k,eq⟩ := nextPowerOfTwoPower ((capacity + (entriesPerBucket - 1)) / entriesPerBucket)
  unfold bucketCount
  rcases max_choice (nextPowerOfTwo ((capacity + (entriesPerBucket - 1)) / entriesPerBucket)) 4 with left | right
  · exact ⟨k,left.trans eq⟩
  · exact ⟨2,right⟩

theorem bucketCountPos (capacity) : 0 < bucketCount capacity := Nat.lt_of_lt_of_le (by decide) (le_max_right _ 4)

abbrev Index (capacity : Nat) := Fin (bucketCount capacity)

structure CuckooFilter (capacity : Nat) where
  buckets : Index capacity → Bucket
  count : Nat

namespace CuckooFilter
variable {capacity : Nat} {α : Type}

def new (capacity : Nat) : CuckooFilter capacity := ⟨fun _ => .free,0⟩

def reduce (n : Nat) : Index capacity := ⟨n % bucketCount capacity,Nat.mod_lt _ (bucketCountPos capacity)⟩

def insertInto (f : CuckooFilter capacity) (i : Index capacity) (fp : Fingerprint) : Bool × CuckooFilter capacity :=
  match (f.buckets i).insert fp with
  | (true,bucket) => (true,⟨Function.update f.buckets i bucket,f.count + 1⟩)
  | (false,_) => (false,f)

def deleteFrom (f : CuckooFilter capacity) (i : Index capacity) (fp : Fingerprint) : Bool × CuckooFilter capacity :=
  match (f.buckets i).delete fp with
  | (true,bucket) => (true,⟨Function.update f.buckets i bucket,f.count - 1⟩)
  | (false,_) => (false,f)

section Hashed
variable (hash : α → U64) (fpHash : Fingerprint → U64)

def altIndex (fp : Fingerprint) (i : Index capacity) : Index capacity := reduce (i.val ^^^ (fpHash fp).toNat)

def indices (capacity : Nat) (item : α) : Fingerprint × Index capacity × Index capacity :=
  let fp := (hash item >>> 48).setWidth 16
  let i1 := reduce (hash item).toNat
  (fp,i1,altIndex fpHash fp i1)

def nonZero (fp : Fingerprint) : Fingerprint := if fp = 0 then 1 else fp

def relocate (choices : Nat → U64) : Nat → CuckooFilter capacity → Fingerprint → Index capacity →
    Bool × CuckooFilter capacity
  | 0,f,_,_ => (false,f)
  | kicks + 1,f,fp,i =>
    let (old,bucket) := (f.buckets i).swap fp (choices kicks)
    let f := {f with buckets := Function.update f.buckets i bucket}
    let i := altIndex fpHash old i
    match f.insertInto i old with
    | (true,f) => (true,f)
    | (false,f) => relocate choices kicks f old i

def insert (f : CuckooFilter capacity) (item : α) (choices : Nat → U64) : Bool × CuckooFilter capacity :=
  let (fp,i1,i2) := indices hash fpHash capacity item
  let fp := nonZero fp
  match f.insertInto i1 fp with
  | (true,f) => (true,f)
  | (false,f) =>
    match f.insertInto i2 fp with
    | (true,f) => (true,f)
    | (false,f) => relocate fpHash choices maxKicks f fp i1

def contains (f : CuckooFilter capacity) (item : α) : Bool :=
  let (fp,i1,i2) := indices hash fpHash capacity item
  let fp := nonZero fp
  (f.buckets i1).contains fp || (f.buckets i2).contains fp

def delete (f : CuckooFilter capacity) (item : α) : Bool × CuckooFilter capacity :=
  let (fp,i1,i2) := indices hash fpHash capacity item
  let fp := nonZero fp
  match f.deleteFrom i1 fp with
  | (true,f) => (true,f)
  | (false,f) => f.deleteFrom i2 fp

def held (f : CuckooFilter capacity) (i : Index capacity) (g : Fingerprint) : Nat := (f.buckets i).entries.count g

def home (capacity : Nat) (item : α) : Index capacity × Fingerprint :=
  ((indices hash fpHash capacity item).2.1,nonZero (indices hash fpHash capacity item).1)

def Aligned (capacity : Nat) (item : α) : Prop :=
  (indices hash fpHash capacity item).2.2 =
    altIndex fpHash (home hash fpHash capacity item).2 (home hash fpHash capacity item).1

instance (capacity : Nat) (item : α) : Decidable (Aligned hash fpHash capacity item) := by unfold Aligned; infer_instance

theorem alignedOfFingerprint {item} (real : (hash item >>> 48).setWidth 16 ≠ (0 : Fingerprint)) :
    Aligned hash fpHash capacity item := by
  unfold Aligned home indices nonZero
  rw [if_neg real]

theorem homeReal (item) : (home hash fpHash capacity item).2 ≠ 0 := by
  unfold home nonZero
  split
  · exact (by decide : (1 : Fingerprint) ≠ 0)
  · assumption

theorem altInvolutive (fp) : Function.Involutive (altIndex fpHash fp : Index capacity → Index capacity) := by
  intro i
  obtain ⟨k,power⟩ := bucketCountPower capacity
  have inside : i.val < 2^k := power ▸ i.isLt
  apply Fin.ext
  unfold altIndex reduce
  generalize i.val = n at inside ⊢
  dsimp only
  rw [power,Nat.xor_mod_two_pow,Nat.mod_mod,← Nat.xor_mod_two_pow,Nat.xor_assoc,Nat.xor_self,Nat.xor_zero,
    Nat.mod_eq_of_lt inside]

theorem nearFree (j i : Index capacity) {g} (real : g ≠ 0) : near (altIndex fpHash) [(j,0)] i g = 0 := by
  unfold near
  rw [countP_singleton,if_neg]
  exact fun near' => real (of_decide_eq_true near').1.symm

theorem copiesExchanged {f : CuckooFilter capacity} {j bucket old new}
    (exchanged : Bucket.Exchanged old new (f.buckets j) bucket) (count) (i) (g) :
    copies (altIndex fpHash) (held ⟨Function.update f.buckets j bucket,count⟩) i g + near (altIndex fpHash) [(j,old)] i g =
      copies (altIndex fpHash) f.held i g + near (altIndex fpHash) [(j,new)] i g := by
  refine copiesBalance (fun k => ?_) i
  unfold held
  dsimp only
  rcases eq_or_ne k j with rfl | apart
  · rw [update_self]
    have here := exchanged g
    simpa [count_singleton] using here
  · rw [update_of_ne apart]
    simp [Ne.symm apart]

theorem insertIntoCopies {f f' : CuckooFilter capacity} {j fp}
    (ok : f.insertInto j fp = (true,f')) (i) {g} (real : g ≠ 0) :
    copies (altIndex fpHash) f'.held i g = copies (altIndex fpHash) f.held i g + near (altIndex fpHash) [(j,fp)] i g := by
  unfold insertInto at ok
  split at ok
  · rename_i bucket inserted
    cases ok
    have exchanged := Bucket.insertExchanged (congrArg Prod.fst inserted)
    rw [inserted] at exchanged
    have moved := copiesExchanged fpHash exchanged (f.count + 1) i g
    rw [nearFree fpHash j i real] at moved
    exact moved
  · cases ok

theorem deleteFromCopies {f f' : CuckooFilter capacity} {j fp}
    (ok : f.deleteFrom j fp = (true,f')) (i) {g} (real : g ≠ 0) :
    copies (altIndex fpHash) f'.held i g + near (altIndex fpHash) [(j,fp)] i g = copies (altIndex fpHash) f.held i g := by
  unfold deleteFrom at ok
  split at ok
  · rename_i bucket deleted
    cases ok
    have exchanged := Bucket.deleteExchanged (congrArg Prod.fst deleted)
    rw [deleted] at exchanged
    have moved := copiesExchanged fpHash exchanged (f.count - 1) i g
    rw [nearFree fpHash j i real] at moved
    exact moved
  · cases ok

variable {hash fpHash}

theorem insertIntoFalse {f f' : CuckooFilter capacity} {j fp} (full : f.insertInto j fp = (false,f')) : f' = f := by
  unfold insertInto at full
  split at full
  · cases full
  · cases full
    rfl

theorem deleteFromFalse {f f' : CuckooFilter capacity} {j fp}
    (absent : f.deleteFrom j fp = (false,f')) : f' = f ∧ f.held j fp = 0 := by
  unfold deleteFrom at absent
  split at absent
  · cases absent
  · rename_i missing
    cases absent
    have none : (f.buckets j).entries.contains fp = false := congrArg Prod.fst missing
    exact ⟨rfl,count_eq_zero.mpr (fun mem => by rw [contains_iff_mem.mpr mem] at none; cases none)⟩

theorem relocateCopies {choices kicks f f' fp j} (ok : relocate fpHash choices kicks f fp j = (true,f'))
    (i : Index capacity) {g}
    (real : g ≠ 0) :
    copies (altIndex fpHash) f'.held i g = copies (altIndex fpHash) f.held i g + near (altIndex fpHash) [(j,fp)] i g := by
  induction kicks generalizing f fp j with
  | zero => cases ok
  | succ kicks ih =>
    unfold relocate at ok
    dsimp only at ok
    have swapped := copiesExchanged fpHash (Bucket.swapExchanged (f.buckets j) fp (choices kicks)) f.count i g
    have same := nearAlt (altInvolutive fpHash) j ((f.buckets j).swap fp (choices kicks)).1 i g
    split at ok
    · rename_i placed
      cases ok
      have put := insertIntoCopies fpHash placed i real
      omega
    · rename_i full
      have rest := ih ok
      rw [insertIntoFalse full] at rest
      omega

theorem insertCopies {f f' : CuckooFilter capacity} {item choices}
    (aligned : Aligned hash fpHash capacity item) (ok : f.insert hash fpHash item choices = (true,f')) (i)
    {g} (real : g ≠ 0) : copies (altIndex fpHash) f'.held i g =
      copies (altIndex fpHash) f.held i g + near (altIndex fpHash) [home hash fpHash capacity item] i g := by
  unfold insert at ok
  dsimp only at ok
  split at ok
  · rename_i placed
    cases ok
    exact insertIntoCopies fpHash placed i real
  · rename_i full
    rw [insertIntoFalse full] at ok
    split at ok
    · rename_i placed
      cases ok
      rw [insertIntoCopies fpHash placed i real,aligned]
      exact congrArg (copies (altIndex fpHash) f.held i g + ·) (nearAlt (altInvolutive fpHash) _ _ i g)
    · rename_i full'
      rw [insertIntoFalse full'] at ok
      exact relocateCopies ok i real

theorem deleteCopies {f : CuckooFilter capacity} {item} (aligned : Aligned hash fpHash capacity item)
    (stored : 0 < f.held (home hash fpHash capacity item).1 (home hash fpHash capacity item).2 ∨
      0 < f.held (altIndex fpHash (home hash fpHash capacity item).2 (home hash fpHash capacity item).1)
        (home hash fpHash capacity item).2) (i) {g} (real : g ≠ 0) :
    copies (altIndex fpHash) (f.delete hash fpHash item).2.held i g + near
      (altIndex fpHash) [home hash fpHash capacity item] i g =
      copies (altIndex fpHash) f.held i g := by
  unfold delete
  dsimp only
  split
  · rename_i taken
    exact deleteFromCopies fpHash taken i real
  · rename_i absent
    obtain ⟨same,none⟩ := deleteFromFalse absent
    rw [same]
    have second := stored.resolve_left (fun some => Nat.ne_of_gt some none)
    rw [← aligned] at second
    have taken : (f.deleteFrom (indices hash fpHash capacity item).2.2
        (nonZero (indices hash fpHash capacity item).1)).1 = true := by
      by_contra refused
      have absent' : f.deleteFrom (indices hash fpHash capacity item).2.2 (nonZero (indices hash fpHash capacity item).1) =
          (false,(f.deleteFrom (indices hash fpHash capacity item).2.2 (nonZero (indices hash fpHash capacity item).1)).2) :=
        Prod.ext (Bool.eq_false_iff.mpr refused) rfl
      exact Nat.ne_of_gt second (deleteFromFalse absent').2
    rw [← nearAlt (altInvolutive fpHash),← aligned]
    exact deleteFromCopies fpHash (Prod.ext taken rfl) i real

theorem containsHeld {f : CuckooFilter capacity} {item} (aligned : Aligned hash fpHash capacity item)
    (stored : 0 < f.held (home hash fpHash capacity item).1 (home hash fpHash capacity item).2 ∨
      0 < f.held (altIndex fpHash (home hash fpHash capacity item).2 (home hash fpHash capacity item).1)
        (home hash fpHash capacity item).2) : f.contains hash fpHash item = true := by
  unfold contains Bucket.contains
  rw [← aligned] at stored
  rw [Bool.or_eq_true,contains_iff_mem,contains_iff_mem]
  exact stored.imp count_pos_iff.mp count_pos_iff.mp

theorem insertIntoFull {f : CuckooFilter capacity} {i} (full : (0 : Fingerprint) ∉ (f.buckets i).entries)
    (fp) : f.insertInto i fp = (false,f) := by
  have none : (f.buckets i).entries.contains 0 = false :=
    Bool.eq_false_iff.mpr (fun mem => full (contains_iff_mem.mp mem))
  rw [insertInto,Bucket.insert,none]

section Stuck
variable {choices : Nat → U64} {f : CuckooFilter capacity} {fp : Fingerprint} {i : Index capacity}
  (back : ∀ g, altIndex fpHash g i = i) (full : (0 : Fingerprint) ∉ (f.buckets i).entries) (real : fp ≠ 0)
include back full real

theorem kickStuck (kicks) : relocate fpHash choices (kicks + 1) f fp i =
    relocate fpHash choices kicks {f with buckets := Function.update f.buckets i ((f.buckets i).swap fp (choices kicks)).2}
      ((f.buckets i).swap fp (choices kicks)).1 i := by
  obtain ⟨_,still⟩ := Bucket.swapFull full real (choices kicks)
  rw [relocate]
  dsimp only
  rw [back,insertIntoFull]
  dsimp only
  rw [update_self]
  exact still

theorem kickTwice {kicks} (same : choices (kicks + 1) = choices kicks) :
    relocate fpHash choices (kicks + 2) f fp i = relocate fpHash choices kicks f fp i := by
  obtain ⟨old,still⟩ := Bucket.swapFull full real (choices (kicks + 1))
  rw [kickStuck back full real,kickStuck back (by dsimp only; rw [update_self]; exact still) old]
  dsimp only
  rw [update_self,update_idem,← same,Bucket.swapBack,update_eq_self]

theorem kicksCancel {kicks turns} (same : ∀ k < kicks + 2 * turns, choices k = choices 0) :
    relocate fpHash choices (kicks + 2 * turns) f fp i = relocate fpHash choices kicks f fp i := by
  induction turns with
  | zero => rfl
  | succ turns ih =>
    have even : choices (kicks + 2 * turns + 1) = choices (kicks + 2 * turns) :=
      (same _ (by omega)).trans (same _ (by omega)).symm
    exact (kickTwice back full real even).trans (ih (fun k before => same k (by omega)))

end Stuck

theorem insertStuck {f item} (aligned : Aligned hash fpHash capacity item)
    (back : ∀ g, altIndex fpHash g (home hash fpHash capacity item).1 = (home hash fpHash capacity item).1)
    (full : (0 : Fingerprint) ∉ (f.buckets (home hash fpHash capacity item).1).entries) (choices) :
    f.insert hash fpHash item choices =
      relocate fpHash choices maxKicks f (home hash fpHash capacity item).2 (home hash fpHash capacity item).1 := by
  have second := aligned.trans (back _)
  have none := insertIntoFull full (home hash fpHash capacity item).2
  unfold insert
  dsimp only
  rw [second]
  unfold home at none ⊢
  rw [none]
  dsimp only
  rw [none]

structure Holds (hash : α → U64) (fpHash : Fingerprint → U64) (f : CuckooFilter capacity) (present : List α) : Prop where
  aligned : ∀ item ∈ present, Aligned hash fpHash capacity item
  covered : Covered (altIndex fpHash) 0 f.held (present.map (home hash fpHash capacity))

theorem holdsNew : Holds hash fpHash (new capacity) [] := ⟨nofun,fun _ _ _ => Nat.zero_le _⟩

theorem Holds.stored {f present} (holds : Holds hash fpHash f present) {item} (mem : item ∈ present) :
    0 < f.held (home hash fpHash capacity item).1 (home hash fpHash capacity item).2 ∨
      0 < f.held (altIndex fpHash (home hash fpHash capacity item).2 (home hash fpHash capacity item).1)
        (home hash fpHash capacity item).2 :=
  coveredHeld holds.covered (homeReal hash fpHash item) (mem_map_of_mem mem)

theorem Holds.contained {f : CuckooFilter capacity} {present} (holds : Holds hash fpHash f present) {item}
    (mem : item ∈ present) : f.contains hash fpHash item = true :=
  containsHeld (holds.aligned item mem) (holds.stored mem)

theorem Holds.inserted {f : CuckooFilter capacity} {present} (holds : Holds hash fpHash f present) {item choices}
    (aligned : Aligned hash fpHash capacity item)
    (ok : (f.insert hash fpHash item choices).1 = true) :
    Holds hash fpHash (f.insert hash fpHash item choices).2 (item::present) where
  aligned := forall_mem_cons.mpr ⟨aligned,holds.aligned⟩
  covered := coveredPut holds.covered (fun i _ real => insertCopies aligned (Prod.ext ok rfl) i real)

theorem Holds.deleted [DecidableEq α] {f : CuckooFilter capacity} {present} (holds : Holds hash fpHash f present)
    {item} (mem : item ∈ present) : Holds hash fpHash (f.delete hash fpHash item).2 (present.erase item) where
  aligned := fun other mem' => holds.aligned other (mem_of_mem_erase mem')
  covered := coveredTake holds.covered ((perm_cons_erase mem).map (home hash fpHash capacity))
    (fun i _ real => deleteCopies (holds.aligned item mem) (holds.stored mem) i real)

end Hashed
end CuckooFilter

inductive FilterCall (α : Type) where
  | insert (item : α) (choices : Nat → U64)
  | delete (item : α)

structure Tracked (capacity : Nat) (α : Type) where
  filter : CuckooFilter capacity
  present : List α

section Runs
variable {capacity : Nat} {α : Type} [DecidableEq α] (hash : α → U64) (fpHash : Fingerprint → U64)

variable (s : Tracked capacity α)

def serve : FilterCall α → Tracked capacity α
  | .insert item choices =>
    let (ok,filter) := s.filter.insert hash fpHash item choices
    ⟨filter,if ok then item::s.present else s.present⟩
  | .delete item => ⟨(s.filter.delete hash fpHash item).2,s.present.erase item⟩

def DeletesPresent : FilterCall α → Prop
  | .insert _ _ => True
  | .delete item => item ∈ s.present

def Settles : FilterCall α → Prop
  | .insert item choices =>
    (s.filter.insert hash fpHash item choices).1 = true ∧ CuckooFilter.Aligned hash fpHash capacity item
  | .delete _ => True

variable {hash fpHash}

theorem holdsServe {s : Tracked capacity α} {call}
    (holds : CuckooFilter.Holds hash fpHash s.filter s.present) (deletes : DeletesPresent s call)
    (settles : Settles hash fpHash s call) :
    CuckooFilter.Holds hash fpHash (serve hash fpHash s call).filter (serve hash fpHash s call).present := by
  cases call with
  | insert item choices =>
    obtain ⟨ok,aligned⟩ := settles
    unfold serve
    dsimp only
    rw [if_pos ok]
    exact holds.inserted aligned ok
  | delete item => exact holds.deleted deletes

end Runs
end QuantumChain.BloomFilters
