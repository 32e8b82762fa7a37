import QuantumChain.CuckooFilter

/-! The replay cache over two cuckoo filters.
The clock and the filters' choices are inputs. -/
namespace QuantumChain.NodeRuntime
open BloomFilters StepRun CuckooFilter

abbrev Uuid := BitVec 128

structure NonceReplayCache (capacity : Nat) where
  current : CuckooFilter capacity
  previous : CuckooFilter capacity
  windowStart : Nat
  windowDuration : Nat
  totalChecked : U64
  replaysDetected : U64

/-- The two readings of the clock in one call: when the window's age is read, and when a new window is begun. -/
structure Moment where
  now : Nat
  begun : Nat

namespace NonceReplayCache
variable {capacity : Nat}

def withCapacity (capacity windowDuration now : Nat) : NonceReplayCache capacity :=
  ⟨.new capacity,.new capacity,now,windowDuration,0,0⟩

variable (c : NonceReplayCache capacity)

def expired (clock : Moment) : Bool := c.windowDuration < clock.now - c.windowStart

def maybeRotate (clock : Moment) : NonceReplayCache capacity :=
  if c.expired clock then {c with previous := c.current, current := .new capacity, windowStart := clock.begun} else c

def clear (now : Nat) : NonceReplayCache capacity :=
  {c with current := .new capacity, previous := .new capacity, windowStart := now}

section Hashed
variable (hash : Uuid → U64) (fpHash : Fingerprint → U64) (c : NonceReplayCache capacity) (nonce : Uuid)

def wasSeen : Bool :=
  c.current.contains hash fpHash nonce || c.previous.contains hash fpHash nonce

def store (choices : Nat → U64) : NonceReplayCache capacity :=
  {c with current := (c.current.insert hash fpHash nonce choices).2}

def isReplay (clock : Moment) (choices : Nat → U64) :
    Bool × NonceReplayCache capacity :=
  let c := maybeRotate {c with totalChecked := c.totalChecked + 1} clock
  if c.wasSeen hash fpHash nonce then (true,{c with replaysDetected := c.replaysDetected + 1})
  else (false,c.store hash fpHash nonce choices)

def markSeen (clock : Moment) (choices : Nat → U64) :
    NonceReplayCache capacity :=
  (c.maybeRotate clock).store hash fpHash nonce choices

end Hashed
end NonceReplayCache

inductive CacheCall where
  | isReplay (nonce : Uuid) (clock : Moment) (choices : Nat → U64)
  | markSeen (nonce : Uuid) (clock : Moment) (choices : Nat → U64)
  | clear (now : Nat)

structure Watch (capacity : Nat) where
  cache : NonceReplayCache capacity
  seen : List Uuid
  seenBefore : List Uuid

section Runs
variable {capacity : Nat} (hash : Uuid → U64) (fpHash : Fingerprint → U64)

variable (w : Watch capacity)

def Watch.rotate (clock : Moment) : Watch capacity :=
  if w.cache.expired clock then ⟨w.cache.maybeRotate clock,[],w.seen⟩ else ⟨w.cache.maybeRotate clock,w.seen,w.seenBefore⟩

def Watch.serve : CacheCall → Watch capacity
  | .isReplay nonce clock choices =>
    let (replay,cache) := w.cache.isReplay hash fpHash nonce clock choices
    let w := w.rotate clock
    ⟨cache,if replay then w.seen else nonce::w.seen,w.seenBefore⟩
  | .markSeen nonce clock choices =>
    let cache := w.cache.markSeen hash fpHash nonce clock choices
    let w := w.rotate clock
    ⟨cache,nonce::w.seen,w.seenBefore⟩
  | .clear now => ⟨w.cache.clear now,[],[]⟩

def OnlyFresh : CacheCall → Prop
  | .isReplay nonce clock choices =>
    (w.cache.isReplay hash fpHash nonce clock choices).1 = false →
      nonce ∉ (w.rotate clock).seen ∧ nonce ∉ (w.rotate clock).seenBefore
  | _ => True

def Stored : CacheCall → Prop
  | .isReplay nonce clock choices => (w.cache.isReplay hash fpHash nonce clock choices).1 = false →
    Settles hash fpHash ⟨(w.rotate clock).cache.current,(w.rotate clock).seen⟩ (.insert nonce choices)
  | .markSeen nonce clock choices =>
    Settles hash fpHash ⟨(w.rotate clock).cache.current,(w.rotate clock).seen⟩ (.insert nonce choices)
  | .clear _ => True

structure Watch.Holds (w : Watch capacity) : Prop where
  current : CuckooFilter.Holds hash fpHash w.cache.current w.seen
  previous : CuckooFilter.Holds hash fpHash w.cache.previous w.seenBefore

variable (w : Watch capacity)

theorem rotateCache (clock) : (w.rotate clock).cache = w.cache.maybeRotate clock := by
  unfold Watch.rotate
  split <;> rfl

theorem isReplayRotated (nonce) (clock) (choices) :
    (w.cache.isReplay hash fpHash nonce clock choices).1 = (w.rotate clock).cache.wasSeen hash fpHash nonce ∧
    (w.cache.isReplay hash fpHash nonce clock choices).2.previous = (w.rotate clock).cache.previous ∧
    (w.cache.isReplay hash fpHash nonce clock choices).2.current =
      if (w.rotate clock).cache.wasSeen hash fpHash nonce then (w.rotate clock).cache.current
      else ((w.rotate clock).cache.current.insert hash fpHash nonce choices).2 := by
  rw [rotateCache]
  have counted : NonceReplayCache.maybeRotate {w.cache with totalChecked := w.cache.totalChecked + 1} clock =
      {w.cache.maybeRotate clock with totalChecked := w.cache.totalChecked + 1} := by
    unfold NonceReplayCache.maybeRotate NonceReplayCache.expired
    split <;> rfl
  unfold NonceReplayCache.isReplay
  rw [counted]
  generalize w.cache.maybeRotate clock = c
  have asked : NonceReplayCache.wasSeen hash fpHash {c with totalChecked := w.cache.totalChecked + 1} nonce =
      c.wasSeen hash fpHash nonce := rfl
  dsimp only
  rw [asked]
  cases c.wasSeen hash fpHash nonce <;> exact ⟨rfl,rfl,rfl⟩

theorem serveCheck (nonce) (clock) (choices) :
    w.serve hash fpHash (.isReplay nonce clock choices) =
      ⟨(w.cache.isReplay hash fpHash nonce clock choices).2,
        if (w.cache.isReplay hash fpHash nonce clock choices).1 then (w.rotate clock).seen else nonce::(w.rotate clock).seen,
        (w.rotate clock).seenBefore⟩ := rfl

variable {hash fpHash}

theorem rotateHolds {w : Watch capacity} (holds : w.Holds hash fpHash) (clock) :
    (w.rotate clock).Holds hash fpHash := by
  unfold Watch.rotate NonceReplayCache.maybeRotate
  split
  · exact ⟨holdsNew,holds.current⟩
  · exact holds

theorem onlyFresh {w : Watch capacity} (holds : w.Holds hash fpHash) (call) : OnlyFresh hash fpHash w call := by
  cases call with
  | isReplay nonce clock choices =>
    intro fresh
    have rotated := rotateHolds holds clock
    rw [(isReplayRotated hash fpHash w nonce clock choices).1,NonceReplayCache.wasSeen,Bool.or_eq_false_iff] at fresh
    refine ⟨fun mem => ?_,fun mem => ?_⟩
    · cases fresh.1.symm.trans (rotated.current.contained mem)
    · cases fresh.2.symm.trans (rotated.previous.contained mem)
  | markSeen nonce clock choices => trivial
  | clear now => trivial

theorem holdsCall {w : Watch capacity} {call} (holds : w.Holds hash fpHash)
    (stored : Stored hash fpHash w call) : (w.serve hash fpHash call).Holds hash fpHash := by
  cases call with
  | isReplay nonce clock choices =>
    have rotated := rotateHolds holds clock
    obtain ⟨answer,previous,current⟩ := isReplayRotated hash fpHash w nonce clock choices
    unfold Stored at stored
    unfold Watch.serve
    dsimp only at stored ⊢
    rw [answer] at stored ⊢
    constructor
    · dsimp only
      rw [current]
      cases known : (w.rotate clock).cache.wasSeen hash fpHash nonce with
      | true => exact rotated.current
      | false => exact rotated.current.inserted (stored known).2 (stored known).1
    · dsimp only
      rw [previous]
      exact rotated.previous
  | markSeen nonce clock choices =>
    have rotated := rotateHolds holds clock
    unfold Stored at stored
    unfold Watch.serve NonceReplayCache.markSeen
    dsimp only
    rw [← rotateCache]
    exact ⟨rotated.current.inserted stored.2 stored.1,rotated.previous⟩
  | clear now => exact ⟨holdsNew,holdsNew⟩

variable (hash fpHash)

theorem noKickOut (capacity windowDuration now : Nat) {α : Type} [DecidableEq α] (itemHash : α → U64) :
    (∀ calls : List (FilterCall α),
      Along (serve itemHash fpHash) (fun s call => DeletesPresent s call ∧ Settles itemHash fpHash s call)
        ⟨.new capacity,[]⟩ calls →
      ∀ item ∈ (run (serve itemHash fpHash) ⟨.new capacity,[]⟩ calls).present,
        (run (serve itemHash fpHash) ⟨.new capacity,[]⟩ calls).filter.contains itemHash fpHash item = true) ∧
    ∀ calls : List CacheCall,
      Along (Watch.serve hash fpHash) (Stored hash fpHash) ⟨.withCapacity capacity windowDuration now,[],[]⟩ calls →
      Along (Watch.serve hash fpHash) (OnlyFresh hash fpHash) ⟨.withCapacity capacity windowDuration now,[],[]⟩ calls := by
  constructor
  · intro calls meets item mem
    have holds := runKeeps (I := fun s : Tracked capacity α => CuckooFilter.Holds itemHash fpHash s.filter s.present)
      (fun s call holds both => holdsServe holds both.1 both.2) holdsNew meets
    exact holds.contained mem
  · intro calls meets
    exact alongUnder (I := fun w : Watch capacity => w.Holds hash fpHash) (fun w call holds stored => holdsCall holds stored)
      (fun w call holds _ => onlyFresh holds call) ⟨holdsNew,holdsNew⟩ meets

end Runs

example :
    let hash (nonce : Uuid) : U64 := nonce.setWidth 64 <<< 48
    let fpHash (fp : Fingerprint) : U64 := if fp = 1 then 1 else 0
    let s := run (serve hash fpHash) (⟨.new 16,[]⟩ : Tracked 16 Uuid) ([0,2,2,2,3].map fun item => .insert item (fun _ => 0))
    s.present = [3,2,2,2,0] ∧ s.filter.contains hash fpHash 0 = false := by
  decide +kernel

def highHash (nonce : Uuid) : U64 := nonce.setWidth 64 <<< 48

def noHash (_ : Fingerprint) : U64 := 0

theorem noHashBack {capacity} (i : Index capacity) (g) : altIndex noHash g i = i :=
  Fin.ext ((congrArg (· % bucketCount capacity) (Nat.xor_zero i.val)).trans (Nat.mod_eq_of_lt i.isLt))

def secondThenFirst (kicks : Nat) : U64 := if kicks = 499 then 1 else 0

def fourInserts : Tracked 16 Uuid :=
  run (serve highHash noHash) ⟨.new 16,[]⟩
    [.insert 1 secondThenFirst,.insert 2 secondThenFirst,.insert 3 secondThenFirst,.insert 4 secondThenFirst]

def firstIndex : Index 16 := ⟨0,by decide⟩

def fifthInSecond : CuckooFilter 16 :=
  ⟨Function.update fourInserts.filter.buckets firstIndex
    ((fourInserts.filter.buckets firstIndex).swap 5 (secondThenFirst 499)).2,fourInserts.filter.count⟩

theorem fifthRelocates : fourInserts.filter.insert highHash noHash (5 : Uuid) secondThenFirst =
    relocate noHash secondThenFirst 1 fifthInSecond 2 firstIndex := by
  have full : (0 : Fingerprint) ∉ (fourInserts.filter.buckets firstIndex).entries := by decide +kernel
  have still : (0 : Fingerprint) ∉ (fifthInSecond.buckets firstIndex).entries := by decide +kernel
  have second : ((fourInserts.filter.buckets firstIndex).swap 5 (secondThenFirst 499)).1 = 2 := by decide +kernel
  have home : CuckooFilter.home highHash noHash 16 (5 : Uuid) = (firstIndex,5) := by decide +kernel
  calc fourInserts.filter.insert highHash noHash (5 : Uuid) secondThenFirst
      = relocate noHash secondThenFirst (499 + 1) fourInserts.filter 5 firstIndex := by
        have aligned : CuckooFilter.Aligned highHash noHash 16 (5 : Uuid) :=
          alignedOfFingerprint highHash noHash (by decide +kernel)
        have stuck := insertStuck (f := fourInserts.filter) aligned (noHashBack _) (home ▸ full) secondThenFirst
        rw [home] at stuck
        exact stuck
    _ = relocate noHash secondThenFirst (1 + 2 * 249) fifthInSecond 2 firstIndex := by
        rw [kickStuck (noHashBack firstIndex) full (by decide),second]
        rfl
    _ = relocate noHash secondThenFirst 1 fifthInSecond 2 firstIndex :=
        kicksCancel (noHashBack firstIndex) still (by decide)
          (fun k before => by unfold secondThenFirst; rw [if_neg (by omega),if_neg (by decide)])

def checkOf (nonce : Uuid) : CacheCall := .isReplay nonce ⟨0,0⟩ secondThenFirst

def fourChecks : Watch 16 :=
  run (Watch.serve highHash noHash) ⟨.withCapacity 16 600 0,[],[]⟩ [checkOf 1,checkOf 2,checkOf 3,checkOf 4]

theorem rotateAtOnce (w : Watch 16) : w.rotate ⟨0,0⟩ = w := by
  have young : w.cache.expired ⟨0,0⟩ = false := by simp [NonceReplayCache.expired]
  unfold Watch.rotate NonceReplayCache.maybeRotate
  rw [young]
  rfl

theorem twoKept : (2 : Uuid) ∈ (run (serve highHash noHash) (⟨.new 16,[]⟩ : Tracked 16 Uuid)
      [.insert 1 secondThenFirst,.insert 2 secondThenFirst,.delete 1]).present ∧
    (run (serve highHash noHash) (⟨.new 16,[]⟩ : Tracked 16 Uuid)
      [.insert 1 secondThenFirst,.insert 2 secondThenFirst,.delete 1]).filter.contains highHash noHash 2 = true ∧
    Along (Watch.serve highHash noHash) (OnlyFresh highHash noHash) ⟨.withCapacity 16 600 0,[],[]⟩
      [checkOf 1,checkOf 2,checkOf 1] := by
  obtain ⟨kept,fresh⟩ := noKickOut highHash noHash 16 600 0 highHash
  have present : (2 : Uuid) ∈ (run (serve highHash noHash) (⟨.new 16,[]⟩ : Tracked 16 Uuid)
      [.insert 1 secondThenFirst,.insert 2 secondThenFirst,.delete 1]).present := by decide +kernel
  refine ⟨present,kept _ ?_ 2 present,fresh _ ?_⟩
  · simp only [Along,DeletesPresent,Settles]
    decide +kernel
  · simp only [Along,Stored,Settles,checkOf]
    decide +kernel

theorem failedInsertDrops : (1 : Uuid) ∈ fourInserts.present ∧
    (fourInserts.filter.insert highHash noHash 5 secondThenFirst).1 = false ∧
    (fourInserts.filter.insert highHash noHash 5 secondThenFirst).2.contains highHash noHash (1 : Uuid) = false ∧
    ¬OnlyFresh highHash noHash (fourChecks.serve highHash noHash (checkOf 5)) (checkOf 1) := by
  have dropped : (fourInserts.filter.insert highHash noHash 5 secondThenFirst).2.contains highHash noHash (1 : Uuid) =
    false := by
    rw [fifthRelocates]
    decide +kernel
  refine ⟨by decide +kernel,by rw [fifthRelocates]; decide +kernel,dropped,fun fresh => ?_⟩
  have same : fourChecks.cache.current = fourInserts.filter := rfl
  have unseen : fourChecks.cache.wasSeen highHash noHash 5 = false := by decide +kernel
  obtain ⟨answer,previous,current⟩ := isReplayRotated highHash noHash fourChecks 5 ⟨0,0⟩ secondThenFirst
  rw [rotateAtOnce] at answer previous current
  rw [unseen] at answer current
  rw [if_neg Bool.false_ne_true,same] at current
  have again : (fourChecks.serve highHash noHash (checkOf 5)).cache.wasSeen highHash noHash 1 = false := by
    rw [checkOf,serveCheck,NonceReplayCache.wasSeen,Bool.or_eq_false_iff]
    dsimp only
    rw [current,previous]
    exact ⟨dropped,by decide +kernel⟩
  have accepted := (isReplayRotated highHash noHash (fourChecks.serve highHash noHash (checkOf 5))
    1 ⟨0,0⟩ secondThenFirst).1
  rw [rotateAtOnce,again] at accepted
  have seen : (1 : Uuid) ∈ ((fourChecks.serve highHash noHash (checkOf 5)).rotate ⟨0,0⟩).seen := by
    rw [rotateAtOnce,checkOf,serveCheck,answer,rotateAtOnce,if_neg Bool.false_ne_true]
    exact List.mem_cons_of_mem 5 (by decide +kernel)
  exact (fresh accepted).1 seen

end QuantumChain.NodeRuntime
