import Mathlib.Data.Finmap
import Mathlib.Data.Multiset.Sort
import Mathlib.Algebra.BigOperators.Group.Multiset.Basic
import Mathlib.Algebra.BigOperators.Group.Finset.Basic
import Mathlib.Algebra.Order.BigOperators.Group.Finset

/-! Finite keyed maps with extensional equality.
Any order of walking through one is allowed. -/
namespace QuantumChain
open List

abbrev KeyedMap (K V : Type) := Finmap (fun _ : K => V)

namespace KeyedMap
variable {K V : Type}

def size (m : KeyedMap K V) : Nat := m.keys.card

def retain (keep : K → V → Bool) (m : KeyedMap K V) : KeyedMap K V where
  entries := m.entries.filter (fun e => keep e.1 e.2)
  nodupKeys := by
    rw [← Multiset.nodup_keys]
    exact Multiset.nodup_of_le (Multiset.map_le_map (Multiset.filter_le _ _))
      (Multiset.nodup_keys.mpr m.nodupKeys)

def total (f : V → Nat) (m : KeyedMap K V) : Nat := (m.entries.map (fun e => f e.2)).sum

def count (P : V → Bool) (m : KeyedMap K V) : Nat := total (fun v => if P v then 1 else 0) m

theorem sizeCount (m : KeyedMap K V) : count (fun _ => true) m = size m := by
  simp [count,total,size,Finmap.keys,Multiset.keys]

variable [DecidableEq K]

theorem lookupInsert (m : KeyedMap K V) (k) (v) (a) :
    (m.insert k v).lookup a = if a = k then some v else m.lookup a := by
  split
  · subst a; exact Finmap.lookup_insert m
  · rename_i other; exact Finmap.lookup_insert_of_ne m other

theorem lookupErase (m : KeyedMap K V) (k a) : (m.erase k).lookup a = if a = k then none else m.lookup a := by
  split
  · subst a; exact Finmap.lookup_erase k m
  · rename_i other; exact Finmap.lookup_erase_ne other

theorem lookupRetain (keep) (m : KeyedMap K V) (a) : (retain keep m).lookup a = (m.lookup a).filter (keep a) := by
  ext v
  rw [Finmap.lookup_eq_some_iff, Option.filter_eq_some_iff, Finmap.lookup_eq_some_iff]
  simp [retain]

theorem lookupRetainSome {keep m} {a : K} {v : V} :
    (retain keep m).lookup a = some v ↔ m.lookup a = some v ∧ keep a v = true := by
  rw [lookupRetain,Option.filter_eq_some_iff]

theorem presentInsert {m : KeyedMap K V} {a} (present : ∃ w, m.lookup a = some w) (k) (v) :
    ∃ w, (m.insert k v).lookup a = some w := by
  rw [lookupInsert]
  split
  · exact ⟨v,rfl⟩
  · exact present

theorem keysInsert (m : KeyedMap K V) (k) (v) : (m.insert k v).keys = insert k m.keys := by
  ext a
  simp only [Finmap.mem_keys,Finmap.mem_insert,Finset.mem_insert]

theorem memKeys {m : KeyedMap K V} {k} : k ∈ m.keys ↔ ∃ v, m.lookup k = some v := by
  rw [Finmap.mem_keys]
  exact Finmap.mem_iff

theorem emptyOrHolds (m : KeyedMap K V) : m = ∅ ∨ ∃ k v, m.lookup k = some v := by
  by_cases holds : ∃ k v, m.lookup k = some v
  · exact .inr holds
  · refine .inl (Finmap.ext_lookup (fun k => ?_))
    cases found : m.lookup k with
    | none => rfl
    | some v => exact absurd ⟨k,v,found⟩ holds

theorem sizeInsertFresh {m} {k : K} (fresh : m.lookup k = none) (v : V) : size (m.insert k v) = size m + 1 := by
  have absent : k ∉ m.keys := by
    intro present
    obtain ⟨w,found⟩ := memKeys.mp present
    simp [fresh] at found
  simp only [size,keysInsert,Finset.card_insert_of_notMem absent]

theorem sizeInsertKnown {m} {k : K} {v} (known : m.lookup k = some v) (w : V) : size (m.insert k w) = size m := by
  simp only [size,keysInsert,Finset.insert_eq_of_mem (memKeys.mpr ⟨v,known⟩)]

theorem sizeMono {m n : KeyedMap K V} (present : ∀ k v, m.lookup k = some v → ∃ w, n.lookup k = some w) :
    size m ≤ size n := by
  apply Finset.card_le_card
  intro k mem
  obtain ⟨v,found⟩ := memKeys.mp mem
  exact memKeys.mpr (present k v found)

theorem insertSame {m : KeyedMap K V} {k v} (present : m.lookup k = some v) : m.insert k v = m := by
  apply Finmap.ext_lookup
  intro a
  rw [lookupInsert]
  split
  · subst a; exact present.symm
  · rfl

theorem lookupTouched {m next : KeyedMap K V} {k} {f : V → V} (absent : m.lookup k = none → next = m)
    (present : ∀ v, m.lookup k = some v → next = m.insert k (f v)) (a) :
    next.lookup a = if a = k then (m.lookup a).bind (fun v => some (f v)) else m.lookup a := by
  cases found : m.lookup k with
  | none =>
    rw [absent found]
    split
    · rename_i here
      rw [here,found]
      rfl
    · rfl
  | some v =>
    rw [present v found,lookupInsert]
    split
    · rename_i here
      rw [here,found]
      rfl
    · rfl

theorem totalInsertFresh {m} {k : K} (fresh : m.lookup k = none) (f) (v : V) :
    total f (m.insert k v) = f v + total f m := by
  have absent := Finmap.lookup_eq_none.mp fresh
  simp [total,Finmap.entries_insert_of_notMem absent]

theorem eraseInsert {m : KeyedMap K V} {k v} (present : m.lookup k = some v) : (m.erase k).insert k v = m := by
  apply Finmap.ext_lookup
  intro a
  rw [lookupInsert,lookupErase]
  split
  · subst a; exact present.symm
  · rfl

theorem sizeErase {m} {k : K} {v : V} (present : m.lookup k = some v) : size (m.erase k) + 1 = size m := by
  rw [← sizeInsertFresh (Finmap.lookup_erase k m) v,eraseInsert present]

theorem sizeEraseAll {m : KeyedMap K V} {keys : List K} (once : keys.Nodup) (present : ∀ k ∈ keys, ∃ v, m.lookup k = some v) :
    size (keys.foldl (fun m k => m.erase k) m) + keys.length = size m := by
  induction keys generalizing m with
  | nil => rfl
  | cons k rest ih =>
    obtain ⟨new,once⟩ := nodup_cons.mp once
    obtain ⟨v,found⟩ := present k mem_cons_self
    have later : ∀ a ∈ rest, ∃ w, (m.erase k).lookup a = some w := by
      intro a mem
      have other : a ≠ k := fun same => new (same ▸ mem)
      rw [lookupErase,if_neg other]
      exact present a (mem_cons_of_mem _ mem)
    rw [foldl_cons,length_cons,← sizeErase found,← ih once later]
    omega

theorem totalErase {m} {k : K} {v} (present : m.lookup k = some v) (f : V → Nat) :
    total f m = f v + total f (m.erase k) := by
  have step := totalInsertFresh (Finmap.lookup_erase k m) f v
  rwa [eraseInsert present] at step

theorem totalInsert (m) (k : K) (v) (f : V → Nat) :
    total f (m.insert k v) + ((m.lookup k).map f).getD 0 = total f m + f v := by
  have rewritten : (m.insert k v) = (m.erase k).insert k v := by
    apply Finmap.ext_lookup
    intro a
    rw [lookupInsert,lookupInsert,lookupErase]
    split <;> rfl
  rw [rewritten,totalInsertFresh (Finmap.lookup_erase k m)]
  cases found : m.lookup k with
  | none =>
    have same : m.erase k = m := by
      apply Finmap.ext_lookup
      intro a
      rw [lookupErase]
      split
      · subst a; exact found.symm
      · rfl
    rw [same]
    simp [Nat.add_comm]
  | some w =>
    rw [totalErase found f]
    simp only [Option.map_some,Option.getD_some]
    omega

theorem countInsertFresh {m} {k : K} (fresh : m.lookup k = none) (P) (v : V) :
    count P (m.insert k v) = (if P v then 1 else 0) + count P m :=
  totalInsertFresh fresh _ v

theorem countErase {m} {k : K} {v} (present : m.lookup k = some v) (P : V → Bool) :
    count P m = (if P v then 1 else 0) + count P (m.erase k) :=
  totalErase present _

theorem countUpdate {m} {k : K} {v w} (present : m.lookup k = some v) {P : V → Bool}
    (same : P w = P v) : count P (m.insert k w) = count P m := by
  have moved := totalInsert m k w (fun v => if P v then 1 else 0)
  simp only [present,Option.map_some,Option.getD_some,same] at moved
  exact Nat.add_right_cancel moved

theorem countKeys (m : KeyedMap K V) (P) : count P m = (m.keys.filter (fun k => (m.lookup k).any P = true)).card := by
  have entry : ∀ e ∈ m.entries, (m.lookup e.1).any P = P e.2 := by
    intro e mem
    rw [Finmap.lookup_eq_some_iff.mpr mem]
    rfl
  have counted : count P m = (m.entries.filter (fun e => P e.2 = true)).card := by
    unfold count total
    rw [← Multiset.countP_eq_card_filter]
    generalize m.entries = entries
    induction entries using Multiset.induction_on with
    | empty => rfl
    | cons e rest ih =>
      rw [Multiset.map_cons,Multiset.sum_cons,Multiset.countP_cons,ih,Nat.add_comm]
  have same : m.entries.filter (fun e => P e.2 = true) = m.entries.filter (fun e => (m.lookup e.1).any P = true) :=
    Multiset.filter_congr (fun e mem => by rw [entry e mem])
  rw [counted,same,Finset.card_def,Finset.filter_val]
  unfold Finmap.keys Multiset.keys
  rw [Multiset.filter_map,Multiset.card_map]
  rfl

section InsertAll
variable {ε : Type} (key : ε → K) (value : ε → V)

def insertAll (entries : List ε) (m : KeyedMap K V) : KeyedMap K V :=
  entries.foldl (fun m e => m.insert (key e) (value e)) m

variable {key value}

theorem insertAllOther {entries k} (other : ∀ e ∈ entries, key e ≠ k) (m) :
    (insertAll key value entries m).lookup k = m.lookup k := by
  induction entries generalizing m with
  | nil => rfl
  | cons e rest ih =>
    rw [insertAll,foldl_cons,← insertAll,ih (fun d mem => other d (mem_cons_of_mem _ mem)),lookupInsert,
      if_neg (Ne.symm (other e mem_cons_self))]

theorem insertAllLast {entries e} (mem : e ∈ entries) (m) :
    ∃ d ∈ entries, key d = key e ∧ (insertAll key value entries m).lookup (key e) = some (value d) := by
  induction entries generalizing m e with
  | nil => exact absurd mem not_mem_nil
  | cons a rest ih =>
    by_cases again : ∃ d ∈ rest, key d = key e
    · obtain ⟨d,inside,same⟩ := again
      obtain ⟨c,found,key',last⟩ := ih inside (m.insert (key a) (value a))
      exact ⟨c,mem_cons_of_mem _ found,key'.trans same,same ▸ last⟩
    · have only : e = a := by
        rcases mem_cons.mp mem with here | there
        · exact here
        · exact absurd ⟨e,there,rfl⟩ again
      subst only
      refine ⟨e,mem_cons_self,rfl,?_⟩
      rw [insertAll,foldl_cons,← insertAll,insertAllOther (fun d inside same => again ⟨d,inside,same⟩),lookupInsert,
        if_pos rfl]

theorem insertAllAgrees {entries} (agree : ∀ a ∈ entries, ∀ b ∈ entries, key a = key b → value a = value b)
    {e} (mem : e ∈ entries) (m) : (insertAll key value entries m).lookup (key e) = some (value e) := by
  obtain ⟨d,inside,same,found⟩ := @insertAllLast _ _ _ _ key value _ _ mem m
  rw [found,agree d inside e mem same]

end InsertAll

section PushAll
variable {ε : Type} (key : ε → K) (value : ε → V)

def pushAll (entries : List ε) : KeyedMap K (List V) :=
  entries.foldl (fun m e => m.insert (key e) ((m.lookup (key e)).getD [] ++ [value e])) ∅

theorem pushAllHeld (entries) (k) :
    ((pushAll key value entries).lookup k).getD [] = (entries.filter fun e => key e = k).map value := by
  induction entries using List.reverseRecOn with
  | nil => rfl
  | append_singleton before e ih =>
    have last : pushAll key value (before ++ [e]) =
        (pushAll key value before).insert (key e) (((pushAll key value before).lookup (key e)).getD [] ++ [value e]) := by
      rw [pushAll,foldl_append]
      rfl
    rw [last,lookupInsert,filter_append,map_append,← ih]
    by_cases same : k = key e
    · subst same
      simp
    · simp [same,Ne.symm same]

end PushAll

theorem foldTouches {σ : Type} (map : σ → KeyedMap K V) {one f} (settled : ∀ v w, f v = some w → f w = some w)
    (touches : ∀ a k h, (map (one a k)).lookup h = if h = k then ((map a).lookup h).bind f else (map a).lookup h)
    (a) (keys : List K) (h) :
    (map (keys.foldl one a)).lookup h = if h ∈ keys then ((map a).lookup h).bind f else (map a).lookup h := by
  induction keys generalizing a with
  | nil => simp
  | cons k rest ih =>
    rw [foldl_cons,ih,touches]
    by_cases here : h = k
    · subst here
      simp only [if_true,mem_cons,true_or]
      split
      · cases found : ((map a).lookup h).bind f with
        | none => rfl
        | some w =>
          obtain ⟨v,_,last⟩ := Option.bind_eq_some_iff.mp found
          exact settled v w last
      · rfl
    · simp [here]

end KeyedMap

def ascending {α : Type} [LinearOrder α] (s : Finset α) : List α :=
  Quot.liftOn s.1 (fun l => l.insertionSort (· ≤ ·)) (fun a b same =>
    ((List.perm_insertionSort _ a).trans (same.trans (List.perm_insertionSort _ b).symm)).eq_of_pairwise'
      (List.pairwise_insertionSort _ a) (List.pairwise_insertionSort _ b))

theorem memAscending {α} [LinearOrder α] {s} {a : α} : a ∈ ascending s ↔ a ∈ s := by
  obtain ⟨m,nodup⟩ := s
  induction m using Quot.ind with
  | mk l => exact mem_insertionSort _

theorem nodupAscending {α} [LinearOrder α] (s : Finset α) : (ascending s).Nodup := by
  obtain ⟨m,nodup⟩ := s
  induction m using Quot.ind with
  | mk l => exact (perm_insertionSort _ l).nodup_iff.mpr nodup

theorem sortedAscending {α} [LinearOrder α] (s : Finset α) : (ascending s).Pairwise (· ≤ ·) := by
  obtain ⟨m,nodup⟩ := s
  induction m using Quot.ind with
  | mk l => exact pairwise_insertionSort _ l

theorem headAscending {α} [LinearOrder α] {s a} (first : (ascending s).head? = some a) : IsLeast (s : Set α) a := by
  obtain ⟨rest,whole⟩ := head?_eq_some_iff.mp first
  have sorted := sortedAscending s
  rw [whole,pairwise_cons] at sorted
  refine ⟨memAscending.mp (whole ▸ mem_cons_self),fun b mem => ?_⟩
  rcases mem_cons.mp (whole ▸ memAscending.mpr mem) with rfl | later
  · exact le_refl b
  · exact sorted.1 b later

section SortedBy
variable {α β : Type} [LinearOrder β] (key : α → β)

theorem sortedBy [DecidableRel fun a b : α => key a ≤ key b] (l : List α) :
    (l.insertionSort fun a b => key a ≤ key b).Pairwise fun a b => key a ≤ key b := by
  have total : Std.Total fun a b : α => key a ≤ key b := ⟨fun a b => le_total (key a) (key b)⟩
  have trans : IsTrans α fun a b => key a ≤ key b := ⟨fun _ _ _ => le_trans⟩
  exact pairwise_insertionSort _ _

theorem sortedByUnique {key : α → β} {l m : List α} (perm : l.Perm m) (distinct : (m.map key).Nodup)
    (left : l.Pairwise fun a b => key a ≤ key b) (right : m.Pairwise fun a b => key a ≤ key b) : l = m := by
  refine perm.eq_of_pairwise (fun a b memA memB ab ba => ?_) left right
  exact inj_on_of_nodup_map distinct (perm.mem_iff.mp memA) memB (le_antisymm ab ba)

end SortedBy

structure Visit (K : Type) where
  order : Finset K → List K
  nodup : ∀ keys, (order keys).Nodup
  complete : ∀ keys k, k ∈ order keys ↔ k ∈ keys

namespace Visit
variable {K V : Type} [DecidableEq K]

def entries (visit : Visit K) (m : KeyedMap K V) : List (K × V) :=
  (visit.order m.keys).filterMap (fun k => (m.lookup k).map (fun v => (k,v)))

theorem memEntries {visit : Visit K} {m k} {v : V} : (k,v) ∈ visit.entries m ↔ m.lookup k = some v := by
  unfold entries
  rw [mem_filterMap]
  constructor
  · rintro ⟨a,_,shown⟩
    obtain ⟨w,found,same⟩ := Option.map_eq_some_iff.mp shown
    cases same
    exact found
  · intro found
    exact ⟨k,(visit.complete _ _).mpr (KeyedMap.memKeys.mpr ⟨v,found⟩),by rw [found]; rfl⟩

variable (visit : Visit K)

theorem entryKeys (m : KeyedMap K V) : (visit.entries m).map Prod.fst = visit.order m.keys := by
  have known : ∀ k ∈ visit.order m.keys, ∃ v, m.lookup k = some v :=
    fun k mem => KeyedMap.memKeys.mp ((visit.complete _ _).mp mem)
  unfold entries
  generalize visit.order m.keys = keys at known
  induction keys with
  | nil => rfl
  | cons k rest ih =>
    obtain ⟨v,found⟩ := known k mem_cons_self
    have later := ih (fun a mem => known a (mem_cons_of_mem _ mem))
    simp [found,later]

theorem countOrder (s : Finset K) (P : K → Prop) [DecidablePred P] :
    ((visit.order s).filter (fun k => decide (P k))).length = (s.filter P).card := by
  rw [← toFinset_card_of_nodup ((visit.nodup s).filter _)]
  congr 1
  ext k
  simp [visit.complete]

theorem orderLength (s) : (visit.order s).length = s.card := by
  have all : (visit.order s).toFinset = s := by
    ext k
    rw [mem_toFinset,visit.complete]
  rw [← toFinset_card_of_nodup (visit.nodup s),all]

theorem entriesLength (m : KeyedMap K V) : (visit.entries m).length = KeyedMap.size m := by
  rw [← length_map,entryKeys,orderLength]
  rfl

theorem insertEntries (m) :
    KeyedMap.insertAll Prod.fst Prod.snd (visit.entries m) (∅ : KeyedMap K V) = m := by
  apply Finmap.ext_lookup
  intro k
  cases found : m.lookup k with
  | none =>
    rw [KeyedMap.insertAllOther]
    · exact Finmap.lookup_empty k
    · rintro ⟨a,v⟩ mem rfl
      rw [memEntries.mp mem] at found
      cases found
  | some v =>
    have agree : ∀ a ∈ visit.entries m, ∀ b ∈ visit.entries m, a.1 = b.1 → a.2 = b.2 := by
      rintro ⟨a,v⟩ memA ⟨b,w⟩ memB rfl
      exact Option.some.inj ((memEntries.mp memA).symm.trans (memEntries.mp memB))
    exact KeyedMap.insertAllAgrees agree (memEntries.mpr found) ∅

end Visit

def Visit.upwards {K : Type} [LinearOrder K] : Visit K := ⟨ascending,nodupAscending,fun _ _ => memAscending⟩

end QuantumChain
