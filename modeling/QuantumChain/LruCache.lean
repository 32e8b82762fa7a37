import Mathlib.Data.List.Nodup
import Mathlib.Data.List.Basic
import Mathlib.Tactic.Common

/-! Bounded caches as a caller sees them, and one that drops the least recently used entry.
Callers assume only the four laws; which entry a full cache drops is left open by them. -/
namespace QuantumChain
open List

structure Cache (K V : Type) where
  Store : Type
  empty : (capacity : Nat) → 0 < capacity → Store
  size : Store → Nat
  put : Store → K → V → Store
  get : Store → K → Option V × Store

def Cache.find {K V : Type} (cache : Cache K V) (c : cache.Store) (k : K) : Option V := (cache.get c k).1

structure Cache.Lawful {K V : Type} (cache : Cache K V) : Prop where
  findEmpty : ∀ capacity positive k, cache.find (cache.empty capacity positive) k = none
  findPutSelf : ∀ c k v, cache.find (cache.put c k v) k = some v
  findPutOther : ∀ c k v a w, a ≠ k → cache.find (cache.put c k v) a = some w → cache.find c a = some w
  findGet : ∀ c k a, cache.find (cache.get c k).2 a = cache.find c a

structure LruCache (K V : Type) where
  entries : List (K × V)
  capacity : Nat
  distinct : (entries.map Prod.fst).Nodup
  positive : 0 < capacity
  bounded : entries.length ≤ capacity

namespace LruCache
variable {K V : Type}

def empty (capacity : Nat) (positive : 0 < capacity) : LruCache K V := ⟨[],capacity,nodup_nil,positive,Nat.zero_le _⟩

def size (c : LruCache K V) : Nat := c.entries.length

variable [DecidableEq K]

def find (c : LruCache K V) (k : K) : Option V := (c.entries.find? (fun e => e.1 = k)).map Prod.snd

def others (c : LruCache K V) (k : K) : List (K × V) := c.entries.filter (fun e => e.1 ≠ k)

theorem othersDistinct (c : LruCache K V) (k : K) (n : Nat) : (((c.others k).take n).map Prod.fst).Nodup :=
  c.distinct.sublist (((take_sublist n _).trans filter_sublist).map Prod.fst)

variable (c : LruCache K V)

-- a full cache keeps all but the last of the other entries
def put (k : K) (v : V) : LruCache K V where
  entries := (k,v)::(c.others k).take (c.capacity - 1)
  capacity := c.capacity
  positive := c.positive
  distinct := by
    rw [map_cons,nodup_cons]
    refine ⟨fun mem => ?_,c.othersDistinct k _⟩
    obtain ⟨e,kept,same⟩ := mem_map.mp mem
    exact of_decide_eq_true (mem_filter.mp (mem_of_mem_take kept)).2 same
  bounded := by
    have positive := c.positive
    rw [length_cons,length_take]
    omega

def get (k : K) : Option V × LruCache K V :=
  match c.find k with
  | none => (none,c)
  | some v => (some v,c.put k v)

theorem findPutSelf (k) (v) : (c.put k v).find k = some v := by
  simp [find,put]

theorem findOthers {a k} (other : a ≠ k) :
    ((c.others k).find? (fun e => e.1 = a)).map Prod.snd = c.find a := by
  unfold others find
  rw [find?_filter]
  congr 2
  funext e
  by_cases here : e.1 = a
  · simp [here,other]
  · simp [here]

theorem findPutOther {c : LruCache K V} {a k v w} (other : a ≠ k) (found : (c.put k v).find a = some w) :
    c.find a = some w := by
  rw [← c.findOthers other]
  unfold find put at found
  rw [find?_cons_of_neg (by simpa using other.symm)] at found
  obtain ⟨e,kept,rfl⟩ := Option.map_eq_some_iff.mp found
  rw [( take_prefix _ _).find?_eq_some kept,Option.map_some]

theorem othersShorter {c : LruCache K V} {k v} (found : c.find k = some v) : (c.others k).length < c.capacity := by
  obtain ⟨e,here,_⟩ := Option.map_eq_some_iff.mp found
  refine Nat.lt_of_lt_of_le (length_filter_lt_length_iff_exists.mpr ⟨e,mem_of_find?_eq_some here,?_⟩) c.bounded
  have key := find?_some here
  simpa using key

theorem getFound (c : LruCache K V) (k) : (c.get k).1 = c.find k := by
  unfold get
  cases c.find k <;> rfl

theorem findGet (c : LruCache K V) (k a) : (c.get k).2.find a = c.find a := by
  unfold get
  cases found : c.find k with
  | none => rfl
  | some v =>
    by_cases here : a = k
    · subst a
      exact (c.findPutSelf k v).trans found.symm
    · have whole : (c.others k).take (c.capacity - 1) = c.others k := take_of_length_le (by
        have := othersShorter found
        omega)
      rw [← c.findOthers here]
      show (((k,v)::(c.others k).take (c.capacity - 1)).find? (fun e => e.1 = a)).map Prod.snd = _
      rw [whole,find?_cons_of_neg (by simpa using Ne.symm here)]

def cache : Cache K V := ⟨LruCache K V,empty,size,put,get⟩

theorem lawful : (cache : Cache K V).Lawful := by
  have found (c : LruCache K V) (k) : cache.find c k = c.find k := c.getFound k
  refine ⟨fun _ _ _ => rfl,fun c k v => ?_,fun c k v a w other here => ?_,fun c k a => ?_⟩
  · exact (found _ _).trans (c.findPutSelf k v)
  · exact (found c a).trans (findPutOther other ((found _ _).symm.trans here))
  · exact (found _ _).trans ((c.findGet k a).trans (found c a).symm)

end LruCache
end QuantumChain
