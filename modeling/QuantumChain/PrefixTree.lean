import Mathlib.Data.List.Basic
import Mathlib.Data.List.Nodup
import Mathlib.Tactic.Common

/-! Prefix trees over an alphabet.
A proper tree has no empty extension and no value at a branch. -/
namespace QuantumChain
open List

inductive PrefixTree (α β : Type) where
  | empty
  | leaf (path : List α) (value : β)
  | extension (path : List α) (child : PrefixTree α β)
  | branch (children : α → PrefixTree α β) (value : Option β)

namespace PrefixTree
variable {α β : Type}

def isEmpty : PrefixTree α β → Bool
  | empty => true
  | _ => false

theorem emptyIff {tree : PrefixTree α β} : tree.isEmpty = true ↔ tree = empty := by
  cases tree <;> simp [isEmpty]

def Proper : PrefixTree α β → Prop
  | empty => True
  | leaf _ _ => True
  | extension path child => path ≠ [] ∧ child.Proper
  | branch children value => value = none ∧ ∀ letter, (children letter).Proper

def Within (letters : α → Prop) (values : β → Prop) (width : Nat) : PrefixTree α β → Prop
  | empty => True
  | leaf path value => (∀ letter ∈ path, letters letter) ∧ path.length ≤ width ∧ values value
  | extension path child => (∀ letter ∈ path, letters letter) ∧ path.length ≤ width ∧ child.Within letters values width
  | branch children value => (∀ v, value = some v → values v) ∧ ∀ letter, (children letter).Within letters values width

section Search
variable [DecidableEq α]

def lookup : PrefixTree α β → List α → Option β
  | empty,_ => none
  | leaf path value,key => if path = key then some value else none
  | extension path child,key => if path <+: key then child.lookup (key.drop path.length) else none
  | branch _ value,[] => value
  | branch children _,letter::rest => (children letter).lookup rest

def route : PrefixTree α β → List α → List (PrefixTree α β)
  | empty,_ => []
  | leaf path value,_ => [leaf path value]
  | extension path child,key =>
    extension path child :: if path <+: key then child.route (key.drop path.length) else []
  | branch children value,[] => [branch children value]
  | branch children value,letter::rest => branch children value :: (children letter).route rest

def next : PrefixTree α β → List α → Option (PrefixTree α β × Nat)
  | empty,_ => none
  | leaf _ _,_ => none
  | extension path child,key => if path <+: key then some (child,path.length) else none
  | branch _ _,[] => none
  | branch children _,letter::_ => if (children letter).isEmpty then none else some (children letter,1)

def ownValue : PrefixTree α β → List α → Option β
  | leaf path value,key => if path = key then some value else none
  | branch _ value,[] => value
  | _,_ => none

theorem lookupNext (tree : PrefixTree α β) (key : List α) : tree.lookup key =
      match tree.next key with
      | some (child,used) => child.lookup (key.drop used)
      | none => tree.ownValue key := by
  cases tree with
  | empty => rfl
  | leaf path value => rfl
  | extension path child =>
    rw [lookup,next]
    split <;> rfl
  | branch children value =>
    cases key with
    | nil => rfl
    | cons letter rest =>
      rw [lookup,next]
      by_cases none' : (children letter).isEmpty = true
      · rw [if_pos none',emptyIff.mp none']
        rfl
      · rw [if_neg none']
        rfl

theorem routeNext {tree : PrefixTree α β} (occupied : tree.isEmpty = false) (key : List α) : tree.route key =
      tree :: match tree.next key with
        | some (child,used) => child.route (key.drop used)
        | none => [] := by
  cases tree with
  | empty => exact absurd occupied Bool.noConfusion
  | leaf path value => rfl
  | extension path child =>
    rw [route,next]
    split <;> rfl
  | branch children value =>
    cases key with
    | nil => rfl
    | cons letter rest =>
      rw [route,next]
      by_cases none' : (children letter).isEmpty = true
      · rw [if_pos none',emptyIff.mp none']
        rfl
      · rw [if_neg none']
        rfl

theorem descend {P : PrefixTree α β → Prop}
    (each : ∀ tree, (∀ key child used, tree.next key = some (child,used) → P child) → P tree) (tree) : P tree := by
  induction tree with
  | empty => exact each _ (fun _ _ _ step => by cases step)
  | leaf path value => exact each _ (fun _ _ _ step => by cases step)
  | extension path child ih =>
    refine each _ (fun key below used step => ?_)
    rw [next] at step
    split at step
    · cases step
      exact ih
    · cases step
  | branch children value ih =>
    refine each _ (fun key below used step => ?_)
    cases key with
    | nil => cases step
    | cons letter rest =>
      rw [next] at step
      split at step
      · cases step
      · cases step
        exact ih letter

theorem nextProper {tree child : PrefixTree α β} {key used} (proper : tree.Proper)
    (step : tree.next key = some (child,used)) : child.Proper ∧ 0 < used ∧ used ≤ key.length := by
  cases tree with
  | empty => cases step
  | leaf path value => cases step
  | extension path below =>
    rw [next] at step
    split at step
    · rename_i shared
      cases step
      exact ⟨proper.2,length_pos_iff.mpr proper.1,shared.length_le⟩
    · cases step
  | branch children value =>
    cases key with
    | nil => cases step
    | cons letter rest =>
      rw [next] at step
      split at step
      · cases step
      · cases step
        exact ⟨proper.2 letter,Nat.one_pos,by simp⟩

theorem routeLength {tree : PrefixTree α β} (proper : tree.Proper) (key) :
    (tree.route key).length ≤ key.length + 1 := by
  induction tree using descend generalizing key with
  | each tree ih =>
    cases occupied : tree.isEmpty with
    | true =>
      rw [emptyIff.mp occupied]
      exact Nat.zero_le _
    | false =>
      rw [routeNext occupied]
      split
      · rename_i child used step
        obtain ⟨below,positive,inside⟩ := nextProper proper step
        have rest := ih _ _ _ step below (key.drop used)
        rw [length_drop] at rest
        rw [length_cons]
        omega
      · exact Nat.succ_le_succ (Nat.zero_le _)

end Search

section Entries

def past (n : Nat) (items : List (List α × β)) : List (List α × β) := items.map (fun item => (item.1.drop n,item.2))

theorem eqOfTakeDrop {a b : List α} {n} (front : a.take n = b.take n) (back : a.drop n = b.drop n) : a = b := by
  rw [← take_append_drop n a,front,back,take_append_drop]

theorem pastDistinct {n start} {items : List (List α × β)} (distinct : (items.map Prod.fst).Nodup)
    (shared : ∀ item ∈ items, item.1.take n = start) : ((past n items).map Prod.fst).Nodup := by
  have dropped : (past n items).map Prod.fst = (items.map Prod.fst).map (List.drop n) := by simp [past]
  rw [dropped]
  refine distinct.map_on ?_
  intro a memA b memB same
  obtain ⟨item,mem,rfl⟩ := mem_map.mp memA
  obtain ⟨other,mem',rfl⟩ := mem_map.mp memB
  exact eqOfTakeDrop ((shared item mem).trans (shared other mem').symm) same

theorem memPast {n start key value} {items : List (List α × β)} (size : start.length = n)
    (shared : ∀ item ∈ items, item.1.take n = start) :
    (key,value) ∈ items ↔ start <+: key ∧ (key.drop n,value) ∈ past n items := by
  constructor
  · intro mem
    exact ⟨(shared _ mem) ▸ take_prefix n key,mem_map.mpr ⟨_,mem,rfl⟩⟩
  · rintro ⟨⟨rest,rfl⟩,mem⟩
    obtain ⟨⟨other,v⟩,inside,same⟩ := mem_map.mp mem
    obtain ⟨tail,rfl⟩ := Prod.mk.inj same
    have back : other.drop n = rest := by rw [tail,← size,drop_left]
    have whole : other = start ++ rest := by rw [← take_append_drop n other,shared _ inside,back]
    exact whole ▸ inside

theorem findEmpty {items : List (List α × β)} {value} (distinct : (items.map Prod.fst).Nodup) :
    (items.find? (fun item => item.1.isEmpty)).map Prod.snd = some value ↔ ([],value) ∈ items := by
  induction items with
  | nil => simp
  | cons item rest ih =>
    obtain ⟨key,v⟩ := item
    rw [map_cons,nodup_cons] at distinct
    cases key with
    | nil =>
      have absent : ([],value) ∉ rest := fun mem => distinct.1 (mem_map.mpr ⟨_,mem,rfl⟩)
      simp [absent,eq_comm]
    | cons first tail => simpa using ih distinct.2

end Entries

section Growth
variable [DecidableEq α]

def sharedLen (a b : List α) : Nat := ((a.zip b).takeWhile (fun pair => pair.1 == pair.2)).length

def common (first : List α) (others : List (List α × β)) : Nat :=
  (others.map (fun item => sharedLen item.1 first)).min?.getD 0

def behind (letter : α) (items : List (List α × β)) : List (List α × β) :=
  items.filterMap (fun item =>
    match item.1 with
    | [] => none
    | first::rest => if first = letter then some (rest,item.2) else none)

def grow : Nat → List (List α × β) → PrefixTree α β
  | 0,_ => empty
  | _+1,[] => empty
  | _+1,[(path,value)] => leaf path value
  | fuel+1,first::second::rest =>
    let n := common first.1 (second::rest)
    if 0 < n then extension (first.1.take n) (grow fuel (past n (first::second::rest)))
    else
      branch (fun letter => grow fuel (behind letter (first::second::rest)))
        (((first::second::rest).find? (fun item => item.1.isEmpty)).map Prod.snd)

theorem sharedTake {a b : List α} {n} (inside : n ≤ sharedLen a b) : a.take n = b.take n := by
  induction a generalizing b n with
  | nil =>
    rw [sharedLen,zip_nil_left] at inside
    cases Nat.le_zero.mp inside
    rfl
  | cons x a ih =>
    cases b with
    | nil =>
      rw [sharedLen,zip_nil_right] at inside
      cases Nat.le_zero.mp inside
      rfl
    | cons y b =>
      cases n with
      | zero => rfl
      | succ n =>
        rw [sharedLen,zip_cons_cons,takeWhile_cons] at inside
        split at inside
        · rename_i same
          have same : x = y := by simpa using same
          rw [take_succ_cons,take_succ_cons,same,ih (Nat.le_of_succ_le_succ inside)]
        · exact absurd inside (by simp)

theorem sharedBound (a b : List α) : sharedLen a b ≤ b.length := by
  have short : sharedLen a b ≤ (a.zip b).length := (takeWhile_sublist _).length_le
  rw [length_zip] at short
  omega

theorem commonLe {first others} {item : List α × β} (mem : item ∈ others) :
    common first others ≤ sharedLen item.1 first := by
  have listed := mem_map_of_mem (f := fun item => sharedLen item.1 first) mem
  unfold common
  cases least : (others.map (fun item => sharedLen item.1 first)).min? with
  | none => exact Nat.zero_le _
  | some n => exact (min?_eq_some_iff.mp least).2 _ listed

theorem commonBound (first) (others : List (List α × β)) : common first others ≤ first.length := by
  cases others with
  | nil => exact Nat.zero_le _
  | cons item rest => exact Nat.le_trans (commonLe mem_cons_self) (sharedBound _ _)

theorem commonTake {first others} {item : List α × β} (mem : item ∈ first::others) :
    item.1.take (common first.1 others) = first.1.take (common first.1 others) := by
  rcases mem_cons.mp mem with rfl | other
  · rfl
  · exact sharedTake (commonLe other)

theorem memBehind {letter items} {path : List α} {value : β} :
    (path,value) ∈ behind letter items ↔ (letter::path,value) ∈ items := by
  induction items with
  | nil => simp [behind]
  | cons item rest ih =>
    obtain ⟨key,v⟩ := item
    cases key with
    | nil => simpa [behind] using ih
    | cons first tail =>
      by_cases here : first = letter
      · subst here
        simpa [behind] using or_congr_right ih
      · have other : (letter::path,value) ≠ (first::tail,v) := fun same =>
          here (List.cons.inj (Prod.mk.inj same).1).1.symm
        rw [mem_cons,or_iff_right other,← ih]
        simp [behind,here]

theorem behindDistinct {letter} {items : List (List α × β)} (distinct : (items.map Prod.fst).Nodup) :
    ((behind letter items).map Prod.fst).Nodup := by
  induction items with
  | nil => exact nodup_nil
  | cons item rest ih =>
    obtain ⟨key,v⟩ := item
    rw [map_cons,nodup_cons] at distinct
    have later := ih distinct.2
    cases key with
    | nil => simpa [behind] using later
    | cons first tail =>
      by_cases here : first = letter
      · subst here
        have fresh : tail ∉ (behind first rest).map Prod.fst := by
          intro mem
          obtain ⟨⟨path,value⟩,inside,rfl⟩ := mem_map.mp mem
          exact distinct.1 (mem_map.mpr ⟨_,memBehind.mp inside,rfl⟩)
        have split : behind first ((first::tail,v)::rest) = (tail,v)::behind first rest := by simp [behind]
        rw [split,map_cons]
        exact nodup_cons.mpr ⟨fresh,later⟩
      · simpa [behind,here] using later

theorem lookupGrow {fuel items} (distinct : (items.map Prod.fst).Nodup)
    (enough : ∀ item ∈ items, item.1.length < fuel) (key : List α) (value : β) :
    (grow fuel items).lookup key = some value ↔ (key,value) ∈ items := by
  induction fuel generalizing items key with
  | zero =>
    have none' : (key,value) ∉ items := fun mem => absurd (enough _ mem) (Nat.not_lt_zero _)
    simp [grow,lookup,none']
  | succ fuel ih =>
    match items with
    | [] => simp [grow,lookup]
    | [(path,v)] =>
      rw [grow,lookup,mem_singleton,Prod.mk.injEq]
      split
      · rename_i same
        simp [same,eq_comm]
      · rename_i other
        simp [Ne.symm other]
    | first::second::rest =>
      rw [grow]
      split
      · rename_i positive
        have size : (first.1.take (common first.1 (second::rest))).length = common first.1 (second::rest) :=
          length_take_of_le (commonBound _ _)
        have shorter : ∀ item ∈ past (common first.1 (second::rest)) (first::second::rest), item.1.length < fuel := by
          intro item mem
          obtain ⟨old,inside,rfl⟩ := mem_map.mp mem
          have bound := enough old inside
          have long : min (common first.1 (second::rest)) old.1.length = common first.1 (second::rest) := by
            rw [← length_take,commonTake inside,size]
          rw [length_drop]
          omega
        rw [memPast size (fun item mem => commonTake mem),lookup,size]
        split
        · rename_i shared
          rw [and_iff_right shared]
          exact ih (pastDistinct distinct (fun item mem => commonTake mem)) shorter _
        · rename_i apart
          simp [apart]
      · cases key with
        | nil => exact findEmpty distinct
        | cons letter tail =>
          rw [lookup,ih (behindDistinct distinct) _ tail,memBehind]
          intro item mem
          have bound := enough _ (memBehind.mp mem)
          rw [length_cons] at bound
          exact Nat.lt_of_succ_lt_succ bound

theorem growProper {fuel width} {items : List (List α × β)} (distinct : (items.map Prod.fst).Nodup)
    (sizes : ∀ item ∈ items, item.1.length = width) : (grow fuel items).Proper := by
  induction fuel generalizing items width with
  | zero => exact trivial
  | succ fuel ih =>
    match items with
    | [] => exact trivial
    | [(path,v)] => exact trivial
    | first::second::rest =>
      rw [grow]
      split
      · rename_i positive
        have shorter : ∀ item ∈ past (common first.1 (second::rest)) (first::second::rest),
            item.1.length = width - common first.1 (second::rest) := by
          intro item mem
          obtain ⟨old,inside,rfl⟩ := mem_map.mp mem
          rw [length_drop,sizes old inside]
        refine ⟨?_,ih (pastDistinct distinct (fun item mem => commonTake mem)) shorter⟩
        intro none'
        have size := length_take_of_le (commonBound first.1 (second::rest))
        rw [none',length_nil] at size
        omega
      · have shorter : ∀ letter, ∀ item ∈ behind letter (first::second::rest), item.1.length = width - 1 := by
          intro letter item mem
          have size := sizes _ (memBehind.mp mem)
          rw [length_cons] at size
          omega
        refine ⟨?_,fun letter => ih (behindDistinct distinct) (shorter letter)⟩
        · -- two different keys of one length are not both empty
          have positive : 0 < width := by
            by_contra zero
            have one := length_eq_zero_iff.mp ((sizes first (by simp)).trans (by omega))
            have two := length_eq_zero_iff.mp ((sizes second (by simp)).trans (by omega))
            simp [one,two] at distinct
          have none' : (first::second::rest).find? (fun item => item.1.isEmpty) = none := by
            rw [find?_eq_none]
            intro item mem
            have size := sizes item mem
            rw [isEmpty_iff_length_eq_zero,size]
            omega
          rw [none']
          rfl

theorem growWithin {letters values width fuel} {items : List (List α × β)}
    (inside : ∀ item ∈ items, (∀ letter ∈ item.1, letters letter) ∧ item.1.length ≤ width ∧ values item.2) :
    (grow fuel items).Within letters values width := by
  induction fuel generalizing items with
  | zero => exact trivial
  | succ fuel ih =>
    match items with
    | [] => exact trivial
    | [(path,v)] => exact inside (path,v) mem_cons_self
    | first::second::rest =>
      rw [grow]
      split
      · obtain ⟨chars,size,_⟩ := inside first mem_cons_self
        refine ⟨fun letter mem => chars letter (mem_of_mem_take mem),Nat.le_trans (length_take_le' _ _) size,ih ?_⟩
        intro item mem
        obtain ⟨old,member,rfl⟩ := mem_map.mp mem
        obtain ⟨chars,size,value⟩ := inside old member
        exact ⟨fun letter mem => chars letter (mem_of_mem_drop mem),
          Nat.le_trans (by rw [length_drop]; omega) size,value⟩
      · refine ⟨?_,fun letter => ih ?_⟩
        · intro v found
          obtain ⟨item,picked,rfl⟩ := Option.map_eq_some_iff.mp found
          exact (inside item (mem_of_find?_eq_some picked)).2.2
        · intro item mem
          obtain ⟨chars,size,value⟩ := inside _ (memBehind.mp mem)
          rw [length_cons] at size
          exact ⟨fun letter mem => chars letter (mem_cons_of_mem _ mem),Nat.le_of_succ_le size,value⟩

end Growth

end PrefixTree
end QuantumChain
