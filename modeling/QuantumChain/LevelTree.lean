import Mathlib.Algebra.Ring.Nat
import Mathlib.Order.Lattice
import QuantumChain.HeapTree

/-! Trees built level by level; a lone last node is joined with itself. The join is any
function; what a root tells is stated for joins that do not collide on the pairs joined. -/
namespace QuantumChain.LevelTree
open List
open HeapTree (Apart)
variable {α : Type}

def pairUp : List α → List (α × α)
  | [] => []
  | [last] => [(last,last)]
  | left::right::rest => (left,right)::pairUp rest

theorem pairUpLength (level : List α) : (pairUp level).length = (level.length + 1) / 2 := by
  induction level using pairUp.induct with
  | case1 => simp [pairUp]
  | case2 last => simp [pairUp]
  | case3 left right rest ih =>
    simp only [pairUp,length_cons,ih]
    omega

theorem pairUpInj {xs ys : List α} (size : xs.length = ys.length) (same : pairUp xs = pairUp ys) : xs = ys := by
  induction xs using pairUp.induct generalizing ys with
  | case1 => exact (length_eq_zero_iff.mp size.symm).symm
  | case2 last =>
    match ys with
    | [] => cases size
    | [only] =>
      cases same
      rfl
    | _::_::_ => simp at size
  | case3 left right rest ih =>
    match ys with
    | [] => cases size
    | [_] => simp at size
    | _::_::rest' =>
      obtain ⟨first,others⟩ := List.cons.inj same
      cases first
      rw [ih (by simpa using size) others]

theorem pairUpAt {level i} {value : α} (at' : level[i]? = some value) :
    ∃ left right, (pairUp level)[i / 2]? = some (left,right) ∧ (if i % 2 = 0 then left else right) = value := by
  induction level using pairUp.induct generalizing i with
  | case1 => simp at at'
  | case2 last =>
    match i with
    | 0 => exact ⟨last,last,rfl,Option.some.inj at'⟩
    | _ + 1 => simp at at'
  | case3 left right rest ih =>
    match i with
    | 0 => exact ⟨left,right,rfl,Option.some.inj at'⟩
    | 1 => exact ⟨left,right,rfl,Option.some.inj at'⟩
    | i + 2 =>
      obtain ⟨l,r,pair,side⟩ := ih at'
      refine ⟨l,r,?_,?_⟩
      · rw [Nat.add_div_right i (by decide)]
        exact pair
      · rw [Nat.add_mod_right]
        exact side

section Levels
variable (join : α → α → α)

def parents (level : List α) : List α := (pairUp level).map fun pair => join pair.1 pair.2

theorem parentsLength (level) : (parents join level).length = (level.length + 1) / 2 := by
  rw [parents,length_map,pairUpLength]

def climb : Nat → List α → List α
  | 0,level => level
  | fuel+1,level => if 1 < level.length then climb fuel (parents join level) else level

theorem climbEnds {fuel level} (some' : 0 < level.length) (enough : level.length ≤ fuel + 1) :
    ∃ root, climb join fuel level = [root] := by
  induction fuel generalizing level with
  | zero => exact length_eq_one_iff.mp (Nat.le_antisymm enough some')
  | succ fuel ih =>
    unfold climb
    split
    · have size := parentsLength join level
      exact ih (by omega) (by omega)
    · exact length_eq_one_iff.mp (by omega)

def joined : Nat → List α → List (α × α)
  | 0,_ => []
  | fuel+1,level => if 1 < level.length then pairUp level ++ joined fuel (parents join level) else []

end Levels

structure Joint (α : Type) where
  onLeft : Bool
  left : α
  right : α

namespace Joint

variable (joint : Joint α)

def own : α := if joint.onLeft then joint.left else joint.right

def other : α := if joint.onLeft then joint.right else joint.left

def pair : α × α := (joint.left,joint.right)

end Joint

section Trails
variable (join : α → α → α)

def trail : Nat → List α → Nat → List (Joint α)
  | 0,_,_ => []
  | fuel+1,level,i =>
    if 1 < level.length then
      ((pairUp level)[i / 2]?.map fun pair => ⟨i % 2 == 0,pair.1,pair.2⟩).toList ++ trail fuel (parents join level) (i / 2)
    else []

def Linked : α → List (Joint α) → α → Prop
  | value,[],root => value = root
  | value,joint::rest,root => joint.own = value ∧ Linked (join joint.left joint.right) rest root

theorem trailLinked {fuel level i value root} (enough : level.length ≤ fuel + 1)
    (at' : level[i]? = some value) (top : climb join fuel level = [root]) :
      Linked join value (trail join fuel level i) root := by
  induction fuel generalizing level i value with
  | zero =>
    cases top
    cases i with
    | zero => exact (Option.some.inj at').symm
    | succ i => simp at at'
  | succ fuel ih =>
    unfold climb at top
    unfold trail
    split at top
    · rename_i several
      obtain ⟨left,right,pair,side⟩ := pairUpAt at'
      rw [if_pos several,pair]
      refine ⟨?_,ih ?_ ?_ top⟩
      · unfold Joint.own
        simpa using side
      · rw [parentsLength]
        omega
      · rw [parents,getElem?_map,pair]
        rfl
    · rename_i few
      cases top
      cases i with
      | zero => exact (Option.some.inj at').symm
      | succ i => simp at at'

variable {join} in
theorem apartRest {joint rest p pairs}
    (apart : Apart join ((joint::rest).map Joint.pair ++ p::pairs)) : Apart join (rest.map Joint.pair ++ pairs) := by
  refine apart.sub (append_subset.mpr ⟨fun q mem => ?_,fun q mem => ?_⟩)
  · exact mem_append_left _ (mem_cons_of_mem _ mem)
  · exact mem_append_right _ (mem_cons_of_mem _ mem)

variable {join} in
theorem apartHead {joint rest p pairs}
    (apart : Apart join ((joint::rest).map Joint.pair ++ p::pairs)) (same : join p.1 p.2 = join joint.left joint.right) :
    p = joint.pair :=
  apart p (mem_append_right _ mem_cons_self) joint.pair (mem_append_left _ mem_cons_self) same

variable [LinearOrder α]

def sortedPair (current other : α) : α × α := if current < other then (current,other) else (other,current)

def sortedJoin (current other : α) : α := if current < other then join current other else join other current

def climbSorted (value : α) (others : List α) : α := others.foldl (sortedJoin join) value

def sortedPairs : α → List α → List (α × α)
  | _,[] => []
  | current,other::rest => sortedPair current other::sortedPairs (sortedJoin join current other) rest

variable {join}

theorem sortedJoinPair (current other) :
    sortedJoin join current other = join (sortedPair current other).1 (sortedPair current other).2 := by
  unfold sortedJoin sortedPair
  split <;> rfl

theorem jointSorted {joint : Joint α} (ordered : joint.left ≤ joint.right) :
    sortedPair joint.own joint.other = joint.pair := by
  unfold sortedPair Joint.own Joint.other Joint.pair
  cases joint.onLeft with
  | true =>
    rw [if_pos rfl,if_pos rfl]
    split
    · rfl
    · rename_i no
      rw [le_antisymm ordered (not_lt.mp no)]
  | false =>
    rw [if_neg Bool.false_ne_true,if_neg Bool.false_ne_true,if_neg (not_lt.mpr ordered)]

theorem jointReversed {joint : Joint α} (reversed : joint.right < joint.left) :
    sortedPair joint.own joint.other = (joint.right,joint.left) := by
  unfold sortedPair Joint.own Joint.other
  cases joint.onLeft with
  | true => rw [if_pos rfl,if_pos rfl,if_neg (not_lt.mpr (le_of_lt reversed))]
  | false => rw [if_neg Bool.false_ne_true,if_neg Bool.false_ne_true,if_pos reversed]

theorem jointStrays {joint : Joint α} {current} (differ : current ≠ joint.own) :
    sortedPair current joint.other ≠ joint.pair := by
  obtain ⟨onLeft,left,right⟩ := joint
  intro same
  cases onLeft with
  | true =>
    unfold sortedPair at same
    split at same
    · exact differ (Prod.mk.inj same).1
    · exact differ ((Prod.mk.inj same).2.trans (Prod.mk.inj same).1)
  | false =>
    unfold sortedPair at same
    split at same
    · exact differ ((Prod.mk.inj same).1.trans (Prod.mk.inj same).2)
    · exact differ (Prod.mk.inj same).2

theorem linkedSorted {value root joints} (linked : Linked join value joints root)
    (ordered : ∀ joint ∈ joints, joint.left ≤ joint.right) : climbSorted join value (joints.map Joint.other) = root := by
  induction joints generalizing value with
  | nil => exact linked
  | cons joint rest ih =>
    obtain ⟨rfl,above⟩ := linked
    have next : sortedJoin join joint.own joint.other = join joint.left joint.right := by
      rw [sortedJoinPair,jointSorted (ordered joint mem_cons_self)]
      rfl
    rw [map_cons,climbSorted,foldl_cons,next]
    exact ih above fun joint mem => ordered joint (mem_cons_of_mem _ mem)

theorem strayMisses {value current root joints} (linked : Linked join value joints root)
    (apart : Apart join (joints.map Joint.pair ++ sortedPairs join current (joints.map Joint.other)))
    (differ : current ≠ value) : climbSorted join current (joints.map Joint.other) ≠ root := by
  induction joints generalizing value current with
  | nil => exact linked ▸ differ
  | cons joint rest ih =>
    obtain ⟨rfl,above⟩ := linked
    refine ih above (apartRest apart) fun back => ?_
    rw [sortedJoinPair] at back
    exact jointStrays differ (apartHead apart back)

theorem sortedLinked {value root joints} (linked : Linked join value joints root)
    (apart : Apart join (joints.map Joint.pair ++ sortedPairs join value (joints.map Joint.other)))
    (reaches : climbSorted join value (joints.map Joint.other) = root) : ∀ joint ∈ joints, joint.left ≤ joint.right := by
  induction joints generalizing value with
  | nil => exact nofun
  | cons joint rest ih =>
    obtain ⟨rfl,above⟩ := linked
    have first : joint.left ≤ joint.right := by
      by_contra reversed
      have turned := jointReversed (not_le.mp reversed)
      refine strayMisses above (apartRest apart) (fun back => ?_) reaches
      rw [sortedJoinPair] at back
      have same := apartHead apart back
      rw [turned] at same
      exact reversed (le_of_eq (congrArg Prod.snd same))
    have next : sortedJoin join joint.own joint.other = join joint.left joint.right := by
      rw [sortedJoinPair,jointSorted first]
      rfl
    have apart' := apartRest apart
    rw [next] at apart'
    rw [map_cons,climbSorted,foldl_cons,next] at reaches
    intro j mem
    rcases mem_cons.mp mem with rfl | later
    · exact first
    · exact ih above apart' reaches j later

end Trails

section Pairs
variable {join : α → α → α}

theorem pairUpGet (level : List α) (k) :
    (pairUp level)[k]? = level[2 * k]?.map fun left => (left,(level[2 * k + 1]?).getD left) := by
  induction level using pairUp.induct generalizing k with
  | case1 => simp [pairUp]
  | case2 last =>
    cases k with
    | zero => rfl
    | succ k => simp [pairUp,Nat.mul_add]
  | case3 left right rest ih =>
    cases k with
    | zero => rfl
    | succ k =>
      exact ih k

theorem pairUpMem {level} {pair : α × α} (mem : pair ∈ pairUp level) : pair.1 ∈ level ∧ pair.2 ∈ level := by
  induction level using pairUp.induct with
  | case1 => cases mem
  | case2 last =>
    cases mem_singleton.mp mem
    exact ⟨mem_cons_self,mem_cons_self⟩
  | case3 left right rest ih =>
    rcases mem_cons.mp mem with rfl | later
    · simp
    · have inside := ih later
      exact ⟨mem_cons_of_mem _ (mem_cons_of_mem _ inside.1),mem_cons_of_mem _ (mem_cons_of_mem _ inside.2)⟩

variable (join) in
theorem levelsAbove {level} (several : 1 < level.length) :
    Nat.clog 2 level.length = Nat.clog 2 (parents join level).length + 1 := by
  rw [parentsLength]
  exact Nat.clog_of_two_le (by decide) several

end Pairs

/-- The level at height `n` and the leaves that repeat a lone last node where it was joined with itself. -/
def spread {β : Type} : Nat → List β → List β
  | 0,level => level
  | n+1,level => (spread n (pairUp level)).flatMap fun pair => [pair.1,pair.2]

theorem pairUpMap {β} (f : α → β) (level) : pairUp (level.map f) = (pairUp level).map (Prod.map f f) := by
  induction level using pairUp.induct with
  | case1 => rfl
  | case2 last => rfl
  | case3 left right rest ih => simp only [map_cons,pairUp,ih,Prod.map]

theorem spreadMap {α β} (f : α → β) (n) (level) : spread n (level.map f) = (spread n level).map f := by
  induction n generalizing α β with
  | zero => rfl
  | succ n ih =>
    rw [spread,spread,pairUpMap,ih,flatMap_map,map_flatMap]
    rfl

theorem spreadMem {α n} {level : List α} {x} (mem : x ∈ spread n level) : x ∈ level := by
  induction n generalizing α with
  | zero => exact mem
  | succ n ih =>
    obtain ⟨pair,inside,side⟩ := mem_flatMap.mp mem
    have members := pairUpMem (ih inside)
    rcases mem_cons.mp side with rfl | right
    · exact members.1
    · exact mem_singleton.mp right ▸ members.2

theorem pairsInj {xs ys : List (α × α)}
    (same : (xs.flatMap fun pair => [pair.1,pair.2]) = ys.flatMap fun pair => [pair.1,pair.2]) : xs = ys := by
  induction xs generalizing ys with
  | nil =>
    cases ys with
    | nil => rfl
    | cons pair rest => cases same
  | cons pair rest ih =>
    cases ys with
    | nil => cases same
    | cons pair' rest' =>
      simp only [flatMap_cons,cons_append,nil_append,cons.injEq] at same
      rw [ih same.2.2,Prod.ext same.1 same.2.1]

theorem mapInjOn {β : Type} {f : α → β} {xs ys : List α} (inj : ∀ a ∈ xs, ∀ b ∈ ys, f a = f b → a = b)
    (same : xs.map f = ys.map f) : xs = ys := by
  induction xs generalizing ys with
  | nil => exact (map_eq_nil_iff.mp same.symm).symm
  | cons x rest ih =>
    cases ys with
    | nil => cases same
    | cons y rest' =>
      obtain ⟨first,others⟩ := List.cons.inj same
      rw [inj x mem_cons_self y mem_cons_self first,
        ih (fun a memA b memB => inj a (mem_cons_of_mem _ memA) b (mem_cons_of_mem _ memB)) others]

section Roots
variable {join : α → α → α}

theorem spreadParents {xs ys} (apart : Apart join (pairUp xs ++ pairUp ys)) (n) :
    spread n (parents join xs) = spread n (parents join ys) ↔ spread (n + 1) xs = spread (n + 1) ys := by
  unfold parents
  rw [spreadMap,spreadMap,spread,spread]
  constructor
  · intro same
    refine congrArg _ (mapInjOn (fun a memA b memB => ?_) same)
    exact apart a (mem_append_left _ (spreadMem memA)) b (mem_append_right _ (spreadMem memB))
  · intro same
    rw [pairsInj same]

def depth (level : List α) : Nat := Nat.clog 2 level.length

theorem depthParents (join : α → α → α) {level} (several : 1 < level.length) : depth level = depth (parents join level) + 1 :=
  levelsAbove join several

theorem climbEnough {fuel level} (enough : level.length ≤ fuel + 1) :
    climb join fuel level = climb join (fuel + 1) level ∧ joined join fuel level = joined join (fuel + 1) level := by
  induction fuel generalizing level with
  | zero =>
    have few : ¬ 1 < level.length := by omega
    simp [climb,joined,few]
  | succ fuel ih =>
    rw [climb,joined,climb,joined]
    split
    · have size := parentsLength join level
      obtain ⟨same,pairs⟩ := @ih (parents join level) (by omega)
      exact ⟨same,congrArg _ pairs⟩
    · exact ⟨rfl,rfl⟩

theorem climbMore (join : α → α → α) {fuel level} (enough : level.length ≤ fuel + 1) (more) :
    climb join (fuel + more) level = climb join fuel level ∧ joined join (fuel + more) level = joined join fuel level := by
  induction more with
  | zero => exact ⟨rfl,rfl⟩
  | succ more ih =>
    obtain ⟨same,pairs⟩ := @climbEnough _ join (fuel + more) level (by omega)
    exact ⟨same.symm.trans ih.1,pairs.symm.trans ih.2⟩

theorem topParents (join : α → α → α) {level} (several : 1 < level.length) :
    climb join level.length level = climb join (parents join level).length (parents join level) ∧
      joined join level.length level = pairUp level ++ joined join (parents join level).length (parents join level) := by
  have size := parentsLength join level
  obtain ⟨more,fuel⟩ := Nat.exists_eq_add_of_le (show (parents join level).length ≤ level.length - 1 by omega)
  obtain ⟨same,pairs⟩ := climbMore join (Nat.le_succ (parents join level).length) more
  obtain ⟨n,length⟩ := Nat.exists_eq_add_of_lt several
  rw [← fuel,length] at same pairs
  rw [length,climb,joined,if_pos several,if_pos several]
  exact ⟨same,congrArg _ pairs⟩

theorem topSingle {level} (few : level.length ≤ 1) : climb join level.length level = level := by
  have same := (@climbMore _ join 0 level few level.length).1
  rwa [Nat.zero_add] at same

theorem depthSeveral {level : List α} (high : 0 < depth level) : 1 < level.length := by
  by_contra few
  have low := Nat.clog_of_right_le_one (Nat.le_of_not_lt few) 2
  exact absurd high (by rw [depth,low]; exact Nat.lt_irrefl 0)

theorem depthFew {level : List α} (low : depth level = 0) : level.length ≤ 1 := by
  by_contra several
  have high := depthParents (fun a _ => a) (Nat.lt_of_not_le several)
  omega

theorem climbSpread {n xs ys} (depthX : depth xs = n) (depthY : depth ys = n)
    (apart : Apart join (joined join xs.length xs ++ joined join ys.length ys)) :
    climb join xs.length xs = climb join ys.length ys ↔ spread n xs = spread n ys := by
  induction n generalizing xs ys with
  | zero =>
    rw [topSingle (depthFew depthX),topSingle (depthFew depthY)]
    rfl
  | succ n ih =>
    have severalX : 1 < xs.length := depthSeveral (by omega)
    have severalY : 1 < ys.length := depthSeveral (by omega)
    obtain ⟨topX,pairsX⟩ := topParents join severalX
    obtain ⟨topY,pairsY⟩ := topParents join severalY
    have aboveX := depthParents join severalX
    have aboveY := depthParents join severalY
    rw [pairsX,pairsY] at apart
    rw [topX,topY,ih (by omega) (by omega) (apart.sub ?_)]
    · refine spreadParents (apart.sub (append_subset.mpr ⟨?_,?_⟩)) n
      · exact fun p mem => mem_append_left _ (mem_append_left _ mem)
      · exact fun p mem => mem_append_right _ (mem_append_left _ mem)
    · refine append_subset.mpr ⟨?_,?_⟩
      · exact fun p mem => mem_append_left _ (mem_append_right _ mem)
      · exact fun p mem => mem_append_right _ (mem_append_right _ mem)

theorem spreadInj {β n} {xs ys : List β} (size : xs.length = ys.length) (same : spread n xs = spread n ys) :
    xs = ys := by
  induction n generalizing β with
  | zero => exact same
  | succ n ih =>
    have pairs := ih (by rw [pairUpLength,pairUpLength,size]) (pairsInj same)
    exact pairUpInj size pairs

theorem climbInj {xs ys} (apart : Apart join (joined join xs.length xs ++ joined join ys.length ys))
    (size : xs.length = ys.length) (same : climb join xs.length xs = climb join ys.length ys) : xs = ys := by
  have height : depth ys = depth xs := by rw [depth,depth,size]
  exact spreadInj size ((climbSpread rfl height apart).mp same)

variable (join) in
def up : Nat → List α → List α
  | 0,level => level
  | n+1,level => up n (parents join level)

theorem upTop (join : α → α → α) {n level} (below : n ≤ depth level) : depth (up join n level) = depth level - n ∧
    climb join (up join n level).length (up join n level) = climb join level.length level ∧
      joined join (up join n level).length (up join n level) ⊆ joined join level.length level := by
  induction n generalizing level with
  | zero => exact ⟨rfl,rfl,Subset.refl _⟩
  | succ n ih =>
    have several : 1 < level.length := depthSeveral (by omega)
    have above := depthParents join several
    obtain ⟨depth,top,pairs⟩ := @ih (parents join level) (by omega)
    obtain ⟨same,more⟩ := topParents join several
    refine ⟨depth.trans (by omega),top.trans same.symm,?_⟩
    rw [more]
    exact List.Subset.trans pairs (subset_append_right _ _)

variable (join) in
/-- One list is, up to repeated last nodes, the level of the other's tree at its own height. -/
def Alike (xs ys : List α) : Prop :=
  spread (min (depth xs) (depth ys)) (up join (depth xs - depth ys) xs) =
    spread (min (depth xs) (depth ys)) (up join (depth ys - depth xs) ys)

theorem climbAlike {xs ys} (apart : Apart join (joined join xs.length xs ++ joined join ys.length ys)) :
    climb join xs.length xs = climb join ys.length ys ↔ Alike join xs ys := by
  obtain ⟨depthX,topX,pairsX⟩ := upTop join (Nat.sub_le (depth xs) (depth ys))
  obtain ⟨depthY,topY,pairsY⟩ := upTop join (Nat.sub_le (depth ys) (depth xs))
  rw [← topX,← topY]
  exact climbSpread (by omega) (by omega) (apart.sub (append_subset.mpr
    ⟨List.Subset.trans pairsX (subset_append_left _ _),List.Subset.trans pairsY (subset_append_right _ _)⟩))

section Walks
open HeapTree (Turn joinTurn rebuild pathPairs turnPair)

variable (join) in
/-- Each pair that the walk joins is one that the tree joins at that height. -/
def Climbs : List α → α → List (Turn α) → Prop
  | level,value,[] => value ∈ level
  | level,value,turn::rest => turnPair value turn ∈ pairUp level ∧ Climbs (parents join level) (joinTurn join value turn) rest

theorem climbsMember {level value turns} (climbs : Climbs join level value turns) : value ∈ level := by
  cases turns with
  | nil => exact climbs
  | cons turn rest =>
    have inside := pairUpMem climbs.1
    unfold turnPair at inside
    split at inside
    · exact inside.2
    · exact inside.1

theorem climbsIff {level value root turns} (top : climb join level.length level = [root])
    (high : turns.length = depth level)
    (apart : Apart join (joined join level.length level ++ pathPairs join value turns)) :
    rebuild join value turns = root ↔ Climbs join level value turns := by
  induction turns generalizing level value with
  | nil =>
    rw [topSingle (depthFew high.symm)] at top
    rw [top]
    exact mem_singleton.symm
  | cons turn rest ih =>
    have several := depthSeveral (by rw [← high]; exact Nat.succ_pos _)
    have above := depthParents join several
    obtain ⟨same,pairs⟩ := topParents join several
    rw [pairs] at apart
    rw [same] at top
    have rest' := @ih (parents join level) (joinTurn join value turn) top (by rw [length_cons] at high; omega)
      (apart.sub (append_subset.mpr
      ⟨fun p mem => mem_append_left _ (mem_append_right _ mem),fun p mem => mem_append_right _ (mem_cons_of_mem _ mem)⟩))
    refine rest'.trans ⟨fun climbs => ⟨?_,climbs⟩,And.right⟩
    obtain ⟨pair,mem,joins⟩ := mem_map.mp (climbsMember climbs)
    rw [HeapTree.joinTurnPair] at joins
    have opened : pair = turnPair value turn :=
      apart pair (mem_append_left _ (mem_append_left _ mem)) _ (mem_append_right _ mem_cons_self) joins
    exact opened ▸ mem

variable (join) in
/-- The walk's last turns, as many as the tree is high, climb the tree. -/
def OnTree (level : List α) (value : α) (turns : List (Turn α)) : Prop :=
  let extra := turns.length - depth level
  Climbs join (up join (depth level - turns.length) level) (rebuild join value (turns.take extra)) (turns.drop extra)

theorem pathPairsDrop (value) (turns) (n) :
    pathPairs join (rebuild join value (turns.take n)) (turns.drop n) ⊆ pathPairs join value turns := by
  induction n generalizing value turns with
  | zero => exact List.Subset.refl _
  | succ n ih =>
    cases turns with
    | nil => exact List.Subset.refl _
    | cons turn rest => exact List.Subset.trans (ih _ rest) (subset_cons_self _ _)

theorem onTreeIff {level value root turns} (top : climb join level.length level = [root])
    (apart : Apart join (joined join level.length level ++ pathPairs join value turns)) :
    rebuild join value turns = root ↔ OnTree join level value turns := by
  obtain ⟨high,same,pairs⟩ := upTop join (Nat.sub_le (depth level) turns.length)
  have split : rebuild join value turns = rebuild join (rebuild join value (turns.take (turns.length - depth level)))
      (turns.drop (turns.length - depth level)) := by
    unfold rebuild
    rw [← foldl_append,take_append_drop]
  rw [split]
  refine climbsIff (same.trans top) ?_ (apart.sub (append_subset.mpr ⟨List.Subset.trans pairs (subset_append_left _ _),
    List.Subset.trans (pathPairsDrop value _ _) (subset_append_right _ _)⟩))
  rw [length_drop]
  omega

theorem onTreeMember {level value turns} (high : turns.length = depth level) (climbs : OnTree join level value turns) :
    value ∈ level := by
  unfold OnTree at climbs
  rw [high,Nat.sub_self] at climbs
  exact climbsMember climbs

end Walks

section Rows
open HeapTree (Heap childPairs)
variable {nodes : List α} {d : Nat}

theorem pairUpFlat {level : List α} (even : level.length % 2 = 0) :
    (pairUp level).flatMap (fun pair => [pair.1,pair.2]) = level := by
  induction level using pairUp.induct with
  | case1 => rfl
  | case2 last => cases even
  | case3 left right rest ih =>
    rw [length_cons,length_cons] at even
    rw [pairUp,flatMap_cons,ih (by omega)]
    rfl

theorem spreadWhole {α n} {level : List α} (size : level.length = 2^n) : spread n level = level := by
  induction n generalizing α with
  | zero => rfl
  | succ n ih =>
    rw [spread,ih (by rw [pairUpLength]; omega),pairUpFlat (by omega)]

def row (nodes : List α) (j : Nat) : List α := (nodes.drop (2^j - 1)).take (2^j)

theorem rowGet (nodes : List α) (j i) : (row nodes j)[i]? = if i < 2^j then nodes[2^j - 1 + i]? else none := by
  rw [row,getElem?_take,getElem?_drop]

theorem rowLength {j} (size : nodes.length = 2^(d + 1) - 1) (below : j ≤ d) : (row nodes j).length = 2^j := by
  have widths := Nat.pow_le_pow_right (by decide : 0 < 2) (Nat.succ_le_succ below)
  rw [row,length_take,length_drop,size]
  omega

theorem rowPair {j i} (heap : Heap join (2^d - 1) nodes) (below : j < d) (inside : i < 2^j) :
    ∃ pair, (pairUp (row nodes (j + 1)))[i]? = some pair ∧ (row nodes j)[i]? = some (join pair.1 pair.2) ∧
      pair ∈ childPairs nodes (2^d - 1) := by
  have widths := Nat.pow_le_pow_right (by decide : 0 < 2) (Nat.succ_le_of_lt below)
  have twice := Nat.pow_succ 2 j
  obtain ⟨left,right,atLeft,atRight,joins,mem⟩ := HeapTree.heapNode heap (show 2^j - 1 + i < 2^d - 1 by omega)
  refine ⟨(left,right),?_,by rw [rowGet,if_pos inside,joins],mem⟩
  rw [pairUpGet,rowGet,rowGet,twice,if_pos (by omega),if_pos (by omega),
    show 2^j * 2 - 1 + 2 * i = 2 * (2^j - 1 + i) + 1 by omega,
    show 2^j * 2 - 1 + (2 * i + 1) = 2 * (2^j - 1 + i) + 2 by omega,atLeft,atRight]
  rfl

theorem rowParents {j} (heap : Heap join (2^d - 1) nodes) (below : j < d) :
    parents join (row nodes (j + 1)) = row nodes j ∧ pairUp (row nodes (j + 1)) ⊆ childPairs nodes (2^d - 1) := by
  have outside {i} (behind : 2^j ≤ i) : (pairUp (row nodes (j + 1)))[i]? = none := by
    rw [pairUpGet,rowGet nodes (j + 1) (2 * i),if_neg (by rw [Nat.pow_succ]; omega)]
    rfl
  refine ⟨ext_getElem? fun i => ?_,fun pair mem => ?_⟩
  · rw [parents,getElem?_map]
    rcases Nat.lt_or_ge i (2^j) with inside | behind
    · obtain ⟨pair,atI,joins,_⟩ := rowPair heap below inside
      rw [atI,joins]
      rfl
    · rw [outside behind,rowGet,if_neg (Nat.not_lt.mpr behind)]
      rfl
  · obtain ⟨i,atI⟩ := mem_iff_getElem?.mp mem
    rcases Nat.lt_or_ge i (2^j) with inside | behind
    · obtain ⟨found,atFound,_,child⟩ := rowPair heap below inside
      cases atI.symm.trans atFound
      exact child
    · cases atI.symm.trans (outside behind)

theorem heapSize {d} (heap : Heap join (2^d - 1) nodes) : nodes.length = 2^(d + 1) - 1 := by
  have size := heap.size
  have positive := Nat.two_pow_pos d
  omega

/-- The leaves of a heap climb to its first node, over the pairs of the heap. -/
theorem rowsClimb {j} (heap : Heap join (2^d - 1) nodes) (below : j ≤ d) :
    climb join (row nodes j).length (row nodes j) = row nodes 0 ∧
      joined join (row nodes j).length (row nodes j) ⊆ childPairs nodes (2^d - 1) := by
  induction j with
  | zero =>
    have single := rowLength (heapSize heap) below
    rw [single]
    exact ⟨single ▸ topSingle (Nat.le_of_eq single),by simp [joined,single]⟩
  | succ j ih =>
    have several : 1 < (row nodes (j + 1)).length := by
      rw [rowLength (heapSize heap) below]
      exact Nat.one_lt_two_pow (Nat.succ_ne_zero j)
    obtain ⟨top,pairs⟩ := ih (Nat.le_of_succ_le below)
    obtain ⟨above,children⟩ := rowParents heap below
    obtain ⟨same,split⟩ := topParents join several
    rw [same,split,above]
    exact ⟨top,append_subset.mpr ⟨children,pairs⟩⟩

theorem depthWhole {level : List α} (size : level.length = 2^d) : depth level = d := by
  rw [depth,size,Nat.clog_pow 2 d (by decide)]

theorem upLength {n level} (size : level.length = 2^d) (below : n ≤ d) : (up join n level).length = 2^(d - n) := by
  induction n generalizing level d with
  | zero => exact size
  | succ n ih =>
    obtain ⟨d,rfl⟩ := Nat.exists_eq_add_of_lt (Nat.lt_of_lt_of_le (Nat.succ_pos n) below)
    rw [Nat.zero_add] at size below ⊢
    have half : (parents join level).length = 2^d := by
      rw [parentsLength,size,Nat.pow_succ]
      omega
    rw [up,ih half (Nat.le_of_succ_le_succ below),Nat.add_sub_add_right]

theorem alikeWhole {dx dy xs ys} (sizeX : xs.length = 2^dx) (sizeY : ys.length = 2^dy) :
    Alike join xs ys ↔ up join (dx - dy) xs = up join (dy - dx) ys := by
  have lower := @upLength _ join dx (dx - dy) xs sizeX (Nat.sub_le _ _)
  have lower' := @upLength _ join dy (dy - dx) ys sizeY (Nat.sub_le _ _)
  rw [Alike,depthWhole sizeX,depthWhole sizeY,spreadWhole (lower.trans (congrArg _ (by omega))),
    spreadWhole (lower'.trans (congrArg _ (by omega)))]

end Rows

end Roots
end QuantumChain.LevelTree
