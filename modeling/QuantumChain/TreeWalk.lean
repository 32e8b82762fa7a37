import Mathlib.Data.Finset.Card
import Mathlib.Logic.Relation
import Mathlib.Order.Defs.LinearOrder

/-! Walks up parent links, and down to a heaviest child each time.
Links may run in circles; fuel stops the walk. -/
namespace QuantumChain.TreeWalk
open List Relation ReflTransGen
open Relation (ReflTransGen TransGen)
variable {α : Type}

inductive Reaches (parent : α → Option α) : α → α → Prop where
  | here {x p : α} (known : parent x = some p) : Reaches parent x x
  | up {x p y : α} (link : parent x = some p) (above : Reaches parent p y) : Reaches parent x y

theorem reachesInside {parent} {visited : Finset α} (closed : ∀ v ∈ visited, ∀ p, parent v = some p → p ∈ visited) {x y}
    (inside : x ∈ visited) (reaches : Reaches parent x y) : y ∈ visited := by
  induction reaches with
  | here _ => exact inside
  | up link _ ih => exact ih (closed _ inside _ link)

section Ancestor
variable {parent : α → Option α}

def Ancestor (parent : α → Option α) (target x : α) : Prop := TransGen (fun x p => parent x = some p) x target

theorem ancestorBelow {height : α → Nat} (graded : ∀ x p, parent x = some p → height x = height p + 1) {target x}
    (ancestor : Ancestor parent target x) : height target < height x := by
  induction ancestor with
  | single link =>
    have step := graded _ _ link
    omega
  | tail _ link ih =>
    have step := graded _ _ link
    omega

theorem ancestorStep {target x p} (link : parent x = some p) :
    Ancestor parent target x ↔ p = target ∨ Ancestor parent target p := by
  unfold Ancestor
  rw [Relation.TransGen.head'_iff]
  constructor
  · rintro ⟨p',link',rest⟩
    cases Option.some.inj (link.symm.trans link')
    exact (reflTransGen_iff_eq_or_transGen.mp rest).imp Eq.symm id
  · intro either
    exact ⟨p,link,reflTransGen_iff_eq_or_transGen.mpr (either.imp Eq.symm id)⟩

variable [DecidableEq α]

def meets (parent : α → Option α) (target : α) : Nat → α → Bool
  | 0,_ => false
  | turns+1,x =>
    match parent x with
    | none => false
    | some p => if p = target then true else meets parent target turns p

theorem meetsIff {height : α → Nat} (graded : ∀ x p, parent x = some p → height x = height p + 1) (target) (turns)
    (x) : meets parent target turns x = true ↔ Ancestor parent target x ∧ height x ≤ height target + turns := by
  induction turns generalizing x with
  | zero =>
    refine ⟨fun met => absurd met Bool.false_ne_true,?_⟩
    rintro ⟨ancestor,near⟩
    have above := ancestorBelow graded ancestor
    omega
  | succ turns ih =>
    unfold meets
    cases link : parent x with
    | none =>
      refine ⟨fun met => absurd met Bool.false_ne_true,?_⟩
      rintro ⟨ancestor,_⟩
      obtain ⟨p,link',_⟩ := Relation.TransGen.head'_iff.mp ancestor
      rw [link] at link'
      contradiction
    | some p =>
      have step := graded x p link
      rw [ancestorStep link]
      dsimp only
      split
      · rename_i here
        subst here
        refine ⟨fun _ => ⟨.inl rfl,by omega⟩,fun _ => rfl⟩
      · rename_i elsewhere
        rw [ih p]
        constructor
        · rintro ⟨ancestor,near⟩
          exact ⟨.inr ancestor,by omega⟩
        · rintro ⟨ancestor,near⟩
          exact ⟨ancestor.resolve_left elsewhere,by omega⟩

end Ancestor

section Climb
variable [DecidableEq α] {parent : α → Option α}

def climb (parent : α → Option α) : Nat → Finset α → α → List α
  | 0,_,_ => []
  | turns+1,visited,x =>
    if x ∈ visited then []
    else
      match parent x with
      | none => []
      | some p => if x = p then [x] else x::climb parent turns (insert x visited) p

theorem climbSound {turns visited x y} (mem : y ∈ climb parent turns visited x) : Reaches parent x y := by
  induction turns generalizing visited x with
  | zero => exact (not_mem_nil mem).elim
  | succ turns ih =>
    unfold climb at mem
    split at mem
    · exact (not_mem_nil mem).elim
    split at mem
    · exact (not_mem_nil mem).elim
    rename_i p link
    split at mem
    · cases mem_singleton.mp mem
      exact .here link
    · rcases mem_cons.mp mem with rfl | rest
      · exact .here link
      · exact .up link (ih rest)

theorem climbNodup {turns visited x} :
    (climb parent turns visited x).Nodup ∧ ∀ y ∈ climb parent turns visited x, y ∉ visited := by
  induction turns generalizing visited x with
  | zero => simp [climb]
  | succ turns ih =>
    unfold climb
    split
    · simp
    rename_i fresh
    split
    · simp
    rename_i p _
    split
    · simpa using fresh
    · obtain ⟨nodup,apart⟩ : (climb parent turns (insert x visited) p).Nodup ∧
          ∀ y ∈ climb parent turns (insert x visited) p, y ∉ insert x visited := ih
      refine ⟨nodup_cons.mpr ⟨fun mem => apart x mem (Finset.mem_insert_self _ _),nodup⟩,fun y mem => ?_⟩
      rcases mem_cons.mp mem with rfl | rest
      · exact fresh
      · exact fun old => apart y rest (Finset.mem_insert_of_mem old)

theorem climbComplete {nodes} (known : ∀ x p, parent x = some p → x ∈ nodes) {turns visited x y}
    (closed : ∀ v ∈ visited, ∀ p, parent v = some p → p ∈ visited ∨ p = x)
    (enough : (nodes \ visited).card < turns) (reaches : Reaches parent x y) :
    y ∈ visited ∨ y ∈ climb parent turns visited x := by
  induction turns generalizing visited x with
  | zero => omega
  | succ turns ih =>
    unfold climb
    split
    · rename_i again
      refine .inl (reachesInside (fun v mem p link => ?_) again reaches)
      rcases closed v mem p link with inside | rfl
      · exact inside
      · exact again
    rename_i fresh
    have own : ∀ p, parent x = some p → x ∈ nodes \ visited :=
      fun p link => Finset.mem_sdiff.mpr ⟨known x p link,fresh⟩
    cases link : parent x with
    | none =>
      cases reaches with
      | here stored => simp [link] at stored
      | up stored _ => simp [link] at stored
    | some p =>
      dsimp only
      split
      · rename_i loop
        have single := reachesInside (fun v mem q stored => by
          cases Finset.mem_singleton.mp mem
          rw [Finset.mem_singleton,loop]
          exact Option.some.inj (stored.symm.trans link)) (Finset.mem_singleton_self x) reaches
        exact .inr (mem_singleton.mpr (Finset.mem_singleton.mp single))
      · cases reaches with
        | here _ => exact .inr mem_cons_self
        | up stored above =>
          cases Option.some.inj (stored.symm.trans link)
          have fewer : (nodes \ insert x visited).card < (nodes \ visited).card := by
            rw [Finset.sdiff_insert]
            exact Finset.card_erase_lt_of_mem (own _ link)
          have closed' : ∀ v ∈ insert x visited, ∀ q, parent v = some q → q ∈ insert x visited ∨ q = p := by
            intro v mem q named
            rcases Finset.mem_insert.mp mem with rfl | before
            · exact .inr (Option.some.inj (named.symm.trans link))
            · rcases closed v before q named with inside | rfl
              · exact .inl (Finset.mem_insert_of_mem inside)
              · exact .inl (Finset.mem_insert_self _ _)
          rcases ih closed' (by omega) above with old | new
          · rcases Finset.mem_insert.mp old with rfl | before
            · exact .inr mem_cons_self
            · exact .inl before
          · exact .inr (mem_cons_of_mem _ new)

theorem memClimb {nodes : Finset α} (known : ∀ x p, parent x = some p → x ∈ nodes) {turns}
    (enough : nodes.card < turns) {x y} : y ∈ climb parent turns ∅ x ↔ Reaches parent x y := by
  refine ⟨climbSound,fun reaches => ?_⟩
  refine (climbComplete known (fun _ mem => (Finset.notMem_empty _ mem).elim) ?_ reaches).resolve_left (Finset.notMem_empty _)
  rw [Finset.sdiff_empty]
  exact enough

end Climb

section Descent
variable {β : Type} [LinearOrder β]

def lastMax (weight : α → β) : List α → Option α
  | [] => none
  | x::rest => some (rest.foldl (fun best y => if weight y < weight best then best else y) x)

theorem lastMaxSnoc (weight : α → β) (front : List α) (z) : lastMax weight (front ++ [z]) =
      match lastMax weight front with
      | none => some z
      | some best => some (if weight z < weight best then best else z) := by
  cases front with
  | nil => rfl
  | cons x rest => simp [lastMax]

theorem lastMaxNone {weight : α → β} {l} : lastMax weight l = none ↔ l = [] := by
  cases l <;> simp [lastMax]

theorem lastMaxSome {weight : α → β} {l y} (best : lastMax weight l = some y) :
    y ∈ l ∧ ∀ c ∈ l, weight c ≤ weight y := by
  induction l using List.reverseRecOn generalizing y with
  | nil => contradiction
  | append_singleton front z ih =>
    rw [lastMaxSnoc] at best
    cases before : lastMax weight front with
    | none =>
      rw [before] at best
      cases Option.some.inj best
      cases lastMaxNone.mp before
      simp
    | some x =>
      rw [before] at best
      obtain ⟨mem,top⟩ := ih before
      cases Option.some.inj best
      refine ⟨?_,fun c inside => ?_⟩
      · split
        · exact mem_append_left _ mem
        · simp
      · rcases mem_append.mp inside with old | last
        · split
          · exact top c old
          · rename_i above
            exact le_trans (top c old) (not_lt.mp above)
        · cases mem_singleton.mp last
          split
          · rename_i below
            exact le_of_lt below
          · exact le_refl _

def Heaviest (children : α → List α) (weight : α → β) (x y : α) : Prop :=
  y ∈ children x ∧ ∀ c ∈ children x, weight c ≤ weight y

def descend (next : α → Option α) : Nat → α → Option α
  | 0,_ => none
  | turns+1,x =>
    match next x with
    | none => some x
    | some y => descend next turns y

def Steps (next : α → Option α) (x y : α) : Prop := next x = some y

theorem descendPath {next turns} {x leaf : α} (ends : descend next turns x = some leaf) :
    ReflTransGen (Steps next) x leaf ∧ next leaf = none := by
  induction turns generalizing x with
  | zero => contradiction
  | succ turns ih =>
    unfold descend at ends
    split at ends
    · rename_i stop
      cases Option.some.inj ends
      exact ⟨.refl,stop⟩
    · rename_i y step
      obtain ⟨path,stop⟩ := ih ends
      exact ⟨.head step path,stop⟩

theorem descendMore {next turns turns'} (more : turns ≤ turns') {x leaf : α}
    (ends : descend next turns x = some leaf) : descend next turns' x = some leaf := by
  induction turns generalizing turns' x with
  | zero => contradiction
  | succ turns ih =>
    obtain ⟨rest,rfl⟩ := Nat.exists_eq_succ_of_ne_zero (Nat.ne_of_gt (Nat.lt_of_lt_of_le (Nat.zero_lt_succ _) more))
    unfold descend at ends ⊢
    split at ends
    · exact ends
    · exact ih (Nat.le_of_succ_le_succ more) ends

theorem descendAgree {next next'} {x : α} (same : ∀ y, ReflTransGen (Steps next) x y → next y = next' y)
    (turns) : descend next turns x = descend next' turns x := by
  induction turns generalizing x with
  | zero => rfl
  | succ turns ih =>
    unfold descend
    rw [← same x .refl]
    cases step : next x with
    | none => rfl
    | some y => exact ih (fun z path => same z (.head step path))

theorem stepsUnique (next : α → Option α) : Relator.RightUnique (Steps next) :=
  fun _ _ _ first second => Option.some.inj (first.symm.trans second)

theorem pathKept {next next' link} (acyclic : ∀ x, ¬ TransGen link x x)
    (follows : ∀ a b, next a = some b → link a b) {x y : α} (kept : ∀ a, a ≠ y → next' a = next a)
    (path : ReflTransGen (Steps next) x y) : ReflTransGen (Steps next') x y := by
  induction path using head_induction_on with
  | refl => exact .refl
  | @head a b step rest ih =>
    have other : a ≠ y := by
      intro same
      subst same
      exact acyclic a (TransGen.head' (follows a b step) (mono follows _ _ rest))
    exact .head ((kept a other).trans step) ih

theorem heaviestWalk {children} {weight : α → β} {next x}
    (picks : ∀ y, ReflTransGen (Steps next) x y → ∀ z, Heaviest children weight y z → next y = some z) {y}
    (path : ReflTransGen (Heaviest children weight) x y) : ReflTransGen (Steps next) x y := by
  induction path with
  | refl => exact .refl
  | tail _ heaviest ih => exact ih.tail (picks _ ih _ heaviest)

theorem pathThrough {next} {x y z leaf : α} (before : ReflTransGen (Steps next) x y) (step : next y = some z)
    (path : ReflTransGen (Steps next) x leaf) (stop : next leaf = none) : ReflTransGen (Steps next) z leaf := by
  have ended : ∀ w, ¬ Steps next leaf w := fun w onward => by
    rw [Steps,stop] at onward
    contradiction
  rcases total_of_right_unique (stepsUnique next) (before.tail step) path with after | back
  · exact after
  · rcases cases_head back with rfl | ⟨w,onward,_⟩
    · exact .refl
    · exact absurd onward (ended w)

theorem siblingsApart {link} (acyclic : ∀ x, ¬ TransGen link x x)
    (single : ∀ p q c, link p c → link q c → p = q) {x y z leaf : α} (left : link x y) (right : link x z)
    (below : ReflTransGen link y leaf) (below' : ReflTransGen link z leaf) : y = z := by
  have above : ∀ a b, link x a → link x b → ReflTransGen link b a → a = b := by
    intro a b first second path
    rcases cases_tail path with same | ⟨p,before,last⟩
    · exact same
    · cases single p x a last first
      exact absurd (TransGen.head' second before) (acyclic x)
  have unique : Relator.RightUnique (Function.swap link) := fun c p q first second => single p q c first second
  rcases total_of_right_unique unique (reflTransGen_swap.mpr below)
    (reflTransGen_swap.mpr below') with up | up
  · exact above y z left right (reflTransGen_swap.mp up)
  · exact (above z y right left (reflTransGen_swap.mp up)).symm

theorem pickedAgain [DecidableEq α] {children} {weight : α → β}
    (acyclic : ∀ x, ¬ TransGen (fun p c => c ∈ children p) x x) (single : ∀ p q c, c ∈ children p → c ∈ children q → p = q)
    {top x z leaf turns} (heaviest : Heaviest children weight x z)
    (path : ReflTransGen (Steps (fun a => lastMax weight (children a))) top x)
    (ends : descend (fun a => lastMax weight (children a)) turns top = some leaf)
    (again : descend (fun a => lastMax weight (if a = x then children a ++ [z] else children a)) turns top = some leaf) :
    lastMax weight (children x) = some z := by
  obtain ⟨onward,stop⟩ := descendPath ends
  obtain ⟨onward',stop'⟩ := descendPath again
  cases best : lastMax weight (children x) with
  | none =>
    have child := heaviest.1
    rw [lastMaxNone.mp best] at child
    exact absurd child not_mem_nil
  | some y =>
    have first := lastMaxSome best
    have last : lastMax weight (if x = x then children x ++ [z] else children x) = some z := by
      rw [if_pos rfl,lastMaxSnoc,best]
      simp only [if_neg (not_lt.mpr (heaviest.2 y first.1))]
    have kept : ∀ a, a ≠ x → lastMax weight (if a = x then children a ++ [z] else children a) = lastMax weight (children a) :=
      fun a other => by rw [if_neg other]
    have below := pathThrough path best onward stop
    have below' := pathThrough (pathKept acyclic (fun a b step => (lastMaxSome step).1) kept path) last onward' stop'
    refine congrArg some (siblingsApart acyclic single first.1 heaviest.1 (mono (fun a b step => ?_) _ _ below)
      (mono (fun a b step => ?_) _ _ below'))
    · exact (lastMaxSome step).1
    · have child := (lastMaxSome step).1
      split at child
      · rename_i here
        rcases mem_append.mp child with old | new
        · exact old
        · cases mem_singleton.mp new
          rw [here]
          exact heaviest.1
      · exact child

open Classical in
noncomputable def rank (link : α → α → Prop) (nodes : Finset α) (x : α) : Nat := (nodes.filter (TransGen link x)).card

theorem rankDrops {link} (acyclic : ∀ x, ¬ TransGen link x x) {nodes} {x y : α}
    (edge : link x y) (inside : y ∈ nodes) : rank link nodes y < rank link nodes x := by
  classical
  unfold rank
  apply Finset.card_lt_card
  rw [Finset.ssubset_iff_of_subset]
  · exact ⟨y,Finset.mem_filter.mpr ⟨inside,.single edge⟩,fun mem => acyclic y (Finset.mem_filter.mp mem).2⟩
  · intro z mem
    obtain ⟨known,below⟩ := Finset.mem_filter.mp mem
    exact Finset.mem_filter.mpr ⟨known,.head edge below⟩

theorem rankBound (link) (nodes) (x : α) : rank link nodes x ≤ nodes.card := by
  classical
  exact Finset.card_filter_le _ _

theorem descendEnds {next link} (acyclic : ∀ x, ¬ TransGen link x x) {nodes}
    (follows : ∀ x y, next x = some y → link x y ∧ y ∈ nodes) {turns} {x : α} (enough : rank link nodes x < turns) :
    ∃ leaf, descend next turns x = some leaf := by
  induction turns generalizing x with
  | zero => omega
  | succ turns ih =>
    unfold descend
    cases step : next x with
    | none => exact ⟨x,rfl⟩
    | some y =>
      obtain ⟨edge,inside⟩ := follows x y step
      have drops := rankDrops acyclic edge inside
      exact ih (by omega)

end Descent

end QuantumChain.TreeWalk
