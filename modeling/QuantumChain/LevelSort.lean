import Mathlib.Logic.Relation
import Mathlib.Order.WellFoundedSet
import Mathlib.Data.List.Forall2
import Mathlib.Data.List.Nodup
import Mathlib.Tactic.Common

/-! Layers of a finite directed graph: nodes whose predecessors are all listed.
Cycles are allowed; their nodes are in no layer. -/
namespace QuantumChain.LevelSort
open List
variable {α : Type}

def Before (l : List α) (a b : α) : Prop := [a,b].Sublist l

instance decideBefore [DecidableEq α] (l : List α) (a b : α) : Decidable (Before l a b) :=
  inferInstanceAs (Decidable ([a,b].Sublist l))

theorem pairwiseBefore {l} {R : α → α → Prop} : l.Pairwise R ↔ ∀ a b, Before l a b → R a b :=
  pairwise_iff_forall_sublist.trans ⟨fun each _ _ before => each before,fun each _ _ before => each _ _ before⟩

theorem beforeMem {l} {a b : α} (before : Before l a b) : a ∈ l ∧ b ∈ l :=
  ⟨before.subset (by simp),before.subset (by simp)⟩

theorem beforeCons {l} {x a b : α} : Before (x::l) a b ↔ (a = x ∧ b ∈ l) ∨ Before l a b := by
  unfold Before
  rw [cons_sublist_cons']
  simp only [singleton_sublist]
  exact or_comm.trans (or_congr_left Iff.rfl)

theorem beforeTotal {l} {a b : α} (inside : a ∈ l) (inside' : b ∈ l) (other : a ≠ b) :
    Before l a b ∨ Before l b a := by
  induction l with
  | nil => cases inside
  | cons x rest ih =>
    simp only [beforeCons]
    rcases mem_cons.mp inside with here | later
    · rcases mem_cons.mp inside' with here' | later'
      · exact absurd (here.trans here'.symm) other
      · exact .inl (.inl ⟨here,later'⟩)
    · rcases mem_cons.mp inside' with here' | later'
      · exact .inr (.inl ⟨here',later⟩)
      · rcases ih later later' with before | before
        · exact .inl (.inr before)
        · exact .inr (.inr before)

theorem beforeAsymm {l} (once : l.Nodup) {a b : α} (before : Before l a b) : ¬Before l b a := by
  induction l with
  | nil => cases before
  | cons x rest ih =>
    obtain ⟨fresh,once⟩ := nodup_cons.mp once
    simp only [beforeCons] at before ⊢
    rcases before with ⟨rfl,later⟩ | before
    · rintro (⟨rfl,_⟩ | back)
      · exact fresh later
      · exact fresh (beforeMem back).2
    · rintro (⟨rfl,_⟩ | back)
      · exact fresh (beforeMem before).2
      · exact ih once before back

theorem beforeTrans {l} (once : l.Nodup) {a b c : α} (first : Before l a b) (second : Before l b c) :
    Before l a c := by
  induction l with
  | nil => cases first
  | cons x rest ih =>
    obtain ⟨fresh,once⟩ := nodup_cons.mp once
    simp only [beforeCons] at first second ⊢
    rcases second with ⟨rfl,_⟩ | second
    · rcases first with ⟨_,later⟩ | first
      · exact absurd later fresh
      · exact absurd (beforeMem first).2 fresh
    · rcases first with ⟨here,_⟩ | first
      · exact .inl ⟨here,(beforeMem second).2⟩
      · exact .inr (ih once first second)

theorem beforeMap {β} {f : α → β} {l a b} (before : Before l a b) : Before (l.map f) (f a) (f b) :=
  before.map f

def pairs : List α → List (α × α)
  | [] => []
  | a::rest => rest.map (fun b => (a,b)) ++ pairs rest

theorem memPairs {l} {a b : α} : (a,b) ∈ pairs l ↔ Before l a b := by
  induction l with
  | nil => exact iff_of_false nofun nofun
  | cons x rest ih =>
    rw [pairs,mem_append,ih,beforeCons]
    simp [eq_comm,and_comm]

def windows : List α → List (α × α)
  | a::b::rest => (a,b)::windows (b::rest)
  | _ => []

theorem windowsBefore {l} {a b : α} (mem : (a,b) ∈ windows l) : Before l a b := by
  induction l with
  | nil => cases mem
  | cons x rest ih =>
    rw [beforeCons]
    cases rest with
    | nil => cases mem
    | cons y rest =>
      rcases mem_cons.mp mem with here | later
      · cases here
        exact .inl ⟨rfl,mem_cons_self⟩
      · exact .inr (ih later)

theorem windowsPath {l} {a b : α} (before : Before l a b) :
    Relation.TransGen (fun a b => (a,b) ∈ windows l) a b := by
  induction l generalizing a with
  | nil => cases before
  | cons x rest ih =>
    cases rest with
    | nil =>
      rcases beforeCons.mp before with ⟨_,later⟩ | before
      · cases later
      · cases before
    | cons y rest =>
      have wider {a b : α} (path : Relation.TransGen (fun a b => (a,b) ∈ windows (y::rest)) a b) :
          Relation.TransGen (fun a b => (a,b) ∈ windows (x::y::rest)) a b :=
        Relation.TransGen.mono (fun _ _ => mem_cons_of_mem _) _ _ path
      rcases beforeCons.mp before with ⟨rfl,later⟩ | before
      · have first : (a,y) ∈ windows (a::y::rest) := mem_cons_self
        rcases mem_cons.mp later with rfl | later
        · exact .single first
        · exact .head first (wider (ih (beforeCons.mpr (.inl ⟨rfl,later⟩))))
      · exact wider (ih before)

variable (E : α → α → Prop)

def Acyclic : Prop := ∀ a, ¬Relation.TransGen E a a

variable {E} in
theorem beforeAcyclic {l} (once : l.Nodup) (forward : ∀ a b, E a b → Before l a b) : Acyclic E := by
  have across {a b : α} (path : Relation.TransGen E a b) : Before l a b := by
    induction path with
    | single edge => exact forward _ _ edge
    | tail _ edge ih => exact beforeTrans once ih (forward _ _ edge)
  exact fun a cycle => beforeAsymm once (across cycle) (across cycle)

variable (nodes : Finset α)

def Ready (listed : List α) (a : α) : Prop := a ∈ nodes ∧ a ∉ listed ∧ ∀ b, E b a → b ∈ listed

inductive Layered : List (List α) → Prop where
  | nil : Layered []
  | snoc {layers next} (before : Layered layers) (once : next.Nodup)
      (ready : ∀ a, a ∈ next ↔ Ready E nodes layers.flatten a) : Layered (layers ++ [next])

variable {E nodes} {layers : List (List α)}

theorem flattenSnoc (layers) (next : List α) : (layers ++ [next]).flatten = layers.flatten ++ next := by
  simp

theorem layeredSnoc {last} (layered : Layered E nodes (layers ++ [last])) :
    Layered E nodes layers ∧ ∀ a ∈ last, Ready E nodes layers.flatten a := by
  generalize whole : layers ++ [last] = all at layered
  cases layered with
  | nil => cases append_ne_nil_of_right_ne_nil layers (cons_ne_nil last []) whole
  | snoc before _ ready =>
    obtain ⟨rfl,same⟩ := append_inj' whole rfl
    cases same
    exact ⟨before,fun a => (ready a).mp⟩

theorem layeredOnce (layered : Layered E nodes layers) : layers.flatten.Nodup := by
  induction layered with
  | nil => exact nodup_nil
  | snoc _ once ready ih =>
    rw [flattenSnoc]
    exact nodup_append'.mpr ⟨ih,once,fun a old new => ((ready a).mp new).2.1 old⟩

theorem layeredInside (layered : Layered E nodes layers) : ∀ a ∈ layers.flatten, a ∈ nodes := by
  induction layered with
  | nil => nofun
  | snoc _ _ ready ih =>
    intro a mem
    rw [flattenSnoc] at mem
    rcases mem_append.mp mem with old | new
    · exact ih a old
    · exact ((ready a).mp new).1

theorem layeredEdge (layered : Layered E nodes layers) {a b} (edge : E b a) {j : Nat} {layer}
    (found : layers[j]? = some layer) (mem : a ∈ layer) : ∃ i < j, ∃ earlier, layers[i]? = some earlier ∧ b ∈ earlier := by
  induction layered generalizing j layer with
  | nil => cases found
  | @snoc layers next _ _ ready ih =>
    have kept i short : (layers ++ [next])[i]? = layers[i]? :=
      getElem?_append_left short
    by_cases old : j < layers.length
    · rw [kept j old] at found
      obtain ⟨i,before,earlier,found',mem'⟩ := ih found mem
      exact ⟨i,before,earlier,(kept i (Nat.lt_trans before old)).trans found',mem'⟩
    · obtain ⟨inside,same⟩ := List.getElem?_eq_some_iff.mp found
      rw [length_append,length_singleton] at inside
      have last : j = layers.length := by omega
      subst last
      have here : a ∈ next := by
        rw [getElem_append_right (Nat.le_refl _)] at same
        simp only [Nat.sub_self,getElem_cons_zero] at same
        exact same ▸ mem
      obtain ⟨earlier,among,mem'⟩ := mem_flatten.mp (((ready a).mp here).2.2 b edge)
      obtain ⟨i,short,at'⟩ := mem_iff_getElem.mp among
      exact ⟨i,short,earlier,(kept i short).trans (List.getElem?_eq_some_iff.mpr ⟨short,at'⟩),mem'⟩

theorem layeredPath (layered : Layered E nodes layers) {a b} (path : Relation.TransGen E b a) {j : Nat}
    {layer} (found : layers[j]? = some layer) (mem : a ∈ layer) :
    ∃ i < j, ∃ earlier, layers[i]? = some earlier ∧ b ∈ earlier := by
  induction path generalizing j layer with
  | single edge => exact layeredEdge layered edge found mem
  | tail _ edge ih =>
    obtain ⟨i,before,earlier,found',mem'⟩ := layeredEdge layered edge found mem
    obtain ⟨k,before',earliest,found'',mem''⟩ := ih found' mem'
    exact ⟨k,Nat.lt_trans before' before,earliest,found'',mem''⟩

theorem layerUnique (layered : Layered E nodes layers) {i j : Nat} {first second a}
    (found : layers[i]? = some first) (found' : layers[j]? = some second) (mem : a ∈ first) (mem' : a ∈ second) :
    i = j := by
  have apart := (nodup_flatten.mp (layeredOnce layered)).2
  obtain ⟨inside,rfl⟩ := List.getElem?_eq_some_iff.mp found
  obtain ⟨inside',rfl⟩ := List.getElem?_eq_some_iff.mp found'
  rcases Nat.lt_trichotomy i j with less | same | more
  · exact absurd mem' (pairwise_iff_getElem.mp apart i j inside inside' less mem)
  · exact same
  · exact absurd mem (pairwise_iff_getElem.mp apart j i inside' inside more mem')

theorem listedLayer {a} (listed : a ∈ layers.flatten) :
    ∃ (i : Nat) (layer : List α), layers[i]? = some layer ∧ a ∈ layer := by
  obtain ⟨layer,among,mem⟩ := mem_flatten.mp listed
  obtain ⟨i,inside,at'⟩ := mem_iff_getElem.mp among
  exact ⟨i,layer,List.getElem?_eq_some_iff.mpr ⟨inside,at'⟩,mem⟩

theorem layeredPairwise (layered : Layered E nodes layers) :
    layers.flatten.Pairwise (fun a b => ¬Relation.TransGen E b a) := by
  refine pairwise_flatten.mpr ⟨fun layer among => ?_,?_⟩
  · obtain ⟨i,inside,at'⟩ := mem_iff_getElem.mp among
    have found := List.getElem?_eq_some_iff.mpr ⟨inside,at'⟩
    refine pairwise_iff_forall_sublist.mpr fun {a b} before path => ?_
    obtain ⟨j,less,earlier,found',mem⟩ := layeredPath layered path found (beforeMem before).1
    exact absurd (layerUnique layered found' found mem (beforeMem before).2) (Nat.ne_of_lt less)
  · refine pairwise_iff_getElem.mpr fun i j inside inside' less a mem b mem' path => ?_
    have found := List.getElem?_eq_some_iff.mpr ⟨inside,rfl⟩
    have found' := List.getElem?_eq_some_iff.mpr ⟨inside',rfl⟩
    obtain ⟨k,before,earlier,found'',mem''⟩ := layeredPath layered path found mem
    have same := layerUnique layered found'' found' mem'' mem'
    omega

theorem layeredBefore (layered : Layered E nodes layers) {a b} (path : Relation.TransGen E a b)
    (listed : b ∈ layers.flatten) : Before layers.flatten a b := by
  obtain ⟨j,layer,found,mem⟩ := listedLayer listed
  obtain ⟨i,less,earlier,found',mem'⟩ := layeredPath layered path found mem
  have other : a ≠ b := by
    rintro rfl
    exact absurd (layerUnique layered found' found mem' mem) (Nat.ne_of_lt less)
  have listed' := mem_flatten.mpr ⟨earlier,mem_of_getElem? found',mem'⟩
  rcases beforeTotal listed' listed other with before | back
  · exact before
  · exact absurd path (pairwiseBefore.mp (layeredPairwise layered) b a back)

theorem flattenMem {layers'} (same : List.Forall₂ List.Perm layers' layers) (a) :
    a ∈ layers'.flatten ↔ a ∈ layers.flatten := by
  induction same with
  | nil => exact Iff.rfl
  | cons perm _ ih =>
    rw [flatten_cons,flatten_cons,mem_append,mem_append,perm.mem_iff,ih]

theorem layeredPerm (layered : Layered E nodes layers) {layers'}
    (same : List.Forall₂ List.Perm layers' layers) : Layered E nodes layers' := by
  induction layered generalizing layers' with
  | nil =>
    cases same
    exact .nil
  | @snoc layers next _ once ready ih =>
    have front := forall₂_take_append _ _ _ same
    have back := forall₂_drop_append _ _ _ same
    rw [← take_append_drop layers.length layers']
    generalize layers'.drop layers.length = last at back
    cases back with
    | cons perm rest =>
      cases rest
      refine .snoc (ih front) (perm.nodup_iff.mpr once) fun a => ?_
      rw [perm.mem_iff,ready]
      unfold Ready
      simp only [flattenMem front]

section Complete
variable (inside : ∀ a b, E a b → a ∈ nodes ∧ b ∈ nodes)
include inside

theorem coveredAcyclic (layered : Layered E nodes layers) (covered : ∀ a ∈ nodes, a ∈ layers.flatten) : Acyclic E := by
  intro a cycle
  obtain ⟨b,first,_⟩ := (Relation.TransGen.head'_iff).mp cycle
  obtain ⟨j,layer,found,mem⟩ := listedLayer (covered a (inside a b first).1)
  obtain ⟨i,less,earlier,found',mem'⟩ := layeredPath layered cycle found mem
  exact absurd (layerUnique layered found' found mem' mem) (Nat.ne_of_lt less)

theorem acyclicCovered {listed} (ended : ∀ a, ¬Ready E nodes listed a) (acyclic : Acyclic E) :
    ∀ a ∈ nodes, a ∈ listed := by
  intro a mem
  have : IsStrictOrder α (Relation.TransGen E) := {irrefl := acyclic, trans := fun _ _ _ => Relation.TransGen.trans}
  have founded : (nodes : Set α).WellFoundedOn (Relation.TransGen E) := nodes.finite_toSet.wellFoundedOn
  -- a node whose predecessors are all listed would be ready if it were not listed itself
  refine founded.induction (P := fun a => a ∈ listed) mem fun b memB earlier => ?_
  by_contra missing
  exact ended b ⟨memB,missing,fun c edge => earlier c (inside c b edge).1 (.single edge)⟩

theorem layersComplete (layered : Layered E nodes layers) (ended : ∀ a, ¬Ready E nodes layers.flatten a) :
    (∀ a ∈ nodes, a ∈ layers.flatten) ↔ Acyclic E :=
  ⟨coveredAcyclic inside layered,acyclicCovered inside ended⟩

end Complete

theorem layeredLength (layered : Layered E nodes layers) : layers.flatten.length ≤ nodes.card := by
  classical
  rw [← toFinset_card_of_nodup (layeredOnce layered)]
  refine Finset.card_le_card fun a mem => layeredInside layered a (mem_toFinset.mp mem)

theorem layeredCovers (layered : Layered E nodes layers) :
    (∀ a ∈ nodes, a ∈ layers.flatten) ↔ ¬layers.flatten.length < nodes.card := by
  classical
  rw [← toFinset_card_of_nodup (layeredOnce layered)]
  have part : layers.flatten.toFinset ⊆ nodes := fun a mem => layeredInside layered a (mem_toFinset.mp mem)
  constructor
  · intro covered
    exact Nat.not_lt.mpr (Finset.card_le_card fun a mem => mem_toFinset.mpr (covered a mem))
  · intro full a mem
    rw [← Finset.eq_of_subset_of_card_le part (Nat.not_lt.mp full)] at mem
    exact mem_toFinset.mp mem

end QuantumChain.LevelSort
