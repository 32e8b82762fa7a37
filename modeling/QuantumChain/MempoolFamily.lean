import QuantumChain.FixedWidth
import QuantumChain.SecondaryIndex
import QuantumChain.StepRun

/-! The family tracker: transactions chained by their nonces.
The tracker is apart from the pool, as in the source. -/
namespace QuantumChain.Mempool
open Finset
open KeyedMap
open SecondaryIndex (slot file strike slotFile slotStrike)
open StepRun (Along)

structure TransactionFamily where
  children : KeyedMap Hash (Finset Hash) := ∅
  parents : KeyedMap Hash Hash := ∅
  senderNonces : KeyedMap Address (KeyedMap U64 Hash) := ∅

namespace TransactionFamily

variable (f : TransactionFamily)

def childrenOf (parent : Hash) : Finset Hash := (f.children.lookup parent).getD ∅

def parentAt (sender : Address) (nonce : U64) : Option Hash :=
  if 0 < nonce then slot f.senderNonces sender (nonce - 1) else none

def link (hash : Hash) : Option Hash → TransactionFamily
  | none => f
  | some parentHash => {f with
      parents := f.parents.insert hash parentHash
      children := f.children.insert parentHash (insert hash (f.childrenOf parentHash))}

def register (hash : Hash) (sender : Address) (nonce : U64) : TransactionFamily :=
  let linked := f.link hash (f.parentAt sender nonce)
  {linked with senderNonces := file linked.senderNonces sender nonce hash}

def removeChild (children : KeyedMap Hash (Finset Hash)) (parent hash : Hash) : KeyedMap Hash (Finset Hash) :=
  match children.lookup parent with
  | none => children
  | some siblings => children.insert parent (siblings.erase hash)

def unregister (f : TransactionFamily) (hash : Hash) (sender : Address) (nonce : U64) : TransactionFamily :=
  let children :=
    match f.parents.lookup hash with
    | none => f.children
    | some parent => removeChild f.children parent hash
  ⟨children.erase hash,f.parents.erase hash,strike f.senderNonces sender nonce⟩

end TransactionFamily

structure Member where
  hash : Hash
  sender : Address
  nonce : U64
  deriving DecidableEq, Repr

def Member.Precedes (parent child : Member) : Prop :=
  parent.sender = child.sender ∧ child.nonce.toNat = parent.nonce.toNat + 1
instance (parent child : Member) : Decidable (parent.Precedes child) := by
  unfold Member.Precedes; infer_instance

def Member.Apart (a b : Member) : Prop := a.hash ≠ b.hash ∧ ¬ (a.sender = b.sender ∧ a.nonce = b.nonce)
instance (a b : Member) : Decidable (a.Apart b) := by
  unfold Member.Apart; infer_instance

inductive FamilyCall where
  | register (t : Member)
  | unregister (t : Member)

structure Tracking where
  family : TransactionFamily := {}
  members : Finset Member := ∅

def Tracking.serve (s : Tracking) : FamilyCall → Tracking
  | .register t => ⟨s.family.register t.hash t.sender t.nonce,insert t s.members⟩
  | .unregister t => ⟨s.family.unregister t.hash t.sender t.nonce,s.members.erase t⟩

def Linked (members : Finset Member) (p c : Hash) : Prop :=
  ∃ parent ∈ members, ∃ child ∈ members, parent.hash = p ∧ child.hash = c ∧ parent.Precedes child

structure LinksExact (s : Tracking) : Prop where
  parents : ∀ p c, s.family.parents.lookup c = some p ↔ Linked s.members p c
  children : ∀ p c, c ∈ s.family.childrenOf p ↔ Linked s.members p c

def FamilyCall.named : FamilyCall → Member
  | .register t => t
  | .unregister t => t

def Distinct (s : Tracking) (call : FamilyCall) : Prop := ∀ u ∈ s.members, u = call.named ∨ u.Apart call.named
instance (s : Tracking) (call : FamilyCall) : Decidable (Distinct s call) := by
  unfold Distinct; infer_instance

def Childless (members : Finset Member) (t : Member) : Prop := ∀ u ∈ members, ¬ t.Precedes u
instance (members : Finset Member) (t : Member) : Decidable (Childless members t) := by
  unfold Childless; infer_instance

def InOrder (s : Tracking) : FamilyCall → Prop
  | .register t => t ∉ s.members → Childless s.members t
  | .unregister t => t ∈ s.members → Childless s.members t
instance (s : Tracking) (call : FamilyCall) : Decidable (InOrder s call) := by
  cases call <;> unfold InOrder <;> infer_instance

theorem precedesIff {parent child : Member} :
    parent.Precedes child ↔ 0 < child.nonce ∧ parent.sender = child.sender ∧ parent.nonce = child.nonce - 1 := by
  have below := parent.nonce.isLt
  have below' := child.nonce.isLt
  unfold Member.Precedes
  constructor
  · rintro ⟨sender,next⟩
    refine ⟨?_,sender,?_⟩ <;> bv_omega
  · rintro ⟨positive,sender,same⟩
    refine ⟨sender,?_⟩
    bv_omega

theorem notOwnParent (t : Member) : ¬ t.Precedes t := fun precedes => by
  have next := precedes.2
  omega

structure Kept (s : Tracking) : Prop where
  apart : ∀ t ∈ s.members, ∀ u ∈ s.members, t = u ∨ t.Apart u
  filed : ∀ sender nonce hash, slot s.family.senderNonces sender nonce = some hash ↔
    ∃ t ∈ s.members, t.sender = sender ∧ t.nonce = nonce ∧ t.hash = hash
  links : LinksExact s

section
variable {s : Tracking} {t : Member}

theorem Kept.parentAt (kept : Kept s) {p} :
    s.family.parentAt t.sender t.nonce = some p ↔ ∃ parent ∈ s.members, parent.Precedes t ∧ parent.hash = p := by
  unfold TransactionFamily.parentAt
  by_cases positive : 0 < t.nonce
  · rw [if_pos positive,kept.filed]
    simp only [precedesIff,positive,true_and,and_assoc]
  · rw [if_neg positive]
    simp only [precedesIff,positive,false_and,and_false,exists_false,reduceCtorEq]

namespace TransactionFamily
variable (f : TransactionFamily) (hash : Hash) (sender : Address) (nonce : U64)

theorem registerSlot (sender') (nonce') : slot (f.register hash sender nonce).senderNonces sender' nonce' =
      if sender' = sender ∧ nonce' = nonce then some hash else slot f.senderNonces sender' nonce' := by
  unfold register
  dsimp only
  rw [slotFile]
  cases f.parentAt sender nonce <;> rfl

theorem registerParents (c) : (f.register hash sender nonce).parents.lookup c =
      if c = hash ∧ (f.parentAt sender nonce).isSome then f.parentAt sender nonce else f.parents.lookup c := by
  unfold register
  cases f.parentAt sender nonce with
  | none => simp [link]
  | some parentHash => simp [link,lookupInsert]

theorem registerChildren (p c) : c ∈ (f.register hash sender nonce).childrenOf p ↔
      c = hash ∧ f.parentAt sender nonce = some p ∨ c ∈ f.childrenOf p := by
  unfold register
  cases f.parentAt sender nonce with
  | none => simp [link,childrenOf]
  | some parentHash =>
    simp only [link,childrenOf,lookupInsert,Option.some.injEq]
    by_cases same : p = parentHash
    · subst same
      simp
    · simp [same,Ne.symm same]

theorem unregisterSlot (sender') (nonce') : slot (f.unregister hash sender nonce).senderNonces sender' nonce' =
      if sender' = sender ∧ nonce' = nonce then none else slot f.senderNonces sender' nonce' :=
  slotStrike _ _ _ _ _

theorem unregisterParents (c) :
    (f.unregister hash sender nonce).parents.lookup c = if c = hash then none else f.parents.lookup c :=
  lookupErase _ _ _

theorem removedChildren (children) (parent p c) : c ∈ ((removeChild children parent hash).lookup p).getD ∅ ↔
      ¬ (p = parent ∧ c = hash) ∧ c ∈ (children.lookup p).getD ∅ := by
  unfold removeChild
  cases found : children.lookup parent with
  | none =>
    by_cases same : p = parent
    · subst same
      simp [found]
    · simp [same]
  | some siblings =>
    rw [lookupInsert]
    by_cases same : p = parent
    · subst same
      simp [found]
    · simp [same]

theorem unregisterChildren (p c) : c ∈ (f.unregister hash sender nonce).childrenOf p ↔
      p ≠ hash ∧ ¬ (f.parents.lookup hash = some p ∧ c = hash) ∧ c ∈ f.childrenOf p := by
  unfold unregister childrenOf
  dsimp only
  rw [lookupErase]
  by_cases own : p = hash
  · simp [own]
  · rw [if_neg own]
    cases f.parents.lookup hash with
    | none => simp [own]
    | some parent =>
      dsimp only
      rw [removedChildren,Option.some.injEq,eq_comm (a := parent)]
      simp [own]

end TransactionFamily

theorem linkedInsert {members} (order : t ∉ members → Childless members t) {p c} : Linked (insert t members) p c ↔
      c = t.hash ∧ (∃ parent ∈ members, parent.Precedes t ∧ parent.hash = p) ∨ Linked members p c := by
  constructor
  · rintro ⟨parent,memParent,child,memChild,rfl,rfl,precedes⟩
    rcases mem_insert.mp memChild with rfl | oldChild
    · rcases mem_insert.mp memParent with rfl | oldParent
      · exact absurd precedes (notOwnParent _)
      · exact .inl ⟨rfl,parent,oldParent,precedes,rfl⟩
    · rcases mem_insert.mp memParent with rfl | oldParent
      · by_cases known : parent ∈ members
        · exact .inr ⟨parent,known,child,oldChild,rfl,rfl,precedes⟩
        · exact absurd precedes (order known child oldChild)
      · exact .inr ⟨parent,oldParent,child,oldChild,rfl,rfl,precedes⟩
  · rintro (⟨rfl,parent,memParent,precedes,rfl⟩ | ⟨parent,memParent,child,memChild,rest⟩)
    · exact ⟨parent,mem_insert_of_mem memParent,t,mem_insert_self t members,rfl,rfl,precedes⟩
    · exact ⟨parent,mem_insert_of_mem memParent,child,mem_insert_of_mem memChild,rest⟩

theorem linkedErase {members} (order : t ∈ members → Childless members t)
    (distinct : ∀ u ∈ members, u = t ∨ u.Apart t) {p c} :
    Linked (members.erase t) p c ↔ c ≠ t.hash ∧ Linked members p c := by
  constructor
  · rintro ⟨parent,memParent,child,memChild,rfl,rfl,precedes⟩
    obtain ⟨other,memChild⟩ := mem_erase.mp memChild
    rcases distinct child memChild with same | apart
    · exact absurd same other
    · exact ⟨apart.1,parent,mem_of_mem_erase memParent,child,memChild,rfl,rfl,precedes⟩
  · rintro ⟨other,parent,memParent,child,memChild,rfl,rfl,precedes⟩
    have childOther : child ≠ t := fun same => other (congrArg Member.hash same)
    have parentOther : parent ≠ t := by
      rintro rfl
      exact order memParent child memChild precedes
    exact ⟨parent,mem_erase.mpr ⟨parentOther,memParent⟩,child,mem_erase.mpr ⟨childOther,memChild⟩,rfl,rfl,precedes⟩

theorem Kept.registerParents (kept : Kept s) (distinct : Distinct s (.register t)) {p c} :
    (s.family.register t.hash t.sender t.nonce).parents.lookup c = some p ↔
      c = t.hash ∧ s.family.parentAt t.sender t.nonce = some p ∨ s.family.parents.lookup c = some p := by
  rw [TransactionFamily.registerParents]
  by_cases own : c = t.hash
  · subst own
    cases parent : s.family.parentAt t.sender t.nonce with
    | none => simp
    | some p' =>
      simp only [true_and,Option.isSome_some,if_true]
      refine ⟨.inl,?_⟩
      rintro (same | before)
      · exact same
      · -- A link that is already there leads to the same parent.
        obtain ⟨parent',memParent,child,memChild,rfl,same,precedes⟩ := (kept.links.parents _ _).mp before
        rcases distinct child memChild with rfl | apart
        · exact parent.symm.trans (kept.parentAt.mpr ⟨parent',memParent,precedes,rfl⟩)
        · exact absurd same apart.1
  · simp [own]

theorem Kept.registers (kept : Kept s) (distinct : Distinct s (.register t)) (order : InOrder s (.register t)) :
    Kept (s.serve (.register t)) := by
  refine ⟨?_,fun sender nonce hash => ?_,⟨fun p c => ?_,fun p c => ?_⟩⟩
  · intro a memA b memB
    rcases mem_insert.mp memA with rfl | oldA
    · rcases mem_insert.mp memB with rfl | oldB
      · exact .inl rfl
      · rcases distinct b oldB with same | apart
        · exact .inl same.symm
        · exact .inr ⟨Ne.symm apart.1,fun same => apart.2 ⟨same.1.symm,same.2.symm⟩⟩
    · rcases mem_insert.mp memB with rfl | oldB
      · exact distinct a oldA
      · exact kept.apart a oldA b oldB
  · change slot (s.family.register t.hash t.sender t.nonce).senderNonces sender nonce = some hash ↔
    ∃ u ∈ insert t s.members, _
    rw [TransactionFamily.registerSlot,exists_mem_insert]
    split
    · rename_i own
      obtain ⟨rfl,rfl⟩ := own
      constructor
      · intro same
        exact .inl ⟨rfl,rfl,Option.some.inj same⟩
      · rintro (⟨_,_,same⟩ | ⟨u,mem,sender,nonce,same⟩)
        · exact congrArg some same
        · rcases distinct u mem with rfl | apart
          · exact congrArg some same
          · exact absurd ⟨sender,nonce⟩ apart.2
    · rename_i other
      rw [kept.filed]
      exact ⟨.inr,fun either => either.resolve_left fun own => other ⟨own.1.symm,own.2.1.symm⟩⟩
  · exact (kept.registerParents distinct).trans <|
    (or_congr (and_congr_right fun _ => kept.parentAt) (kept.links.parents p c)).trans
      (linkedInsert order).symm
  · exact (TransactionFamily.registerChildren _ _ _ _ p c).trans <|
      (or_congr (and_congr_right fun _ => kept.parentAt) (kept.links.children p c)).trans (linkedInsert order).symm

theorem Kept.unregisters (kept : Kept s) (distinct : Distinct s (.unregister t)) (order : InOrder s (.unregister t)) :
    Kept (s.serve (.unregister t)) := by
  refine ⟨?_,fun sender nonce hash => ?_,⟨fun p c => ?_,fun p c => ?_⟩⟩
  · intro a memA b memB
    exact kept.apart a (mem_of_mem_erase memA) b (mem_of_mem_erase memB)
  · change slot (s.family.unregister t.hash t.sender t.nonce).senderNonces sender nonce = some hash ↔
    ∃ u ∈ s.members.erase t, _
    rw [TransactionFamily.unregisterSlot]
    split
    · rename_i own
      obtain ⟨rfl,rfl⟩ := own
      refine ⟨fun none => (by cases none),?_⟩
      rintro ⟨u,mem,sender,nonce,_⟩
      obtain ⟨other,mem⟩ := mem_erase.mp mem
      exact absurd ⟨sender,nonce⟩ ((distinct u mem).resolve_left other).2
    · rename_i other
      rw [kept.filed]
      constructor
      · rintro ⟨u,mem,rfl,rfl,same⟩
        refine ⟨u,mem_erase.mpr ⟨?_,mem⟩,rfl,rfl,same⟩
        rintro rfl
        exact other ⟨rfl,rfl⟩
      · rintro ⟨u,mem,rest⟩
        exact ⟨u,mem_of_mem_erase mem,rest⟩
  · change (s.family.unregister t.hash t.sender t.nonce).parents.lookup c = some p ↔ _
    rw [TransactionFamily.unregisterParents]
    refine Iff.trans ?_ (linkedErase order distinct).symm
    rw [← kept.links.parents]
    split
    · rename_i own
      simp [own]
    · rename_i other
      simp [other]
  · refine (TransactionFamily.unregisterChildren _ _ _ _ p c).trans (Iff.trans ?_ (linkedErase order distinct).symm)
    rw [kept.links.children,kept.links.parents]
    constructor
    · rintro ⟨_,unlinked,linked⟩
      refine ⟨?_,linked⟩
      rintro rfl
      exact unlinked ⟨linked,rfl⟩
    · rintro ⟨other,linked⟩
      refine ⟨?_,fun own => other own.2,linked⟩
      rintro rfl
      obtain ⟨parent,memParent,child,memChild,same,_,precedes⟩ := linked
      rcases distinct parent memParent with rfl | apart
      · exact order memParent child memChild precedes
      · exact apart.1 same

theorem Kept.serve (kept : Kept s) (call) (distinct : Distinct s call) (order : InOrder s call) :
    Kept (s.serve call) := by
  cases call with
  | register t => exact kept.registers distinct order
  | unregister t => exact kept.unregisters distinct order

theorem Kept.needsOrder (kept : Kept s) (call) (distinct : Distinct s call) (links : LinksExact (s.serve call)) :
    InOrder s call := by
  cases call with
  | register t =>
    intro fresh u mem precedes
    have linked : Linked (insert t s.members) t.hash u.hash :=
      ⟨t,mem_insert_self t _,u,mem_insert_of_mem mem,rfl,rfl,precedes⟩
    rcases (kept.registerParents distinct).mp ((links.parents _ _).mpr linked) with ⟨same,_⟩ | before
    · rcases distinct u mem with rfl | apart
      · exact fresh mem
      · exact apart.1 same
    · obtain ⟨parent,memParent,_,_,same,_⟩ := (kept.links.parents _ _).mp before
      rcases distinct parent memParent with rfl | apart
      · exact fresh memParent
      · exact apart.1 same
  | unregister t =>
    intro known u mem precedes
    have before := (kept.links.parents t.hash u.hash).mpr ⟨t,known,u,mem,rfl,rfl,precedes⟩
    have other : u.hash ≠ t.hash := by
      rcases distinct u mem with rfl | apart
      · exact absurd precedes (notOwnParent _)
      · exact apart.1
    have stale : (s.serve (.unregister t)).family.parents.lookup u.hash = some t.hash := by
      refine (TransactionFamily.unregisterParents _ _ _ _ _).trans ?_
      rw [if_neg other,before]
    obtain ⟨parent,memParent,_,_,same,_⟩ := (links.parents _ _).mp stale
    obtain ⟨differs,memParent⟩ := mem_erase.mp memParent
    rcases distinct parent memParent with own | apart
    · exact differs own
    · exact apart.1 same

end

theorem Kept.new : Kept {} := by
  have none' p c : ¬ Linked ∅ p c := by
    rintro ⟨parent,mem,_⟩
    exact absurd mem (notMem_empty parent)
  refine ⟨fun t mem => absurd mem (notMem_empty t),fun sender nonce hash => ?_,⟨fun p c => ?_,fun p c => ?_⟩⟩
  · refine ⟨fun found => (nomatch found),?_⟩
    rintro ⟨t,mem,_⟩
    exact absurd mem (notMem_empty t)
  · exact ⟨fun found => (nomatch found),fun linked => absurd linked (none' p c)⟩
  · exact ⟨fun mem => absurd mem (notMem_empty c),fun linked => absurd linked (none' p c)⟩

theorem familyLinksExactIff (calls : List FamilyCall) (distinct : Along Tracking.serve Distinct {} calls) :
    Along Tracking.serve (fun s call => LinksExact (s.serve call)) {} calls ↔ Along Tracking.serve InOrder {} calls :=
  StepRun.alongExactWithin (fun _ call kept => kept.serve call) (fun _ kept => kept.links)
    (fun _ call kept => kept.needsOrder call) Kept.new distinct

def heir (nonce : U64) : Member := ⟨100 + nonce.setWidth 256,7,nonce⟩

def orderly : List FamilyCall :=
  [.register (heir 0),.register (heir 1),.register (heir 2),.unregister (heir 2),.unregister (heir 1)]

theorem orderlyLinksExact : Along Tracking.serve Distinct {} orderly ∧
    Along Tracking.serve (fun s call => LinksExact (s.serve call)) {} orderly := by
  have distinct : Along Tracking.serve Distinct {} orderly := by decide +kernel
  exact ⟨distinct,(familyLinksExactIff orderly distinct).mpr (by decide +kernel)⟩

def latecomer : Tracking := StepRun.run Tracking.serve {} [.register (heir 1),.register (heir 0)]

def leaver : Tracking := StepRun.run Tracking.serve {} [.register (heir 0),.register (heir 1),.unregister (heir 0)]

theorem linksMissedAndStale : (heir 0).Precedes (heir 1) ∧ heir 0 ∈ latecomer.members ∧ heir 1 ∈ latecomer.members ∧
    latecomer.family.parents.lookup (heir 1).hash = none ∧ (heir 1).hash ∉ latecomer.family.childrenOf (heir 0).hash ∧
    heir 0 ∉ leaver.members ∧ leaver.family.parents.lookup (heir 1).hash = some (heir 0).hash := by
  refine ⟨?_,?_,?_,?_,?_,?_,?_⟩ <;> decide +kernel

end QuantumChain.Mempool
