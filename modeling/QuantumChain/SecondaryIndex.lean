import QuantumChain.KeyedMap

/-! Secondary indices of a keyed map.
An index is right when it lists the map's own entries. -/
namespace QuantumChain.SecondaryIndex
open Option Finset
open KeyedMap
variable {K V X A B : Type}

def Keyed [DecidableEq K] (key : V → K) (m : KeyedMap K V) : Prop := ∀ k v, m.lookup k = some v → key v = k

section
variable [DecidableEq K]

theorem keyedInsert {key : V → K} {m : KeyedMap K V} (keyed : Keyed key m) {k : K} {v : V} (own : key v = k) :
    Keyed key (m.insert k v) := by
  intro k' w found
  rw [lookupInsert] at found
  split at found
  · rename_i same
    cases found
    exact own.trans same.symm
  · exact keyed k' w found

theorem keyedErase {key} {m : KeyedMap K V} (keyed : Keyed key m) (k) : Keyed key (m.erase k) := by
  intro k' w found
  rw [lookupErase] at found
  split at found
  · contradiction
  · exact keyed k' w found

end

section
variable [DecidableEq K]
variable {counts : V → Bool} {entry : V → X} {key : V → K}

def Listed (counts : V → Bool) (entry : V → X) (m : KeyedMap K V) (s : Finset X) : Prop :=
  ∀ x, x ∈ s ↔ ∃ k v, m.lookup k = some v ∧ counts v = true ∧ entry v = x

theorem listedEmpty : Listed counts entry (∅ : KeyedMap K V) (∅ : Finset X) := by
  intro x
  constructor
  · intro mem
    exact absurd mem (notMem_empty x)
  · rintro ⟨k,v,found,_⟩
    exact nomatch found

theorem listedUnique {m : KeyedMap K V} {s t} (left : Listed counts entry m s) (right : Listed counts entry m t) :
    s = t :=
  Finset.ext fun x => (left x).trans (right x).symm

theorem listedCard {m : KeyedMap K V} {s : Finset X} (listed : Listed counts entry m s) : s.card ≤ m.size := by
  choose keyOf valueOf found _ own using fun x : s => (listed x.1).mp x.2
  have inj : Function.Injective keyOf := by
    intro x y same
    apply Subtype.ext
    rw [← own x,← own y]
    have values : some (valueOf x) = some (valueOf y) := by rw [← found x,← found y,same]
    exact congrArg entry (Option.some.inj values)
  calc s.card = s.attach.card := card_attach.symm
    _ = (s.attach.image keyOf).card := (card_image_of_injective _ inj).symm
    _ ≤ m.keys.card := card_le_card (by
      intro k mem
      obtain ⟨x,_,rfl⟩ := mem_image.mp mem
      exact memKeys.mpr ⟨_,found x⟩)

variable [DecidableEq X]

theorem listedInsert (tells : ∀ v w, entry v = entry w → key v = key w) {m s}
    (keyed : Keyed key m) (listed : Listed counts entry m s) {k v} (own : key v = k)
    (before : ∀ w, m.lookup k = some w → entry w = entry v) :
    Listed counts entry (m.insert k v) (if counts v then insert (entry v) s else s.erase (entry v)) := by
  have elsewhere : ∀ k' w, k' ≠ k → m.lookup k' = some w → entry w ≠ entry v := by
    intro k' w other found same
    exact other ((keyed k' w found).symm.trans ((tells w v same).trans own))
  intro x
  have rest : (∃ k' w, (m.insert k v).lookup k' = some w ∧ counts w = true ∧ entry w = x) ↔
      counts v = true ∧ entry v = x ∨ x ≠ entry v ∧ x ∈ s := by
    rw [listed x]
    constructor
    · rintro ⟨k',w,found,counted,rfl⟩
      rw [lookupInsert] at found
      split at found
      · cases found
        exact .inl ⟨counted,rfl⟩
      · rename_i other
        exact .inr ⟨elsewhere k' w other found,k',w,found,counted,rfl⟩
    · rintro (⟨counted,rfl⟩ | ⟨differs,k',w,found,counted,rfl⟩)
      · exact ⟨k,v,by rw [lookupInsert,if_pos rfl],counted,rfl⟩
      · have other : k' ≠ k := by
          rintro rfl
          exact differs (before w found)
        exact ⟨k',w,by rw [lookupInsert,if_neg other]; exact found,counted,rfl⟩
  rw [rest]
  by_cases same : x = entry v
  · subst same
    cases counts v <;> simp
  · cases counts v <;> simp [same,Ne.symm same]

theorem listedErase (tells : ∀ v w, entry v = entry w → key v = key w) {m : KeyedMap K V} {s : Finset X}
    (keyed : Keyed key m) (listed : Listed counts entry m s) {k : K} {v : V} (found : m.lookup k = some v) :
    Listed counts entry (m.erase k) (s.erase (entry v)) := by
  intro x
  rw [mem_erase,listed x]
  constructor
  · rintro ⟨differs,k',w,found',counted,rfl⟩
    have other : k' ≠ k := by
      rintro rfl
      rw [found] at found'
      cases found'
      exact differs rfl
    exact ⟨k',w,by rw [lookupErase,if_neg other]; exact found',counted,rfl⟩
  · rintro ⟨k',w,found',counted,rfl⟩
    rw [lookupErase] at found'
    split at found'
    · contradiction
    · rename_i other
      refine ⟨?_,k',w,found',counted,rfl⟩
      intro same
      exact other ((keyed k' w found').symm.trans ((tells w v same).trans (keyed k v found)))

end

section
variable [DecidableEq A] [DecidableEq B]

variable (index : KeyedMap A (KeyedMap B K))

def slot (a : A) (b : B) : Option K :=
  (index.lookup a).bind (fun row => row.lookup b)

def file (a : A) (b : B) (k : K) : KeyedMap A (KeyedMap B K) :=
  index.insert a (((index.lookup a).getD ∅).insert b k)

def unfile (a : A) (b : B) : KeyedMap A (KeyedMap B K) :=
  match index.lookup a with
  | none => index
  | some row =>
    let row : KeyedMap B K := row.erase b
    if row.size = 0 then index.erase a else index.insert a row

def strike (a : A) (b : B) : KeyedMap A (KeyedMap B K) :=
  match index.lookup a with
  | none => index
  | some row => index.insert a (row.erase b)

def NoEmptyRow : Prop := ∀ a row, index.lookup a = some row → row.size ≠ 0

theorem sizeZero {m : KeyedMap B K} (empty : m.size = 0) (b) : m.lookup b = none := by
  have none' := card_eq_zero.mp empty
  cases found : m.lookup b with
  | none => rfl
  | some k =>
    have mem : b ∈ m.keys := memKeys.mpr ⟨k,found⟩
    rw [none'] at mem
    exact absurd mem (notMem_empty b)

theorem slotsUnique {left right : KeyedMap A (KeyedMap B K)} (full : NoEmptyRow left) (full' : NoEmptyRow right)
    (same : ∀ a b, slot left a b = slot right a b) : left = right := by
  have empty {index : KeyedMap A (KeyedMap B K)} {a : A} {row : KeyedMap B K} (full : NoEmptyRow index)
      (found : index.lookup a = some row) : ∃ b, slot index a b ≠ none := by
    rcases emptyOrHolds row with rfl | ⟨b,k,held⟩
    · exact absurd rfl (full a ∅ found)
    · exact ⟨b,by rw [slot,found,bind_some,held]; exact nofun⟩
  apply Finmap.ext_lookup
  intro a
  have row := same a
  cases found : left.lookup a with
  | none =>
    cases found' : right.lookup a with
    | none => rfl
    | some row' =>
      obtain ⟨b,held⟩ := empty full' found'
      rw [← row b,slot,found] at held
      exact absurd rfl held
  | some row =>
    cases found' : right.lookup a with
    | none =>
      obtain ⟨b,held⟩ := empty full found
      rw [same a b,slot,found'] at held
      exact absurd rfl held
    | some row' =>
      refine congrArg some (Finmap.ext_lookup fun b => ?_)
      have alike := same a b
      rwa [slot,slot,found,found'] at alike

variable (index : KeyedMap A (KeyedMap B K))

theorem slotFile (a a' : A) (b b' : B) (k : K) :
    slot (file index a b k) a' b' = if a' = a ∧ b' = b then some k else slot index a' b' := by
  unfold slot file
  rw [lookupInsert]
  by_cases first : a' = a
  · subst first
    simp only [if_true,bind_some,lookupInsert,true_and]
    split
    · rfl
    · cases index.lookup a' <;> rfl
  · simp [first]

theorem slotUnfile (a a' : A) (b b' : B) :
    slot (unfile index a b) a' b' = if a' = a ∧ b' = b then none else slot index a' b' := by
  unfold unfile
  split
  · rename_i absent
    split
    · rename_i both
      rw [slot,both.1,absent]
      rfl
    · rfl
  · rename_i row present
    have shorter := lookupErase row b b'
    by_cases first : a' = a
    · subst first
      simp only [slot,present,bind_some,true_and]
      rw [← shorter]
      split
      · rename_i empty
        rw [lookupErase,if_pos rfl,sizeZero empty]
        rfl
      · rw [lookupInsert,if_pos rfl]
        rfl
    · simp only [slot,first,false_and,if_false]
      split
      · rw [lookupErase,if_neg first]
      · rw [lookupInsert,if_neg first]

theorem slotStrike (a a' : A) (b b' : B) :
    slot (strike index a b) a' b' = if a' = a ∧ b' = b then none else slot index a' b' := by
  have row : (strike index a b).lookup a' =
      if a' = a then (index.lookup a').bind (fun row => some (row.erase b)) else index.lookup a' :=
    lookupTouched (fun absent => by rw [strike,absent]) (fun row present => by rw [strike,present]) a'
  unfold slot
  rw [row]
  by_cases first : a' = a
  · subst first
    rw [if_pos rfl]
    cases index.lookup a' with
    | none => simp
    | some row =>
      rw [bind_some,bind_some,bind_some,lookupErase]
      simp only [true_and]
  · simp [first]

theorem noEmptyFile {index : KeyedMap A (KeyedMap B K)} (full : NoEmptyRow index) (a : A) (b : B) (k : K) :
    NoEmptyRow (file index a b k) := by
  intro a' row found
  rw [file,lookupInsert] at found
  split at found
  · cases found
    intro empty
    have filed := sizeZero empty b
    rw [lookupInsert,if_pos rfl] at filed
    exact nomatch filed
  · exact full a' row found

theorem noEmptyUnfile {index : KeyedMap A (KeyedMap B K)} (full : NoEmptyRow index) (a : A) (b : B) :
    NoEmptyRow (unfile index a b) := by
  unfold unfile
  split
  · exact full
  · dsimp only
    split
    · intro a' row found
      rw [lookupErase] at found
      split at found
      · contradiction
      · exact full a' row found
    · rename_i kept
      intro a' row found
      rw [lookupInsert] at found
      split at found
      · cases found
        exact kept
      · exact full a' row found

variable [DecidableEq K] {first : V → A} {second : V → B}

def Filed (first : V → A) (second : V → B) (m : KeyedMap K V) (index : KeyedMap A (KeyedMap B K)) : Prop :=
  ∀ a b k, slot index a b = some k ↔ ∃ v, m.lookup k = some v ∧ first v = a ∧ second v = b

theorem filedEmpty : Filed first second (∅ : KeyedMap K V) ∅ := by
  intro a b k
  constructor
  · intro found
    exact nomatch found
  · rintro ⟨v,found,_⟩
    exact nomatch found

theorem filedInsert {m} {index : KeyedMap A (KeyedMap B K)} (filed : Filed first second m index)
    {k v} (fresh : m.lookup k = none) (free : slot index (first v) (second v) = none) :
    Filed first second (m.insert k v) (file index (first v) (second v) k) := by
  intro a b k'
  rw [slotFile,lookupInsert]
  by_cases own : k' = k
  · subst own
    rw [if_pos rfl]
    constructor
    · intro found
      split at found
      · rename_i both
        exact ⟨v,rfl,both.1.symm,both.2.symm⟩
      · obtain ⟨w,stored,_⟩ := (filed a b k').mp found
        rw [fresh] at stored
        contradiction
    · rintro ⟨w,same,rfl,rfl⟩
      cases same
      rw [if_pos ⟨rfl,rfl⟩]
  · rw [if_neg own,← filed a b k']
    split
    · rename_i both
      rw [both.1,both.2,free]
      constructor
      · intro same
        cases same
        exact absurd rfl own
      · intro impossible
        exact nomatch impossible
    · exact Iff.rfl

theorem filedErase {m index} (filed : Filed first second m index)
    {k : K} {v : V} (found : m.lookup k = some v) :
    Filed first second (m.erase k) (unfile index (first v) (second v)) := by
  have here := (filed (first v) (second v) k).mpr ⟨v,found,rfl,rfl⟩
  intro a b k'
  rw [slotUnfile,lookupErase]
  by_cases own : k' = k
  · subst own
    rw [if_pos rfl]
    constructor
    · intro left
      split at left
      · contradiction
      · rename_i apart
        obtain ⟨w,stored,rfl,rfl⟩ := (filed a b k').mp left
        rw [found] at stored
        cases stored
        exact absurd ⟨rfl,rfl⟩ apart
    · rintro ⟨w,impossible,_⟩
      contradiction
  · rw [if_neg own,← filed a b k']
    split
    · rename_i both
      rw [both.1,both.2,here]
      constructor
      · intro impossible
        exact nomatch impossible
      · intro same
        cases same
        exact absurd rfl own
    · exact Iff.rfl

theorem filedUpdate {m : KeyedMap K V} {index : KeyedMap A (KeyedMap B K)} (filed : Filed first second m index)
    {k} {v w : V} (found : m.lookup k = some v) (same : first w = first v) (same' : second w = second v) :
    Filed first second (m.insert k w) index := by
  intro a b k'
  rw [filed a b k',lookupInsert]
  split
  · rename_i own
    rw [own,found]
    simp [same,same']
  · exact Iff.rfl

theorem filedCount {m : KeyedMap K V} {index : KeyedMap A (KeyedMap B K)} (filed : Filed first second m index) (a : A) :
    m.count (fun v => decide (first v = a)) ≤ ((index.lookup a).map KeyedMap.size).getD 0 := by
  rw [countKeys]
  have entry : ∀ k ∈ m.keys.filter (fun k => (m.lookup k).any (fun v => decide (first v = a)) = true),
      ∃ v, m.lookup k = some v ∧ first v = a := by
    intro k mem
    have any := (mem_filter.mp mem).2
    cases found : m.lookup k with
    | none => simp [found] at any
    | some v => exact ⟨v,rfl,by simpa [found] using any⟩
  cases row : index.lookup a with
  | none =>
    rw [map_none,getD_none,Nat.le_zero,card_eq_zero]
    apply eq_empty_of_forall_notMem
    intro k mem
    obtain ⟨v,found,own⟩ := entry k mem
    have here := (filed a (second v) k).mpr ⟨v,found,own,rfl⟩
    simp [slot,row] at here
  | some row' =>
    rw [map_some,getD_some]
    have reached : (m.keys.filter (fun k => (m.lookup k).any (fun v => decide (first v = a)) = true)).image some ⊆
        row'.keys.image (fun b => row'.lookup b) := by
      intro k' mem
      obtain ⟨k,inside,rfl⟩ := mem_image.mp mem
      obtain ⟨v,found,own⟩ := entry k inside
      have here := (filed a (second v) k).mpr ⟨v,found,own,rfl⟩
      rw [slot,row,bind_some] at here
      exact mem_image.mpr ⟨second v,memKeys.mpr ⟨k,here⟩,here⟩
    rw [← card_image_of_injective _ (some_injective K)]
    exact Nat.le_trans (card_le_card reached) card_image_le

end
end QuantumChain.SecondaryIndex
