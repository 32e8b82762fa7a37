import QuantumChain.ShardCommit

/-! Rendezvous assignment of an address to a shard.
The hash is a parameter; that shards fill evenly is not claimed. -/
namespace QuantumChain.Sharding
open List

section Assignment
variable (keccak : Bytes → Hash) (address : Address)

def shardHash (shard : ShardId) : Hash := keccak (wordBytes address ++ wordBytes shard)

-- the best shard and its hash so far
def betterShard (best : ShardId × Hash) (shard : ShardId) : ShardId × Hash :=
  let combined := shardHash keccak address shard
  if best.2 < combined then (shard,combined) else best

def rendezvousAssign : List ShardId → ShardId
  | [] => 0
  | [shard] => shard
  | first::rest => ((first::rest).foldl (betterShard keccak address) (first,0)).1

end Assignment

section Scan
variable {keccak : Bytes → Hash} {address : Address} {shards : List ShardId}

-- the hash kept is the one of the shard kept, or still the zero the scan starts from
structure Leads (keccak : Bytes → Hash) (address : Address) (shards seen : List ShardId) (best : ShardId × Hash) :
    Prop where
  among : best.1 ∈ shards
  most : ∀ shard ∈ seen, shardHash keccak address shard ≤ best.2
  own : best.2 = shardHash keccak address best.1 ∨ best.2 = 0

theorem betterLeads {seen best shard} (leads : Leads keccak address shards seen best) (mem : shard ∈ shards) :
    Leads keccak address shards (seen ++ [shard]) (betterShard keccak address best shard) := by
  unfold betterShard
  dsimp only
  split
  · rename_i above
    refine ⟨mem,fun other found => ?_,.inl rfl⟩
    rcases mem_append.mp found with old | new
    · exact BitVec.le_trans (leads.most other old) (BitVec.le_of_lt above)
    · rw [mem_singleton.mp new]
  · rename_i below
    refine ⟨leads.among,fun other found => ?_,leads.own⟩
    rcases mem_append.mp found with old | new
    · exact leads.most other old
    · rw [mem_singleton.mp new]
      exact BitVec.not_lt.mp below

theorem scanLeads {seen best} (left : List ShardId) (leads : Leads keccak address shards seen best)
    (inside : ∀ shard ∈ left, shard ∈ shards) :
    Leads keccak address shards (seen ++ left) (left.foldl (betterShard keccak address) best) := by
  induction left generalizing seen best with
  | nil => rwa [append_nil]
  | cons shard left ih =>
    rw [append_cons]
    exact ih (betterLeads leads (inside shard mem_cons_self)) fun other mem => inside other (mem_cons_of_mem _ mem)

variable (keccak address) in
theorem assignedMost (nonempty : shards ≠ []) : rendezvousAssign keccak address shards ∈ shards ∧
    ∀ shard ∈ shards, shardHash keccak address shard ≤
      shardHash keccak address (rendezvousAssign keccak address shards) := by
  rcases shards with _ | ⟨first,_ | ⟨second,rest⟩⟩
  · exact absurd rfl nonempty
  · exact ⟨mem_cons_self,fun shard mem => by rw [mem_singleton.mp mem]; rfl⟩
  · have start : Leads keccak address (first::second::rest) [] (first,0) :=
      ⟨mem_cons_self,fun _ none => absurd none not_mem_nil,.inr rfl⟩
    have leads := scanLeads (first::second::rest) start fun _ mem => mem
    refine ⟨leads.among,fun shard mem => ?_⟩
    have below := leads.most shard mem
    rcases leads.own with own | zero
    · rwa [own] at below
    · rw [zero] at below
      exact BitVec.le_def.mpr (Nat.le_trans (BitVec.le_def.mp below) (Nat.zero_le _))

theorem assignedUnique (apart : Function.Injective (shardHash keccak address)) {shard} (mem : shard ∈ shards)
    (most : ∀ other ∈ shards, shardHash keccak address other ≤ shardHash keccak address shard) :
    rendezvousAssign keccak address shards = shard := by
  obtain ⟨among,above⟩ := assignedMost keccak address (ne_nil_of_mem mem)
  exact apart (BitVec.le_antisymm (most _ among) (above shard mem))

variable (address) in
theorem hashesApart (injective : Set.InjOn keccak {bytes | bytes.length = 22}) :
    Function.Injective (shardHash keccak address) := by
  intro a b same
  have size (shard : ShardId) : (wordBytes address ++ wordBytes shard).length = 22 := by
    rw [length_append,wordBytesLength,wordBytesLength]
  exact wordBytesInj rfl (append_cancel_left (injective (size a) (size b) same))

end Scan

theorem rendezvousMinimal (keccak : Bytes → Hash) (injective : Set.InjOn keccak {bytes | bytes.length = 22})
    (address : Address) (shards : List ShardId) (nonempty : shards ≠ []) :
    (∀ others, (∀ s, s ∈ others ↔ s ∈ shards) →
      rendezvousAssign keccak address others = rendezvousAssign keccak address shards) ∧
    (∀ shard more, (∀ s, s ∈ more ↔ s = shard ∨ s ∈ shards) →
      rendezvousAssign keccak address more = rendezvousAssign keccak address shards ∨
      rendezvousAssign keccak address more = shard) ∧
    (∀ shard fewer, shard ≠ rendezvousAssign keccak address shards → (∀ s, s ∈ fewer ↔ s ∈ shards ∧ s ≠ shard) →
      rendezvousAssign keccak address fewer = rendezvousAssign keccak address shards) := by
  have apart := hashesApart address injective
  obtain ⟨among,most⟩ := assignedMost keccak address nonempty
  refine ⟨fun others same => ?_,fun shard more added => ?_,fun shard fewer other removed => ?_⟩
  · exact assignedUnique apart ((same _).mpr among) fun s mem => most s ((same s).mp mem)
  · have some' : more ≠ [] := ne_nil_of_mem ((added _).mpr (.inr among))
    obtain ⟨amongMore,mostMore⟩ := assignedMost keccak address some'
    rcases (added _).mp amongMore with taken | old
    · exact .inr taken
    · exact .inl (assignedUnique apart old fun s mem => mostMore s ((added s).mpr (.inr mem))).symm
  · exact assignedUnique apart ((removed _).mpr ⟨among,Ne.symm other⟩) fun s mem => most s ((removed s).mp mem).1

theorem residueInjective : Set.InjOn residue {bytes | bytes.length = 22} := by
  intro a sizeA b sizeB same
  have boundA : beNumber a < 256^22 := beNumberWithin (Nat.le_of_eq sizeA)
  have boundB : beNumber b < 256^22 := beNumberWithin (Nat.le_of_eq sizeB)
  have values := congrArg BitVec.toNat same
  simp only [residue,BitVec.toNat_ofNat] at values
  have equal : beNumber a = beNumber b := by omega
  rw [← wordBytesNumber (n := 176) rfl sizeA,← wordBytesNumber (n := 176) rfl sizeB,equal]

theorem rendezvousMinimalThree : Set.InjOn residue {bytes | bytes.length = 22} ∧ ([1,3,2] : List ShardId) ≠ [] ∧
    rendezvousAssign residue 7 ([1,3,2].filter (· ≠ 1)) = rendezvousAssign residue 7 [1,3,2] := by
  have some' : ([1,3,2] : List ShardId) ≠ [] := cons_ne_nil _ _
  refine ⟨residueInjective,some',(rendezvousMinimal residue residueInjective 7 [1,3,2] some').2.2 1 _ ?_ fun s => ?_⟩
  · decide +kernel
  · rw [mem_filter,decide_eq_true_eq]

end QuantumChain.Sharding
