import QuantumChain.EvmSafety

/-! Memory and the gas that pays for it.
Only one instruction pays for growth; the others are shown not to. -/
namespace QuantumChain.Evm.Interpreter
open Command Memory List
variable {σ α : Type} {m : Interpreter σ α}

def Paid (checks : Bool) (m : Interpreter σ α) : Prop :=
  ∃ cost, memoryGasCost checks m.memory.wordSize = .ok cost ∧ cost ≤ m.context.gasLimit.toNat - m.gasRemaining

theorem paidIff {checks} : Paid checks m ↔ memoryGas m.memory.wordSize ≤ m.context.gasLimit.toNat - m.gasRemaining := by
  unfold Paid
  rw [memoryGasCostOk wordSizeSmall]
  exact ⟨fun ⟨_,same,paid⟩ => Except.ok.inj same ▸ paid,fun paid => ⟨_,rfl,paid⟩⟩

def expandsFree : Opcode → Bool
  | .callDataCopy | .codeCopy | .mLoad | .mStore | .mStore8 | .log _ | .return_ | .revert => true
  | _ => false

def Pays (m m' : Interpreter σ α) : Prop :=
  memoryGas m'.memory.wordSize + m'.gasRemaining ≤ memoryGas m.memory.wordSize + m.gasRemaining

instance paysPorted : Ported (Pays : Interpreter σ α → Interpreter σ α → Prop) where
  refl _ := Nat.le_refl _
  trans _ _ _ first second := Nat.le_trans second first
  stack _ _ := Nat.le_refl _
  gas _ _ := Nat.add_le_add_left (Nat.sub_le _ _) _
  counter _ _ := Nat.le_refl _
  stop _ := Nat.le_refl _
  state _ _ := Nat.le_refl _
  accessList _ _ := Nat.le_refl _
  changes _ _ := Nat.le_refl _

theorem expandedWords {size} (inside : size ≤ maxMemorySize) :
    (m.expanded size).memory.wordSize = m.memory.wordSize ∨ (m.expanded size).memory.wordSize = divCeil size 32 := by
  unfold expanded Memory.expand
  split
  · exact .inl rfl
  · refine .inr ?_
    rename_i above
    simp only [wordSize,Memory.resize,Memory.len,length_append,length_replicate,divCeil,
      wordLength] at above ⊢
    omega

theorem chargedExpansion {cost stop} {rest : Exec σ α Unit} (later : Follows Pays rest)
    (covers : stop ≤ maxMemorySize → memoryGas (divCeil stop 32) ≤ memoryGas m.memory.wordSize + cost) :
    Pays m ((chargeGas cost >>= fun _ => expand stop >>= fun _ => rest) m).2 := by
  rw [bindRun]
  by_cases paid : cost ≤ m.gasRemaining
  · have spent : Pays m (m.charged cost) := Nat.add_le_add_left (Nat.sub_le _ _) _
    rw [chargePaid paid]
    change Pays m ((expand stop >>= fun _ => rest) (m.charged cost)).2
    rw [bindRun]
    by_cases inside : stop ≤ maxMemorySize
    · obtain ⟨words,ran⟩ := expandRun (m := m.charged cost) inside
      rw [ran]
      refine trans_of Pays ?_ (later _)
      have covered := covers inside
      unfold Pays at spent ⊢
      rcases expandedWords (m := m.charged cost) inside with same | grown
      · rw [same]
        exact spent
      · rw [grown]
        change _ + (m.gasRemaining - cost) ≤ _
        omega
    · obtain ⟨e,ran⟩ := expandRefused (m := m.charged cost) inside
      rw [ran]
      exact spent
  · rw [chargeUnpaid paid]
    exact refl_of Pays m

theorem keccakCovers {checks : Bool} {size stop words dynamicGas memCost cost : Nat} (small : size < 2^64)
    (hashing : keccak256GasCost checks size = .ok dynamicGas)
    (growth : memoryExpansionCost checks words (divCeil stop 32) = .ok memCost)
    (total : fitWord checks (dynamicGas + memCost) = .ok cost) (inside : stop ≤ maxMemorySize) :
    memoryGas (divCeil stop 32) ≤ memoryGas words + cost := by
  have few : divCeil stop 32 ≤ 2^19 := by
    unfold divCeil maxMemorySize at *
    omega
  have hashed : divCeil size 32 ≤ 2^59 := by
    unfold divCeil
    omega
  have most := memoryGasMono few
  have bound : memoryGas (2^19) < 2^40 := by decide
  rw [keccak256GasCostOk small] at hashing
  rw [memoryExpansionCostOk (by omega)] at growth
  cases hashing
  cases growth
  rw [fitWordSmall (by omega)] at total
  cases total
  omega

theorem keccakPays (host : Host σ α) : Follows Pays (execKeccak256 host) := by
  refine followsBind followsPop fun offset => followsBind followsPop fun size => followsBind (followsLift _) fun start => ?_
  intro m
  refine followsLiftAt fun length sized => followsLiftAt fun dynamicGas hashing => followsReadAt <|
    followsLiftAt fun stop _ => followsLiftAt fun memCost growth => followsLiftAt fun cost total => ?_
  have small : length < 2^64 := by
    unfold asUsize at sized
    split at sized
    · cases sized
      assumption
    · cases sized
  have memoryReads : Follows Pays (readMemory start length : Exec σ α Bytes) :=
    followsBind (followsRead _) fun _ => followsLift _
  exact chargedExpansion (followsBind memoryReads fun _ => followsPush _) (keccakCovers small hashing growth total)

theorem dispatchPays (host : Host σ α) {opcode} (paying : expandsFree opcode = false) :
    Follows Pays (dispatch host opcode) := by
  cases opcode with
  | keccak256 => exact keccakPays host
  | callDataCopy | codeCopy | mLoad | mStore | mStore8 | log _ | return_ | revert => cases paying
  | _ => exact followsPorts host rfl

theorem turnPays (host) (paying : expandsFree m.opcode = false) : Pays m (turn host m).2 :=
  followsEntered (dispatchPays host paying _)

/-- The end of the memory range that an opcode's operands name. -/
def reach (operands : List U256) : Opcode → Nat
  | .mLoad | .mStore =>
    match operands with
    | offset::_ => offset.toNat + 32
    | _ => 0
  | .mStore8 =>
    match operands with
    | offset::_ => offset.toNat + 1
    | _ => 0
  | .callDataCopy | .codeCopy =>
    match operands with
    | dest::_::size::_ => dest.toNat + size.toNat
    | _ => 0
  | .log _ | .return_ | .revert =>
    match operands with
    | offset::size::_ => offset.toNat + size.toNat
    | _ => 0
  | _ => 0

def Spans (limit : Nat) (memory memory' : Memory) : Prop := memory'.wordSize ≤ max memory.wordSize (divCeil limit 32)

instance spansPreorder (limit) : IsPreorder Memory (Spans limit) where
  refl _ := Nat.le_max_left _ _
  trans a b c first second := by
    unfold Spans at *
    omega

def Within (limit : Nat) (m m' : Interpreter σ α) : Prop := Spans limit m.memory m'.memory

instance withinPorted (limit) : Ported (Within limit : Interpreter σ α → Interpreter σ α → Prop) where
  refl m := refl_of (Spans limit) m.memory
  trans _ _ _ := trans_of (Spans limit)
  stack m _ := refl_of (Spans limit) m.memory
  gas m _ := refl_of (Spans limit) m.memory
  counter m _ := refl_of (Spans limit) m.memory
  stop m := refl_of (Spans limit) m.memory
  state m _ := refl_of (Spans limit) m.memory
  accessList m _ := refl_of (Spans limit) m.memory
  changes m _ := refl_of (Spans limit) m.memory

section Reach
variable {checks : Bool} {limit : Nat}

theorem fitWordLe {n stop : Nat} (fits : fitWord checks n = .ok stop) : stop ≤ n := by
  unfold fitWord at fits
  split at fits
  · cases fits
    exact Nat.le_refl _
  · split at fits
    · cases fits
    · cases fits
      exact Nat.mod_le _ _

theorem spansExpand {stop} (inside : stop ≤ limit) : Follows (Spans limit) (Memory.expand stop) := by
  intro memory
  unfold Memory.expand
  split
  · exact refl_of (Spans limit) memory
  · split
    · simp only [Spans,wordSize,Memory.resize,Memory.len,length_append,length_replicate,divCeil,
        wordLength] at *
      omega
    · exact refl_of (Spans limit) memory

theorem spansWriteByte {offset} (value) (inside : offset + 1 ≤ limit) :
    Follows (Spans limit) (writeByte checks offset value) := by
  intro memory
  refine followsLiftAt fun stop fits => followsBind (spansExpand (Nat.le_trans (fitWordLe fits) inside)) (fun _ =>
    followsBind (fun memory => ?_) fun _ => followsPure _) memory
  unfold setByte
  split
  · simp [Spans,wordSize,Memory.len]
  · exact refl_of (Spans limit) memory

theorem spansWriteWord {offset} (value) (inside : offset + 32 ≤ limit) :
    Follows (Spans limit) (writeWord checks offset value) := by
  intro memory
  refine followsLiftAt fun stop fits => followsBind (spansExpand (Nat.le_trans (fitWordLe fits) inside)) (fun _ =>
    followsBind (fun memory => ?_) fun _ => followsPure _) memory
  unfold setBytes
  split
  · rename_i inside
    have size : (memory.data.take offset ++ value ++ memory.data.drop stop).length = memory.data.length := by
      unfold Memory.len at inside
      simp only [length_append,length_take,length_drop]
      omega
    unfold Spans wordSize Memory.len
    dsimp only
    rw [size]
    exact Nat.le_max_left _ _
  · exact refl_of (Spans limit) memory

theorem withinMemory {β} {c : Command Memory VmFault β} (spans : Follows (Spans limit) c) :
    Follows (Within limit) (onMemory c : Exec σ α β) := fun m => spans m.memory

theorem withinStop {β} {n : Nat} {next : Exec σ α β} (inside : n ≤ limit) (later : Follows (Within limit) next) :
    Follows (Within limit) (lift (fitWord checks n) >>= fun stop => expand stop >>= fun _ => next) := fun m =>
  followsLiftAt fun _ fits =>
    followsBind (withinMemory (spansExpand (Nat.le_trans (fitWordLe fits) inside))) (fun _ => later) m

theorem withinRead (offset size) : Follows (Within limit) (readMemory offset size : Exec σ α Bytes) :=
  followsBind (followsRead _) fun _ => followsLift _

theorem withinCopy {source dest src left i} (inside : dest + i + left ≤ limit) :
    Follows (Within limit) (copyBytes checks source dest src left i : Exec σ α Unit) := by
  induction left generalizing i with
  | zero => exact followsPure _
  | succ left ih =>
    refine followsBind (followsLift _) fun _ m => followsLiftAt fun target fits => ?_
    have below := fitWordLe fits
    exact followsBind (withinMemory (spansWriteByte _ (by omega))) (fun _ => ih (by omega)) m

theorem popUsizeTop {m' : Interpreter σ α} {n} (ran : popUsize m = (.ok n,m')) :
    ∃ value rest, m.stack.data = value::rest ∧ m'.stack.data = rest ∧ n = value.toNat := by
  obtain ⟨value,mid,popped,read⟩ := bindOk ran
  obtain ⟨rest,data,left,_⟩ := popTop popped
  unfold lift asUsize at read
  split at read <;> cases read
  exact ⟨value,rest,data,left,rfl⟩

theorem popWithin {β} {next : Nat → Exec σ α β} (each : ∀ value rest m', m.stack.data = value::rest →
      m'.stack.data = rest → Within limit m' (next value.toNat m').2) : Within limit m ((popUsize >>= next) m).2 := by
  refine followsBindAt (followsPopUsize m) fun n m' ran => ?_
  obtain ⟨value,rest,data,left,rfl⟩ := popUsizeTop ran
  exact each value rest m' data left

theorem popRangeWithin {β} {next : Nat → Nat → Exec σ α β} (each : ∀ offset size rest, m.stack.data = offset::size::rest →
      Follows (Within limit) (next offset.toNat size.toNat)) :
    Within limit m ((popUsize >>= fun offset => popUsize >>= fun size => next offset size) m).2 := by
  refine popWithin fun offset rest m₁ data left => popWithin fun size rest₁ m₂ data₁ _ => ?_
  exact each offset size rest₁ (by rw [data,← left,data₁]) m₂

theorem mLoadWithin (bound : ∀ offset rest, m.stack.data = offset::rest → offset.toNat + 32 ≤ limit) :
    Within limit m (execMLoad checks m).2 :=
  popWithin fun offset rest m' data _ =>
    withinStop (bound offset rest data) (followsBind (followsRead _) fun _ => followsPush _) m'

theorem mStoreWithin (bound : ∀ offset rest, m.stack.data = offset::rest → offset.toNat + 32 ≤ limit) :
    Within limit m (execMStore checks m).2 :=
  popWithin fun offset rest m' data _ => followsBind followsPop (fun _ => withinStop (bound offset rest data)
    (followsBind (withinMemory (spansWriteWord _ (bound offset rest data))) fun _ => followsPure _)) m'

theorem mStore8Within (bound : ∀ offset rest, m.stack.data = offset::rest → offset.toNat + 1 ≤ limit) :
    Within limit m (execMStore8 checks m).2 :=
  popWithin fun offset rest m' data _ => followsBind followsPop (fun _ => withinStop (bound offset rest data)
    (followsBind (withinMemory (spansWriteByte _ (bound offset rest data))) fun _ => followsPure _)) m'

theorem copyWithin {source} (bound : ∀ dest src size rest, m.stack.data = dest::src::size::rest →
      dest.toNat + size.toNat ≤ limit) : Within limit m (execCopy checks source m).2 := by
  refine popWithin fun dest rest m₁ data left => popWithin fun src rest₁ m₂ data₁ left₁ =>
    popWithin fun size rest₂ m₃ data₂ _ => ?_
  have inside := bound dest src size rest₂ (by rw [data,← left,data₁,← left₁,data₂])
  exact withinStop inside (followsBind (followsRead _) fun _ => withinCopy inside) m₃

theorem outputWithin (bound : ∀ offset size rest, m.stack.data = offset::size::rest → offset.toNat + size.toNat ≤ limit) :
    Within limit m (readOutput checks m).2 :=
  popRangeWithin fun offset size rest data => withinStop (bound offset size rest data) (withinRead _ _)

theorem logWithin (bound : ∀ offset size rest, m.stack.data = offset::size::rest → offset.toNat + size.toNat ≤ limit)
    (topics : Nat) : Within limit m (execLog checks topics m).2 := by
  refine followsReadAt (followsBindAt (followsEnsure _ _ m) fun _ m' allowed => ?_)
  have same : m' = m := by
    unfold ensure at allowed
    split at allowed <;> cases allowed
    rfl
  subst same
  refine popRangeWithin fun offset size rest data => followsBind (followsLift _) fun _ => followsBind (followsLift _) fun _ =>
    followsBind (followsChargeGas _) fun _ => withinStop (bound offset size rest data) ?_
  exact followsBind (followsPopTopics _) fun _ => followsBind (withinRead _ _) fun _ m => refl_of (Spans limit) m.memory

theorem dispatchWithin (host : Host σ α) {opcode} (free : expandsFree opcode = true) :
    Within (reach m.stack.data opcode) m (dispatch host opcode m).2 := by
  cases opcode with
  | callDataCopy | codeCopy => exact copyWithin fun dest src size rest data => by simp [reach,data]
  | mLoad => exact mLoadWithin fun offset rest data => by simp [reach,data]
  | mStore => exact mStoreWithin fun offset rest data => by simp [reach,data]
  | mStore8 => exact mStore8Within fun offset rest data => by simp [reach,data]
  | log n => exact logWithin (fun offset size rest data => by simp [reach,data]) n
  | return_ =>
    exact followsBindAt (outputWithin fun offset size rest data => by simp [reach,data]) fun _ m' _ =>
      refl_of (Spans _) m'.memory
  | revert =>
    exact followsBindAt (outputWithin fun offset size rest data => by simp [reach,data]) fun _ m' _ =>
      refl_of (Spans _) m'.memory
  | _ => cases free

end Reach

def spent (m : Interpreter σ α) : Nat := m.context.gasLimit.toNat - m.gasRemaining

/-- The gas spent before a turn covers the memory its operands name. -/
def Affords (m : Interpreter σ α) : Prop := memoryGas (divCeil (reach m.stack.data m.opcode) 32) ≤ m.spent

instance (m : Interpreter σ α) : Decidable (Affords m) := inferInstanceAs (Decidable (_ ≤ _))

theorem turnPaid (host) (paid : Paid host.checks m) (within : m.gasRemaining ≤ m.context.gasLimit.toNat)
    (affords : Affords m) : Paid host.checks (turn host m).2 := by
  have advances := turnAdvances host m
  have less := advances.gas
  unfold Affords spent at affords
  rw [paidIff] at paid ⊢
  rw [advances.context]
  cases free : expandsFree m.opcode with
  | false =>
    have pays := turnPays host free
    unfold Pays at pays
    omega
  | true =>
    have grown : Within (reach m.stack.data m.opcode) m (turn host m).2 := followsEntered (dispatchWithin host free)
    have cost := memoryGasMono grown
    rcases Nat.le_total (divCeil (reach m.stack.data m.opcode) 32) m.memory.wordSize with small | large
    · rw [Nat.max_eq_left small] at cost
      omega
    · rw [Nat.max_eq_right large] at cost
      omega

theorem memoryPaid (host : Host σ α) (context : ExecutionContext) (code : Buffer) (state : σ) (accessList : α)
    (turns : Nat) (affords : EachTurn (fun m => m.stopped) (turn host) Affords turns (new context code state accessList)) :
    EachTurn (fun m => m.stopped) (turn host) (fun m => Paid host.checks (turn host m).2) turns
      (new context code state accessList) := by
  have start : Paid host.checks (new context code state accessList) := by
    have empty : memoryGas Memory.new.wordSize = 0 := by decide
    exact paidIff.mpr (empty ▸ Nat.zero_le _)
  refine eachTurnUnder (I := fun m : Interpreter σ α => Paid host.checks m ∧ m.gasRemaining ≤ m.context.gasLimit.toNat)
    (fun m m' held now ran => ?_) (fun m held now => turnPaid host held.1 held.2 now) ⟨start,Nat.le_refl _⟩ affords
  have paid := turnPaid host held.1 held.2 now
  have advances := turnAdvances host m
  rw [ran] at paid advances
  exact ⟨paid,advances.context ▸ Nat.le_trans advances.gas held.2⟩

def nearStore : Buffer := ⟨[0x60,7,0x60,0,0x52,0x00],by decide⟩

theorem memoryPaidNear :
    EachTurn (fun m => m.stopped) (turn (emptyHost true)) (fun m => Paid true (turn (emptyHost true) m).2) 4
      (new {plainContext with gasLimit := 30} nearStore () ()) := by
  refine memoryPaid (emptyHost true) {plainContext with gasLimit := 30} nearStore () () 4 ?_
  refine eachTurnCons (by decide +kernel) (eachTurnCons (by decide +kernel) ?_)
  exact eachTurnCons (by decide +kernel) (eachTurnCons (by decide +kernel) trivial)

def farLoad : Buffer := ⟨[0x60,0xE0,0x51],by decide⟩

theorem farLoadUnpaid : ∃ result last,
    execute (emptyHost true) 7 (new {plainContext with gasLimit := 6} farLoad () ()) = some (.ok result,last) ∧
      result.gasUsed = 6 ∧ last.memory.wordSize = 8 ∧ memoryGasCost true 8 = .ok 24 :=
  ⟨_,_,rfl,by decide +kernel,by decide +kernel,by decide⟩

end QuantumChain.Evm.Interpreter
