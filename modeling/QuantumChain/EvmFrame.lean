import QuantumChain.EvmInterpreter

/-! Frames of the interpreter: what an instruction leaves alone.
Gas and results are settled elsewhere. -/
namespace QuantumChain.Evm.Interpreter
open Command
variable {σ α β : Type}

def Unaware (f : Interpreter σ α → β) : Prop :=
  ∀ m state accessList, f {m with state := state, accessList := accessList} = f m

theorem popTop {m m' : Interpreter σ α} {value} (ran : pop m = (.ok value,m')) :
    ∃ rest, m.stack.data = value::rest ∧ m'.stack.data = rest ∧ m'.context = m.context := by
  cases data : m.stack.data with
  | nil =>
    unfold pop onStack focus Stack.pop at ran
    simp [data] at ran
  | cons top rest =>
    unfold pop onStack focus Stack.pop at ran
    simp only [data,Prod.mk.injEq,Except.ok.injEq] at ran
    obtain ⟨rfl,rfl⟩ := ran
    exact ⟨rest,rfl,by simp [Stack.popped,data],rfl⟩

structure Still (P : ∀ β : Type, Exec σ α β → Prop) : Prop where
  lifts : ∀ {β : Type} (result : Except VmFault β), P β (lift result)
  binds : ∀ {β γ : Type} {c : Exec σ α β} {next : β → Exec σ α γ}, P β c → (∀ b, P γ (next b)) → P γ (c >>= next)
  reads : ∀ {β : Type} {f : Interpreter σ α → β}, Unaware f → P β (read f)
  pushes : ∀ {β : Type} (c : Command Stack VmFault β), P β (onStack c)
  spends : ∀ amount, P Bool (consumeGas amount)

structure Calm (P : ∀ β : Type, Exec σ α β → Prop) : Prop where
  lifts : ∀ {β : Type} (result : Except VmFault β), P β (lift result)
  binds : ∀ {β γ : Type} {c : Exec σ α β} {next : β → Exec σ α γ}, P β c → (∀ b, P γ (next b)) → P γ (c >>= next)
  reads : ∀ {β : Type} {f : Interpreter σ α → β}, Unaware f → P β (read f)
  pushes : ∀ {β : Type} (c : Command Stack VmFault β), P β (onStack c)
  spends : ∀ amount, P Bool (consumeGas amount)
  jumps : ∀ f : Nat → Nat, P Unit (update fun m => {m with pc := f m.pc})
  stops : P Unit (update fun m => {m with stopped := true})

structure Remembers (P : ∀ β : Type, Exec σ α β → Prop) : Prop extends Calm P where
  recalls : ∀ {β : Type} (c : Command Memory VmFault β), P β (onMemory c)

structure Reports (P : ∀ β : Type, Exec σ α β → Prop) : Prop extends Remembers P where
  logs : ∀ topics data, P Unit (update fun m => {m with logs := m.logs ++ [⟨m.context.address,topics,data⟩]})
  returns : ∀ data, P Unit (update fun m => {m with returnData := data, stopped := true})
  reverts : ∀ data, P Unit (update fun m => {m with returnData := data, stopped := true, reverted := true})

def usesPort : Opcode → Bool
  | .balance | .sLoad | .sStore => true
  | _ => false

def usesMemory : Opcode → Bool
  | .keccak256 | .callDataCopy | .codeCopy | .mLoad | .mStore | .mStore8 | .log _ | .return_ | .revert => true
  | _ => false

def setsCounter : Opcode → Bool
  | .jump | .jumpI | .push _ => true
  | _ => false

theorem Calm.still {P : ∀ β : Type, Exec σ α β → Prop} (calm : Calm P) : Still P :=
  ⟨calm.lifts,calm.binds,calm.reads,calm.pushes,calm.spends⟩

section Still
variable {P : ∀ β : Type, Exec σ α β → Prop} (still : Still P)
include still

theorem stillPure (b) : P β (pure b) := still.lifts (.ok b)

theorem stillRaise (e) : P β (raise e) := still.lifts (.error e)

theorem stillEnsure (holds : Prop) [Decidable holds] (e) : P Unit (ensure holds e) := by
  unfold ensure
  split
  · exact stillPure still ()
  · exact stillRaise still e

theorem stillPop : P U256 pop := still.pushes _

theorem stillPush (value) : P Unit (push value) := still.pushes _

theorem stillPopUsize : P Nat popUsize := still.binds (stillPop still) fun _ => still.lifts _

theorem stillChargeGas (amount) : P Unit (chargeGas amount) :=
  still.binds (still.spends amount) fun _ => stillEnsure still _ _

theorem stillPushRead {value} (unaware : Unaware value) : P Unit (pushRead value) :=
  still.binds (still.reads unaware) fun _ => stillPush still _

theorem stillUnary (op) : P Unit (unary op) := still.binds (stillPop still) fun _ => stillPush still _

theorem stillBinary (op : U256 → U256 → Except VmFault U256) : P Unit (binary op) :=
  still.binds (stillPop still) fun _ => still.binds (stillPop still) fun _ =>
    still.binds (still.lifts _) fun _ => stillPush still _

theorem stillTernary (op : U256 → U256 → U256 → Except VmFault U256) : P Unit (ternary op) :=
  still.binds (stillPop still) fun _ => still.binds (stillPop still) fun _ => still.binds (stillPop still) fun _ =>
    still.binds (still.lifts _) fun _ => stillPush still _

theorem stillArithmetic (checks : Bool) (opcode : Opcode) : P Unit (execArithmetic checks opcode) := by
  have exp : P Unit execExp :=
    still.binds (stillPop still) fun _ => still.binds (stillPop still) fun _ =>
      still.binds (stillChargeGas still _) fun _ => stillPush still _
  cases opcode with
  | add | mul | sub | div | sDiv | mod | sMod | signExtend => exact stillBinary still _
  | addMod | mulMod => exact stillTernary still _
  | exp => exact exp
  | _ => exact stillRaise still _

theorem stillComparison (opcode : Opcode) : P Unit (execComparison opcode) := by
  cases opcode with
  | lt | gt | sLt | sGt | eq => exact stillBinary still _
  | isZero => exact stillUnary still _
  | _ => exact stillRaise still _

theorem stillBitwise (opcode) : P Unit (execBitwise opcode) := by
  cases opcode with
  | and | or | xor | byte | shl | shr | sar => exact stillBinary still _
  | not => exact stillUnary still _
  | _ => exact stillRaise still _

theorem stillCallDataLoad (checks : Bool) : P Unit (execCallDataLoad checks) :=
  still.binds (stillPop still) fun _ => still.binds (still.reads fun _ _ _ => rfl) fun _ =>
    still.binds (still.lifts _) fun _ => stillPush still _

theorem stillBlockInfo (opcode : Opcode) : P Unit (execBlockInfo opcode) := by
  cases opcode with
  | coinbase | timestamp | number | gasLimit | chainId | baseFee => exact stillPushRead still fun _ _ _ => rfl
  | blockHash => exact stillUnary still _
  | _ => exact stillRaise still _

theorem stillPopTopics (n : Nat) : P (List Hash) (popTopics n) := by
  induction n with
  | zero => exact stillPure still _
  | succ n ih => exact still.binds (stillPop still) fun _ => still.binds ih fun _ => stillPure still _

theorem stillDispatch (stops : P Unit (update fun m => {m with stopped := true})) (host : Host σ α) {opcode}
    (noPort : usesPort opcode = false) (noMemory : usesMemory opcode = false) (noCounter : setsCounter opcode = false) :
    P Unit (dispatch host opcode) := by
  unfold dispatch
  cases opcode with
  | add | mul | sub | div | sDiv | mod | sMod | addMod | mulMod | exp | signExtend => exact stillArithmetic still _ _
  | lt | gt | sLt | sGt | eq | isZero => exact stillComparison still _
  | and | or | xor | not | byte | shl | shr | sar => exact stillBitwise still _
  | address | origin | caller | callValue | callDataSize | codeSize | gasPrice | mSize | pc | gas =>
    exact stillPushRead still fun _ _ _ => rfl
  | callDataLoad => exact stillCallDataLoad still _
  | blockHash | coinbase | timestamp | number | gasLimit | chainId | baseFee => exact stillBlockInfo still _
  | jumpDest => exact stillPure still _
  | pop => exact still.binds (stillPop still) fun _ => stillPure still _
  | dup _ | swap _ => exact still.pushes _
  | stop => exact stops
  | extCodeSize | extCodeCopy | returnDataSize | returnDataCopy | extCodeHash | prevRandao | selfBalance | mCopy | tLoad
  | tStore | create | call | callCode | delegateCall | create2 | staticCall | invalid | selfDestruct =>
    exact stillRaise still _
  | balance | sLoad | sStore => cases noPort
  | keccak256 | callDataCopy | codeCopy | mLoad | mStore | mStore8 | log _ | return_ | revert => cases noMemory
  | jump | jumpI | push _ => cases noCounter

section Memory
variable (recalls : ∀ {β : Type} (c : Command Memory VmFault β), P β (onMemory c))
include recalls

omit still in
theorem stillExpand (size) : P Nat (expand size) := recalls _

omit recalls in
theorem stillReadMemory (offset size : Nat) : P Bytes (readMemory offset size) :=
  still.binds (still.reads fun _ _ _ => rfl) fun _ => still.lifts _

theorem stillKeccak256 (host : Host σ α) : P Unit (execKeccak256 host) :=
  still.binds (stillPop still) fun _ => still.binds (stillPop still) fun _ => still.binds (still.lifts _) fun _ =>
    still.binds (still.lifts _) fun _ => still.binds (still.lifts _) fun _ => still.binds
      (still.reads fun _ _ _ => rfl) fun _ =>
    still.binds (still.lifts _) fun _ => still.binds (still.lifts _) fun _ => still.binds (still.lifts _) fun _ =>
    still.binds (stillChargeGas still _) fun _ => still.binds (stillExpand recalls _) fun _ =>
    still.binds (stillReadMemory still _ _) fun _ => stillPush still _

theorem stillCopyBytes (checks : Bool) (source) (dest src left i) :
    P Unit (copyBytes checks source dest src left i) := by
  induction left generalizing i with
  | zero => exact stillPure still _
  | succ left ih =>
    exact still.binds (still.lifts _) fun _ => still.binds (still.lifts _) fun _ =>
      still.binds (recalls _) fun _ => ih _

theorem stillCopy (checks) {source} (unaware : Unaware source) : P Unit (execCopy checks source) :=
  still.binds (stillPopUsize still) fun _ => still.binds (stillPopUsize still) fun _ =>
    still.binds (stillPopUsize still) fun _ => still.binds (still.lifts _) fun _ =>
    still.binds (stillExpand recalls _) fun _ => still.binds (still.reads unaware) fun _ =>
    stillCopyBytes still recalls _ _ _ _ _ _

theorem stillMLoad (checks : Bool) : P Unit (execMLoad checks) :=
  still.binds (stillPopUsize still) fun _ => still.binds (still.lifts _) fun _ =>
    still.binds (stillExpand recalls _) fun _ => stillPushRead still fun _ _ _ => rfl

theorem stillMStore (checks) : P Unit (execMStore checks) :=
  still.binds (stillPopUsize still) fun _ => still.binds (stillPop still) fun _ => still.binds (still.lifts _) fun _ =>
    still.binds (stillExpand recalls _) fun _ => still.binds (recalls _) fun _ => stillPure still _

theorem stillMStore8 (checks : Bool) : P Unit (execMStore8 checks) :=
  still.binds (stillPopUsize still) fun _ => still.binds (stillPop still) fun _ => still.binds (still.lifts _) fun _ =>
    still.binds (stillExpand recalls _) fun _ => still.binds (recalls _) fun _ => stillPure still _

theorem stillReadOutput (checks : Bool) : P Bytes (readOutput checks) :=
  still.binds (stillPopUsize still) fun _ => still.binds (stillPopUsize still) fun _ => still.binds (still.lifts _) fun _ =>
    still.binds (stillExpand recalls _) fun _ => stillReadMemory still _ _

theorem stillLog (logs : ∀ topics data, P Unit (update fun m => {m with logs := m.logs ++ [⟨m.context.address,topics,data⟩]}))
    (checks : Bool) (topicCount : Nat) : P Unit (execLog checks topicCount) :=
  still.binds (still.reads fun _ _ _ => rfl) fun _ => still.binds (stillEnsure still _ _) fun _ =>
    still.binds (stillPopUsize still) fun _ => still.binds (stillPopUsize still) fun _ =>
    still.binds (still.lifts _) fun _ => still.binds (still.lifts _) fun _ => still.binds (stillChargeGas still _) fun _ =>
    still.binds (still.lifts _) fun _ => still.binds (stillExpand recalls _) fun _ =>
    still.binds (stillPopTopics still _) fun _ => still.binds (stillReadMemory still _ _) fun _ => logs _ _

theorem stillReturn (returns : ∀ data, P Unit (update fun m => {m with returnData := data, stopped := true}))
    (checks : Bool) : P Unit (execReturn checks) :=
  still.binds (stillReadOutput still recalls _) fun _ => returns _

theorem stillRevert
    (reverts : ∀ data, P Unit (update fun m => {m with returnData := data, stopped := true, reverted := true}))
    (checks) : P Unit (execRevert checks) :=
  still.binds (stillReadOutput still recalls _) fun _ => still.binds (reverts _) fun _ => stillRaise still _

end Memory

section Ports
variable (touches : ∀ touch : α → AccessStatus × α, P AccessStatus (onAccessList touch))
  (looksUp : ∀ {β : Type} (c : Command σ StateError β), P β (onState c))
include touches looksUp

theorem stillBalance (host : Host σ α) : P Unit (execBalance host) :=
  still.binds (stillPop still) fun _ => still.binds (touches _) fun _ => still.binds (stillChargeGas still _) fun _ =>
    still.binds (looksUp _) fun _ => stillPush still _

theorem stillSLoad (host : Host σ α) : P Unit (execSLoad host) :=
  still.binds (stillPop still) fun _ => still.binds (still.reads fun _ _ _ => rfl) fun _ =>
    still.binds (touches _) fun _ => still.binds (stillChargeGas still _) fun _ =>
    still.binds (looksUp _) fun _ => stillPush still _

theorem stillSStore
    (changes : ∀ change, P Unit (update fun m => {m with stateChanges := m.stateChanges ++ [change]}))
      (host : Host σ α) : P Unit (execSStore host) :=
  still.binds (still.reads fun _ _ _ => rfl) fun _ => still.binds (stillEnsure still _ _) fun _ =>
    still.binds (stillPop still) fun _ => still.binds (stillPop still) fun _ =>
    still.binds (still.reads fun _ _ _ => rfl) fun _ => still.binds (touches _) fun _ =>
    still.binds (stillChargeGas still _) fun _ => still.binds (looksUp _) fun _ => changes _

end Ports

end Still

section Calm
variable {P : ∀ β : Type, Exec σ α β → Prop} (calm : Calm P)
include calm

theorem calmJumpTo (dest) : P Unit (jump dest) :=
  calm.binds (calm.reads fun _ _ _ => rfl) fun _ => calm.binds (stillEnsure calm.still _ _) fun _ =>
    calm.jumps fun _ => dest

theorem calmJump : P Unit execJump := calm.binds (stillPopUsize calm.still) fun _ => calmJumpTo calm _

theorem calmJumpI : P Unit execJumpI :=
  calm.binds (stillPopUsize calm.still) fun dest => calm.binds (stillPop calm.still) fun cond => by
    split
    · exact stillPure calm.still _
    · exact calmJumpTo calm dest

theorem calmPush (checks : Bool) (size) : P Unit (execPush checks size) :=
  calm.binds (calm.reads fun _ _ _ => rfl) fun _ => calm.binds (calm.reads fun _ _ _ => rfl) fun _ =>
    calm.binds (calm.lifts _) fun _ => calm.binds (stillPush calm.still _) fun _ => calm.jumps fun pc => pc + size

theorem calmDispatch (host) {opcode} (noPort : usesPort opcode = false)
    (noMemory : usesMemory opcode = false) : P Unit (dispatch host opcode) := by
  cases opcode with
  | jump => exact calmJump calm
  | jumpI => exact calmJumpI calm
  | push n => exact calmPush calm _ n
  | _ => exact stillDispatch calm.still calm.stops host noPort noMemory rfl

end Calm

section Reports
variable {P : ∀ β : Type, Exec σ α β → Prop} (reports : Reports P)
include reports

theorem calmDispatchMemory (host : Host σ α) {opcode} (noPort : usesPort opcode = false) :
    P Unit (dispatch host opcode) := by
  have still := reports.toCalm.still
  have recalls {β : Type} (c : Command Memory VmFault β) := reports.recalls c
  cases opcode with
  | keccak256 => exact stillKeccak256 still recalls host
  | callDataCopy | codeCopy => exact stillCopy still recalls _ fun _ _ _ => rfl
  | mLoad => exact stillMLoad still recalls _
  | mStore => exact stillMStore still recalls _
  | mStore8 => exact stillMStore8 still recalls _
  | log n => exact stillLog still recalls reports.logs _ _
  | return_ => exact stillReturn still recalls reports.returns _
  | revert => exact stillRevert still recalls reports.reverts _
  | _ => exact calmDispatch reports.toCalm host noPort rfl

end Reports

class Frame (R : Interpreter σ α → Interpreter σ α → Prop) : Prop extends IsPreorder (Interpreter σ α) R where
  stack : ∀ m stack, R m {m with stack := stack}
  memory : ∀ m memory, R m {m with memory := memory}
  state : ∀ m state, R m {m with state := state}
  accessList : ∀ m accessList, R m {m with accessList := accessList}
  gas : ∀ m amount, R m {m with gasRemaining := m.gasRemaining - amount}
  counter : ∀ m pc, R m {m with pc := pc}
  changes : ∀ m stateChanges, R m {m with stateChanges := stateChanges}
  stop : ∀ m, R m {m with stopped := true}

class Steady (R : Interpreter σ α → Interpreter σ α → Prop) : Prop extends IsPreorder (Interpreter σ α) R where
  stack : ∀ m stack, R m {m with stack := stack}
  gas : ∀ m amount, R m {m with gasRemaining := m.gasRemaining - amount}
  counter : ∀ m pc, R m {m with pc := pc}
  stop : ∀ m, R m {m with stopped := true}

class Ported (R : Interpreter σ α → Interpreter σ α → Prop) : Prop extends Steady R where
  state : ∀ m state, R m {m with state := state}
  accessList : ∀ m accessList, R m {m with accessList := accessList}
  changes : ∀ m stateChanges, R m {m with stateChanges := stateChanges}

instance framePorted {R : Interpreter σ α → Interpreter σ α → Prop} [Frame R] : Ported R where
  stack := Frame.stack
  gas := Frame.gas
  counter := Frame.counter
  stop := Frame.stop
  state := Frame.state
  accessList := Frame.accessList
  changes := Frame.changes

section Steady
variable {R : Interpreter σ α → Interpreter σ α → Prop} [Steady R]

theorem followsConsumeGas (amount) : Follows R (consumeGas amount : Exec σ α Bool) := by
  intro m
  unfold consumeGas
  split
  · exact Steady.gas m amount
  · exact refl_of R m

variable (R) in
theorem calmFollows : Calm fun β (c : Exec σ α β) => Follows R c where
  lifts := followsLift
  binds := followsBind
  reads _ := followsRead _
  pushes := followsFocus Steady.stack
  spends := followsConsumeGas
  jumps f m := Steady.counter m (f m.pc)
  stops := Steady.stop

variable (R) in
theorem remembersFollows (memory : ∀ m memory, R m {m with memory := memory}) :
    Remembers fun β (c : Exec σ α β) => Follows R c :=
  {calmFollows R with recalls := followsFocus memory}

variable (R) in
theorem stillFollows : Still fun β (c : Exec σ α β) => Follows R c := (calmFollows R).still

theorem followsPop : Follows R (pop : Exec σ α U256) := stillPop (stillFollows R)

theorem followsPush (value) : Follows R (push value : Exec σ α Unit) := stillPush (stillFollows R) value

theorem followsPopUsize : Follows R (popUsize : Exec σ α Nat) := stillPopUsize (stillFollows R)

theorem followsChargeGas (amount) : Follows R (chargeGas amount : Exec σ α Unit) :=
  stillChargeGas (stillFollows R) amount

theorem followsPopTopics (n) : Follows R (popTopics n : Exec σ α (List Hash)) := stillPopTopics (stillFollows R) n

end Steady

section Ported
variable {R : Interpreter σ α → Interpreter σ α → Prop} [Ported R]

theorem followsOnState (c) : Follows R (onState c : Exec σ α β) :=
  fun m => Ported.state m _

theorem followsOnAccessList (touch) : Follows R (onAccessList touch : Exec σ α AccessStatus) :=
  fun m => Ported.accessList m _

theorem followsBalance (host) : Follows R (execBalance host) :=
  stillBalance (stillFollows R) followsOnAccessList followsOnState host

theorem followsSLoad (host) : Follows R (execSLoad host) :=
  stillSLoad (stillFollows R) followsOnAccessList followsOnState host

theorem followsSStore (host) : Follows R (execSStore host) :=
  stillSStore (stillFollows R) followsOnAccessList followsOnState (fun _ m => Ported.changes m _) host

theorem followsPorts (host : Host σ α) {opcode} (noMemory : usesMemory opcode = false) :
    Follows R (dispatch host opcode) := by
  cases opcode with
  | balance => exact followsBalance host
  | sLoad => exact followsSLoad host
  | sStore => exact followsSStore host
  | _ => exact calmDispatch (calmFollows R) host rfl noMemory

end Ported

variable {R : Interpreter σ α → Interpreter σ α → Prop} [Frame R]

theorem followsOnMemory (c : Command Memory VmFault β) : Follows R (onMemory c) := followsFocus Frame.memory c

theorem followsExpand (size) : Follows R (expand size : Exec σ α Nat) := followsOnMemory _

theorem followsReadMemory (offset size : Nat) : Follows R (readMemory offset size : Exec σ α Bytes) :=
  stillReadMemory (stillFollows R) offset size

structure Emits (R : Interpreter σ α → Interpreter σ α → Prop) (checks : Bool) : Prop where
  log : ∀ n : Fin 5, Follows R (execLog checks n : Exec σ α Unit)
  return_ : Follows R (execReturn checks : Exec σ α Unit)
  revert : Follows R (execRevert checks : Exec σ α Unit)

omit [Frame R] in
theorem emitsFollows (reports : Reports fun β (c : Exec σ α β) => Follows R c) (checks : Bool) : Emits R checks :=
  have still := reports.toCalm.still
  ⟨fun n => stillLog still reports.recalls reports.logs checks n,stillReturn still reports.recalls reports.returns checks,
    stillRevert still reports.recalls reports.reverts checks⟩

theorem followsDispatch {host} (emits : Emits R host.checks) (opcode : Opcode) : Follows R (dispatch host opcode) := by
  have still := stillFollows R
  cases opcode with
  | keccak256 => exact stillKeccak256 still followsOnMemory host
  | callDataCopy | codeCopy => exact stillCopy still followsOnMemory _ fun _ _ _ => rfl
  | mLoad => exact stillMLoad still followsOnMemory _
  | mStore => exact stillMStore still followsOnMemory _
  | mStore8 => exact stillMStore8 still followsOnMemory _
  | log n => exact emits.log n
  | return_ => exact emits.return_
  | revert => exact emits.revert
  | _ => exact followsPorts host rfl

theorem followsExecuteOpcode {host} (emits : Emits R host.checks) (opcode : Opcode) :
    Follows R (executeOpcode host opcode) :=
  followsBind (fun m => Frame.counter m _) fun _ => followsDispatch emits opcode

theorem followsTurn {host} (emits : Emits R host.checks) : Follows R (turn host) := by
  intro m
  by_cases past : m.code.1.length ≤ m.pc
  · rw [turnPast host past]
    exact Frame.stop m
  · rw [turnInside host past]
    exact followsBind (followsChargeGas _) (fun _ => followsExecuteOpcode emits _) m

end QuantumChain.Evm.Interpreter
