import QuantumChain.EvmSafety

/-! Control flow of the interpreter.
Jump destinations are those that the source's own analysis finds. -/
namespace QuantumChain.Evm
open List
open Command

def instructionWidth (byte : UInt8) : Nat :=
  if 0x60 ≤ byte.toNat ∧ byte.toNat ≤ 0x7F then 1 + (byte.toNat - 0x5F) else 1

inductive Boundary (code : Bytes) (start : Nat) : Nat → Prop
  | here : Boundary code start start
  | next {i : Nat} {byte : UInt8} (before : Boundary code start i) (holds : code[i]? = some byte) :
    Boundary code start (i + instructionWidth byte)

def AtInstruction (code : Bytes) (pc : Nat) : Prop := code.length ≤ pc ∨ Boundary code 0 pc

theorem everyByte {P : UInt8 → Prop} (each : ∀ n : Fin 256, P (UInt8.ofFin n)) (byte) : P byte :=
  each byte.toFin

theorem pushSizeWidth (byte) : ((Opcode.fromByte byte).getD .invalid).pushSize.getD 0 + 1 = instructionWidth byte := by
  revert byte
  exact everyByte (by decide +kernel)

theorem jumpDestByte (byte) : (Opcode.fromByte byte).getD .invalid = .jumpDest ↔ byte = 0x5B := by
  revert byte
  exact everyByte (by decide +kernel)

section Decoding
variable {code : Bytes} {start i : Nat} {byte : UInt8}

theorem opcodeAtByte (holds : code[i]? = some byte) : opcodeAt code i = (Opcode.fromByte byte).getD .invalid := by
  rw [opcodeAt,getD_eq_getElem?_getD,holds,Option.getD_some]

theorem boundaryNext (before : Boundary code start i) (inside : i < code.length) :
    Boundary code start (i + 1 + (opcodeAt code i).pushSize.getD 0) := by
  have holds := getElem?_eq_getElem inside
  have next := Boundary.next before holds
  rw [← pushSizeWidth,← opcodeAtByte holds] at next
  rwa [Nat.add_assoc,Nat.add_comm 1]

theorem boundarySplit (holds : code[start]? = some byte) (found : Boundary code start i) :
    i = start ∨ Boundary code (start + instructionWidth byte) i := by
  induction found with
  | here => exact .inl rfl
  | next before holds' ih =>
    refine .inr ?_
    rcases ih with same | later
    · subst same
      cases Option.some.inj (holds.symm.trans holds')
      exact .here
    · exact .next later holds'

theorem boundaryPast (holds : code[start]? = some byte) (found : Boundary code (start + instructionWidth byte) i) :
    Boundary code start i := by
  induction found with
  | here => exact .next .here holds
  | next before holds' ih => exact .next ih holds'

theorem boundaryOnly (past : code.length ≤ start) (found : Boundary code start i) : i = start := by
  induction found with
  | here => rfl
  | next before holds ih =>
    rw [ih,getElem?_eq_none past] at holds
    cases holds

theorem jumpDestsExact {turns : Nat} (enough : code.length ≤ start + turns) :
    i ∈ jumpDestsFrom code turns start ↔ Boundary code start i ∧ code[i]? = some 0x5B := by
  induction turns generalizing start with
  | zero =>
    refine iff_of_false not_mem_nil fun ⟨found,holds⟩ => ?_
    rw [boundaryOnly enough found,getElem?_eq_none enough] at holds
    cases holds
  | succ turns ih =>
    unfold jumpDestsFrom
    by_cases past : code.length ≤ start
    · rw [if_pos past]
      refine iff_of_false not_mem_nil fun ⟨found,holds⟩ => ?_
      rw [boundaryOnly past found,getElem?_eq_none past] at holds
      cases holds
    · obtain ⟨byte,holds⟩ : ∃ byte, code[start]? = some byte := ⟨_,getElem?_eq_getElem (Nat.lt_of_not_le past)⟩
      rw [if_neg past,mem_append,Nat.add_assoc,opcodeAtByte holds,pushSizeWidth,
        ih (by have := pushSizeWidth byte; omega)]
      constructor
      · rintro (own | ⟨found,dest⟩)
        · split at own
          · rename_i isDest
            cases mem_singleton.mp own
            rw [(jumpDestByte byte).mp isDest] at holds
            exact ⟨.here,holds⟩
          · cases own
        · exact ⟨boundaryPast holds found,dest⟩
      · rintro ⟨found,dest⟩
        rcases boundarySplit holds found with same | later
        · subst same
          cases Option.some.inj (holds.symm.trans dest)
          exact .inl (by rw [if_pos ((jumpDestByte _).mpr rfl)]; exact mem_singleton.mpr rfl)
        · exact .inr ⟨later,dest⟩

theorem analyzedExact : i ∈ analyzeJumpDests code ↔ Boundary code 0 i ∧ code[i]? = some 0x5B :=
  jumpDestsExact (by omega)

end Decoding

namespace Interpreter
variable {σ α β : Type} {m m' : Interpreter σ α}

structure Stays (m m' : Interpreter σ α) : Prop where
  code : m'.code = m.code
  dests : m'.jumpDests = m.jumpDests
  counter : m'.pc = m.pc

instance staysPreorder : IsPreorder (Interpreter σ α) Stays where
  refl _ := ⟨rfl,rfl,rfl⟩
  trans _ _ _ first second :=
    ⟨second.code.trans first.code,second.dests.trans first.dests,second.counter.trans first.counter⟩

theorem staysStill : Still fun β (c : Exec σ α β) => Follows Stays c where
  lifts := followsLift
  binds := followsBind
  reads _ := followsRead _
  pushes := followsFocus fun _ _ => ⟨rfl,rfl,rfl⟩
  spends amount m := by
    unfold consumeGas
    split <;> exact ⟨rfl,rfl,rfl⟩

theorem staysOnMemory (c) : Follows Stays (onMemory c : Exec σ α β) :=
  followsFocus (fun _ _ => ⟨rfl,rfl,rfl⟩) c

theorem staysOnState (c) : Follows Stays (onState c : Exec σ α β) := fun _ => ⟨rfl,rfl,rfl⟩

theorem staysOnAccessList (touch) : Follows Stays (onAccessList touch : Exec σ α AccessStatus) :=
  fun _ => ⟨rfl,rfl,rfl⟩

theorem staysDispatch (host : Host σ α) {opcode} (noCounter : setsCounter opcode = false) :
    Follows Stays (dispatch host opcode) := by
  have still := staysStill (σ := σ) (α := α)
  cases opcode with
  | keccak256 => exact stillKeccak256 still staysOnMemory host
  | callDataCopy | codeCopy => exact stillCopy still staysOnMemory _ fun _ _ _ => rfl
  | mLoad => exact stillMLoad still staysOnMemory _
  | mStore => exact stillMStore still staysOnMemory _
  | mStore8 => exact stillMStore8 still staysOnMemory _
  | log n => exact stillLog still staysOnMemory (fun _ _ _ => ⟨rfl,rfl,rfl⟩) _ _
  | return_ => exact stillReturn still staysOnMemory (fun _ _ => ⟨rfl,rfl,rfl⟩) _
  | revert => exact stillRevert still staysOnMemory (fun _ _ => ⟨rfl,rfl,rfl⟩) _
  | balance => exact stillBalance still staysOnAccessList staysOnState host
  | sLoad => exact stillSLoad still staysOnAccessList staysOnState host
  | sStore => exact stillSStore still staysOnAccessList staysOnState (fun _ _ => ⟨rfl,rfl,rfl⟩) host
  | _ => exact stillDispatch still (fun _ => ⟨rfl,rfl,rfl⟩) host rfl rfl noCounter

structure Moves (skip : Nat) (m m' : Interpreter σ α) : Prop where
  code : m'.code = m.code
  dests : m'.jumpDests = m.jumpDests
  counter : m'.pc = m.pc + skip ∨ m'.pc ∈ m.jumpDests

theorem Stays.moves (stays : Stays m m') : Moves 0 m m' := ⟨stays.code,stays.dests,.inl stays.counter⟩

def Settles (Q : Interpreter σ α → Interpreter σ α → Prop) (c : Exec σ α Unit) (m : Interpreter σ α) : Prop :=
  match c m with
  | (.ok (),m') => Q m m'
  | (.error _,m') => Stays m m'

section Settles
variable {Q : Interpreter σ α → Interpreter σ α → Prop}

theorem settlesStays {c : Exec σ α Unit} (stays : Follows Stays c) (m) : Settles (Moves 0) c m := by
  have kept := stays m
  unfold Settles
  generalize c m = out at kept ⊢
  obtain ⟨result,m'⟩ := out
  cases result with
  | ok value => exact kept.moves
  | error e => exact kept

theorem settlesBind {first : Exec σ α β} {next} (stays : Follows Stays first)
    (rest : ∀ b m', Settles (Moves 0) (next b) m') (m) : Settles (Moves 0) (first >>= next) m := by
  have kept := stays m
  unfold Settles
  rw [bindRun]
  generalize first m = out at kept ⊢
  obtain ⟨result,mid⟩ := out
  cases result with
  | error e => exact kept
  | ok b =>
    have later := rest b mid
    unfold Settles at later
    change match next b mid with
      | (.ok (),m') => Moves 0 m m'
      | (.error _,m') => Stays m m'
    generalize next b mid = out at later ⊢
    obtain ⟨result,m'⟩ := out
    cases result with
    | error e => exact trans_of Stays kept later
    | ok value =>
      refine ⟨later.code.trans kept.code,later.dests.trans kept.dests,?_⟩
      rw [← kept.counter,← kept.dests]
      exact later.counter

end Settles

theorem jumpEnds (dest) (m : Interpreter σ α) :
    (dest ∈ m.jumpDests ∧ jump dest m = (.ok (),{m with pc := dest})) ∨ ∃ e, jump dest m = (.error e,m) := by
  have start : jump dest m =
      (ensure (dest ∈ m.jumpDests) (.error (.invalidJump dest)) >>= fun _ => update fun m => {m with pc := dest}) m := rfl
  unfold ensure at start
  by_cases known : dest ∈ m.jumpDests
  · rw [if_pos known] at start
    exact .inl ⟨known,start⟩
  · rw [if_neg known] at start
    exact .inr ⟨_,start⟩

theorem settlesJumpTo (dest) (m : Interpreter σ α) : Settles (Moves 0) (jump dest) m := by
  unfold Settles
  rcases jumpEnds dest m with ⟨known,ran⟩ | ⟨e,ran⟩
  · rw [ran]
    exact ⟨rfl,rfl,.inr known⟩
  · rw [ran]
    exact refl_of Stays m

theorem settlesJump (m : Interpreter σ α) : Settles (Moves 0) execJump m :=
  settlesBind (stillPopUsize staysStill) (fun dest => settlesJumpTo dest) m

theorem settlesJumpI (m : Interpreter σ α) : Settles (Moves 0) execJumpI m := by
  refine settlesBind (stillPopUsize staysStill) (fun dest => ?_) m
  refine settlesBind (stillPop staysStill) fun cond m' => ?_
  split
  · exact settlesStays (followsPure ()) m'
  · exact settlesJumpTo dest m'

theorem pushEnds (checks) (inside : m.pc ≤ m.code.1.length) (size) :
    (∃ stack, stack.data = fromBigEndian (pushBytes m.code.1 m.pc size)::m.stack.data ∧
      execPush checks size m = (.ok (),{m with stack := stack, pc := m.pc + size})) ∨
    ∃ e, execPush checks size m = (.error e,m) := by
  have word := pushWordExact checks inside size
  have start : execPush checks size m =
      (push (fromBigEndian (pushBytes m.code.1 m.pc size)) >>= fun _ => update fun m => {m with pc := m.pc + size}) m := by
    change (lift (pushWord checks m.code.1 m.pc size) >>= fun value => push value >>= fun _ => _) m = _
    rw [word]
    rfl
  by_cases room : m.stack.data.length < maxStackSize
  · refine .inl ⟨⟨_::_,room⟩,rfl,?_⟩
    rw [start,bindRun,pushRun room]
    rfl
  · refine .inr ⟨.error .stackOverflow,?_⟩
    rw [start,bindRun,pushRefused room]
    rfl

theorem dispatchSettles (host) (opcode) (inside : m.pc ≤ m.code.1.length) :
    Settles (Moves (opcode.pushSize.getD 0)) (dispatch host opcode) m := by
  cases opcode with
  | jump => exact settlesJump m
  | jumpI => exact settlesJumpI m
  | push n =>
    change Settles _ (execPush host.checks n) m
    unfold Settles
    rcases pushEnds host.checks inside n with ⟨stack,_,ran⟩ | ⟨e,ran⟩
    · rw [ran]
      exact ⟨rfl,rfl,.inl rfl⟩
    · rw [ran]
      exact refl_of Stays m
  | _ => exact settlesStays (staysDispatch host rfl) m

theorem jumpLands (ran : execJump m = (.ok (),m')) : m'.pc ∈ m.jumpDests := by
  obtain ⟨dest,mid,popped,jumped⟩ := bindOk ran
  have stays := stillPopUsize staysStill m
  rw [popped] at stays
  rcases jumpEnds dest mid with ⟨known,landed⟩ | ⟨e,failed⟩
  · cases landed.symm.trans jumped
    rwa [← stays.dests]
  · cases failed.symm.trans jumped

theorem jumpILands {dest cond rest} (data : m.stack.data = dest::cond::rest) (taken : cond ≠ 0)
    (ran : execJumpI m = (.ok (),m')) : m'.pc ∈ m.jumpDests := by
  unfold execJumpI popUsize at ran
  rw [bindAssoc,popThen data] at ran
  obtain ⟨target,mid,given,ran⟩ := bindOk ran
  cases (Prod.mk.inj given).2
  rw [popThen (poppedData data),if_neg taken] at ran
  rcases jumpEnds target m.popped.popped with ⟨known,landed⟩ | ⟨e,failed⟩
  · cases landed.symm.trans ran
    exact known
  · cases failed.symm.trans ran

theorem turnEnds (host) (inside : m.pc < m.code.1.length) :
    turn host m = (.error (.error .outOfGas),m) ∨ turn host m = dispatch host m.opcode m.entered := by
  rw [turnInside host (Nat.not_le_of_lt inside),bindRun]
  by_cases paid : opcodeGas m.opcode ≤ m.gasRemaining
  · rw [chargePaid paid]
    exact .inr rfl
  · rw [chargeUnpaid paid]
    exact .inl rfl

structure Decoded (code : Buffer) (m : Interpreter σ α) : Prop where
  same : m.code = code
  dests : m.jumpDests = analyzeJumpDests code.1
  counter : AtInstruction code.1 m.pc

section Runs
variable {code : Buffer}

theorem decodedTurn (host) (decoded : Decoded code m) (ran : turn host m = (.ok (),m')) : Decoded code m' := by
  by_cases past : m.code.1.length ≤ m.pc
  · rw [turnPast host past] at ran
    cases ran
    exact ⟨decoded.same,decoded.dests,decoded.counter⟩
  have inside := Nat.lt_of_not_le past
  rcases turnEnds host inside with failed | entered
  · cases failed.symm.trans ran
  have moves := dispatchSettles host m.opcode (m := m.entered) inside
  unfold Settles at moves
  rw [← entered,ran] at moves
  refine ⟨moves.code.trans decoded.same,moves.dests.trans decoded.dests,.inr ?_⟩
  rcases moves.counter with next | landed
  · have before := decoded.counter.resolve_left (by rw [← decoded.same]; exact past)
    have after := boundaryNext before (by rw [← decoded.same]; exact inside)
    rw [next]
    rwa [← decoded.same] at after ⊢
  · have known : m'.pc ∈ analyzeJumpDests code.1 := by
      rw [← decoded.dests]
      exact landed
    exact (analyzedExact.mp known).1

theorem decodedReached (host) (context) (state) (accessList)
    (reached : Reached (fun m => m.stopped) (turn host) (new context code state accessList) m) : Decoded code m :=
  reachedHolds (I := Decoded code) (fun _ _ decoded _ ran => decodedTurn host decoded ran) ⟨rfl,rfl,.inr .here⟩ reached

theorem opcodePast (past : m.code.1.length ≤ m.pc) : m.opcode = .stop := by
  unfold opcode opcodeAt
  rw [getD_eq_getElem?_getD,getElem?_eq_none past]
  rfl

def Jumping (m : Interpreter σ α) : Prop :=
  m.opcode = .jump ∨ m.opcode = .jumpI ∧ ∃ dest cond rest, m.stack.data = dest::cond::rest ∧ cond ≠ 0

theorem jumpingLands (host) (decoded : Decoded code m) (jumping : Jumping m) (ran : turn host m = (.ok (),m')) :
    code.1[m'.pc]? = some 0x5B := by
  have inside : m.pc < m.code.1.length := by
    refine Nat.lt_of_not_le fun past => ?_
    have stop := opcodePast past
    rcases jumping with jump | ⟨jumpI,_⟩
    · cases stop.symm.trans jump
    · cases stop.symm.trans jumpI
  rcases turnEnds host inside with failed | entered
  · cases failed.symm.trans ran
  rw [entered] at ran
  have landed : m'.pc ∈ m.jumpDests := by
    rcases jumping with jump | ⟨jumpI,dest,cond,rest,data,taken⟩
    · rw [jump] at ran
      exact jumpLands (m := m.entered) ran
    · rw [jumpI] at ran
      exact jumpILands (m := m.entered) data taken ran
  rw [decoded.dests] at landed
  exact (analyzedExact.mp landed).2

theorem pushPushes (host) (decoded : Decoded code m) {n} (push : m.opcode = .push n) (ran : turn host m = (.ok (),m')) :
    m'.stack.data = fromBigEndian (pushBytes code.1 (m.pc + 1) n)::m.stack.data := by
  have inside : m.pc < m.code.1.length :=
    Nat.lt_of_not_le fun past => nomatch (opcodePast past).symm.trans push
  rcases turnEnds host inside with failed | entered
  · cases failed.symm.trans ran
  rw [entered,push] at ran
  rcases pushEnds host.checks (m := m.entered) inside n with ⟨stack,data,pushed⟩ | ⟨e,failed⟩
  · cases pushed.symm.trans ran
    rw [← decoded.same]
    exact data
  · cases failed.symm.trans ran

theorem failedTurn (host) {e} (ran : turn host m = (.error e,m')) : m'.pc = m.pc ∨ m'.pc = m.pc + 1 := by
  by_cases past : m.code.1.length ≤ m.pc
  · cases (turnPast host past).symm.trans ran
  have inside := Nat.lt_of_not_le past
  rcases turnEnds host inside with failed | entered
  · cases failed.symm.trans ran
    exact .inl rfl
  have stays := dispatchSettles host m.opcode (m := m.entered) inside
  unfold Settles at stays
  rw [← entered,ran] at stays
  exact .inr stays.counter

theorem pushDataNeverRun (host : Host σ α) (context : ExecutionContext) (code : Buffer) (state : σ) (accessList : α) :
    (∀ m, Reached (fun m => m.stopped) (turn host) (new context code state accessList) m →
      m.code = code ∧ AtInstruction code.1 m.pc ∧
      ∀ m', turn host m = (.ok (),m') →
        (Jumping m → code.1[m'.pc]? = some 0x5B) ∧
        ∀ n, m.opcode = .push n → m'.stack.data = fromBigEndian (pushBytes code.1 (m.pc + 1) n)::m.stack.data) ∧
    match run host (new context code state accessList) with
    | (.ok _,last) => Reached (fun m => m.stopped) (turn host) (new context code state accessList) last
    | (.error _,last) => ∃ m, Reached (fun m => m.stopped) (turn host) (new context code state accessList) m ∧
        (last.pc = m.pc ∨ last.pc = m.pc + 1) := by
  constructor
  · intro m reached
    have decoded := decodedReached host context state accessList reached
    exact ⟨decoded.same,decoded.counter,fun m' ran =>
      ⟨fun jumping => jumpingLands host decoded jumping ran,fun n push => pushPushes host decoded push ran⟩⟩
  · obtain ⟨⟨result,last⟩,ended,returned⟩ := runLoop host (new context code state accessList)
    have reached := loopReached ended
    rw [returned]
    cases result with
    | error e =>
      obtain ⟨m,before,_,failed⟩ := reached
      exact ⟨m,before,failedTurn host failed⟩
    | ok value =>
      obtain ⟨_,finished,_⟩ := finishOk host.checks (loopWithin host context code state accessList ended)
      rw [StepRun.andThenOk,finished]
      exact reached

end Runs

end Interpreter

end QuantumChain.Evm
