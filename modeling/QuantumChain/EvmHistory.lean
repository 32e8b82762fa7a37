import QuantumChain.EvmEffects

/-! One transaction on two services with the same contents.
Warm addresses outlive a request, so gas may differ. -/
namespace QuantumChain.Evm
open Command

inductive Touch where
  | account (address : Address)
  | slot (address : Address) (key : Hash)
  deriving DecidableEq, Repr

namespace InMemoryAccessList
variable {list : InMemoryAccessList}

def Warm (list : InMemoryAccessList) : Touch → Prop
  | .account address => address ∈ list.warmAccounts
  | .slot address key => key ∈ list.slots address

instance decideWarm (list : InMemoryAccessList) : (t : Touch) → Decidable (list.Warm t)
  | .account address => inferInstanceAs (Decidable (address ∈ list.warmAccounts))
  | .slot address key => inferInstanceAs (Decidable (key ∈ list.slots address))

theorem touchAccountStatus (address) :
    (touchAccount address list).1 = if list.Warm (.account address) then .warm else .cold := by
  unfold touchAccount
  by_cases warm : address ∈ list.warmAccounts <;> simp [Warm,warm]

theorem touchStorageStatus (address) (key) :
    (touchStorage address key list).1 = if list.Warm (.slot address key) then .warm else .cold := by
  unfold touchStorage
  by_cases warm : key ∈ list.slots address <;> simp [Warm,warm]

theorem touchAccountWarm (address) (t) : (touchAccount address list).2.Warm t ↔ list.Warm t ∨ t = .account address := by
  unfold touchAccount
  by_cases warm : address ∈ list.warmAccounts
  · rw [if_pos warm]
    refine ⟨.inl,?_⟩
    rintro (held | rfl)
    · exact held
    · exact warm
  · rw [if_neg warm]
    cases t with
    | account other => simp [Warm,or_comm]
    | slot other key => simp [Warm,slots]

theorem slotsMarked (address other) (key) (accounts) :
    slots ⟨accounts,list.warmStorage.insert address (insert key (list.slots address))⟩ other =
      if other = address then insert key (list.slots address) else list.slots other := by
  unfold slots
  rw [KeyedMap.lookupInsert]
  split <;> rfl

theorem touchStorageWarm (address) (key) (t) :
    (touchStorage address key list).2.Warm t ↔ list.Warm t ∨ t = .slot address key ∨ t = .account address := by
  unfold touchStorage
  by_cases warm : key ∈ list.slots address
  · rw [if_pos warm]
    cases t with
    | account other => simp [Warm,or_comm]
    | slot other key' =>
      refine ⟨.inl,?_⟩
      rintro (held | same | same)
      · exact held
      · cases same
        exact warm
      · cases same
  · rw [if_neg warm]
    cases t with
    | account other => simp [Warm,or_comm]
    | slot other key' =>
      unfold Warm
      dsimp only
      rw [slotsMarked]
      by_cases here : other = address
      · subst here
        simp [or_comm]
      · simp [here]

end InMemoryAccessList

namespace Interpreter
open InMemoryAccessList
variable {checks : Bool} {keccak : Bytes → Hash} {β : Type} {T : Touch → Prop}

def touched (m : Machine) : List Touch :=
  match m.opcode,m.stack.data with
  | .balance,value::_ => [.account (addressFromU256 value)]
  | .sLoad,key::_ => [.slot m.context.address key]
  | .sStore,key::_::_ => if m.context.isStatic then [] else [.slot m.context.address key]
  | _,_ => []

def Alike (T : Touch → Prop) (m n : Machine) : Prop :=
  ∃ state list, n = {m with state := state, accessList := list} ∧ Unchanged m.state state ∧
    ∀ t, T t → (m.accessList.Warm t ↔ list.Warm t)

theorem alikeSees {f : Machine → β} (unaware : Unaware f) {m n} (alike : Alike T m n) : f m = f n := by
  obtain ⟨state,list,rfl,_⟩ := alike
  exact (unaware m state list).symm

theorem alikeCalm {c : Exec InMemoryState InMemoryAccessList β}
    (ports : ∀ m state list, c {m with state := state, accessList := list} =
      ((c m).1,{(c m).2 with state := state, accessList := list}))
    (state : ∀ m, (c m).2.state = m.state) (list : ∀ m, (c m).2.accessList = m.accessList) : Matches (Alike T) c := by
  rintro m _ ⟨held,marked,rfl,contents,warmth⟩
  unfold MatchesAt
  rw [ports m held marked]
  refine ⟨rfl,held,marked,rfl,?_,?_⟩
  · rw [state]
    exact contents
  · rw [list]
    exact warmth

theorem alikeSpends (amount) : Matches (Alike T) (consumeGas amount : Exec InMemoryState InMemoryAccessList Bool) := by
  rintro m _ ⟨state,list,rfl,contents,warmth⟩
  unfold MatchesAt consumeGas
  split
  · exact ⟨rfl,state,list,rfl,contents,warmth⟩
  · exact ⟨rfl,state,list,rfl,contents,warmth⟩

theorem alikeReports : Reports fun β (c : Exec InMemoryState InMemoryAccessList β) => Matches (Alike T) c where
  lifts := matchesLift
  binds := matchesBind
  reads unaware := matchesRead fun _ _ => alikeSees unaware
  spends := alikeSpends
  pushes _ := alikeCalm (fun _ _ _ => rfl) (fun _ => rfl) fun _ => rfl
  jumps _ := alikeCalm (fun _ _ _ => rfl) (fun _ => rfl) fun _ => rfl
  stops := alikeCalm (fun _ _ _ => rfl) (fun _ => rfl) fun _ => rfl
  recalls _ := alikeCalm (fun _ _ _ => rfl) (fun _ => rfl) fun _ => rfl
  logs _ _ := alikeCalm (fun _ _ _ => rfl) (fun _ => rfl) fun _ => rfl
  returns _ := alikeCalm (fun _ _ _ => rfl) (fun _ => rfl) fun _ => rfl
  reverts _ := alikeCalm (fun _ _ _ => rfl) (fun _ => rfl) fun _ => rfl

theorem alikeLookup {f} (same : ∀ state state', Unchanged state state' → f state = f state') :
    Matches (Alike T) (onState (read f) : Exec InMemoryState InMemoryAccessList β) := by
  rintro m _ ⟨state,list,rfl,contents,warmth⟩
  refine ⟨?_,state,list,rfl,contents,warmth⟩
  change Except.ok (f m.state) = Except.ok (f state)
  rw [same m.state state contents]

theorem unchangedSet {state state'} (contents : Unchanged state state') (address) (key)
    (value) : Unchanged (state.setStorage address key value) (state'.setStorage address key value) where
  storage other key' := by
    rw [lookupSet address key value (other,key'),lookupSet address key value (other,key'),contents.storage]
  balance := contents.balance
  nonce := contents.nonce
  code := contents.code

theorem alikeStore (address) (key) (value) :
    Matches (Alike T) (onState (InMemoryState.port.setStorage address key value) :
      Exec InMemoryState InMemoryAccessList Unit) := by
  rintro m _ ⟨state,list,rfl,contents,warmth⟩
  exact ⟨rfl,_,list,rfl,unchangedSet contents address key value,warmth⟩

theorem alikeTouch {touch : InMemoryAccessList → AccessStatus × InMemoryAccessList} {t} {marks : Touch → Prop}
    (inside : T t) (status : ∀ list, (touch list).1 = if list.Warm t then .warm else .cold)
    (marked : ∀ list t, (touch list).2.Warm t ↔ list.Warm t ∨ marks t) :
    Matches (Alike T) (onAccessList touch : Exec InMemoryState InMemoryAccessList AccessStatus) := by
  rintro m _ ⟨state,list,rfl,contents,warmth⟩
  refine ⟨?_,state,_,rfl,contents,fun other mem => ?_⟩
  · change Except.ok (touch m.accessList).1 = Except.ok (touch list).1
    rw [status,status]
    exact congrArg Except.ok (if_congr (warmth t inside) rfl rfl)
  · change (touch m.accessList).2.Warm other ↔ (touch list).2.Warm other
    rw [marked,marked,warmth other mem]

theorem alikeAccount {address} (inside : T (.account address)) :
    Matches (Alike T) (onAccessList (touchAccount address) : Exec InMemoryState InMemoryAccessList AccessStatus) :=
  alikeTouch inside (fun _ => touchAccountStatus address) fun _ => touchAccountWarm address

theorem alikeSlot {address key} (inside : T (.slot address key)) :
    Matches (Alike T) (onAccessList (touchStorage address key) : Exec InMemoryState InMemoryAccessList AccessStatus) :=
  alikeTouch inside (fun _ => touchStorageStatus address key) fun _ => touchStorageWarm address key

theorem balanceMatches {m n} (alike : Alike T m n)
    (inside : ∀ value rest, m.stack.data = value::rest → T (.account (addressFromU256 value))) :
    MatchesAt (Alike T) (execBalance (inMemory checks keccak)) m n := by
  have still := (alikeReports (T := T)).toCalm.still
  refine matchesBindAt (stillPop still m n alike) fun value m' n' popped alike' => ?_
  obtain ⟨rest,data,_⟩ := popTop popped
  exact matchesBind (alikeAccount (inside value rest data)) (fun _ => matchesBind (stillChargeGas still _) fun _ =>
    matchesBind (alikeLookup fun _ _ contents => (contents.balance _).symm) fun _ => stillPush still _) m' n' alike'

theorem slotMatches {m n} (alike : Alike T m n) {key} (inside : T (.slot m.context.address key))
    {amount : AccessStatus → Nat} {next : Address → Exec InMemoryState InMemoryAccessList Unit}
    (rest : ∀ address, Matches (Alike T) (next address)) :
    MatchesAt (Alike T) (read (fun m => m.context.address) >>= fun address =>
      onAccessList (touchStorage address key) >>= fun status => chargeGas (amount status) >>= fun _ => next address) m n := by
  have still := (alikeReports (T := T)).toCalm.still
  have address : Matches (Alike T) (read (fun m => m.context.address) : Exec InMemoryState InMemoryAccessList Address) :=
    still.reads fun _ _ _ => rfl
  refine matchesBindAt (address m n alike) fun a m' n' found alike' => ?_
  cases found
  exact matchesBind (alikeSlot inside) (fun _ => matchesBind (stillChargeGas still _) fun _ => rest _) m n' alike'

theorem sLoadMatches {m n} (alike : Alike T m n)
    (inside : ∀ key rest, m.stack.data = key::rest → T (.slot m.context.address key)) :
    MatchesAt (Alike T) (execSLoad (inMemory checks keccak)) m n := by
  have still := (alikeReports (T := T)).toCalm.still
  refine matchesBindAt (stillPop still m n alike) fun key m' n' popped alike' => ?_
  obtain ⟨rest,data,_,context⟩ := popTop popped
  exact slotMatches alike' (context ▸ inside key rest data) fun _ =>
    matchesBind (alikeLookup fun _ _ contents => (contents.storage _ _).symm) fun _ => stillPush still _

theorem sStoreMatches {m n} (alike : Alike T m n)
    (inside : m.context.isStatic = false → ∀ key value rest, m.stack.data = key::value::rest →
      T (.slot m.context.address key)) : MatchesAt (Alike T) (execSStore (inMemory checks keccak)) m n := by
  have still := (alikeReports (T := T)).toCalm.still
  have static : Matches (Alike T) (read (fun m => m.context.isStatic) : Exec InMemoryState InMemoryAccessList Bool) :=
    still.reads fun _ _ _ => rfl
  refine matchesBindAt (static m n alike) fun isStatic m₁ n₁ found alike₁ => ?_
  cases found
  refine matchesBindAt (stillEnsure still _ _ m n₁ alike₁) fun _ m₂ n₂ allowed alike₂ => ?_
  unfold ensure at allowed
  split at allowed
  · rename_i free
    cases allowed
    refine matchesBindAt (stillPop still m n₂ alike₂) fun key m₃ n₃ popped alike₃ => ?_
    refine matchesBindAt (stillPop still m₃ n₃ alike₃) fun value m₄ n₄ popped' alike₄ => ?_
    obtain ⟨rest,data,left,context⟩ := popTop popped
    obtain ⟨rest',data',_,context'⟩ := popTop popped'
    have held : m.stack.data = key::value::rest' := by rw [data,← left,data']
    have inside' : T (.slot m₄.context.address key) := by
      rw [context',context]
      exact inside free key value rest' held
    exact slotMatches alike₄ inside' fun _ => matchesBind (alikeStore _ _ _) fun _ =>
      alikeCalm (fun _ _ _ => rfl) (fun _ => rfl) fun _ => rfl
  · cases allowed

theorem alikeNext {m n} (alike : Alike T m n) : Alike T {m with pc := m.pc + 1} {n with pc := n.pc + 1} :=
  (alikeReports.jumps (fun pc => pc + 1) m n alike).2

theorem turnFree {host} {m : Machine} (inside : ¬m.code.1.length ≤ m.pc)
    {opcode} (code : m.opcode = opcode) (free : opcodeGas opcode = 0) :
    turn host m = dispatch host opcode {m with pc := m.pc + 1} := by
  rw [turnInside host inside,code,free,bindRun,chargePaid (Nat.zero_le _)]
  rfl

theorem freeMatches {host m n} (alike : Alike T m n)
    (inside : ¬m.code.1.length ≤ m.pc) {opcode} (code : m.opcode = opcode) (free : opcodeGas opcode = 0)
    (runs : MatchesAt (Alike T) (dispatch host opcode) {m with pc := m.pc + 1} {n with pc := n.pc + 1}) :
    MatchesAt (Alike T) (turn host) m n := by
  have code' := (alikeSees (fun _ _ _ => rfl) alike).symm.trans code
  have inside' : ¬n.code.1.length ≤ n.pc := by
    rwa [← alikeSees (f := fun m => m.code.1.length ≤ m.pc) (fun _ _ _ => rfl) alike]
  unfold MatchesAt
  rw [turnFree inside code free,turnFree inside' code' free]
  exact runs

theorem turnMatches {m n} (alike : Alike T m n) (inside : ∀ t ∈ touched m, T t) :
    MatchesAt (Alike T) (turn (inMemory checks keccak)) m n := by
  have reports := alikeReports (T := T)
  have ends : (m.code.1.length ≤ m.pc) = (n.code.1.length ≤ n.pc) :=
    alikeSees (f := fun m => m.code.1.length ≤ m.pc) (fun _ _ _ => rfl) alike
  by_cases past : m.code.1.length ≤ m.pc
  · unfold MatchesAt
    rw [turnPast _ past,turnPast _ (ends ▸ past)]
    exact reports.stops m n alike
  · cases port : usesPort m.opcode with
    | false =>
      have opcode : m.opcode = n.opcode := alikeSees (fun _ _ _ => rfl) alike
      unfold MatchesAt
      rw [turnInside _ past,turnInside _ (ends ▸ past),← opcode]
      exact reports.binds (stillChargeGas reports.toCalm.still _)
        (fun _ => reports.binds (reports.jumps fun pc => pc + 1) fun _ => calmDispatchMemory reports _ port) m n alike
    | true =>
      unfold touched at inside
      cases code : m.opcode with
      | balance =>
        refine freeMatches alike past code rfl (balanceMatches (alikeNext alike) fun value rest data => inside _ ?_)
        simp [code,show m.stack.data = value::rest from data]
      | sLoad =>
        refine freeMatches alike past code rfl (sLoadMatches (alikeNext alike) fun key rest data => inside _ ?_)
        simp [code,show m.stack.data = key::rest from data]
      | sStore =>
        refine freeMatches alike past code rfl
          (sStoreMatches (alikeNext alike) fun static key value rest data => inside _ ?_)
        simp [code,show m.stack.data = key::value::rest from data,show m.context.isStatic = false from static]
      | _ => simp [code,usesPort] at port

def touches (host : Host InMemoryState InMemoryAccessList) (m : Machine) : List Touch :=
  noted (fun m => m.stopped) (turn host) touched m.turnsLeft m

theorem runMatches {m n} (alike : Alike T m n) (inside : ∀ t ∈ touches (inMemory checks keccak) m, T t) :
    (run (inMemory checks keccak) m).1 = (run (inMemory checks keccak) n).1 := by
  have left : m.turnsLeft = n.turnsLeft := alikeSees (fun _ _ _ => rfl) alike
  obtain ⟨⟨result,last⟩,ended,same⟩ := runLoop (inMemory checks keccak) m
  obtain ⟨out,ended',same'⟩ := runLoop (inMemory checks keccak) n
  obtain ⟨⟨result',last'⟩,ended'',equal,related⟩ :=
    loopMatches (S := Alike T) (T := T) (fun _ _ => alikeSees fun _ _ _ => rfl) (fun _ _ => turnMatches) alike inside ended
  rw [← left,ended''] at ended'
  cases ended'
  subst equal
  rw [same,same']
  cases result with
  | ok done => exact alikeSees (f := finish checks) (fun _ _ _ => rfl) related
  | error e => rfl

end Interpreter

inductive Request where
  | handleExecuteTransaction (wait : LockWait) (elapsedUs : U64) (senderId : UInt8)
      (payload : ExecuteTransactionRequestPayload)
  | handleExecuteHtlc (senderId : UInt8)
  | execute (context : ExecutionContext) (code : Buffer)
  | executeTransaction (wait : LockWait) (tx : SignedTransaction) (block : BlockContext)
  | estimateGas (context : ExecutionContext) (code : Buffer)
  | call (context : ExecutionContext) (code : Buffer)

namespace Service
open InMemoryAccessList

section
variable (checks : Bool) (keccak : Bytes → Hash)

def serve (service : Service) : Request → Service
  | .handleExecuteTransaction wait elapsedUs senderId payload =>
    (handleExecuteTransaction checks keccak wait elapsedUs senderId payload service).2
  | .handleExecuteHtlc senderId => (handleExecuteHtlc checks senderId service).2
  | .execute context code => (executeCode checks keccak context code service).2
  | .executeTransaction wait tx block => (executeTransactionInternal checks keccak wait tx block service).2
  | .estimateGas context code => (estimateGas checks keccak context code service).2
  | .call context code => (call checks keccak context code service).2

def served (service : Service) (history : List Request) : Service := StepRun.run (serve checks keccak) service history

def transactionTouches (tx : SignedTransaction) (block : BlockContext) (service : Service) : List Touch :=
  Interpreter.touches (inMemory checks keccak)
    (Interpreter.new (transactionContext keccak tx block) (transactionCode tx service) service.state
      (preWarm (transactionContext keccak tx block) service.accessList))

end

variable {checks : Bool} {keccak : Bytes → Hash}

def SameConfig (service service' : Service) : Prop := service'.executionTimeoutMs = service.executionTimeoutMs

instance sameConfigPreorder : IsPreorder Service SameConfig where
  refl _ := rfl
  trans _ _ _ first second := second.trans first

theorem onStatsConfig {ε β} (c : Command ServiceStats ε β) : Follows SameConfig (onStats c) := fun _ => rfl

theorem executeCodeConfig (context) (code) :
    Follows SameConfig (executeCode checks keccak context code) := fun _ => rfl

theorem transactionConfig (wait) (tx) (block) :
    Follows SameConfig (executeTransactionInternal checks keccak wait tx block) := by
  intro service
  cases wait <;> rfl

theorem rejectConfig (e : Fault IpcError) {β} :
    Follows SameConfig (reject checks >>= fun _ => raise e : Command Service (Fault IpcError) β) :=
  followsBind (onStatsConfig _) fun _ => followsRaise _

theorem requestConfig (wait) (elapsedUs) (senderId) (payload) :
    Follows SameConfig (handleExecuteTransaction checks keccak wait elapsedUs senderId payload) := by
  unfold handleExecuteTransaction
  split
  · refine followsBind (fun service => ?_) fun _ => followsBind (onStatsConfig _) fun _ => followsPure _
    rw [attemptState]
    exact transactionConfig _ _ _ service
  · exact rejectConfig _

theorem htlcConfig (senderId) : Follows SameConfig (handleExecuteHtlc checks senderId) := by
  unfold handleExecuteHtlc
  split
  · exact followsPure _
  · exact rejectConfig _

theorem callConfig (context) (code) : Follows SameConfig (call checks keccak context code) := by
  refine followsBind (executeCodeConfig _ code) fun result => ?_
  split
  · exact followsPure _
  · exact followsRaise _

theorem serveConfig (service) (request) : SameConfig service (serve checks keccak service request) := by
  cases request with
  | handleExecuteTransaction wait elapsedUs senderId payload => exact requestConfig wait elapsedUs senderId payload service
  | handleExecuteHtlc senderId => exact htlcConfig senderId service
  | execute context code => exact executeCodeConfig context code service
  | executeTransaction wait tx block => exact transactionConfig wait tx block service
  | estimateGas context code => exact followsBind (executeCodeConfig _ code) (fun _ => followsLift _) service
  | call context code => exact callConfig context code service

theorem servedConfig (service) (history) :
    (served checks keccak service history).executionTimeoutMs = service.executionTimeoutMs :=
  StepRun.runInvariant (I := fun last : Service => last.executionTimeoutMs = service.executionTimeoutMs)
    (fun last request kept => (serveConfig last request).trans kept) rfl history

theorem transactionMatches {first second} (config : first.executionTimeoutMs = second.executionTimeoutMs)
    (contents : Unchanged first.state second.state) (wait) (tx) (block)
    (warmth : ∀ t ∈ transactionTouches checks keccak tx block first,
      ((preWarm (transactionContext keccak tx block) first.accessList).Warm t ↔
        (preWarm (transactionContext keccak tx block) second.accessList).Warm t)) :
    (executeTransactionInternal checks keccak wait tx block first).1 =
      (executeTransactionInternal checks keccak wait tx block second).1 := by
  cases wait with
  | granted =>
    have code : transactionCode tx second = transactionCode tx first := by
      unfold transactionCode
      split
      · rfl
      · exact contents.code _
    have same : (executeCode checks keccak (transactionContext keccak tx block) (transactionCode tx first) first).1 =
        (executeCode checks keccak (transactionContext keccak tx block) (transactionCode tx second) second).1 := by
      rw [code]
      exact Interpreter.runMatches ⟨_,_,rfl,contents,warmth⟩ fun t mem => mem
    exact congrArg (fun out => out.mapError ofVm) same
  | firstTimedOut | secondTimedOut =>
    exact congrArg (fun ms => (.error (.error (.timeout ms ms)) : Except (Fault ExecuteError) ExecutionResult)) config

variable (checks keccak)

theorem historyIndependentWhen (start start' : Service) (config : start.executionTimeoutMs = start'.executionTimeoutMs)
    (history history' : List Request)
    (contents : Unchanged (served checks keccak start history).state (served checks keccak start' history').state)
    (wait : LockWait) (tx : SignedTransaction) (block : BlockContext)
    (warmth : ∀ t ∈ transactionTouches checks keccak tx block (served checks keccak start history),
      ((preWarm (transactionContext keccak tx block) (served checks keccak start history).accessList).Warm t ↔
        (preWarm (transactionContext keccak tx block) (served checks keccak start' history').accessList).Warm t)) :
    (executeTransactionInternal checks keccak wait tx block (served checks keccak start history)).1 =
      (executeTransactionInternal checks keccak wait tx block (served checks keccak start' history')).1 :=
  transactionMatches (by rw [servedConfig,servedConfig,config]) contents wait tx block warmth

end Service

def readingCode : Buffer := ⟨[0x5F,0x54],by decide⟩

def readingService : Service := .new ⟨∅,Finmap.singleton 2 readingCode,∅⟩ .new

def readingTransaction : SignedTransaction := ⟨1,some 2,0,0,0,30000,emptyBuffer⟩

def readingContext : ExecutionContext := Service.transactionContext residue readingTransaction ⟨0,0,0,0,0,0⟩

theorem oneCallOrTwo : (Service.executeTransactionInternal true residue .granted readingTransaction ⟨0,0,0,0,0,0⟩
      (Service.served true residue readingService [.call readingContext readingCode])).1 =
    (Service.executeTransactionInternal true residue .granted readingTransaction ⟨0,0,0,0,0,0⟩
      (Service.served true residue readingService
        [.call readingContext readingCode,.call readingContext readingCode])).1 := by
  refine Service.historyIndependentWhen true residue readingService readingService rfl _ _ ?_ .granted readingTransaction
    ⟨0,0,0,0,0,0⟩ (by decide +kernel)
  exact unchangedRefl _

def gasAfter (history : List Request) : Except (Fault ExecuteError) Nat :=
  (Service.executeTransactionInternal true residue .granted readingTransaction ⟨0,0,0,0,0,0⟩
    (Service.served true residue readingService history)).1.map fun result => result.gasUsed

theorem callMakesCheaper : (Service.served true residue readingService [.call readingContext readingCode]).state =
        (Service.served true residue readingService []).state ∧
      gasAfter [] = .ok 2102 ∧ gasAfter [.call readingContext readingCode] = .ok 102 :=
  ⟨rfl,by decide +kernel,by decide +kernel⟩

end QuantumChain.Evm
