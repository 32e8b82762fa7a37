import QuantumChain.SecondaryIndex
import QuantumChain.FixedWidth
import QuantumChain.StepRun

/-! The header chain of the light client.
Proof of work is not part of the check, as in the source. -/
namespace QuantumChain.LightClient
open BitVec KeyedMap
open StepRun

structure BlockHeader where
  hash : Hash
  parentHash : Hash
  height : U64
  timestamp : U64
  merkleRoot : Hash
  difficulty : U64
  nonce : U64
  deriving DecidableEq

inductive LightClientError where
  | insufficientNodes (got required : Nat)
  | consensusFailed (text : String)
  | checkpointMismatch (height : U64)
  | invalidHeaderChain (text : String)
  deriving DecidableEq, Repr

structure Checkpoint where
  height : U64
  hash : Hash
  deriving DecidableEq

structure HeaderChain where
  headers : KeyedMap Hash BlockHeader
  byHeight : KeyedMap U64 Hash
  tip : Hash
  height : U64
  checkpoints : List Checkpoint
  deriving DecidableEq

def debugHash (hash : Hash) : String :=
  "[" ++ ", ".intercalate ((wordBytes hash).map fun byte => toString byte.toNat) ++ "]"

def showHeight (height : U64) : String := toString height.toNat

namespace HeaderChain

def new (genesis : BlockHeader) : HeaderChain :=
  ⟨(∅ : KeyedMap Hash BlockHeader).insert genesis.hash genesis,(∅ : KeyedMap U64 Hash).insert 0 genesis.hash,
    genesis.hash,0,[]⟩

variable (c : HeaderChain) (header : BlockHeader)

def check : Except LightClientError Unit :=
  if header.parentHash ≠ c.tip then
    .error (.invalidHeaderChain
      ("Parent hash mismatch: expected " ++ debugHash c.tip ++ ", got " ++ debugHash header.parentHash))
  else if header.height ≠ c.height + 1 then
    .error (.invalidHeaderChain ("Height gap: expected " ++ showHeight (c.height + 1) ++ ", got " ++
      showHeight header.height))
  else
    match c.headers.lookup c.tip with
    | some tipHeader =>
      if header.timestamp ≤ tipHeader.timestamp then .error (.invalidHeaderChain "Timestamp must increase") else .ok ()
    | none => .ok ()

def record : HeaderChain :=
  {c with
    headers := c.headers.insert header.hash header
    byHeight := c.byHeight.insert header.height header.hash
    tip := header.hash
    height := header.height}

def append : Except LightClientError Unit × HeaderChain :=
  match c.check header with
  | .ok _ => (.ok (),c.record header)
  | .error e => (.error e,c)

def getHeaderByHeight (height : U64) : Option BlockHeader :=
  (c.byHeight.lookup height).bind c.headers.lookup

def verifyCheckpoints : Except LightClientError Unit :=
  match c.checkpoints.find? (fun cp => (c.byHeight.lookup cp.height).any (· ≠ cp.hash)) with
  | some cp => .error (.checkpointMismatch cp.height)
  | none => .ok ()

end HeaderChain

def validateHeaderBatch : List BlockHeader → Except LightClientError Unit
  | prev::curr::rest =>
    if curr.parentHash ≠ prev.hash then
      .error (.invalidHeaderChain ("Broken chain at height " ++ showHeight curr.height ++ ": expected parent " ++
        debugHash prev.hash ++ ", got " ++ debugHash curr.parentHash))
    else if curr.height ≠ prev.height + 1 then
      .error (.invalidHeaderChain ("Height gap at " ++ showHeight curr.height ++ ": expected " ++
        showHeight (prev.height + 1) ++ ", got " ++ showHeight curr.height))
    else if curr.timestamp ≤ prev.timestamp then
      .error (.invalidHeaderChain ("Timestamp not increasing at height " ++ showHeight curr.height))
    else validateHeaderBatch (curr::rest)
  | _ => .ok ()

def appendEach (count : U64) (c : HeaderChain) : List BlockHeader → Except LightClientError U64 × HeaderChain
  | [] => (.ok count,c)
  | header::rest => andThen (c.append header) fun _ c => appendEach (count + 1) c rest

variable (c : HeaderChain)

def appendHeadersBatch (headers : List BlockHeader) : Except LightClientError U64 × HeaderChain :=
  match validateHeaderBatch headers with
  | .ok _ => appendEach 0 c headers
  | .error e => (.error e,c)

def Intact : Prop := ∀ h, h ≤ c.height → ∃ header, c.getHeaderByHeight h = some header ∧ header.height = h ∧
  (h ≠ 0 → ∃ parent, c.getHeaderByHeight (h - 1) = some parent ∧ header.parentHash = parent.hash ∧
    parent.timestamp < header.timestamp)

def Unclaimed (header : BlockHeader) : Prop :=
  c.check header = .ok () → c.height ≠ BitVec.allOnes 64 → ∀ h, h ≤ c.height → c.byHeight.lookup h ≠ some header.hash

structure Linked (c : HeaderChain) : Prop where
  keyed : ∀ k header, c.headers.lookup k = some header → header.hash = k
  tipped : c.byHeight.lookup c.height = some c.tip

section Step
variable {c : HeaderChain} {header : BlockHeader}

theorem checkOk (ok : c.check header = .ok ()) : header.parentHash = c.tip ∧ header.height = c.height + 1 ∧
    ∀ tipHeader, c.headers.lookup c.tip = some tipHeader → tipHeader.timestamp < header.timestamp := by
  unfold HeaderChain.check at ok
  split at ok
  · cases ok
  · rename_i parent
    split at ok
    · cases ok
    · rename_i height
      refine ⟨not_not.mp parent,not_not.mp height,fun tipHeader found => ?_⟩
      rw [found] at ok
      dsimp only at ok
      split at ok
      · cases ok
      · rename_i later
        exact not_le.mp later

theorem recordedByHeight (h) : (c.record header).getHeaderByHeight h =
    if h = header.height ∨ c.byHeight.lookup h = some header.hash then some header else c.getHeaderByHeight h := by
  unfold HeaderChain.getHeaderByHeight HeaderChain.record
  dsimp only
  rw [lookupInsert]
  by_cases new : h = header.height
  · rw [if_pos new,if_pos (.inl new),Option.bind_some,lookupInsert,if_pos rfl]
  · rw [if_neg new]
    cases found : c.byHeight.lookup h with
    | none =>
      rw [if_neg]
      · rfl
      · rintro (same | claimed)
        · exact new same
        · cases claimed
    | some k =>
      rw [Option.bind_some,lookupInsert]
      by_cases claimed : k = header.hash
      · rw [if_pos claimed,if_pos (.inr (congrArg some claimed))]
      · rw [if_neg claimed,if_neg]
        · rfl
        · rintro (same | again)
          · exact new same
          · exact claimed (Option.some.inj again)

theorem recordLinked (linked : Linked c) : Linked (c.record header) := by
  constructor
  · exact SecondaryIndex.keyedInsert linked.keyed rfl
  · unfold HeaderChain.record
    rw [lookupInsert,if_pos rfl]

theorem heightZero {h : U64} (low : h ≤ 0) : h = 0 := eq_of_toNat_eq (Nat.le_zero.mp low)

theorem nextHeight {height : U64} (room : height ≠ BitVec.allOnes 64) : (height + 1).toNat = height.toNat + 1 := by
  have below : height.toNat ≠ 2 ^ 64 - 1 := fun full => room (eq_of_toNat_eq (by rw [full,toNat_allOnes]))
  have bound := height.isLt
  exact toNatNext (by omega)

theorem recordedBelow (ok : c.check header = .ok ()) (room : c.height ≠ BitVec.allOnes 64)
    (fresh : ∀ h, h ≤ c.height → c.byHeight.lookup h ≠ some header.hash) {h} (below : h ≤ c.height) :
    (c.record header).getHeaderByHeight h = c.getHeaderByHeight h := by
  rw [recordedByHeight,if_neg]
  rintro (same | claimed)
  · have next := nextHeight room
    rw [same,(checkOk ok).2.1,le_def] at below
    omega
  · exact fresh h below claimed

theorem tipFound (linked : Linked c) (intact : Intact c) : ∃ tipHeader, c.headers.lookup c.tip = some tipHeader ∧
    c.getHeaderByHeight c.height = some tipHeader ∧ tipHeader.hash = c.tip := by
  obtain ⟨tipHeader,found,_⟩ := intact c.height le_rfl
  have stored : c.headers.lookup c.tip = some tipHeader := by
    unfold HeaderChain.getHeaderByHeight at found
    rw [linked.tipped] at found
    exact found
  exact ⟨tipHeader,stored,found,linked.keyed _ _ stored⟩

theorem recordedNewest : (c.record header).getHeaderByHeight header.height = some header := by
  rw [recordedByHeight,if_pos (.inl rfl)]

theorem recordInside (intact : Intact c) (ok : c.check header = .ok ()) (room : c.height ≠ BitVec.allOnes 64)
    (fresh : ∀ h, h ≤ c.height → c.byHeight.lookup h ≠ some header.hash) {h} (inside : h ≤ c.height) :
    ∃ stored, (c.record header).getHeaderByHeight h = some stored ∧ stored.height = h ∧
      (h ≠ 0 → ∃ parent, (c.record header).getHeaderByHeight (h - 1) = some parent ∧ stored.parentHash = parent.hash ∧
        parent.timestamp < stored.timestamp) := by
  obtain ⟨stored,found,level,links⟩ := intact h inside
  refine ⟨stored,(recordedBelow ok room fresh inside).trans found,level,fun positive => ?_⟩
  obtain ⟨prior,foundPrior,rest⟩ := links positive
  have lower : h - 1 ≤ c.height := by
    have nonzero : h.toNat ≠ 0 := fun zero => positive (eq_of_toNat_eq zero)
    have bound := h.isLt
    have one : (1 : U64).toNat = 1 := rfl
    rw [le_def] at *
    rw [toNat_sub,one]
    omega
  exact ⟨prior,(recordedBelow ok room fresh lower).trans foundPrior,rest⟩

theorem recordIntact (linked : Linked c) (intact : Intact c) (ok : c.check header = .ok ())
    (unclaimed : Unclaimed c header) : Intact (c.record header) := by
  obtain ⟨parent,height,later⟩ := checkOk ok
  intro h below
  change h ≤ header.height at below
  by_cases full : c.height = BitVec.allOnes 64
  · -- the height has wrapped, and the new header is all there is to say
    have zero : header.height = 0 := by
      rw [height,full]
      decide
    rw [zero] at below
    have root := heightZero below
    refine ⟨header,?_,zero.trans root.symm,fun positive => absurd root positive⟩
    rw [root,← zero]
    exact recordedNewest
  · have fresh := unclaimed ok full
    have next := nextHeight full
    by_cases top : h = header.height
    · obtain ⟨tipHeader,stored,atTip,named⟩ := tipFound linked intact
      have before : h - 1 = c.height := by
        rw [top,height]
        exact add_sub_cancel c.height 1
      refine ⟨header,top ▸ recordedNewest,top.symm,fun _ => ⟨tipHeader,?_,parent.trans named.symm,later tipHeader stored⟩⟩
      rw [before,recordedBelow ok full fresh le_rfl]
      exact atTip
    · have apart : h.toNat ≠ header.height.toNat := fun same => top (eq_of_toNat_eq same)
      refine recordInside intact ok full fresh ?_
      rw [le_def,height] at *
      omega

theorem intactUnclaimed (intact : Intact (c.record header)) : Unclaimed c header := by
  intro ok room h below claimed
  have height := (checkOk ok).2.1
  have next := nextHeight room
  have reach : h ≤ (c.record header).height := by
    change h ≤ header.height
    rw [height]
    rw [le_def] at *
    omega
  obtain ⟨stored,found,level,_⟩ := intact h reach
  rw [recordedByHeight,if_pos (.inr claimed)] at found
  cases found
  rw [height] at level
  rw [← level,le_def] at below
  omega

end Step

def extend (c : HeaderChain) (header : BlockHeader) : HeaderChain := (c.append header).2

theorem extendCases (c) (header) : (c.check header = .ok () ∧ extend c header = c.record header) ∨
      (∃ e, c.check header = .error e ∧ extend c header = c) := by
  unfold extend HeaderChain.append
  cases result : c.check header with
  | ok u => exact .inl ⟨rfl,rfl⟩
  | error e => exact .inr ⟨e,rfl,rfl⟩

theorem extendKeeps (c) (header) (inv : Linked c ∧ Intact c) (unclaimed : Unclaimed c header) :
    Linked (extend c header) ∧ Intact (extend c header) := by
  obtain ⟨ok,next⟩ | ⟨_,_,same⟩ := extendCases c header
  · rw [next]
    exact ⟨recordLinked inv.1,recordIntact inv.1 inv.2 ok unclaimed⟩
  · rw [same]
    exact inv

theorem extendNeeds (c) (header) (intact : Intact (extend c header)) : Unclaimed c header := by
  obtain ⟨_,next⟩ | ⟨e,refused,_⟩ := extendCases c header
  · rw [next] at intact
    exact intactUnclaimed intact
  · intro ok
    rw [refused] at ok
    cases ok

theorem newLinked (genesis) : Linked (HeaderChain.new genesis) := by
  constructor
  · exact SecondaryIndex.keyedInsert (fun _ _ none => by cases none) rfl
  · unfold HeaderChain.new
    rw [lookupInsert,if_pos rfl]

theorem newIntact {genesis} (root : genesis.height = 0) : Intact (HeaderChain.new genesis) := by
  intro h below
  have zero := heightZero below
  refine ⟨genesis,?_,root.trans zero.symm,fun positive => absurd zero positive⟩
  unfold HeaderChain.getHeaderByHeight HeaderChain.new
  rw [zero,lookupInsert,if_pos rfl,Option.bind_some,lookupInsert,if_pos rfl]

inductive ChainCall where
  | append (header : BlockHeader)
  | appendHeadersBatch (headers : List BlockHeader)

def serve (c : HeaderChain) : ChainCall → HeaderChain
  | .append header => (c.append header).2
  | .appendHeadersBatch headers => (appendHeadersBatch c headers).2

def attempted (c : HeaderChain) : List BlockHeader → List BlockHeader
  | [] => []
  | header::rest =>
    match c.check header with
    | .ok _ => header::attempted (c.record header) rest
    | .error _ => [header]

def attempts (c : HeaderChain) : ChainCall → List BlockHeader
  | .append header => [header]
  | .appendHeadersBatch headers =>
    match validateHeaderBatch headers with
    | .ok _ => attempted c headers
    | .error _ => []

def allAttempts (c : HeaderChain) : List ChainCall → List BlockHeader
  | [] => []
  | call::rest => attempts c call ++ allAttempts (serve c call) rest

theorem eachAttempted (count) (c) (headers) : (appendEach count c headers).2 = run extend c (attempted c headers) := by
  induction headers generalizing count c with
  | nil => rfl
  | cons header rest ih =>
    unfold appendEach attempted
    cases result : c.check header with
    | ok u =>
      have next : c.append header = (.ok (),c.record header) := by rw [HeaderChain.append,result]
      rw [next,andThenOk,ih]
      dsimp only
      rw [runCons,extend,next]
    | error e =>
      have same : c.append header = (.error e,c) := by rw [HeaderChain.append,result]
      rw [same,andThenError]
      dsimp only
      rw [runCons,runNil,extend,same]

theorem serveAttempts (c) (call) : serve c call = run extend c (attempts c call) := by
  cases call with
  | append header => rfl
  | appendHeadersBatch headers =>
    dsimp only [serve,attempts,appendHeadersBatch]
    cases validateHeaderBatch headers with
    | ok u => exact eachAttempted 0 c headers
    | error e => rfl

theorem runAttempts (c) (calls) : run serve c calls = run extend c (allAttempts c calls) := by
  induction calls generalizing c with
  | nil => rfl
  | cons call rest ih =>
    rw [runCons,allAttempts,runAppend,ih,← serveAttempts]

theorem headersIntactIff (genesis : BlockHeader) (root : genesis.height = 0) (calls : List ChainCall) :
    (Along extend (fun c header => Intact (extend c header)) (HeaderChain.new genesis)
        (allAttempts (HeaderChain.new genesis) calls) ↔
      Along extend Unclaimed (HeaderChain.new genesis) (allAttempts (HeaderChain.new genesis) calls)) ∧
    (Along extend Unclaimed (HeaderChain.new genesis) (allAttempts (HeaderChain.new genesis) calls) →
      Intact (run serve (HeaderChain.new genesis) calls)) := by
  have start : Linked (HeaderChain.new genesis) ∧ Intact (HeaderChain.new genesis) := ⟨newLinked genesis,newIntact root⟩
  constructor
  · exact alongExact extendKeeps (fun _ inv => inv.2) (fun c header _ => extendNeeds c header) start
  · intro meets
    rw [runAttempts]
    exact (runKeeps extendKeeps start meets).2

def plainHeader (hash parentHash : Hash) (height timestamp : U64) : BlockHeader :=
  ⟨hash,parentHash,height,timestamp,0,0,0⟩

theorem twoHeadersIntact : (plainHeader 7 0 0 1).height = 0 ∧
    Intact (run serve (HeaderChain.new (plainHeader 7 0 0 1)) [.append (plainHeader 8 7 1 2)]) := by
  refine ⟨rfl,(headersIntactIff _ rfl _).2 ⟨fun _ _ h below => ?_,trivial⟩⟩
  have zero : h = 0 := heightZero below
  rw [zero]
  decide +kernel

theorem genesisReplaced : (plainHeader 7 0 0 1).height = 0 ∧
    (((HeaderChain.new (plainHeader 7 0 0 1)).append (plainHeader 7 7 1 2)).1 matches .ok _) ∧
    ((run serve (HeaderChain.new (plainHeader 7 0 0 1)) [.append (plainHeader 7 7 1 2)]).getHeaderByHeight 0).map
      BlockHeader.height = some 1 ∧
    ¬ Intact (run serve (HeaderChain.new (plainHeader 7 0 0 1)) [.append (plainHeader 7 7 1 2)]) := by
  have wrong : (run serve (HeaderChain.new (plainHeader 7 0 0 1)) [.append (plainHeader 7 7 1 2)]).getHeaderByHeight 0 =
      some (plainHeader 7 7 1 2) := by decide +kernel
  refine ⟨rfl,by decide +kernel,by rw [wrong]; rfl,fun intact => ?_⟩
  obtain ⟨stored,found,level,_⟩ := intact 0 (Nat.zero_le _)
  rw [wrong] at found
  cases found
  exact absurd level (by decide)

end QuantumChain.LightClient
