import QuantumChain.KeyedMap
import QuantumChain.StepRun
import QuantumChain.LruCache
import QuantumChain.IndexingProofs

/-! The transaction-indexing handler over any lawful tree cache. Signatures are checked against
an arbitrary HMAC; no result assumes that the hash is collision free. -/
namespace QuantumChain.Indexing
open List
open StepRun MerkleTree

structure TransactionLocation where
  blockHeight : U64
  blockHash : Hash
  txIndex : Nat
  merkleRoot : Hash
  deriving DecidableEq, Repr

structure IndexConfig where
  maxCachedTrees : Nat
  deriving DecidableEq, Repr

structure IndexingStats where
  totalIndexedTxs : U64
  cachedTrees : Nat
  proofsGenerated : U64
  deriving DecidableEq, Repr

structure TransactionIndex (cache : Cache Hash MerkleTree) where
  locations : KeyedMap Hash TransactionLocation
  trees : cache.Store
  config : IndexConfig
  stats : IndexingStats

inductive IndexingErrorType where
  | transactionNotFound
  | treeNotCached
  | invalidIndex
  | emptyBlock
  deriving DecidableEq, Repr

structure IndexingErrorPayload where
  errorType : IndexingErrorType
  message : String
  transactionHash : Option Hash
  blockHash : Option Hash
  deriving DecidableEq, Repr

def IndexingError.payload : IndexingError → IndexingErrorPayload
  | .transactionNotFound txHash => ⟨.transactionNotFound,"Transaction not found",some txHash,none⟩
  | .treeNotCached blockHash => ⟨.treeNotCached,"Merkle tree not cached",none,some blockHash⟩
  | .invalidIndex index max => ⟨.invalidIndex,s!"Invalid index {index} (max: {max})",none,none⟩
  | .emptyBlock blockHash => ⟨.emptyBlock,"Empty block",none,some blockHash⟩

namespace TransactionIndex
variable {cache : Cache Hash MerkleTree}

def defaultCacheSize : Nat := 1000

def cacheSize (config : IndexConfig) : Nat := if config.maxCachedTrees = 0 then defaultCacheSize else config.maxCachedTrees

theorem cacheSizePositive (config) : 0 < cacheSize config := by
  unfold cacheSize defaultCacheSize
  split <;> omega

def new (config : IndexConfig) : TransactionIndex cache where
  locations := ∅
  trees := cache.empty (cacheSize config) (cacheSizePositive config)
  config := config
  stats := ⟨0,0,0⟩

variable (index : TransactionIndex cache)

def putLocation (txHash : Hash) (location : TransactionLocation) : TransactionIndex cache :=
  {index with
    locations := index.locations.insert txHash location
    stats := {index.stats with totalIndexedTxs := index.stats.totalIndexedTxs + 1}}

def cacheTree (blockHash : Hash) (tree : MerkleTree) : TransactionIndex cache :=
  let trees := cache.put index.trees blockHash tree
  {index with
    trees := trees
    stats := {index.stats with cachedTrees := cache.size trees}}

def recordProofGenerated : TransactionIndex cache :=
  {index with stats := {index.stats with proofsGenerated := index.stats.proofsGenerated + 1}}

end TransactionIndex

structure AuthenticatedMessage (α : Type) where
  version : UInt8
  correlationId : U128
  replyTo : Option String
  senderId : UInt8
  recipientId : UInt8
  timestamp : U64
  nonce : U64
  signature : Hash
  payload : α

inductive EnvelopeError where
  | unsupportedVersion (version : UInt8)
  | timestampOutOfRange (timestamp current : U64)
  | invalidSignature
  | nonceReused (nonce : U64)
  | unauthorizedSender (senderId : UInt8) (expected : List UInt8)
  | wrongRecipient (expected actual : UInt8)
  deriving DecidableEq, Repr

inductive HandlerError where
  | envelope (e : EnvelopeError)
  | indexing (e : IndexingError)
  deriving DecidableEq, Repr

def transactionIndexing : UInt8 := 3

def consensus : UInt8 := 8

structure EnvelopeValidator where
  subsystemId : UInt8
  sharedSecret : Hash
  nonceCache : Finset U64
  timestampWindowSecs : U64

structure Deps where
  sha3 : Bytes → Hash
  hmac : Hash → Bytes → Hash

def signedBytes {α : Type} (msg : AuthenticatedMessage α) : Bytes :=
  leBytes 1 msg.version.toNat ++ wordBytes msg.correlationId ++ [msg.senderId] ++ [msg.recipientId] ++
    leBytes 8 msg.timestamp.toNat ++ leBytes 8 msg.nonce.toNat

namespace EnvelopeValidator
variable {α : Type}

def new (subsystemId : UInt8) (sharedSecret : Hash) : EnvelopeValidator := ⟨subsystemId,sharedSecret,∅,60⟩

def verifySignature (deps : Deps) (v : EnvelopeValidator) (msg : AuthenticatedMessage α) : Bool :=
  deps.hmac v.sharedSecret (signedBytes msg) == msg.signature

-- the window's lower end saturates, its upper end wraps
def outsideWindow (v : EnvelopeValidator) (timestamp current : U64) : Bool :=
  (current + v.timestampWindowSecs).toNat < timestamp.toNat || timestamp.toNat < current.toNat - v.timestampWindowSecs.toNat

def validate (deps : Deps) (v : EnvelopeValidator) (msg : AuthenticatedMessage α) (current : U64) :
    Except EnvelopeError Unit × EnvelopeValidator :=
  if msg.version.toNat < 1 || 2 < msg.version.toNat then (.error (.unsupportedVersion msg.version),v)
  else if msg.recipientId ≠ v.subsystemId then (.error (.wrongRecipient v.subsystemId msg.recipientId),v)
  else if v.outsideWindow msg.timestamp current then (.error (.timestampOutOfRange msg.timestamp current),v)
  else if msg.nonce ∈ v.nonceCache then (.error (.nonceReused msg.nonce),v)
  else
    let v := {v with nonceCache := insert msg.nonce v.nonceCache}
    if verifySignature deps v msg then (.ok (),v) else (.error .invalidSignature,v)

def validateSender (senderId : UInt8) (allowed : List UInt8) : Except EnvelopeError Unit :=
  if senderId ∈ allowed then .ok () else .error (.unauthorizedSender senderId allowed)

end EnvelopeValidator

structure ValidatedTransaction where
  txHash : Hash
  deriving DecidableEq, Repr

structure BlockValidatedPayload where
  transactions : List ValidatedTransaction
  blockHash : Hash
  blockHeight : U64
  deriving DecidableEq, Repr

structure MerkleProofRequestPayload where
  transactionHash : Hash
  deriving DecidableEq, Repr

structure MerkleRootComputedPayload where
  blockHash : Hash
  blockHeight : U64
  merkleRoot : Hash
  transactionCount : Nat
  deriving DecidableEq, Repr

structure MerkleProofResponsePayload where
  transactionHash : Hash
  proof : Option MerkleProof
  error : Option IndexingErrorPayload
  deriving DecidableEq, Repr

def response {α β : Type} (request : AuthenticatedMessage α) (senderId : UInt8) (payload : β) (now : U64) :
    AuthenticatedMessage β :=
  ⟨request.version,request.correlationId,none,senderId,request.senderId,now,0,0,payload⟩

structure TransactionIndexingHandler (cache : Cache Hash MerkleTree) where
  index : TransactionIndex cache
  validator : EnvelopeValidator

namespace TransactionIndexingHandler
variable {cache : Cache Hash MerkleTree}

def new (cache : Cache Hash MerkleTree) (config : IndexConfig) (sharedSecret : Hash) : TransactionIndexingHandler cache :=
  ⟨.new config,.new transactionIndexing sharedSecret⟩

def hashTransaction (tx : ValidatedTransaction) : Hash := tx.txHash

def txHashes (payload : BlockValidatedPayload) : List Hash := payload.transactions.map hashTransaction

def putLocations (payload : BlockValidatedPayload) (merkleRoot : Hash) :
    TransactionIndex cache → Nat → List Hash → TransactionIndex cache
  | index,_,[] => index
  | index,idx,txHash::rest =>
    putLocations payload merkleRoot (index.putLocation txHash ⟨payload.blockHeight,payload.blockHash,idx,merkleRoot⟩)
      (idx + 1) rest

def indexBlock (deps : Deps) (payload : BlockValidatedPayload) (h : TransactionIndexingHandler cache) :
    Except (Fault HandlerError) MerkleRootComputedPayload × TransactionIndexingHandler cache :=
  match build deps.sha3 (txHashes payload) with
  | none => (.error .panic,h)
  | some tree =>
    let index := putLocations payload tree.root h.index 0 (txHashes payload)
    (.ok ⟨payload.blockHash,payload.blockHeight,tree.root,payload.transactions.length⟩,
      {h with index := index.cacheTree payload.blockHash tree})

def handleBlockValidated (deps : Deps) (h : TransactionIndexingHandler cache)
    (msg : AuthenticatedMessage BlockValidatedPayload)
    (current : U64) : Except (Fault HandlerError) MerkleRootComputedPayload × TransactionIndexingHandler cache :=
  match h.validator.validate deps msg current with
  | (.error e,validator) => (.error (.error (.envelope e)),{h with validator := validator})
  | (.ok (),validator) =>
    let h := {h with validator := validator}
    match EnvelopeValidator.validateSender msg.senderId [consensus] with
    | .error e => (.error (.error (.envelope e)),h)
    | .ok () => indexBlock deps msg.payload h

-- the location, the cached tree (now the most recent one) and the proof it generates
def proofFor (index : TransactionIndex cache) (txHash : Hash) : Except IndexingError MerkleProof × TransactionIndex cache :=
  match index.locations.lookup txHash with
  | none => (.error (.transactionNotFound txHash),index)
  | some location =>
    match cache.get index.trees location.blockHash with
    | (none,trees) => (.error (.treeNotCached location.blockHash),{index with trees := trees})
    | (some tree,trees) =>
      let index := {index with trees := trees}
      match tree.generateProof location.txIndex location.blockHeight location.blockHash with
      | .ok proof => (.ok proof,index.recordProofGenerated)
      | .error e => (.error e,index)

def responsePayload (txHash : Hash) : Except IndexingError MerkleProof → MerkleProofResponsePayload
  | .ok proof => ⟨txHash,some proof,none⟩
  | .error e => ⟨txHash,none,some e.payload⟩

def handleMerkleProofRequest (deps : Deps) (h : TransactionIndexingHandler cache)
    (msg : AuthenticatedMessage MerkleProofRequestPayload)
    (current responded : U64) :
    Except HandlerError (AuthenticatedMessage MerkleProofResponsePayload) × TransactionIndexingHandler cache :=
  match h.validator.validate deps msg current with
  | (.error e,validator) => (.error (.envelope e),{h with validator := validator})
  | (.ok (),validator) =>
    let (outcome,index) := proofFor h.index msg.payload.transactionHash
    (.ok (response msg transactionIndexing (responsePayload msg.payload.transactionHash outcome) responded),⟨index,validator⟩)

inductive Event where
  | blockValidated (msg : AuthenticatedMessage BlockValidatedPayload) (current : U64)
  | merkleProofRequest (msg : AuthenticatedMessage MerkleProofRequestPayload) (current responded : U64)

variable (deps : Deps)

def operate (h : TransactionIndexingHandler cache) : Event → TransactionIndexingHandler cache
  | .blockValidated msg current => (handleBlockValidated deps h msg current).2
  | .merkleProofRequest msg current responded => (handleMerkleProofRequest deps h msg current responded).2

def Answered (index : TransactionIndex cache) (txHash : Hash) (proof : MerkleProof) : Prop :=
  ∃ location, index.locations.lookup txHash = some location ∧ proof.leafHash = txHash ∧ proof.blockHash = location.blockHash ∧
    proof.txIndex = location.txIndex ∧ verifyProofStatic deps.sha3 proof.leafHash proof.path location.merkleRoot = true

variable (h : TransactionIndexingHandler cache)

def AnswersRight : Prop :=
  ∀ txHash proof, (proofFor h.index txHash).1 = .ok proof → Answered deps h.index txHash proof

def ResponseRight : Event → Prop
  | .blockValidated _ _ => True
  | .merkleProofRequest msg current responded => ∀ answer proof,
    (handleMerkleProofRequest deps h msg current responded).1 = .ok answer → answer.payload.proof = some proof →
      Answered deps h.index msg.payload.transactionHash proof

def Accepted (msg : AuthenticatedMessage BlockValidatedPayload)
    (current : U64) : Prop :=
  (h.validator.validate deps msg current).1 = .ok () ∧ msg.senderId = consensus

-- a transaction that the block leaves out keeps its older place in it only behind the block's end
def LeavesBehind (index : TransactionIndex cache) (payload : BlockValidatedPayload) : Prop :=
  ∀ txHash location, index.locations.lookup txHash = some location → location.blockHash = payload.blockHash →
    txHash ∉ txHashes payload → (txHashes payload).length ≤ location.txIndex

def KeepsAnswers (deps : Deps) (h : TransactionIndexingHandler cache) : Event → Prop
  | .blockValidated msg current => Accepted deps h msg current → LeavesBehind h.index msg.payload
  | .merkleProofRequest _ _ _ => True

def TreesBuilt (deps : Deps) (index : TransactionIndex cache) : Prop :=
  ∀ blockHash tree, cache.find index.trees blockHash = some tree → ∃ hashes, Built deps.sha3 hashes tree

def Agree (index : TransactionIndex cache) : Prop :=
  ∀ txHash location tree, index.locations.lookup txHash = some location →
    cache.find index.trees location.blockHash = some tree →
    location.txIndex < tree.transactionCount →
      tree.nodes[tree.paddedLeafCount - 1 + location.txIndex]? = some txHash ∧ tree.root = location.merkleRoot

structure SameView (index after : TransactionIndex cache) : Prop where
  locations : after.locations = index.locations
  trees : ∀ blockHash, cache.find after.trees blockHash = cache.find index.trees blockHash

theorem SameView.agree {index after : TransactionIndex cache} (view : SameView index after) : Agree after ↔ Agree index := by
  unfold Agree
  simp only [view.locations,view.trees]

theorem SameView.built {deps} {index after : TransactionIndex cache} (view : SameView index after) :
    TreesBuilt deps after ↔ TreesBuilt deps index := by
  unfold TreesBuilt
  simp only [view.trees]

theorem proofForView (lawful : cache.Lawful) (index : TransactionIndex cache) (txHash) :
    SameView index (proofFor index txHash).2 := by
  unfold proofFor
  cases index.locations.lookup txHash with
  | none => exact ⟨rfl,fun _ => rfl⟩
  | some location =>
    have promoted := lawful.findGet index.trees location.blockHash
    dsimp only
    generalize cache.get index.trees location.blockHash = fetched at promoted ⊢
    obtain ⟨_ | tree,trees⟩ := fetched
    · exact ⟨rfl,promoted⟩
    · dsimp only
      cases tree.generateProof location.txIndex location.blockHeight location.blockHash <;> exact ⟨rfl,promoted⟩

theorem proofForOk {index : TransactionIndex cache} {txHash proof} : (proofFor index txHash).1 = .ok proof ↔
    ∃ location tree, index.locations.lookup txHash = some location ∧ cache.find index.trees location.blockHash = some tree ∧
      tree.generateProof location.txIndex location.blockHeight location.blockHash = .ok proof := by
  unfold proofFor
  cases index.locations.lookup txHash with
  | none => simp
  | some location =>
    have found : (cache.get index.trees location.blockHash).1 = cache.find index.trees location.blockHash := rfl
    dsimp only
    generalize cache.get index.trees location.blockHash = fetched at found ⊢
    obtain ⟨_ | tree,trees⟩ := fetched
    · simp [← found]
    · cases generated : tree.generateProof location.txIndex location.blockHeight location.blockHash <;>
        simp [← found,generated]

theorem answersAgree {deps} {h : TransactionIndexingHandler cache} (built : TreesBuilt deps h.index) :
    AnswersRight deps h ↔ Agree h.index := by
  constructor
  · intro right txHash location tree recorded cached inside
    obtain ⟨hashes,isBuilt⟩ := built _ _ cached
    rw [isBuilt.count] at inside
    obtain ⟨path,generates,_,rebuilt,_⟩ := generateProofOk isBuilt inside location.blockHeight location.blockHash
    obtain ⟨same,again,leaf,_,_,verified⟩ := right txHash _ (proofForOk.mpr ⟨location,tree,recorded,cached,generates⟩)
    cases Option.some.inj (recorded.symm.trans again)
    have root := beq_iff_eq.mp verified
    rw [isBuilt.leaf inside,getElem?_eq_getElem inside]
    exact ⟨congrArg some leaf,rebuilt.symm.trans root⟩
  · intro agree txHash proof answered
    obtain ⟨location,tree,recorded,cached,generates⟩ := proofForOk.mp answered
    obtain ⟨hashes,isBuilt⟩ := built _ _ cached
    rcases Nat.lt_or_ge location.txIndex hashes.length with inside | outside
    · obtain ⟨path,generated,_,rebuilt,_⟩ := generateProofOk isBuilt inside location.blockHeight location.blockHash
      cases generated.symm.trans generates
      obtain ⟨leaf,root⟩ := agree txHash location tree recorded cached (isBuilt.count.symm ▸ inside)
      rw [isBuilt.leaf inside,getElem?_eq_getElem inside] at leaf
      exact ⟨location,recorded,Option.some.inj leaf,rfl,rfl,beq_iff_eq.mpr (rebuilt.trans root)⟩
    · cases (generateProofRefused isBuilt outside location.blockHeight location.blockHash).symm.trans generates

section Block
variable (payload : BlockValidatedPayload) (merkleRoot : Hash)

def placeIn (idx : Nat) : TransactionLocation := ⟨payload.blockHeight,payload.blockHash,idx,merkleRoot⟩

theorem putLocationsTrees (index : TransactionIndex cache) (idx) (hashes) :
    (putLocations payload merkleRoot index idx hashes).trees = index.trees := by
  induction hashes generalizing index idx with
  | nil => rfl
  | cons hash rest ih => exact ih _ _

theorem putLocationsOther {txHash hashes} (left : txHash ∉ hashes) (index : TransactionIndex cache) (idx) :
    (putLocations payload merkleRoot index idx hashes).locations.lookup txHash = index.locations.lookup txHash := by
  induction hashes generalizing index idx with
  | nil => rfl
  | cons hash rest ih =>
    obtain ⟨other,later⟩ := not_or.mp (fun mem => left (mem_cons.mpr mem))
    rw [putLocations,ih later]
    exact Finmap.lookup_insert_of_ne _ other

theorem putLocationsHere {txHash hashes} (mem : txHash ∈ hashes) (index : TransactionIndex cache) (idx) :
    ∃ i, hashes[i]? = some txHash ∧
      (putLocations payload merkleRoot index idx hashes).locations.lookup txHash =
        some (placeIn payload merkleRoot (idx + i)) := by
  induction hashes generalizing index idx with
  | nil => exact absurd mem not_mem_nil
  | cons hash rest ih =>
    by_cases later : txHash ∈ rest
    · obtain ⟨i,found,recorded⟩ := ih later (index.putLocation hash (placeIn payload merkleRoot idx)) (idx + 1)
      exact ⟨i + 1,found,by rw [show idx + (i + 1) = idx + 1 + i by omega]; exact recorded⟩
    · -- the last occurrence is the one that stays
      have here := (mem_cons.mp mem).resolve_right later
      refine ⟨0,by rw [here]; rfl,?_⟩
      rw [putLocations,putLocationsOther payload merkleRoot later]
      subst here
      exact Finmap.lookup_insert _

end Block

def indexed (payload : BlockValidatedPayload) (tree : MerkleTree) (index : TransactionIndex cache) : TransactionIndex cache :=
  (putLocations payload tree.root index 0 (txHashes payload)).cacheTree payload.blockHash tree

section Indexed
variable {deps : Deps} {payload : BlockValidatedPayload} {tree : MerkleTree} {index : TransactionIndex cache}

theorem indexedOther {txHash} (left : txHash ∉ txHashes payload) :
    (indexed payload tree index).locations.lookup txHash = index.locations.lookup txHash :=
  putLocationsOther payload tree.root left index 0

theorem indexedHere (tree) (index : TransactionIndex cache) {txHash} (mem : txHash ∈ txHashes payload) :
    ∃ i, (txHashes payload)[i]? = some txHash ∧
      (indexed payload tree index).locations.lookup txHash = some (placeIn payload tree.root i) := by
  obtain ⟨i,found,recorded⟩ := putLocationsHere payload tree.root mem index 0
  rw [Nat.zero_add] at recorded
  exact ⟨i,found,recorded⟩

theorem indexedTree (lawful : cache.Lawful) : cache.find (indexed payload tree index).trees payload.blockHash = some tree :=
  lawful.findPutSelf _ _ _

theorem indexedOtherTree (lawful : cache.Lawful) {blockHash kept} (other : blockHash ≠ payload.blockHash)
    (found : cache.find (indexed payload tree index).trees blockHash = some kept) :
      cache.find index.trees blockHash = some kept := by
  have before := lawful.findPutOther _ _ _ _ _ other found
  rwa [putLocationsTrees] at before

theorem indexedBuilt (lawful : cache.Lawful) (built : Built deps.sha3 (txHashes payload) tree)
    (before : TreesBuilt deps index) :
    TreesBuilt deps (indexed payload tree index) := by
  intro blockHash kept found
  by_cases here : blockHash = payload.blockHash
  · subst here
    cases Option.some.inj ((indexedTree lawful).symm.trans found)
    exact ⟨_,built⟩
  · exact before blockHash kept (indexedOtherTree lawful here found)

theorem indexedAgree (lawful : cache.Lawful) (built : Built deps.sha3 (txHashes payload) tree) (before : Agree index)
    (behind : LeavesBehind index payload) : Agree (indexed payload tree index) := by
  intro txHash location kept recorded cached inside
  by_cases mem : txHash ∈ txHashes payload
  · obtain ⟨i,found,place⟩ := indexedHere tree index mem
    cases Option.some.inj (place.symm.trans recorded)
    cases Option.some.inj ((indexedTree lawful).symm.trans cached)
    obtain ⟨bound,_⟩ := List.getElem?_eq_some_iff.mp found
    exact ⟨(built.leaf bound).trans found,rfl⟩
  · rw [indexedOther mem] at recorded
    by_cases here : location.blockHash = payload.blockHash
    · rw [here] at cached
      cases Option.some.inj ((indexedTree lawful).symm.trans cached)
      have outside := behind txHash location recorded here mem
      rw [built.count] at inside
      omega
    · exact before txHash location kept recorded (indexedOtherTree lawful here cached) inside

theorem indexedNeeds (lawful : cache.Lawful) (built : Built deps.sha3 (txHashes payload) tree)
    (after : Agree (indexed payload tree index)) :
    LeavesBehind index payload := by
  intro txHash location recorded here left
  by_contra short
  rw [Nat.not_le] at short
  have cached : cache.find (indexed payload tree index).trees location.blockHash = some tree := here ▸ indexedTree lawful
  obtain ⟨leaf,_⟩ := after txHash location tree ((indexedOther left).trans recorded) cached (built.count.symm ▸ short)
  rw [built.leaf short] at leaf
  exact left (mem_of_getElem? leaf)

end Indexed

theorem handleBlockCases (deps) (h : TransactionIndexingHandler cache) (msg) (current) :
    (∃ tree, Accepted deps h msg current ∧ Built deps.sha3 (txHashes msg.payload) tree ∧
      (handleBlockValidated deps h msg current).2.index = indexed msg.payload tree h.index) ∨
    (¬ Accepted deps h msg current ∧ (handleBlockValidated deps h msg current).2.index = h.index) := by
  unfold Accepted handleBlockValidated
  generalize h.validator.validate deps msg current = validated
  obtain ⟨_ | _,validator⟩ := validated
  · refine .inr ⟨fun both => ?_,rfl⟩
    cases both.1
  · unfold EnvelopeValidator.validateSender
    by_cases sender : msg.senderId = consensus
    · obtain ⟨tree,builds,built⟩ := buildBuilt deps.sha3 (txHashes msg.payload)
      refine .inl ⟨tree,⟨rfl,sender⟩,built,?_⟩
      simp only [sender,mem_singleton,if_true,indexBlock,builds]
      rfl
    · refine .inr ⟨fun both => sender both.2,?_⟩
      simp only [sender,mem_singleton,if_false]

theorem requestView (lawful : cache.Lawful) (deps) (h : TransactionIndexingHandler cache) (msg)
    (current responded) : SameView h.index (handleMerkleProofRequest deps h msg current responded).2.index := by
  unfold handleMerkleProofRequest
  generalize h.validator.validate deps msg current = validated
  obtain ⟨_ | _,validator⟩ := validated
  · exact ⟨rfl,fun _ => rfl⟩
  · exact proofForView lawful h.index msg.payload.transactionHash

structure Consistent (deps : Deps) (h : TransactionIndexingHandler cache) : Prop where
  built : TreesBuilt deps h.index
  agree : Agree h.index

theorem operateConsistent (lawful : cache.Lawful) {deps} {h : TransactionIndexingHandler cache} {e}
    (before : Consistent deps h)
    (keeps : KeepsAnswers deps h e) : Consistent deps (operate deps h e) := by
  cases e with
  | blockValidated msg current =>
    rcases handleBlockCases deps h msg current with ⟨tree,accepted,built,after⟩ | ⟨_,after⟩
    · constructor
      · rw [operate,after]
        exact indexedBuilt lawful built before.built
      · rw [operate,after]
        exact indexedAgree lawful built before.agree (keeps accepted)
    · exact ⟨by rw [operate,after]; exact before.built,by rw [operate,after]; exact before.agree⟩
  | merkleProofRequest msg current responded =>
    have view := requestView lawful deps h msg current responded
    exact ⟨view.built.mpr before.built,view.agree.mpr before.agree⟩

theorem operateNeeds (lawful : cache.Lawful) {deps} {h : TransactionIndexingHandler cache} {e} (before : Consistent deps h)
    (right : AnswersRight deps (operate deps h e)) : KeepsAnswers deps h e := by
  cases e with
  | blockValidated msg current =>
    intro accepted
    rcases handleBlockCases deps h msg current with ⟨tree,_,built,after⟩ | ⟨refused,_⟩
    · have builtAfter : TreesBuilt deps (operate deps h (.blockValidated msg current)).index := by
        rw [operate,after]
        exact indexedBuilt lawful built before.built
      have agree := (answersAgree builtAfter).mp right
      rw [operate,after] at agree
      exact indexedNeeds lawful built agree
    · exact absurd accepted refused
  | merkleProofRequest msg current responded => trivial

theorem responseRight {deps} {h : TransactionIndexingHandler cache} (right : AnswersRight deps h) (e) :
    ResponseRight deps h e := by
  cases e with
  | blockValidated msg current => trivial
  | merkleProofRequest msg current responded =>
    intro answer proof answers given
    apply right
    unfold handleMerkleProofRequest at answers
    generalize h.validator.validate deps msg current = validated at answers
    obtain ⟨_ | _,validator⟩ := validated
    · cases answers
    · dsimp only at answers
      cases Except.ok.inj answers
      cases outcome : (proofFor h.index msg.payload.transactionHash).1 with
      | error e =>
        rw [outcome] at given
        cases given
      | ok found =>
        rw [outcome] at given
        cases given
        rfl

theorem newConsistent (lawful : cache.Lawful) (deps) (config) (sharedSecret) :
    Consistent deps (new cache config sharedSecret) := by
  constructor
  · intro blockHash tree found
    cases (lawful.findEmpty _ _ blockHash).symm.trans found
  · intro txHash location tree recorded
    cases (Finmap.lookup_empty txHash).symm.trans recorded

theorem answeredRequestsRight (cache : Cache Hash MerkleTree) (lawful : cache.Lawful) (deps : Deps)
    (config : IndexConfig) (sharedSecret : Hash) (events : List Event) :
    (Along (operate deps) (fun h e => AnswersRight deps (operate deps h e)) (new cache config sharedSecret) events ↔
      Along (operate deps) (KeepsAnswers deps) (new cache config sharedSecret) events) ∧
    (Along (operate deps) (KeepsAnswers deps) (new cache config sharedSecret) events →
      Along (operate deps) (ResponseRight deps) (new cache config sharedSecret) events) := by
  have start := newConsistent lawful deps config sharedSecret
  constructor
  · exact alongExact (fun _ _ before keeps => operateConsistent lawful before keeps)
      (fun _ consistent => (answersAgree consistent.built).mpr consistent.agree)
      (fun _ _ before right => operateNeeds lawful before right) start
  · exact alongUnder (fun _ _ before keeps => operateConsistent lawful before keeps)
      (fun _ e consistent _ => responseRight ((answersAgree consistent.built).mpr consistent.agree) e) start

def openDeps : Deps := ⟨residue,fun _ _ => 0⟩

def opened : TransactionIndexingHandler LruCache.cache := new _ ⟨10⟩ 0

def blockEvent (nonce : U64) (hashes : List Hash) : Event :=
  .blockValidated ⟨1,0,none,consensus,transactionIndexing,100,nonce,0,⟨hashes.map ValidatedTransaction.mk,50,1⟩⟩ 100

def requestFor (nonce : U64) (txHash : Hash) : AuthenticatedMessage MerkleProofRequestPayload :=
  ⟨1,0,none,consensus,transactionIndexing,100,nonce,0,⟨txHash⟩⟩

def answerTo (events : List Event) (nonce : U64) (txHash : Hash) : Option MerkleProof :=
  (handleMerkleProofRequest openDeps (run (operate openDeps) opened events) (requestFor nonce txHash) 100 100).1.toOption.bind
    (·.payload.proof)

theorem answeredRequestsRightOnce :
    Along (operate openDeps) (KeepsAnswers openDeps) opened
      [blockEvent 1 [21,22],.merkleProofRequest (requestFor 2 22) 100 100] ∧
    Along (operate openDeps) (ResponseRight openDeps) opened
      [blockEvent 1 [21,22],.merkleProofRequest (requestFor 2 22) 100 100] ∧
    (answerTo [blockEvent 1 [21,22]] 2 22).isSome = true := by
  have keeps : Along (operate openDeps) (KeepsAnswers openDeps) opened
      [blockEvent 1 [21,22],.merkleProofRequest (requestFor 2 22) 100 100] := by
    refine ⟨fun _ txHash location recorded => ?_,trivial,trivial⟩
    cases (Finmap.lookup_empty txHash).symm.trans recorded
  exact ⟨keeps,(answeredRequestsRight _ LruCache.lawful openDeps ⟨10⟩ 0 _).2 keeps,by decide +kernel⟩

-- the block hash 50 comes back with another transaction in the first place
theorem replacedTreeAnswers : ∃ proof, answerTo [blockEvent 1 [21,22],blockEvent 2 [23]] 3 21 = some proof ∧
    proof.leafHash ≠ 21 := by
  have evaluated : (answerTo [blockEvent 1 [21,22],blockEvent 2 [23]] 3 21).map MerkleProof.leafHash = some 23 := by
    decide +kernel
  obtain ⟨proof,answered,leaf⟩ := Option.map_eq_some_iff.mp evaluated
  exact ⟨proof,answered,by rw [leaf]; decide⟩

end TransactionIndexingHandler
end QuantumChain.Indexing
