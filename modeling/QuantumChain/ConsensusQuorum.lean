import QuantumChain.ConsensusProofs
import QuantumChain.WeightedQuorum
import Mathlib.Data.Finset.Card

/-! How many members stand behind an accepted proof.
Signature checks are inputs; a proof may name one signer several times. -/
namespace QuantumChain.Consensus
open ValidatorSet
open List

namespace ValidatorSet

theorem tableSnoc (front) (v : ValidatorInfo) :
    lookupTable (front ++ [v]) = (lookupTable front).insert v.id front.length := by
  simp [lookupTable,zipIdx_append]

theorem tableSource {validators id i} (found : (lookupTable validators).lookup id = some i) :
    ∃ v, validators[i]? = some v ∧ v.id = id := by
  induction validators using List.reverseRecOn with
  | nil => simp [lookupTable] at found
  | append_singleton front v ih =>
    rw [tableSnoc,KeyedMap.lookupInsert] at found
    split at found
    · rename_i same
      cases Option.some.inj found
      exact ⟨v,by simp,same.symm⟩
    · obtain ⟨w,present,own⟩ := ih found
      have inside := (List.getElem?_eq_some_iff.mp present).1
      exact ⟨w,by rw [List.getElem?_append_left inside]; exact present,own⟩

theorem tableMember {validators v} (member : v ∈ validators) : ∃ i, (lookupTable validators).lookup v.id = some i := by
  induction validators using List.reverseRecOn with
  | nil => contradiction
  | append_singleton front w ih =>
    rw [tableSnoc,KeyedMap.lookupInsert]
    split
    · exact ⟨_,rfl⟩
    · rename_i other
      rcases mem_append.mp member with earlier | last
      · exact ih earlier
      · cases mem_singleton.mp last
        contradiction

theorem containsMember {epoch validators id}
    (known : (new epoch validators).contains id = true) : id ∈ validators.map ValidatorInfo.id := by
  obtain ⟨i,found⟩ := Option.isSome_iff_exists.mp known
  obtain ⟨v,present,own⟩ := tableSource found
  exact mem_map.mpr ⟨v,mem_of_getElem? present,own⟩

theorem pubkeyOfMember {epoch validators v}
    (member : v ∈ validators) : ∃ pubkey, (new epoch validators).getPubkey v.id = some pubkey := by
  obtain ⟨i,found⟩ := tableMember member
  obtain ⟨w,present,_⟩ := tableSource found
  exact ⟨w.pubkey,by simp [getPubkey,get,new,found,present]⟩

theorem pubkeyContains {vs : ValidatorSet} {id pubkey}
    (found : vs.getPubkey id = some pubkey) : vs.contains id = true := by
  unfold getPubkey get at found
  cases position : vs.lookup.lookup id with
  | none => simp [position] at found
  | some i => simp [contains,position]

end ValidatorSet

def ValidAttestation (env : ProofEnv) (vs : ValidatorSet) (message : Bytes) (a : Attestation) : Prop :=
  ∃ pubkey, vs.getPubkey a.validator = some pubkey ∧ verifyAttestationSignature env a message pubkey = .ok true

def SignedVote (env : ProofEnv) (vs : ValidatorSet) (vote : ValidatorId × Bytes × EcdsaSignature) : Prop :=
  ∃ pubkey ∈ vs.getPubkey vote.1, env.sigVerifier.verifyEcdsa vote.2.1 vote.2.2 (ecdsaPubkey pubkey) = true
instance (env vs vote) : Decidable (SignedVote env vs vote) := by
  unfold SignedVote; infer_instance

theorem duplicateVotesOk {seen votes} : checkDuplicateVotes seen votes = .ok () ↔
      (votes.map Attestation.validator).Nodup ∧ ∀ a ∈ votes, a.validator ∉ seen := by
  induction votes generalizing seen with
  | nil => simp [checkDuplicateVotes]
  | cons a rest ih =>
    unfold checkDuplicateVotes
    split
    · rename_i again
      simp [refuse,again]
    · rename_i fresh
      rw [ih]
      simp only [map_cons,nodup_cons,mem_map,mem_cons,not_or,forall_eq_or_imp,fresh,
        not_false_eq_true,true_and]
      constructor
      · rintro ⟨nodup,apart⟩
        exact ⟨⟨fun ⟨b,inside,same⟩ => (apart b inside).1 same,nodup⟩,fun b inside => (apart b inside).2⟩
      · rintro ⟨⟨absent,nodup⟩,apart⟩
        exact ⟨nodup,fun b inside => ⟨fun same => absent ⟨b,inside,same⟩,apart b inside⟩⟩

theorem attestationsOk {env vs message votes} :
    verifyAttestationsOver env vs message votes = .ok () ↔ ∀ a ∈ votes, ValidAttestation env vs message a := by
  induction votes with
  | nil => simp [verifyAttestationsOver]
  | cons a rest ih =>
    rw [forall_mem_cons,← ih]
    rw [verifyAttestationsOver,ValidAttestation]
    cases key : vs.getPubkey a.validator with
    | none => simp [refuse]
    | some pubkey =>
      simp only [Option.some.injEq,exists_eq_left']
      cases verified : verifyAttestationSignature env a message pubkey with
      | error e => simp
      | ok valid => cases valid <;> simp [refuse]

theorem pbftSignaturesOk {T env vs extract} {items : List T} :
    verifyPbftSignatures env vs extract items = .ok () ↔ ∀ item ∈ items, SignedVote env vs (extract item) := by
  induction items with
  | nil => simp [verifyPbftSignatures]
  | cons item rest ih =>
    rw [forall_mem_cons,← ih]
    rcases vote : extract item with ⟨validator,message,signature⟩
    rw [verifyPbftSignatures,SignedVote,vote]
    cases key : vs.getPubkey validator with
    | none =>
      simp only [key]
      split <;> simp [refuse]
    | some pubkey =>
      have known := pubkeyContains key
      simp only [key,known,Bool.true_eq_false,if_false,Option.mem_def,Option.some.injEq,exists_eq_left']
      split
      · rename_i verified
        simp [verified]
      · rename_i forged
        simp [refuse,forged]

theorem posProofOk {env vs proof blockHash} (provided : validatorSetFor env proof.epoch = .ok vs) :
    validatePosProof env proof blockHash = .ok () ↔
      (proof.attestations.map Attestation.validator).Nodup ∧
      (∀ a ∈ proof.attestations,
        ValidAttestation env vs (attestationSigningMessage blockHash proof.slot proof.epoch) a) ∧
      vs.requiredAttestations env.config.minAttestationPercent ≤ proof.participationCount := by
  have unseen : checkDuplicateVotes [] proof.attestations = .ok () ↔
      (proof.attestations.map Attestation.validator).Nodup := by
    rw [duplicateVotesOk]
    simp
  rw [← unseen,← attestationsOk]
  simp only [validatePosProof,provided,verifyAttestations,bind,Except.bind]
  cases checkDuplicateVotes [] proof.attestations with
  | error e => simp
  | ok _ =>
    cases verifyAttestationsOver env vs
        (attestationSigningMessage blockHash proof.slot proof.epoch) proof.attestations with
    | error e => simp
    | ok _ =>
      simp only [true_and]
      split
      · rename_i few
        constructor
        · split <;> (intro h; simp [refuse] at h)
        · intro enough; omega
      · rename_i enough
        simp only [true_iff]
        omega

def PassesChecks (env : ProofEnv) (vs : ValidatorSet) (proof : PBFTProof) : Prop :=
  proof.view = env.currentView ∧
  (vs.requiredPbftVotes env.config.byzantineThreshold).toNat ≤ proof.prepareCount ∧
  (vs.requiredPbftVotes env.config.byzantineThreshold).toNat ≤ proof.commitCount ∧
  (∀ p ∈ proof.prepares, SignedVote env vs (prepareVote p)) ∧
  (∀ c ∈ proof.commits, SignedVote env vs (commitVote c))

theorem pbftProofOk {env vs proof blockHash} (provided : validatorSetFor env proof.epoch = .ok vs) :
    validatePbftProof env proof blockHash = .ok () ↔ PassesChecks env vs proof := by
  unfold PassesChecks
  rw [← pbftSignaturesOk,← pbftSignaturesOk]
  unfold validatePbftProof
  split
  · rename_i other
    simp [refuse,other]
  · rename_i same
    have view : proof.view = env.currentView := by simpa using same
    simp only [provided,bind,Except.bind,view,true_and]
    split
    · rename_i few
      simp only [refuse,reduceCtorEq,false_iff]
      omega
    split
    · rename_i few
      simp only [refuse,reduceCtorEq,false_iff]
      omega
    · rename_i enoughPrepares enoughCommits
      cases verifyPbftSignatures env vs prepareVote proof.prepares with
      | error e => simp
      | ok _ =>
        simp only [true_and]
        constructor
        · intro ok
          exact ⟨by omega,by omega,ok⟩
        · rintro ⟨_,_,ok⟩
          exact ok

def authors {T : Type} (author : T → ValidatorId) (keep : T → Prop) [DecidablePred keep] (items : List T) :
    Finset ValidatorId := ((items.filter (fun item => decide (keep item))).map author).toFinset

theorem authorsCongr {T} {author : T → ValidatorId} {keep other : T → Prop} [DecidablePred keep]
    [DecidablePred other] {items} (same : ∀ item ∈ items, keep item ↔ other item) :
    authors author keep items = authors author other items := by
  unfold authors
  congr 2
  apply filter_congr
  intro item member
  simp [same item member]

def preparers (env : ProofEnv) (vs : ValidatorSet) (proof : PBFTProof) (blockHash : Hash) : Finset ValidatorId :=
  authors PrepareMessage.validator (fun p => p.blockHash = blockHash ∧ p.view = env.currentView ∧
    SignedVote env vs (prepareVote p)) proof.prepares

def committers (env : ProofEnv) (vs : ValidatorSet) (proof : PBFTProof) (blockHash : Hash) : Finset ValidatorId :=
  authors CommitMessage.validator (fun c => c.blockHash = blockHash ∧ c.view = env.currentView ∧
    SignedVote env vs (commitVote c)) proof.commits

structure PbftQuorum (env : ProofEnv) (vs : ValidatorSet) (proof : PBFTProof) (blockHash : Hash) : Prop where
  prepared : 2 * env.config.byzantineThreshold.toNat + 1 ≤ (preparers env vs proof blockHash).card
  committed : 2 * env.config.byzantineThreshold.toNat + 1 ≤ (committers env vs proof blockHash).card

def namedPreparers (proof : PBFTProof) (view : U64) (blockHash : Hash) : Finset ValidatorId :=
  authors PrepareMessage.validator (fun p => p.blockHash = blockHash ∧ p.view = view) proof.prepares

def namedCommitters (proof : PBFTProof) (view : U64) (blockHash : Hash) : Finset ValidatorId :=
  authors CommitMessage.validator (fun c => c.blockHash = blockHash ∧ c.view = view) proof.commits

theorem checkedNamed {env vs proof} (blockHash) (checks : PassesChecks env vs proof) :
    preparers env vs proof blockHash = namedPreparers proof env.currentView blockHash ∧
    committers env vs proof blockHash = namedCommitters proof env.currentView blockHash := by
  obtain ⟨_,_,_,prepares,commits⟩ := checks
  constructor
  · apply authorsCongr
    intro p member
    simp [prepares p member]
  · apply authorsCongr
    intro c member
    simp [commits c member]

theorem pbftQuorumIff {env : ProofEnv} {vs : ValidatorSet} {proof : PBFTProof} (blockHash : Hash)
    (provided : validatorSetFor env proof.epoch = .ok vs) :
    (validatePbftProof env proof blockHash = .ok () → PbftQuorum env vs proof blockHash) ↔ (PassesChecks env vs proof →
      2 * env.config.byzantineThreshold.toNat + 1 ≤ (namedPreparers proof env.currentView blockHash).card ∧
      2 * env.config.byzantineThreshold.toNat + 1 ≤ (namedCommitters proof env.currentView blockHash).card) := by
  rw [pbftProofOk provided]
  refine forall_congr' (fun checks => ?_)
  obtain ⟨prepared,committed⟩ := checkedNamed blockHash checks
  rw [← prepared,← committed]
  exact ⟨fun quorum => ⟨quorum.prepared,quorum.committed⟩,fun both => ⟨both.1,both.2⟩⟩

def blankKey : BlsPublicKey := ⟨List.replicate 48 0,rfl⟩

def blankSignature : EcdsaSignature := ⟨List.replicate 65 0,rfl⟩

def members (n : Nat) : ValidatorSet :=
  ValidatorSet.new 0 ((List.range n).map (fun i => ValidatorInfo.new (BitVec.ofNat 256 (i+1)) 1 blankKey))

def trustingEnv (vs : ValidatorSet) : ProofEnv :=
  ⟨⟨fun _ _ _ => true,fun _ _ _ => true⟩,⟨fun _ => .ok 0,fun _ _ => .ok vs⟩,{},0⟩

def pbftProofBy (signers : List ValidatorId) (blockHash : Hash) : PBFTProof :=
  ⟨signers.map (fun v => ⟨0,1,blockHash,v,blankSignature⟩),signers.map (fun v => ⟨0,1,blockHash,v,blankSignature⟩),0,0⟩

theorem distinctSignersQuorum : PbftQuorum (trustingEnv (members 4)) (members 4) (pbftProofBy [1,2,3] 7) 7 :=
  (pbftQuorumIff 7 rfl).mpr (fun _ => by decide) rfl

theorem repeatedSignerAccepted : validatePbftProof (trustingEnv (members 4)) (pbftProofBy [1,1,1] 8) 7 = .ok () ∧
    ¬ PbftQuorum (trustingEnv (members 4)) (members 4) (pbftProofBy [1,1,1] 8) 7 ∧
    (preparers (trustingEnv (members 4)) (members 4) (pbftProofBy [1,1,1] 8) 7).card = 0 ∧
    (preparers (trustingEnv (members 4)) (members 4) (pbftProofBy [1,1,1] 8) 8).card = 1 := by
  refine ⟨rfl,?_,by decide,by decide⟩
  intro quorum
  exact absurd quorum.prepared (by decide)

def signers (proof : PoSProof) : Finset ValidatorId := (proof.attestations.map Attestation.validator).toFinset

structure PosQuorum (env : ProofEnv) (vs : ValidatorSet) (proof : PoSProof) (blockHash : Hash) : Prop where
  distinct : (proof.attestations.map Attestation.validator).Nodup
  signed : ∀ a ∈ proof.attestations, vs.contains a.validator = true ∧
    ValidAttestation env vs (attestationSigningMessage blockHash proof.slot proof.epoch) a
  twoThirds : 2 * vs.len ≤ 3 * proof.participationCount

structure Accepted (env : ProofEnv) (vs : ValidatorSet) (proof : PoSProof) (blockHash : Hash) : Prop where
  percent : env.config.minAttestationPercent = 67
  provided : validatorSetFor env proof.epoch = .ok vs
  ok : validatePosProof env proof blockHash = .ok ()

def TwoThirdsReached (n : Nat) : Prop :=
  n = 1 ∨ n % 3 = 0 ∨ n % 3 = 1 ∧ 100 ≤ n ∨ n % 3 = 2 ∧ 200 ≤ n
instance (n) : Decidable (TwoThirdsReached n) := by
  unfold TwoThirdsReached; infer_instance

theorem smallSizesReached : ∀ n < 300, 1 ≤ n → (2 * n ≤ 3 * max (n * 67 / 100) 1 ↔ TwoThirdsReached n) := by
  decide +kernel

theorem requiredReached {vs : ValidatorSet} (some' : 1 ≤ vs.len) :
    2 * vs.len ≤ 3 * vs.requiredAttestations 67 ↔ TwoThirdsReached vs.len := by
  have required : vs.requiredAttestations 67 = max (vs.len * 67 / 100) 1 := rfl
  rw [required]
  by_cases small : vs.len < 300
  · exact smallSizesReached vs.len small some'
  · unfold TwoThirdsReached
    omega

theorem acceptedFacts {env vs proof blockHash} (accepted : Accepted env vs proof blockHash) :
    (proof.attestations.map Attestation.validator).Nodup ∧ (∀ a ∈ proof.attestations, vs.contains a.validator = true ∧
      ValidAttestation env vs (attestationSigningMessage blockHash proof.slot proof.epoch) a) ∧
    vs.requiredAttestations 67 ≤ proof.participationCount := by
  obtain ⟨distinct,signed,enough⟩ := (posProofOk accepted.provided).mp accepted.ok
  refine ⟨distinct,?_,accepted.percent ▸ enough⟩
  intro a member
  obtain ⟨pubkey,key,verified⟩ := signed a member
  exact ⟨pubkeyContains key,pubkey,key,verified⟩

theorem signersCard {env vs proof blockHash}
    (accepted : Accepted env vs proof blockHash) : vs.requiredAttestations 67 ≤ (signers proof).card := by
  obtain ⟨distinct,_,enough⟩ := acceptedFacts accepted
  unfold signers
  rw [toFinset_card_of_nodup distinct,length_map]
  exact enough

theorem signersMembers {env epoch validators proof blockHash}
    (accepted : Accepted env (ValidatorSet.new epoch validators) proof blockHash) :
    signers proof ⊆ (validators.map ValidatorInfo.id).toFinset := by
  intro id member
  obtain ⟨a,inside,rfl⟩ := mem_map.mp (mem_toFinset.mp member)
  exact mem_toFinset.mpr (containsMember ((acceptedFacts accepted).2.1 a inside).1)

def posProofBy (ids : List ValidatorId) (blockHash : Hash) : PoSProof :=
  ⟨ids.map (fun v => ⟨v,blockHash,List.replicate 96 0,0⟩),0,0⟩

theorem trustedSignature (vs) (v) (blockHash) (message) (pubkey) :
    verifyAttestationSignature (trustingEnv vs) ⟨v,blockHash,List.replicate 96 0,0⟩ message pubkey = .ok true := rfl

theorem smallestAccepted {epoch validators}
    (distinct : (validators.map ValidatorInfo.id).Nodup) (some' : validators ≠ []) (blockHash) :
    ∃ proof, proof.participationCount = (ValidatorSet.new epoch validators).requiredAttestations 67 ∧
      Accepted (trustingEnv (ValidatorSet.new epoch validators)) (ValidatorSet.new epoch validators)
        proof blockHash := by
  have nonempty := length_pos_of_ne_nil some'
  have fits : (new epoch validators).requiredAttestations 67 ≤ validators.length := by
    have required : (new epoch validators).requiredAttestations 67 =
        max (validators.length * 67 / 100) 1 := rfl
    omega
  generalize count : (new epoch validators).requiredAttestations 67 = required at fits
  refine ⟨posProofBy ((validators.map ValidatorInfo.id).take required) blockHash,?_,rfl,rfl,?_⟩
  · simp [posProofBy,PoSProof.participationCount,fits]
  · rw [posProofOk rfl]
    refine ⟨?_,?_,?_⟩
    · have same : (posProofBy ((validators.map ValidatorInfo.id).take required) blockHash).attestations.map
          Attestation.validator = (validators.map ValidatorInfo.id).take required := by
        simp [posProofBy,Function.comp_def]
      rw [same]
      exact distinct.sublist (take_sublist _ _)
    · intro a member
      obtain ⟨id,inside,rfl⟩ := mem_map.mp member
      obtain ⟨v,known,rfl⟩ := mem_map.mp (mem_of_mem_take inside)
      obtain ⟨pubkey,key⟩ : ∃ pubkey, (new epoch validators).getPubkey v.id = some pubkey :=
        pubkeyOfMember known
      exact ⟨pubkey,key,trustedSignature _ _ _ _ _⟩
    · change (new epoch validators).requiredAttestations 67 ≤ _
      simp [count,posProofBy,PoSProof.participationCount,fits]

theorem posQuorumIff {epoch : U64} {validators : List ValidatorInfo}
    (distinct : (validators.map ValidatorInfo.id).Nodup) (some' : validators ≠ []) :
    ((∀ env proof blockHash, Accepted env (ValidatorSet.new epoch validators) proof blockHash →
        PosQuorum env (ValidatorSet.new epoch validators) proof blockHash) ∧
      (∀ env₁ env₂ proof₁ proof₂ blockHash₁ blockHash₂,
        Accepted env₁ (ValidatorSet.new epoch validators) proof₁ blockHash₁ →
        Accepted env₂ (ValidatorSet.new epoch validators) proof₂ blockHash₂ →
        validators.length ≤ 3 * (signers proof₁ ∩ signers proof₂).card)) ↔ TwoThirdsReached validators.length := by
  have nonempty : 1 ≤ (new epoch validators).len := length_pos_of_ne_nil some'
  have reached := requiredReached nonempty
  have size : (new epoch validators).len = validators.length := rfl
  rw [size] at reached
  constructor
  · rintro ⟨quorum,_⟩
    obtain ⟨proof,count,accepted⟩ := smallestAccepted distinct some' 0
    have twoThirds := (quorum _ proof 0 accepted).twoThirds
    rw [count] at twoThirds
    exact reached.mp twoThirds
  · intro exact'
    have enough := reached.mpr exact'
    refine ⟨?_,?_⟩
    · intro env proof blockHash accepted
      obtain ⟨nodup,signed,required⟩ := acceptedFacts accepted
      exact ⟨nodup,signed,by omega⟩
    · intro env₁ env₂ proof₁ proof₂ blockHash₁ blockHash₂ accepted₁ accepted₂
      have many₁ := signersCard accepted₁
      have many₂ := signersCard accepted₂
      have overlap := WeightedQuorum.cardOverlap (signersMembers accepted₁) (signersMembers accepted₂)
      rw [toFinset_card_of_nodup distinct,length_map] at overlap
      omega

theorem threeMembersQuorum : PosQuorum (trustingEnv (members 3)) (members 3) (posProofBy [1,2] 7) 7 :=
  ((posQuorumIff (by decide) (by decide)).mpr (by decide)).1 _ _ 7 ⟨rfl,rfl,rfl⟩

theorem disjointHalvesAccepted : Accepted (trustingEnv (members 4)) (members 4) (posProofBy [1,2] 7) 7 ∧
    Accepted (trustingEnv (members 4)) (members 4) (posProofBy [3,4] 8) 8 ∧
    ¬ PosQuorum (trustingEnv (members 4)) (members 4) (posProofBy [1,2] 7) 7 ∧
    signers (posProofBy [1,2] 7) ∩ signers (posProofBy [3,4] 8) = ∅ := by
  refine ⟨⟨rfl,rfl,rfl⟩,⟨rfl,rfl,rfl⟩,?_,by decide⟩
  intro quorum
  exact absurd quorum.twoThirds (by decide)

end QuantumChain.Consensus
