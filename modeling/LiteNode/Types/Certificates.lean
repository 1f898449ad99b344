import LiteNode.Types.Authors
import LiteNode.Types.QuorumIntersection

/-!
# Certificates

The checks of a commit certificate and of a finalize, in the order of the
source, and what they amount to. A certificate is checked against the set that
counts at its epoch, a finalize also against the protocol version and the
commit of its parent.
-/

namespace LiteNode

inductive Verdict
  | valid
  | invalid (reason : String)
  deriving DecidableEq

/-- Whether no two neighbours of a list are equal. -/
def distinctNeighbours : List Bytes → Bool
  | first :: second :: rest =>
    if first = second then false else distinctNeighbours (second :: rest)
  | _ => true

/-- Whether all addresses are distinct. -/
def unique (addrs : List Bytes) : Bool := distinctNeighbours (sortByKey id addrs)

/-- In a sorted list equal elements are neighbours. -/
theorem distinctNeighbours_iff {addrs : List Bytes} (ordered : addrs.Pairwise (· ≤ ·)) :
    distinctNeighbours addrs = true ↔ addrs.Nodup := by
  induction addrs using distinctNeighbours.induct with
  | case1 second rest => simp [distinctNeighbours]
  | case2 first second rest different ih =>
    obtain ⟨first_le, ordered'⟩ := List.pairwise_cons.mp ordered
    rw [distinctNeighbours, if_neg different, ih ordered',
      List.nodup_cons (a := first), List.mem_cons, not_or]
    refine ⟨fun distinct => ⟨⟨different, fun repeated => ?_⟩, distinct⟩, And.right⟩
    have second_le := (List.pairwise_cons.mp ordered').1 first repeated
    exact different ((first_le second List.mem_cons_self).antisymm second_le)
  | case3 addrs short =>
    match addrs, short with
    | [], _ => simp [distinctNeighbours]
    | [_], _ => simp [distinctNeighbours]
    | first :: second :: rest, short => exact absurd rfl (short _ _ _)

theorem unique_iff {addrs : List Bytes} : unique addrs = true ↔ addrs.Nodup := by
  rw [unique, distinctNeighbours_iff (sortByKey_pairwise id addrs)]
  exact (sortByKey_perm id addrs).nodup_iff

/-- Whether a vote is one that a certificate may list. -/
def voteOk (chainId : Bytes) (epochId round : Int) (proposalId : Bytes) (vote : Vote) : Bool :=
  vote.chainId = chainId && vote.epochId = epochId && vote.round = round &&
    vote.voteType = .precommit && vote.proposalId = proposalId

theorem voteOk_iff {chainId proposalId : Bytes} {epochId round : Int} {vote : Vote} :
    voteOk chainId epochId round proposalId vote = true ↔
      vote.chainId = chainId ∧ vote.epochId = epochId ∧ vote.round = round ∧
        vote.voteType = .precommit ∧ vote.proposalId = proposalId := by
  simp [voteOk, and_assoc]

section Checks

variable (ext : Externals) (policy : QuorumPolicy)

def validateCertificateWithPolicy (strictQuorum : Bool) (chainId : Bytes) (vs : ValidatorSet)
    (verifyVote : Vote → Bool) (certificate : CommitCertificate) : Verdict :=
  if certificate.chainId ≠ chainId then .invalid "chain_id"
  else
    let voteSet := validatorSetForEpoch policy certificate.epochId vs
    if certificate.header.chainId ≠ certificate.chainId then .invalid "header_chain_id"
    else if certificate.header.epochId ≠ certificate.epochId then .invalid "header_epoch"
    else if certificate.header.protoVersion ≠ protoVersionParentLegacy ∧
        certificate.header.protoVersion ≠ protoVersionCurrent then
      .invalid "header_proto_version"
    else if !voteSet.isAuthor chainId certificate.epochId
        certificate.header.creatorAddr then
      .invalid "header_creator"
    else if isNil certificate.proposalId then .invalid "nil_proposal"
    else if certificate.proposalId ≠ ext.proposalId certificate.header then .invalid "proposal_id"
    else
      let addrs := certificate.precommits.map Vote.validator
      if !unique addrs then .invalid "duplicate_validator"
      else
        let policyOk := vs.hasQuorumAt policy certificate.epochId addrs
        let strictOk := !strictQuorum ||
          policy.select certificate.epochId = .prior || voteSet.hasQuorum addrs
        if !(policyOk && strictOk) then .invalid "quorum"
        else if certificate.precommits.any fun vote =>
            !voteOk certificate.chainId certificate.epochId
              certificate.commitRound certificate.proposalId vote then
          .invalid "vote_fields"
        else if certificate.precommits.any fun vote =>
            !voteSet.isValidator vote.validator then
          .invalid "validator"
        else if certificate.precommits.any fun vote => !verifyVote vote then .invalid "signature"
        else .valid

def validateFinalizeWith
    (versionValid : Finalize → Bool) (strictQuorum : Bool) (chainId : Bytes)
    (vs : ValidatorSet) (verifyVote : Vote → Bool) (finalize : Finalize) : Verdict :=
  if !versionValid finalize then .invalid "header_proto_version"
  else if ext.parentCommitHashOpt finalize.parentCommit ≠ finalize.header.parentCommitHash then
    .invalid "parent_commit_hash"
  else
    validateCertificateWithPolicy ext policy strictQuorum chainId vs verifyVote
      (certificateOfFinalize finalize)

def validateFinalize : Bytes → ValidatorSet → (Vote → Bool) → Finalize → Verdict :=
  validateFinalizeWith ext policy
    (fun finalize => finalize.header.protoVersion = ext.versionForEpoch finalize.epochId)
    false

def validatePersistedFinalize : Bytes → ValidatorSet → (Vote → Bool) → Finalize → Verdict :=
  validateFinalizeWith ext policy
    (fun finalize => supportedVersion finalize.header.protoVersion) false

end Checks

structure CertificateHolds
    (ext : Externals) (policy : QuorumPolicy) (chainId : Bytes)
    (vs : ValidatorSet) (verifyVote : Vote → Bool)
    (certificate : CommitCertificate) : Prop where
  sameChain : certificate.chainId = chainId
  headerChain : certificate.header.chainId = certificate.chainId
  headerEpoch : certificate.header.epochId = certificate.epochId
  version : supportedVersion certificate.header.protoVersion = true
  author : (validatorSetForEpoch policy certificate.epochId vs).isAuthor chainId
    certificate.epochId certificate.header.creatorAddr = true
  proper : isNil certificate.proposalId = false
  named : certificate.proposalId = ext.proposalId certificate.header
  distinct : (certificate.precommits.map Vote.validator).Nodup
  quorum : vs.hasQuorumAt policy certificate.epochId
    (certificate.precommits.map Vote.validator) = true
  votes : ∀ vote ∈ certificate.precommits,
    voteOk certificate.chainId certificate.epochId certificate.commitRound
      certificate.proposalId vote = true
  members : ∀ vote ∈ certificate.precommits,
    (validatorSetForEpoch policy certificate.epochId vs).isValidator vote.validator = true
  signed : ∀ vote ∈ certificate.precommits, verifyVote vote = true

variable {ext : Externals} {policy : QuorumPolicy} {chainId : Bytes}
variable {vs : ValidatorSet} {verifyVote : Vote → Bool}

theorem not_any_not_iff {check : Vote → Bool} {votes : List Vote} :
    ¬ (votes.any fun vote => !check vote) = true ↔ ∀ vote ∈ votes, check vote = true := by
  simp

/-- A check that fails settles the verdict. -/
theorem ite_invalid_eq_valid_iff {failed : Prop} [Decidable failed]
    {reason : String} {rest : Verdict} :
    (if failed then .invalid reason else rest) = .valid ↔ ¬ failed ∧ rest = .valid := by
  by_cases fails : failed <;> simp [fails]

theorem validateCertificate_eq_valid_iff {certificate : CommitCertificate} :
    validateCertificateWithPolicy ext policy false chainId vs verifyVote
        certificate = .valid ↔
      CertificateHolds ext policy chainId vs verifyVote certificate := by
  unfold validateCertificateWithPolicy
  iterate 12 rw [ite_invalid_eq_valid_iff]
  constructor
  · rintro ⟨sameChain, headerChain, headerEpoch, version, author, proper,
      named, distinct, quorum, votes, members, signed, -⟩
    exact
      { sameChain := not_not.mp sameChain
        headerChain := not_not.mp headerChain
        headerEpoch := not_not.mp headerEpoch
        version := by
          simp only [supportedVersion, Bool.or_eq_true, decide_eq_true_eq]
          by_contra neither
          exact version (not_or.mp neither)
        author := by simpa using author
        proper := by simpa using proper
        named := not_not.mp named
        distinct := unique_iff.mp (by simpa using distinct)
        quorum := by simpa using quorum
        votes := not_any_not_iff.mp votes
        members := not_any_not_iff.mp members
        signed := not_any_not_iff.mp signed }
  · intro holds
    have supported := holds.version
    simp only [supportedVersion, Bool.or_eq_true, decide_eq_true_eq] at supported
    exact ⟨not_not.mpr holds.sameChain, not_not.mpr holds.headerChain,
      not_not.mpr holds.headerEpoch, fun neither => supported.elim neither.1 neither.2,
      by simpa using holds.author, by simp [holds.proper],
      not_not.mpr holds.named, by simpa using unique_iff.mpr holds.distinct,
      by simpa using holds.quorum, not_any_not_iff.mpr holds.votes,
      not_any_not_iff.mpr holds.members, not_any_not_iff.mpr holds.signed, rfl⟩

structure FinalizeHolds
    (ext : Externals) (policy : QuorumPolicy) (chainId : Bytes)
    (vs : ValidatorSet) (verifyVote : Vote → Bool) (finalize : Finalize) :
    Prop where
  inForce : finalize.header.protoVersion = ext.versionForEpoch finalize.epochId
  parent : ext.parentCommitHashOpt finalize.parentCommit = finalize.header.parentCommitHash
  certificate : CertificateHolds ext policy chainId vs verifyVote (certificateOfFinalize finalize)

theorem validateFinalize_eq_valid_iff {finalize : Finalize} :
    validateFinalize ext policy chainId vs verifyVote finalize = .valid ↔
      FinalizeHolds ext policy chainId vs verifyVote finalize := by
  unfold validateFinalize validateFinalizeWith
  iterate 2 rw [ite_invalid_eq_valid_iff]
  rw [validateCertificate_eq_valid_iff]
  constructor
  · rintro ⟨inForce, parent, holds⟩
    exact ⟨by simpa using inForce, not_not.mp parent, holds⟩
  · intro holds
    exact ⟨by simpa using holds.inForce, not_not.mpr holds.parent, holds.certificate⟩

theorem certificateHolds_of_validatePersistedFinalize {finalize : Finalize}
    (valid : validatePersistedFinalize ext policy chainId vs verifyVote finalize = .valid) :
    CertificateHolds ext policy chainId vs verifyVote (certificateOfFinalize finalize) := by
  unfold validatePersistedFinalize validateFinalizeWith at valid
  iterate 2 rw [ite_invalid_eq_valid_iff] at valid
  exact validateCertificate_eq_valid_iff.mp valid.2.2

theorem supportedVersion_versionForEpoch (ext : Externals) (epochId : Int) :
    supportedVersion (ext.versionForEpoch epochId) = true := by
  unfold Externals.versionForEpoch
  split <;> rfl

namespace ValidatorSet

/-- Extra authors do not change how a set counts. -/
theorem validatorSetForRule_authors (rule : QuorumRule) (vs : ValidatorSet)
    (authors : Option (Int × List (ValidatorInfo × Int))) :
    ∃ authors', LiteNode.validatorSetForRule rule { vs with authors } =
      { LiteNode.validatorSetForRule rule vs with authors := authors' } := by
  cases rule with
  | prior => exact ⟨authors, rfl⟩
  | stake => exact ⟨authors, rfl⟩
  | capped =>
    unfold LiteNode.validatorSetForRule LiteNode.countCappedSet
    simp only
    split
    · exact ⟨authors, rfl⟩
    · exact ⟨none, rfl⟩

/-- The set that counts at an epoch differs in its authors only from the set
that counts under the epoch's rule. -/
theorem validatorSetForEpoch_eq (policy : QuorumPolicy) (epochId : Int) (vs : ValidatorSet) :
    ∃ authors, validatorSetForEpoch policy epochId vs =
      { LiteNode.validatorSetForRule (policy.select epochId) vs with
        authors } := by
  unfold validatorSetForEpoch
  simp only
  split
  · split
    · exact validatorSetForRule_authors _ vs none
    · exact ⟨_, rfl⟩
  · exact ⟨_, rfl⟩

theorem weightsValid_validatorSetForEpoch (policy : QuorumPolicy)
    (epochId : Int) (vs : ValidatorSet) :
    weightsValid (policy.select epochId)
        (validatorSetForEpoch policy epochId vs) =
      weightsValid (policy.select epochId) vs := by
  obtain ⟨authors, equal⟩ := validatorSetForEpoch_eq policy epochId vs
  rw [equal]
  cases policy.select epochId <;> rfl

/-- Signers whose number and weight reach the quorum of the counting set are a
quorum of the set. -/
theorem hasQuorumAt_of_reached {epochId weight : Int} {addrs : List Bytes}
    (weighs : (validatorSetForEpoch policy epochId vs).signedWeight addrs =
      some weight) (reached : (validatorSetForEpoch policy epochId vs).quorumReachedAt policy
      epochId (uniqueSignerCount addrs) weight = true) :
    vs.hasQuorumAt policy epochId addrs = true := by
  unfold quorumReachedAt at reached
  rw [weightsValid_validatorSetForEpoch] at reached
  obtain ⟨authors, equal⟩ := validatorSetForEpoch_eq policy epochId vs
  rw [signedWeight_eq_some_iff, equal] at weighs
  rw [equal] at reached
  unfold hasQuorumAt hasQuorumForRule
  generalize policy.select epochId = rule at weighs reached ⊢
  simp only [Bool.and_eq_true, Bool.or_eq_true, decide_eq_true_eq] at reached ⊢
  obtain ⟨⟨valid, weight_le⟩, counted⟩ := reached
  have weighs' : (LiteNode.validatorSetForRule rule vs).signedWeight addrs = some weight :=
    signedWeight_eq_some_iff.mpr weighs
  refine ⟨valid, ?_⟩
  cases rule with
  | prior =>
    simp only [hasWeightQuorum, weighs']
    exact decide_eq_true weight_le
  | capped | stake =>
    have count_le := counted.resolve_left (by decide)
    simp only [hasQuorum, weighs', hasQuorumValues, Bool.and_eq_true]
    exact ⟨decide_eq_true count_le, decide_eq_true weight_le⟩

theorem Sound.validatorSetForEpoch (sound : vs.Sound) (policy : QuorumPolicy) (epochId : Int) :
    (LiteNode.validatorSetForEpoch policy epochId vs).Sound := by
  obtain ⟨authors, equal⟩ := validatorSetForEpoch_eq policy epochId vs
  have counting := (sound.validatorSetForRule (policy.select epochId)).1
  rw [equal]
  exact { counting with }

end ValidatorSet
end LiteNode
