import LiteNode.Types.Hashing
import LiteNode.Validators.Registry

/-!
# Evidence of double votes

Two votes of one slot for different proposals prove a fault. Evidence is named
by the hash of both votes, so evidence of one chain with the same name is about
the same epoch.
-/

/-! ## Encoded messages -/

namespace LiteNode

open Oce1

def voteTypeToU8 : VoteType → Int
  | .prevote => 1
  | .precommit => 2

def encodeVote (v : Vote) : Except String Bytes := do
  let proposalId ← putHash32 v.proposalId
  .ok (putString v.chainId ++ (putU64 v.epochId ++ (putU32Int v.round ++
    (putU8 (voteTypeToU8 v.voteType) ++ (proposalId ++
      (putString v.validator ++ putBytes v.signature))))))

theorem encodeVote_start {v : Vote} {wire : Bytes} (written : encodeVote v = .ok wire) :
    ∃ rest, wire = putString v.chainId ++ (putU64 v.epochId ++ rest) := by
  obtain ⟨proposalId, -, written⟩ := bind_eq_ok written
  exact ⟨_, (Except.ok.inj written).symm⟩

structure VoteConflict where
  first : Vote
  second : Vote
  deriving DecidableEq

def sameSlot (left right : Vote) : Bool :=
  left.chainId = right.chainId && left.epochId = right.epochId &&
    left.round = right.round && left.voteType = right.voteType &&
    left.validator = right.validator

/-- Whether a vote comes first in a conflict. -/
def voteLe (left right : Vote) : Bool :=
  if left.proposalId = right.proposalId then left.signature ≤ right.signature
  else left.proposalId ≤ right.proposalId

/-- The conflict of two votes, in the order of their proposals. -/
def voteConflict (left right : Vote) : Option VoteConflict :=
  if !sameSlot left right || left.proposalId = right.proposalId then none
  else if voteLe left right then some ⟨left, right⟩
  else some ⟨right, left⟩

def verifyVoteConflict (ext : Externals) (pubkey : Bytes) (evidence : VoteConflict) : Bool :=
  match voteConflict evidence.first evidence.second with
  | none => false
  | some canonical =>
    canonical = evidence && ext.verifyVote pubkey evidence.first &&
      ext.verifyVote pubkey evidence.second

open Oce1 in
def voteConflictId (sha256 : Bytes → Bytes) (evidence : VoteConflict) : Except String Bytes := do
  let first ← encodeVote evidence.first
  let second ← encodeVote evidence.second
  .ok (tagged sha256 "octra:vote_conflict:v1" (putString first ++ putString second))

/-- What the checks of evidence are given from outside. -/
structure EvidenceContext where
  texts : Texts
  ext : Externals
  sha256 : Bytes → Bytes
  chainId : Bytes

def verifyEvidence (ctx : EvidenceContext) (currentEpoch evidenceEpochs bondedEpoch : Int)
    (address pubkey : Bytes) (conflict : VoteConflict) : Except String VerifiedEvidence :=
  let vote := conflict.first
  let evidenceEpoch := vote.epochId
  if evidenceEpochs ≤ 0 then .error "validator evidence window is not positive"
  else if vote.chainId ≠ ctx.chainId then .error "validator evidence chain mismatch"
  else if vote.validator ≠ address then .error "validator evidence offender mismatch"
  else if evidenceEpoch < bondedEpoch then .error "validator evidence predates current bond"
  else if currentEpoch < evidenceEpoch then .error "validator evidence epoch is in the future"
  else if evidenceEpochs ≤ int64Sub currentEpoch evidenceEpoch then
    .error "validator evidence expired"
  else if !verifyVoteConflict ctx.ext pubkey conflict then
    .error "invalid validator evidence signatures"
  else
    (voteConflictId ctx.sha256 conflict).map fun id =>
      { id := ctx.texts.encode id, offender := address, evidenceEpoch }

/-- What accepted evidence says. -/
structure EvidenceHolds
    (ctx : EvidenceContext) (currentEpoch evidenceEpochs bondedEpoch : Int)
    (address : Bytes) (conflict : VoteConflict) (evidence : VerifiedEvidence) :
    Prop where
  chainId : conflict.first.chainId = ctx.chainId
  offender : evidence.offender = address
  evidenceEpoch : evidence.evidenceEpoch = conflict.first.epochId
  bonded : bondedEpoch ≤ evidence.evidenceEpoch
  past : evidence.evidenceEpoch ≤ currentEpoch
  recent : int64Sub currentEpoch evidence.evidenceEpoch < evidenceEpochs
  named : ∃ raw, voteConflictId ctx.sha256 conflict = .ok raw ∧ evidence.id = ctx.texts.encode raw

theorem evidenceHolds_of_verifyEvidence
    {ctx : EvidenceContext} {currentEpoch evidenceEpochs bondedEpoch : Int}
    {address pubkey : Bytes} {conflict : VoteConflict} {evidence : VerifiedEvidence}
    (verified : verifyEvidence ctx currentEpoch evidenceEpochs bondedEpoch
      address pubkey conflict = .ok evidence) :
    EvidenceHolds ctx currentEpoch evidenceEpochs bondedEpoch address conflict evidence := by
  unfold verifyEvidence at verified
  simp only [ite_error_eq_ok_iff, not_le, not_lt, ne_eq, not_not] at verified
  obtain ⟨-, chain, -, bonded, past, recent, -, verified⟩ := verified
  obtain ⟨raw, named, rfl⟩ := map_eq_ok verified
  exact ⟨chain, rfl, rfl, bonded, past, recent, raw, named, rfl⟩

/-- Equal names of evidence of one chain name equal epochs. -/
theorem evidenceEpoch_of_id {ctx : EvidenceContext} (ideal : IdealHash ctx.sha256)
    (faithful : ctx.texts.Faithful) {currentEpoch evidenceEpochs bondedEpoch : Int}
    {currentEpoch' evidenceEpochs' bondedEpoch' : Int}
    {address address' : Bytes} {conflict conflict' : VoteConflict}
    {evidence evidence' : VerifiedEvidence}
    (holds : EvidenceHolds ctx currentEpoch evidenceEpochs bondedEpoch address
      conflict evidence) (holds' : EvidenceHolds ctx currentEpoch' evidenceEpochs' bondedEpoch'
      address' conflict' evidence') (same : evidence.id = evidence'.id) :
    evidence.evidenceEpoch % 2 ^ 64 = evidence'.evidenceEpoch % 2 ^ 64 := by
  obtain ⟨raw, named, encoded⟩ := holds.named
  obtain ⟨raw', named', encoded'⟩ := holds'.named
  rw [encoded, encoded'] at same
  have decoded := congrArg ctx.texts.decode same
  rw [faithful.decode_encode, faithful.decode_encode] at decoded
  cases decoded
  obtain ⟨first, writtenFirst, named⟩ := bind_eq_ok named
  obtain ⟨second, -, named⟩ := bind_eq_ok named
  obtain ⟨first', writtenFirst', named'⟩ := bind_eq_ok named'
  obtain ⟨second', -, named'⟩ := bind_eq_ok named'
  have payloads := (tagged_inj ideal rfl
    ((Except.ok.inj named).trans (Except.ok.inj named').symm)).2
  obtain ⟨rest, start⟩ := encodeVote_start writtenFirst
  obtain ⟨rest', start'⟩ := encodeVote_start writtenFirst'
  rw [start, start', holds.chainId, holds'.chainId] at payloads
  unfold Oce1.putString Oce1.putBytes at payloads
  simp only [List.append_assoc] at payloads
  obtain ⟨-, payloads⟩ := Oce1.append_inj_of_length (Oce1.length_putUint 4 _)
    (Oce1.length_putUint 4 _) payloads
  have payloads := List.append_cancel_left payloads
  have payloads := List.append_cancel_left payloads
  obtain ⟨epochs, -⟩ := Oce1.append_inj_of_length (Oce1.length_putUint 8 _)
    (Oce1.length_putUint 8 _) payloads
  rw [holds.evidenceEpoch, holds'.evidenceEpoch]
  exact Oce1.putUint_inj epochs

end LiteNode
