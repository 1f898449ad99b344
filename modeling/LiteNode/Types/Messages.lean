import LiteNode.Types.ValidatorSet

/-!
# Consensus messages

The records exchanged by the consensus protocol and the state of one height.
Heights and rounds are integers; a timestamp is kept as the bits of its
floating point number.
-/

namespace LiteNode

def protoVersionParentLegacy : Int := 3

def protoVersionCurrent : Int := 4

structure EpochHeader where
  protoVersion : Int
  chainId : Bytes
  epochId : Int
  prevStateRoot : Bytes
  txListHash : Bytes
  receiptRoot : Bytes
  proposedStateRoot : Bytes
  parentCommitHash : Bytes
  creatorAddr : Bytes
  txidHi : Int
  ts : UInt64
  deriving DecidableEq

inductive VoteType
  | prevote
  | precommit
  deriving DecidableEq

structure Vote where
  chainId : Bytes
  epochId : Int
  round : Int
  voteType : VoteType
  proposalId : Bytes
  validator : Bytes
  signature : Bytes
  deriving DecidableEq

structure CommitCertificate where
  chainId : Bytes
  epochId : Int
  commitRound : Int
  header : EpochHeader
  proposalId : Bytes
  precommits : List Vote
  deriving DecidableEq

structure ParentCommit where
  certificate : CommitCertificate
  validatorSet : ValidatorSet
  deriving DecidableEq

structure Propose where
  chainId : Bytes
  epochId : Int
  round : Int
  validRound : Option Int
  header : EpochHeader
  txHashes : List Bytes
  parentCommit : Option ParentCommit
  proposer : Bytes
  signature : Bytes
  deriving DecidableEq

structure Finalize where
  chainId : Bytes
  epochId : Int
  commitRound : Int
  header : EpochHeader
  proposalId : Bytes
  precommits : List Vote
  parentCommit : Option ParentCommit
  deriving DecidableEq

inductive RoundStep
  | proposeStep
  | prevoteStep
  | precommitStep
  deriving DecidableEq

/-- Position, lock and valid value of an engine at its height. -/
structure EngineState where
  height : Int
  round : Int
  step : RoundStep
  lockedRound : Int
  lockedValue : Option EpochHeader
  validRound : Int
  validValue : Option EpochHeader
  deriving DecidableEq

def initialEngineState (height : Int) : EngineState where
  height
  round := 0
  step := .proposeStep
  lockedRound := -1
  lockedValue := none
  validRound := -1
  validValue := none

def certificateOfFinalize (finalize : Finalize) : CommitCertificate where
  chainId := finalize.chainId
  epochId := finalize.epochId
  commitRound := finalize.commitRound
  header := finalize.header
  proposalId := finalize.proposalId
  precommits := finalize.precommits

def validRoundIsWellFormed (round : Int) : Option Int → Bool
  | none => true
  | some validRound => decide (0 ≤ validRound) && decide (validRound < round)

/-- Proposal id of a vote for no proposal. -/
def nilHash : Bytes := List.replicate 32 0

def isNil (hash : Bytes) : Bool := hash = nilHash

/-- The hash functions, the signature check and the settings of the process
that the consensus code is given from outside. -/
structure Externals where
  /-- `C_hash.proposal_id`. -/
  proposalId : EpochHeader → Bytes
  /-- `C_hash.vote_sign_bytes`. -/
  voteSignBytes : Vote → Bytes
  /-- `C_hash.propose_sign_bytes`. -/
  proposeSignBytes : Propose → Bytes
  /-- `C_hash.parent_commit_hash`. -/
  parentCommitHash : ParentCommit → Bytes
  /-- `C_engine.tx_list_hash_for_header`. -/
  txListHashForHeader : List Bytes → Bytes
  /-- `C_config.validator_set_hash`. -/
  validatorSetHash : ValidatorSet → Bytes
  /-- The digest that `weighted_leader` reads as a number. -/
  leaderDigest : ValidatorSet → Int → Int → Int
  /-- `C_hash.verify_ed25519` on a public key, a message and a signature. -/
  verifyEd25519 : Bytes → Bytes → Bytes → Bool
  /-- Activation epoch of the current header protocol. -/
  activationEpoch : Int
  /-- Base, proposal and per-round timeouts in milliseconds. -/
  timeoutBaseMs : Int
  proposeTimeoutMs : Int
  timeoutRoundMs : Int

namespace Externals

variable (ext : Externals)

/-- Header protocol in force at an epoch. -/
def versionForEpoch (epochId : Int) : Int :=
  if epochId < ext.activationEpoch then protoVersionParentLegacy
  else protoVersionCurrent

def parentCommitHashOpt : Option ParentCommit → Bytes
  | none => nilHash
  | some parent => ext.parentCommitHash parent

def verifyVote (pubkey : Bytes) (vote : Vote) : Bool :=
  ext.verifyEd25519 pubkey (ext.voteSignBytes vote) vote.signature

def verifyPropose (pubkey : Bytes) (propose : Propose) : Bool :=
  ext.verifyEd25519 pubkey (ext.proposeSignBytes propose) propose.signature

end Externals

def supportedVersion (version : Int) : Bool :=
  version = protoVersionParentLegacy || version = protoVersionCurrent

/-- First member whose accumulated weight exceeds the target. The source
raises on the empty list, which no target below the total reaches. -/
def selectLeader (vs : ValidatorSet) (target offset : Int) :
    List ValidatorInfo → Option ValidatorInfo
  | [] => none
  | validator :: rest =>
    let next := offset + (vs.weightOfAddr validator.address).getD 0
    if target < next then some validator
    else selectLeader vs target next rest

def weightedLeader (ext : Externals) (vs : ValidatorSet) (epochId round : Int) :
    Option ValidatorInfo :=
  let target := (ext.leaderDigest vs epochId round).tmod vs.totalWeight
  selectLeader vs target 0 vs.validators

/-- Leader of a round, `none` where the source raises. -/
def leaderOf (ext : Externals) (vs : ValidatorSet) (epochId round : Int) : Option ValidatorInfo :=
  if vs.n ≤ 0 ∨ round < 0 then none
  else if vs.weighted then weightedLeader ext vs epochId round
  else
    let index := (epochId.tmod vs.n + round).tmod vs.n
    if index < 0 then none else vs.validators[index.toNat]?

def proposalIsWellFormed (ext : Externals) (chainId : Bytes) (vs : ValidatorSet)
    (proposal : Propose) : Bool :=
  decide (0 < vs.n) && decide (0 ≤ proposal.round) &&
    proposal.chainId = chainId &&
    proposal.header.protoVersion = ext.versionForEpoch proposal.epochId &&
    proposal.header.chainId = proposal.chainId &&
    proposal.header.epochId = proposal.epochId &&
    validRoundIsWellFormed proposal.round proposal.validRound &&
    (leaderOf ext vs proposal.epochId proposal.round).map
      ValidatorInfo.address = some proposal.proposer &&
    match proposal.validRound with
    | none => proposal.header.creatorAddr = proposal.proposer
    | some _ => vs.isAuthor chainId proposal.epochId proposal.header.creatorAddr

end LiteNode
