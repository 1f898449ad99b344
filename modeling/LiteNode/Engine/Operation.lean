import LiteNode.Engine.Voting

/-!
# Operations and runs

The entry points through which the rest of the node changes an engine, and the
runs that they make up.
-/

namespace LiteNode

/-- A call that changes the engine, with its arguments. -/
inductive Operation
  | doPropose (parentCommit : Option ParentCommit) (header : EpochHeader)
      (txHashes : List Bytes) (sign : Bytes → Bytes)
  | onPropose (p : Propose) (verify : Bytes → Bytes → Bytes → Bool)
      (execute : Propose → Bool) (sign : Bytes → Bytes)
  | onVote (v : Vote) (sign : Bytes → Bytes)
  | onTimeout (step : RoundStep) (round generation : Int) (sign : Bytes → Bytes)
  | onRoundSync (round : Int) (validator : Bytes)
  | resumeVoting (sign : Bytes → Bytes)
  | onReady (sign : Bytes → Bytes)
  | restoreLocalVotes (votes : List Vote)
  | restorePrecommitLock (proposal : Propose)
  | realignRound (round : Int)
  | startHeight (height : Int)
  | replaceValidatorSet (vs : ValidatorSet)
  | reconfigureValidatorSet (round : Int) (vs : ValidatorSet)
  | learnPastProposal (p : Propose) (execute : Propose → Bool)
  | acceptFinalizeBatch (f : Finalize)
  | recordHistoricalPrevote (vote : Vote)
  | recordPolc (round : Int) (proposalId : Bytes)
  | tryRoundSkip
  | tryRoundStep
  | setReliefLimit (limit : Option Int)
  | setProofSearch (round : Option Int)
  | setCanVote (canVote : Bool)
  | setRoundSkipReady (ready : Bool)
  | drainOutputs
  | ackFinalized (f : Finalize)

namespace Operation

/-- The engine after a call. -/
def apply (ext : Externals) (t : Engine) : Operation → Engine
  | .doPropose parentCommit header txHashes sign =>
    t.doPropose ext parentCommit header txHashes sign
  | .onPropose p verify execute sign => t.onPropose ext p verify execute sign
  | .onVote v sign => t.onVote ext v sign
  | .onTimeout step round generation sign => t.onTimeout ext step round generation sign
  | .onRoundSync round validator => (t.onRoundSync ext round validator).1
  | .resumeVoting sign => t.resumeVoting ext sign
  | .onReady sign => t.onReady ext sign
  | .restoreLocalVotes votes => (t.restoreLocalVotes ext votes).1
  | .restorePrecommitLock proposal => (t.restorePrecommitLock ext proposal).1
  | .realignRound round => (t.realignRound ext round).1
  | .startHeight height => t.startHeight ext height
  | .replaceValidatorSet vs => t.replaceValidatorSet ext vs
  | .reconfigureValidatorSet round vs => (t.reconfigureValidatorSet ext round vs).1
  | .learnPastProposal p execute => (t.learnPastProposal ext p execute).1
  | .acceptFinalizeBatch f => (t.acceptFinalizeBatch ext f).1
  | .recordHistoricalPrevote vote => t.recordHistoricalPrevote vote
  | .recordPolc round proposalId => t.recordPolc round proposalId
  | .tryRoundSkip => (t.tryRoundSkip ext).1
  | .tryRoundStep => (t.tryRoundStep ext).1
  | .setReliefLimit limit => t.setReliefLimit ext limit
  | .setProofSearch round => { t with proofSearch := round }
  | .setCanVote canVote => { t with canVote }
  | .setRoundSkipReady ready => { t with roundSkipReady := ready }
  | .drainOutputs => t.drainOutputs.1
  | .ackFinalized f => (t.ackFinalized f).1

end Operation

namespace Engine

variable (ext : Externals)

/-- The engine after a list of calls. -/
def run (t : Engine) (operations : List Operation) : Engine :=
  operations.foldl (Operation.apply ext) t

/-- One call that meets a condition on the engine and the call. -/
def Calls (allowed : Engine → Operation → Prop) (t t' : Engine) : Prop :=
  ∃ operation, allowed t operation ∧ t' = operation.apply ext t

/-- Any number of calls that meet a condition. -/
abbrev Reaches (allowed : Engine → Operation → Prop) : Engine → Engine → Prop :=
  Relation.ReflTransGen (Calls ext allowed)

/-- Every call of a list meets a condition when its turn comes. -/
def Meets (allowed : Engine → Operation → Prop) (t : Engine) : List Operation → Prop
  | [] => True
  | operation :: rest => allowed t operation ∧ Meets allowed (operation.apply ext t) rest

variable {ext} {allowed stronger : Engine → Operation → Prop} {t t' : Engine}

/-- A run whose calls meet the condition one after another reaches its end. -/
theorem reaches_run {operations : List Operation} (meets : Meets ext allowed t operations) :
    Reaches ext allowed t (t.run ext operations) := by
  induction operations generalizing t with
  | nil => exact Relation.ReflTransGen.refl
  | cons operation rest ih =>
    exact Relation.ReflTransGen.head ⟨operation, meets.1, rfl⟩ (ih meets.2)

/-- What every allowed call keeps holds in every state that is reached. -/
theorem Reaches.invariant (reaches : Reaches ext allowed t t') (invariant : Engine → Prop)
    (start : invariant t) (keeps : ∀ t operation, invariant t → allowed t operation →
      invariant (operation.apply ext t)) :
    invariant t' := by
  induction reaches with
  | refl => exact start
  | tail _ call ih =>
    obtain ⟨operation, allows, rfl⟩ := call
    exact keeps _ operation ih allows

end Engine

/-- Hash functions and checks for concrete runs: a proposal id is the proposed
state root, a set's hash lists its weights, and every signature verifies. -/
def Externals.plain : Externals where
  proposalId header := header.proposedStateRoot
  voteSignBytes vote := vote.proposalId
  proposeSignBytes propose := propose.header.proposedStateRoot
  parentCommitHash parent := parent.certificate.proposalId
  txListHashForHeader hashes := hashes.flatten
  validatorSetHash vs :=
    let entries := match vs.authors with
      | some (_, entries) => entries.map fun entry => (entry.1.address, entry.2)
      | none => []
    (vs.weights ++ entries).flatMap fun entry => entry.1 ++ [UInt8.ofNat entry.2.toNat]
  leaderDigest _ _ round := round
  verifyEd25519 _ _ _ := true
  activationEpoch := 0
  timeoutBaseMs := 5000
  proposeTimeoutMs := 5000
  timeoutRoundMs := 1000

/-- Like `plain`, with proposal ids that are never the nil hash. -/
def Externals.tagged : Externals :=
  { Externals.plain with
    proposalId := fun header => 1 :: header.proposedStateRoot }

/-- Signature of a member with a one-byte address. -/
def plainSign (name : UInt8) (_ : Bytes) : Bytes := List.replicate 64 name

/-- Whether the signature of a vote is its voter's. -/
def plainVerify (vote : Vote) : Bool := vote.signature = vote.validator.flatMap (List.replicate 64)

/-- Member with a one-byte address. -/
def ValidatorInfo.plain (name : UInt8) : ValidatorInfo := ⟨[name], List.replicate 32 name⟩

/-- Weighted set of members with one-byte addresses. -/
def ValidatorSet.plain (entries : List (UInt8 × Int)) : ValidatorSet :=
  buildValidatorSet true (entries.map fun entry => (ValidatorInfo.plain entry.1, entry.2))

/-- Signed vote of a member with a one-byte address. -/
def Vote.plain (chainId : Bytes) (epochId round : Int) (voteType : VoteType)
    (proposalId : Bytes) (name : UInt8) : Vote :=
  ⟨chainId, epochId, round, voteType, proposalId, [name], List.replicate 64 name⟩

/-- Header of the current protocol without transactions. -/
def EpochHeader.plain (chainId : Bytes) (epochId : Int) (stateRoot : Bytes)
    (creator : UInt8) : EpochHeader where
  protoVersion := protoVersionCurrent
  chainId
  epochId
  prevStateRoot := nilHash
  txListHash := []
  receiptRoot := nilHash
  proposedStateRoot := stateRoot
  parentCommitHash := nilHash
  creatorAddr := [creator]
  txidHi := 0
  ts := 0

/-- New proposal of a member with a one-byte address. -/
def Propose.plain (chainId : Bytes) (epochId round : Int) (stateRoot : Bytes)
    (name : UInt8) : Propose where
  chainId
  epochId
  round
  validRound := none
  header := .plain chainId epochId stateRoot name
  txHashes := []
  parentCommit := none
  proposer := [name]
  signature := List.replicate 64 name

/-- Set of members with one-byte addresses that weigh one each. -/
def ValidatorSet.plainCount (names : List UInt8) : ValidatorSet :=
  makeValidatorSet (names.map ValidatorInfo.plain)

/-- A proposal given to an engine that finds it valid. -/
def Operation.propose (p : Propose) : Operation :=
  .onPropose p (fun _ _ _ => true) (fun _ => true) id

end LiteNode
