import LiteNode.Data.Cells
import LiteNode.Engine.VoteSet

/-!
# Engine state

The mutable record of the consensus engine. Vote sets live in cells, so that
the current vote set and the one stored for the current round can be the same
object. Every output is also kept with the data under which it was emitted;
the engine never reads that history.
-/

namespace LiteNode

def maxRoundAhead : Int := 64

def maxSyncAhead : Int := 1024

def roundHistoryLimit : Int := 64

def maxTimeoutMs : Int := 120000

def maxProposeTimeoutMs : Int := 300000

/-- `Epoch_time.proposal_wait_budget_ms`. -/
def proposalWaitBudgetMs : Int := 15000

/-- Largest native integer of the source. -/
def maxInt : Int := 2 ^ 62 - 1

inductive Output
  | sendPropose (propose : Propose)
  | sendVote (vote : Vote) (proposal : Option Propose)
  | sendFinalize (finalize : Finalize)
  | requestProposal (round : Int) (proposalId : Bytes)
  | requestRoundEvidence (round : Int)
  | scheduleTimeout (step : RoundStep) (round delayMs generation : Int)
  | finalized (epochId : Int) (finalize : Finalize)

def missingProposalRequest (proposalKnown : Bool) (vote : Vote) (result : VoteAddResult) :
    Option (Int × Bytes) :=
  match result with
  | .duplicate | .rejected => none
  | .added | .quorumAny | .quorumOf _ =>
    if isNil vote.proposalId || proposalKnown then none
    else some (vote.round, vote.proposalId)

def timeoutMsWith (round : Int) (step : RoundStep) (base propose perRound : Int) : Int :=
  let (stepBase, cap) := match step with
    | .proposeStep => (max propose proposalWaitBudgetMs, maxProposeTimeoutMs)
    | .prevoteStep | .precommitStep => (base, maxTimeoutMs)
  min cap (stepBase + max 0 round * perRound)

def timeoutMs (ext : Externals) (round : Int) (step : RoundStep) : Int :=
  timeoutMsWith round step ext.timeoutBaseMs ext.proposeTimeoutMs ext.timeoutRoundMs

structure ProposalCacheEntry where
  header : EpochHeader
  txHashes : Option (List Bytes)
  parentCommit : Option ParentCommit

/-- The fields of the engine that hold votes, locks and proposals. -/
structure EngineData where
  chainId : Bytes
  policy : QuorumPolicy
  myAddr : Bytes
  vs : ValidatorSet
  state : EngineState
  cells : Cells VoteSet
  prevotes : Ref
  prevotesByRound : Table Int Ref
  sourcePrevotes : Table Int Ref
  precommits : Ref
  precommitsByRound : Table Int Ref
  currentProposal : Option Propose
  proposalCache : Table Bytes ProposalCacheEntry
  proposalMessages : Table (Bytes × Int) Propose
  polcByRound : Table Int Bytes
  finalizedHeight : Int
  pendingFinalized : Option Finalize

/-- The engine. `canVote` and `roundSkipReady` are the answers that the two
callbacks of the source give during a call. -/
structure Engine extends EngineData where
  pendingPrevote : Option (Int × Int × Bytes)
  polcRequests : Table Int Int
  proofSearch : Option Int
  higherRoundEvidence : Table Bytes Int
  outputs : List Output
  voteTimers : List RoundStep
  reliefLimit : Option Int
  generation : Int
  canVote : Bool
  roundSkipReady : Bool
  history : List (EngineData × Output)

namespace Engine

def createForPolicy (policy : QuorumPolicy) (chainId myAddr : Bytes) (vs : ValidatorSet)
    (startHeight : Int) (canVote : Bool) : Engine where
  chainId
  policy
  myAddr
  vs
  state := initialEngineState startHeight
  cells := ⟨[createVoteSet, createVoteSet]⟩
  prevotes := 0
  prevotesByRound := (∅ : Table Int Ref).replace 0 0
  sourcePrevotes := ∅
  precommits := 1
  precommitsByRound := (∅ : Table Int Ref).replace 0 1
  currentProposal := none
  proposalCache := ∅
  proposalMessages := ∅
  polcByRound := ∅
  finalizedHeight := startHeight - 1
  pendingFinalized := none
  pendingPrevote := none
  polcRequests := ∅
  proofSearch := none
  higherRoundEvidence := ∅
  outputs := []
  voteTimers := []
  reliefLimit := none
  generation := 0
  canVote
  roundSkipReady := true
  history := []

def create (chainId myAddr : Bytes) (vs : ValidatorSet) (startHeight : Int)
    (canVote : Bool) : Engine :=
  createForPolicy (QuorumPolicy.forChain chainId) chainId myAddr vs startHeight canVote

def isPristine (t : Engine) : Bool :=
  t.generation = 0 && t.state.round = 0 && t.state.step = .proposeStep &&
    t.currentProposal.isNone && (t.cells.read t.prevotes).votes.length = 0 &&
    (t.cells.read t.precommits).votes.length = 0 &&
    t.pendingFinalized.isNone && t.outputs.isEmpty

def cacheProposalBundle
    (t : Engine) (pid : Bytes) (header : EpochHeader) (txHashes : List Bytes)
    (parentCommit : Option ParentCommit) : Engine :=
  { t with
    proposalCache := t.proposalCache.replace pid ⟨header, some txHashes, parentCommit⟩ }

def cacheProposalHeaderOnly (t : Engine) (pid : Bytes) (header : EpochHeader) : Engine :=
  if t.proposalCache.mem pid then t
  else
    { t with
      proposalCache := t.proposalCache.replace pid ⟨header, none, none⟩ }

end Engine

namespace EngineData

def findHeader (t : EngineData) (pid : Bytes) : Option EpochHeader :=
  (t.proposalCache.find? pid).map ProposalCacheEntry.header

def findTxHashes (t : EngineData) (pid : Bytes) : Option (List Bytes) :=
  (t.proposalCache.find? pid).bind ProposalCacheEntry.txHashes

def findParentCommit (t : EngineData) (pid : Bytes) : Option ParentCommit :=
  (t.proposalCache.find? pid).bind ProposalCacheEntry.parentCommit

def findProposalMessage (t : EngineData) (proposalId : Bytes) (round : Int) : Option Propose :=
  t.proposalMessages.find? (proposalId, round)

end EngineData

namespace Engine

variable (ext : Externals)

def promoteKnownHeader (t : Engine) (round : Int) (proposalId : Bytes) : Engine :=
  if max t.state.validRound t.state.lockedRound < round then
    match t.findHeader proposalId with
    | none => t
    | some header =>
      { t with state := { t.state with
          validRound := round
          validValue := some header } }
  else t

def recordPolc (t : Engine) (round : Int) (proposalId : Bytes) : Engine :=
  if isNil proposalId then t
  else
    promoteKnownHeader
      { t with
        polcByRound := t.polcByRound.replace round proposalId
        polcRequests := t.polcRequests.remove round }
      round proposalId

def promoteCachedPolc (t : Engine) (proposalId : Bytes) : Engine :=
  t.polcByRound.toList.foldl
    (fun t entry =>
      if entry.2 = proposalId then promoteKnownHeader t entry.1 proposalId
      else t)
    t

def cacheProposalMessage (t : Engine) (proposal : Propose) : Engine :=
  let pid := ext.proposalId proposal.header
  let t := t.cacheProposalBundle pid proposal.header proposal.txHashes proposal.parentCommit
  let t := { t with proposalMessages := t.proposalMessages.replace (pid, proposal.round) proposal }
  t.promoteCachedPolc pid

def votesReachQuorum (t : Engine) (votes : VoteSet) : Bool :=
  t.vs.quorumReachedAt t.policy t.state.height votes.countTotal votes.weightTotal

/-- Whether timers wait for a quorum of votes at the engine's height. -/
def roundWait (t : Engine) : Bool := t.policy.roundWait t.state.height

def timerAllowed (t : Engine) (step : RoundStep) : Bool :=
  if !t.roundWait then true
  else if t.reliefLimit.any fun limit => decide (t.state.round < limit) then true
  else
    match step with
    | .proposeStep => true
    | .prevoteStep => t.votesReachQuorum (t.cells.read t.prevotes)
    | .precommitStep => t.votesReachQuorum (t.cells.read t.precommits)

/-- Append an output, keeping the data it is emitted under. -/
def push (t : Engine) (output : Output) : Engine :=
  { t with
    outputs := output :: t.outputs
    history := (t.toEngineData, output) :: t.history }

def emit (t : Engine) (output : Output) : Engine :=
  match output with
  | .scheduleTimeout step _ _ _ =>
    if step ≠ .proposeStep ∧ t.roundWait then
      if t.timerAllowed step && decide (step ∉ t.voteTimers) then
        push { t with voteTimers := step :: t.voteTimers } output
      else t
    else t.push output
  | _ => t.push output

def sameFinalize (left right : Finalize) : Bool :=
  left.epochId = right.epochId && left.proposalId = right.proposalId

def finalizedOutput (finalize : Finalize) : Output := .finalized finalize.epochId finalize

def outputHasFinalize (finalize : Finalize) : Output → Bool
  | .finalized _ pending => sameFinalize pending finalize
  | _ => false

/-- Take the outputs in the order of emission; a pending finalize is repeated
until it is acknowledged. -/
def drainOutputs (t : Engine) : Engine × List Output :=
  let out := t.outputs.reverse
  let t := { t with outputs := [] }
  match t.pendingFinalized with
  | some finalize =>
    if out.any (outputHasFinalize finalize) then (t, out)
    else (t, out ++ [finalizedOutput finalize])
  | none => (t, out)

def ackFinalized (t : Engine) (finalize : Finalize) : Engine × Bool :=
  match t.pendingFinalized with
  | some pending =>
    if sameFinalize pending finalize then ({ t with pendingFinalized := none }, true)
    else (t, false)
  | none => (t, false)

inductive LocalVoteOutcome
  | cast (result : VoteAddResult)
  | alreadySame
  | conflict (prior : Vote)
  | deferred

def voteSetFor (t : Engine) : VoteType → Ref
  | .prevote => t.prevotes
  | .precommit => t.precommits

def voteSetForRound (t : Engine) (voteType : VoteType) (round : Int) : Option Ref :=
  match voteType with
  | .prevote => t.prevotesByRound.find? round
  | .precommit => t.precommitsByRound.find? round

def conflictingVote (t : Engine) (vote : Vote) : Option Vote :=
  if vote.epochId ≠ t.state.height then none
  else
    match t.voteSetForRound vote.voteType vote.round with
    | none => none
    | some ref =>
      match (t.cells.read ref).votes.find? vote.validator with
      | some prior => if prior.proposalId ≠ vote.proposalId then some prior else none
      | none => none

end Engine

/-- Proposal id of the locked value, empty when there is none. -/
def EngineState.lockedPid (ext : Externals) (state : EngineState) : Bytes :=
  match state.lockedValue with
  | some header => ext.proposalId header
  | none => []

/-- Whether the lock lets a proposal be prevoted. -/
def EngineData.lockAllows (ext : Externals) (t : EngineData) (proposalId : Bytes)
    (validRound : Option Int) : Bool :=
  if t.state.lockedRound < 0 then true
  else if proposalId = t.state.lockedPid ext then true
  else
    match validRound with
    | none => false
    | some round =>
      if round ≤ t.state.lockedRound then false
      else if t.state.round ≤ round then false
      else decide (t.polcByRound.find? round = some proposalId)

namespace Engine

variable (ext : Externals)

def localPrevote (t : Engine) (proposalId : Bytes) : Bytes :=
  let validRound := (t.findProposalMessage proposalId t.state.round).bind Propose.validRound
  if isNil proposalId || t.lockAllows ext proposalId validRound then proposalId
  else nilHash

def addVoteAt (t : Engine) (ref : Ref) (v : Vote) (vs : ValidatorSet) : Engine × VoteAddResult :=
  let counted := (t.cells.read ref).addVote t.policy v vs
  ({ t with cells := t.cells.write ref counted.1 }, counted.2)

def blankSignature : Bytes := List.replicate 64 0

/-- The engine's own vote in the current round, signed. -/
def signedVote (t : EngineData) (sign : Bytes → Bytes) (voteType : VoteType)
    (proposalId : Bytes) : Vote :=
  let vote : Vote :=
    { chainId := t.chainId
      epochId := t.state.height
      round := t.state.round
      voteType
      proposalId
      validator := t.myAddr
      signature := blankSignature }
  { vote with signature := sign (ext.voteSignBytes vote) }

/-- Proposal id that the engine votes for when asked for another. -/
def votedPid (t : Engine) (voteType : VoteType) (proposalId : Bytes) : Bytes :=
  match voteType with
  | .prevote => t.localPrevote ext proposalId
  | .precommit => proposalId

def castLocalVote (t : Engine) (sign : Bytes → Bytes) (voteType : VoteType)
    (proposalId : Bytes) : Engine × LocalVoteOutcome :=
  let proposalId := t.votedPid ext voteType proposalId
  let ref := t.voteSetFor voteType
  match (t.cells.read ref).votes.find? t.myAddr with
  | some prior =>
    if prior.proposalId = proposalId then (t, .alreadySame)
    else (t, .conflict prior)
  | none =>
    let proposal := if voteType = .precommit ∧ !isNil proposalId then
        t.findProposalMessage proposalId t.state.round
      else none
    if voteType = .precommit ∧ !isNil proposalId ∧ proposal.isNone then
      (t.emit (.requestProposal t.state.round proposalId), .deferred)
    else
      let vote := signedVote ext t.toEngineData sign voteType proposalId
      let (t, result) := t.addVoteAt ref vote t.vs
      (t.emit (.sendVote vote proposal), .cast result)

def precommitsForPid (t : EngineData) (round : Int) (pid : Bytes) : List Vote :=
  match t.precommitsByRound.find? round with
  | none => []
  | some ref =>
    sortByKey Vote.validator
      ((t.cells.read ref).votes.values.filter fun vote =>
        vote.voteType = .precommit && vote.proposalId = pid)

inductive FinalizeBlock
  | parentCommitMissing
  | parentCommitMismatch

def parentCommitForFinalize (t : EngineData) (header : EpochHeader) (proposalId : Bytes) :
    Except FinalizeBlock (Option ParentCommit) :=
  let parentCommit := t.findParentCommit proposalId
  if ext.parentCommitHashOpt parentCommit = header.parentCommitHash then .ok parentCommit
  else if parentCommit.isNone then .error .parentCommitMissing
  else .error .parentCommitMismatch

def makeFinalize (t : EngineData) (header : EpochHeader) (proposalId : Bytes)
    (round : Int) : Except FinalizeBlock Finalize :=
  (parentCommitForFinalize ext t header proposalId).map fun parentCommit =>
    { chainId := t.chainId
      epochId := t.state.height
      commitRound := round
      header
      proposalId
      precommits := precommitsForPid t round proposalId
      parentCommit }

def emitFinalized (t : Engine) (send : Bool) (finalize : Finalize) : Engine × Bool :=
  match t.pendingFinalized with
  | some pending => (t, sameFinalize pending finalize)
  | none =>
    let t := { t with
      finalizedHeight := finalize.epochId
      pendingFinalized := some finalize }
    (if send then t.emit (.sendFinalize finalize) else t, true)

def emitLocalFinalize (t : Engine) (header : EpochHeader) (proposalId : Bytes) (round : Int) :
    Engine × Bool :=
  match makeFinalize ext t.toEngineData header proposalId round with
  | .ok finalize => t.emitFinalized true finalize
  | .error _ => (t.emit (.requestProposal round proposalId), false)

def amILeader (t : Engine) : Bool :=
  (leaderOf ext t.vs t.state.height t.state.round).map ValidatorInfo.address = some t.myAddr

def amIValidator (t : Engine) : Bool := t.vs.isValidator t.myAddr

def localVotingAllowed (t : Engine) : Bool := t.amIValidator && t.canVote

def canPrevote (t : Engine) : Bool :=
  match t.state.step with
  | .proposeStep | .prevoteStep => true
  | .precommitStep => false

end Engine
end LiteNode
