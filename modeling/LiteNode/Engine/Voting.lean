import LiteNode.Engine.Rounds

/-!
# Voting

What the engine does with its own proposals, with the proposals and votes of
others, with timeouts and with finalizes.
-/

namespace LiteNode
namespace Engine

variable (ext : Externals)

def setStep (t : Engine) (step : RoundStep) : Engine := { t with state := { t.state with step } }

/-- Lock on a header in the current round, and hold it as valid value. -/
def lockOn (t : Engine) (header : EpochHeader) : Engine :=
  { t with state := { t.state with
      lockedRound := t.state.round
      lockedValue := some header
      validRound := t.state.round
      validValue := some header } }

def allowValidValueReuse (t : Engine) : Bool := decide (1 ≤ t.vs.quorum)

/-- What the prevotes of the current round decide. -/
def prevoteResult (t : Engine) : VoteAddResult :=
  VoteSet.quorumResult t.policy (t.cells.read t.prevotes) t.state.height t.vs

/-- What the precommits of the current round decide. -/
def precommitResult (t : Engine) : VoteAddResult :=
  VoteSet.quorumResult t.policy (t.cells.read t.precommits) t.state.height t.vs

def rememberPendingPrevote (t : Engine) (proposalId : Bytes) : Engine :=
  match t.pendingPrevote with
  | some _ => t
  | none =>
    if (t.cells.read t.prevotes).votes.mem t.myAddr then t
    else
      { t with
        pendingPrevote := some (t.state.height, t.state.round, proposalId) }

def scheduleStepTimeout (t : Engine) (step : RoundStep) : Engine :=
  t.emit (.scheduleTimeout step t.state.round (timeoutMs ext t.state.round step) t.generation)

def setReliefLimit (t : Engine) (limit : Option Int) : Engine :=
  let t := { t with reliefLimit := limit }
  if t.roundWait ∧ (limit.any fun stop => decide (t.state.round < stop)) ∧
      t.state.step ≠ .proposeStep then
    t.scheduleStepTimeout ext t.state.step
  else t

/-- Whether a saved vote may be taken up again in the current round. -/
def restorableVote (t : Engine) (vote : Vote) : Bool :=
  vote.validator = t.myAddr && vote.chainId = t.chainId &&
    vote.epochId = t.state.height && vote.round = t.state.round &&
    (t.conflictingVote vote).isNone &&
    (vote.voteType ≠ .precommit || isNil vote.proposalId ||
      (decide (vote.round ≤ t.state.lockedRound) &&
        t.state.lockedValue.any fun header => ext.proposalId header = vote.proposalId)) &&
    match t.vs.pubkeyOfAddr vote.validator with
    | some pubkey => ext.verifyVote pubkey vote
    | none => false

def restoreLocalVote (t : Engine) (vote : Vote) : Engine :=
  let t := (t.addVoteAt (t.voteSetFor vote.voteType) vote t.vs).1
  let t := if vote.voteType = .precommit then t.setStep .precommitStep
    else if t.state.step = .proposeStep then t.setStep .prevoteStep
    else t
  if !isNil vote.proposalId then t.emit (.requestProposal vote.round vote.proposalId)
  else t

def restoreLocalVotes (t : Engine) (votes : List Vote) : Engine × Except String Unit :=
  let kinds := votes.map Vote.voteType
  if kinds.length ≠ kinds.dedup.length ∨ !votes.all (t.restorableVote ext) then
    (t, .error "saved local round votes are invalid")
  else
    let t := votes.foldl restoreLocalVote t
    let t := if votes ≠ [] then t.emit (.requestRoundEvidence t.state.round) else t
    (t.scheduleStepTimeout ext t.state.step, .ok ())

def finalizeQuorum (t : Engine) (proposalId : Bytes) : Engine × Bool :=
  match t.findHeader proposalId with
  | none => (t, false)
  | some header => emitLocalFinalize ext t header proposalId t.state.round

def precommitNil (t : Engine) (sign : Bytes → Bytes) : Engine :=
  if t.localVotingAllowed ∧ t.state.step = .prevoteStep ∧
      (t.cells.read t.prevotes).nilQuorum t.policy t.state.height t.vs then
    let t := t.setStep .precommitStep
    match castLocalVote ext t sign .precommit nilHash with
    | (t, .cast _) | (t, .alreadySame) | (t, .deferred) => t.scheduleStepTimeout ext .precommitStep
    | (t, .conflict _) => t
  else t

/-- Cast the prevote that was remembered for this round. -/
def resumePrevote (t : Engine) (sign : Bytes → Bytes) : Engine :=
  match t.pendingPrevote with
  | some (height, round, proposalId) =>
    if height = t.state.height ∧ round = t.state.round ∧ t.canPrevote then
      let t := setStep { t with pendingPrevote := none } .prevoteStep
      match castLocalVote ext t sign .prevote proposalId with
      | (t, .cast _) | (t, .alreadySame) => t.scheduleStepTimeout ext .prevoteStep
      | (t, .conflict _) | (t, .deferred) => t
    else { t with pendingPrevote := none }
  | none => t

/-- Lock and precommit when the prevotes of this round reached a quorum. -/
def resumePrecommit (t : Engine) (sign : Bytes → Bytes) : Engine :=
  match t.prevoteResult with
  | .quorumOf proposalId =>
    if t.state.step ≠ .precommitStep ∧ !isNil proposalId then
      match t.findProposalMessage proposalId t.state.round with
      | none => t
      | some proposal =>
        let t := t.recordPolc t.state.round proposalId
        let t := (t.lockOn proposal.header).setStep .precommitStep
        match castLocalVote ext t sign .precommit proposalId with
        | (t, .cast _) | (t, .alreadySame) | (t, .deferred) =>
          t.scheduleStepTimeout ext .precommitStep
        | (t, .conflict _) => t
    else t
  | _ => t

def resumeFinalize (t : Engine) : Engine :=
  if t.finalizedHeight < t.state.height then
    match t.precommitResult with
    | .quorumOf proposalId => if !isNil proposalId then (finalizeQuorum ext t proposalId).1 else t
    | _ => t
  else t

def resumeVoting (t : Engine) (sign : Bytes → Bytes) : Engine :=
  if !t.localVotingAllowed then t
  else
    let t := t.resumePrevote ext sign
    let t := t.precommitNil ext sign
    let t := t.resumePrecommit ext sign
    t.resumeFinalize ext

def onReady (t : Engine) (sign : Bytes → Bytes) : Engine :=
  let t := t.resumeVoting ext sign
  if t.roundWait ∧ t.state.step = .prevoteStep then t.scheduleStepTimeout ext .prevoteStep
  else t

/-- Header, transactions, valid round and parent commit of a proposal. -/
abbrev Resolved := EpochHeader × List Bytes × Option Int × Option ParentCommit

/-- The valid value proposed again, or the given header. -/
def resolveProposal (t : Engine) (header : EpochHeader) (txHashes : List Bytes)
    (parentCommit : Option ParentCommit) : Option Resolved :=
  if t.allowValidValueReuse then
    match t.state.validValue with
    | some v =>
      if 0 ≤ t.state.validRound ∧ t.vs.isAuthor t.chainId t.state.height v.creatorAddr then
        let pid := ext.proposalId v
        match t.findTxHashes pid with
        | none => none
        | some cachedHashes =>
          if ext.txListHashForHeader cachedHashes ≠ v.txListHash then none
          else some (v, cachedHashes, some t.state.validRound, t.findParentCommit pid)
      else some (header, txHashes, none, parentCommit)
    | none => some (header, txHashes, none, parentCommit)
  else some (header, txHashes, none, parentCommit)

/-- The engine's own proposal in the current round, signed. -/
def signedPropose (t : EngineData) (sign : Bytes → Bytes) (resolved : Resolved) : Propose :=
  let (header, txHashes, validRound, parentCommit) := resolved
  let propose : Propose :=
    { chainId := t.chainId
      epochId := t.state.height
      round := t.state.round
      validRound
      header
      txHashes
      parentCommit
      proposer := t.myAddr
      signature := blankSignature }
  { propose with signature := sign (ext.proposeSignBytes propose) }

/-- Lock on the own proposal, precommit it, and finalize when that alone is a
quorum. -/
def precommitOwn (t : Engine) (sign : Bytes → Bytes) (header : EpochHeader)
    (proposalId : Bytes) : Engine :=
  let t := if t.policy.select t.state.height = .stake then
      t.recordPolc t.state.round proposalId
    else t
  let t := (t.lockOn header).setStep .precommitStep
  match castLocalVote ext t sign .precommit proposalId with
  | (t, .cast (.quorumOf pid)) =>
    if pid = proposalId then (emitLocalFinalize ext t header proposalId t.state.round).1
    else t.scheduleStepTimeout ext .precommitStep
  | (t, _) => t.scheduleStepTimeout ext .precommitStep

def proposeResolved (t : Engine) (sign : Bytes → Bytes) (resolved : Resolved) : Engine :=
  let (header, txHashes, _, parentCommit) := resolved
  let proposalId := ext.proposalId header
  let t := t.cacheProposalBundle proposalId header txHashes parentCommit
  let propose := signedPropose ext t.toEngineData sign resolved
  let t := t.cacheProposalMessage ext propose
  let t := { t with currentProposal := some propose }
  let t := t.emit (.sendPropose propose)
  let t := t.setStep .prevoteStep
  match castLocalVote ext t sign .prevote proposalId with
  | (t, .cast (.quorumOf pid)) =>
    if pid = proposalId then t.precommitOwn ext sign header proposalId
    else t.scheduleStepTimeout ext .prevoteStep
  | (t, .cast _) | (t, .alreadySame) => t.scheduleStepTimeout ext .prevoteStep
  | (t, .conflict _) | (t, .deferred) => t

def doPropose (t : Engine) (parentCommit : Option ParentCommit) (header : EpochHeader)
    (txHashes : List Bytes) (sign : Bytes → Bytes) : Engine :=
  if !t.localVotingAllowed then t
  else if !t.amILeader ext then t
  else if header.epochId ≠ t.state.height then t
  else if header.chainId ≠ t.chainId then t
  else if header.protoVersion ≠ ext.versionForEpoch header.epochId then t
  else if t.state.step ≠ .proposeStep then t
  else
    match t.resolveProposal ext header txHashes parentCommit with
    | none => t
    | some resolved =>
      let (header, _, _, resolvedParent) := resolved
      if ext.parentCommitHashOpt resolvedParent ≠ header.parentCommitHash then t
      else t.proposeResolved ext sign resolved

/-- Whether a proposal passes all checks, the given ones included. -/
def proposalValid (t : Engine) (p : Propose) (verify : Bytes → Bytes → Bytes → Bool)
    (execute : Propose → Bool) : Bool :=
  let proposerValid := verify p.proposer (ext.proposeSignBytes p) p.signature
  let envelopeValid := proposalIsWellFormed ext t.chainId t.vs p &&
    ext.parentCommitHashOpt p.parentCommit = p.header.parentCommitHash
  let rootValid := envelopeValid && execute p
  proposerValid && envelopeValid && rootValid

/-- Whether the header's author may be prevoted. -/
def authorOk (t : Engine) (p : Propose) : Bool :=
  let proposalId := ext.proposalId p.header
  t.vs.isValidator p.header.creatorAddr ||
    (t.state.lockedValue.any fun header => ext.proposalId header = proposalId) ||
    p.validRound.any fun round => t.polcMatches round proposalId

/-- Finalize a proposal that the precommits of this round already chose. -/
def finalizeFromCache (t : Engine) (proposalId : Bytes) : Engine × Bool :=
  if t.localVotingAllowed then
    match t.precommitResult with
    | .quorumOf pid => if pid = proposalId then finalizeQuorum ext t proposalId else (t, false)
    | _ => (t, false)
  else (t, false)

/-- Lock on an accepted proposal with a prevote quorum, and precommit it. -/
def precommitAccepted (t : Engine) (sign : Bytes → Bytes) (header : EpochHeader)
    (proposalId voteProposalId : Bytes) : Engine :=
  let t := t.recordPolc t.state.round proposalId
  let t := (t.lockOn header).setStep .precommitStep
  match castLocalVote ext t sign .precommit voteProposalId with
  | (t, .cast (.quorumOf _)) => (emitLocalFinalize ext t header voteProposalId t.state.round).1
  | (t, _) => t.scheduleStepTimeout ext .precommitStep

def prevoteProposal (t : Engine) (sign : Bytes → Bytes) (p : Propose) (accept : Bool) : Engine :=
  let proposalId := ext.proposalId p.header
  let voteProposalId := if accept then proposalId else nilHash
  let t := t.setStep .prevoteStep
  let (t, prevoteOutcome) := castLocalVote ext t sign .prevote voteProposalId
  let proposalQuorum : Bool := match t.prevoteResult with
    | .quorumOf pid => decide (pid = voteProposalId)
    | _ => false
  if accept ∧ proposalQuorum then t.precommitAccepted ext sign p.header proposalId voteProposalId
  else
    let t := match prevoteOutcome with
      | .cast _ | .alreadySame => t.scheduleStepTimeout ext .prevoteStep
      | .conflict _ | .deferred => t
    t.precommitNil ext sign

def followHigherRound (t : Engine) (round : Int) (validator : Bytes) : Engine :=
  if t.state.round < round then
    ((t.recordHigherRound (some maxRoundAhead) round validator).tryRoundSkip ext).1
  else t

/-- Keep a valid proposal, and ask for the proof that would unlock it. -/
def keepProposal (t : Engine) (p : Propose) (accept lockOk : Bool) : Engine :=
  let t := t.cacheProposalMessage ext p
  let t := if accept then { t with currentProposal := some p } else t
  if lockOk then t
  else
    match p.validRound with
    | some round => t.requestPolc round
    | none => t

def onCurrentPropose (t : Engine) (p : Propose) (verify : Bytes → Bytes → Bytes → Bool)
    (execute : Propose → Bool) (sign : Bytes → Bytes) : Engine :=
  let proposalId := ext.proposalId p.header
  let valid := t.proposalValid ext p verify execute
  let lockOk := valid && t.authorOk ext p &&
    t.lockAllows ext proposalId p.validRound
  let accept := valid && lockOk
  let t := if valid then t.keepProposal ext p accept lockOk else t
  let (t, finalizedFromCache) := if valid then t.finalizeFromCache ext proposalId else (t, false)
  if finalizedFromCache then t
  else if !t.canPrevote then t
  else if !t.localVotingAllowed then
    t.rememberPendingPrevote (if accept then proposalId else nilHash)
  else t.prevoteProposal ext sign p accept

def onPropose (t : Engine) (p : Propose) (verify : Bytes → Bytes → Bytes → Bool)
    (execute : Propose → Bool) (sign : Bytes → Bytes) : Engine :=
  if p.epochId ≤ t.finalizedHeight then t
  else if p.epochId ≠ t.state.height then t
  else if t.state.round + maxRoundAhead < p.round then t
  else
    let t := t.followHigherRound ext p.round p.proposer
    if p.round ≠ t.state.round then t
    else t.onCurrentPropose ext p verify execute sign

def findKnownHeader (t : EngineData) (proposalId : Bytes) : Option EpochHeader :=
  match t.findHeader proposalId with
  | some header => some header
  | none =>
    match t.currentProposal with
    | some p =>
      if ext.proposalId p.header = proposalId then some p.header
      else knownValue
    | none => knownValue
where
  /-- The locked or the valid value, when it has the proposal id. -/
  knownValue : Option EpochHeader :=
    match t.state.lockedValue with
    | some header =>
      if ext.proposalId header = proposalId then some header
      else knownValid
    | none => knownValid
  /-- The valid value, when it has the proposal id. -/
  knownValid : Option EpochHeader :=
    match t.state.validValue with
    | some header => if ext.proposalId header = proposalId then some header else none
    | none => none

/-- Ask for the proposal of a counted vote that is not known. -/
def requestMissing (t : Engine) (vote : Vote) (result : VoteAddResult) : Engine :=
  match missingProposalRequest
      (t.findProposalMessage vote.proposalId vote.round).isSome vote result with
  | some (round, proposalId) => t.emit (.requestProposal round proposalId)
  | none => t

def finalizeCounted (t : Engine) (result : VoteAddResult) (round : Int) : Engine :=
  match result with
  | .quorumOf proposalId =>
    if t.localVotingAllowed then
      match findKnownHeader ext t.toEngineData proposalId with
      | none => t
      | some header => (emitLocalFinalize ext t header proposalId round).1
    else t
  | _ => t

def recordHistoricalPrecommit (t : Engine) (vote : Vote) : Engine :=
  if 0 ≤ vote.round ∧ vote.round < t.state.round ∧ t.roundRetained vote.round then
    let (t, votes) := t.precommitsAt vote.round
    let (t, result) := t.addVoteAt votes vote t.vs
    let t := t.requestMissing vote result
    t.finalizeCounted ext result vote.round
  else t

/-- Precommit the proposal id that the prevotes of this round chose. -/
def precommitChosen (t : Engine) (sign : Bytes → Bytes) (proposalId : Bytes) : Engine :=
  if t.localVotingAllowed then
    let t := t.setStep .precommitStep
    match castLocalVote ext t sign .precommit proposalId with
    | (t, .cast _) | (t, .alreadySame) | (t, .deferred) => t.scheduleStepTimeout ext .precommitStep
    | (t, .conflict _) => t
  else t

def onCurrentPrevote (t : Engine) (v : Vote) (sign : Bytes → Bytes) : Engine :=
  let (t, result) := t.addVoteAt t.prevotes v t.vs
  let t := t.learnPrevote t.vs t.prevotes v
  let t := t.requestMissing v result
  match result with
  | .quorumOf proposalId =>
    if t.state.step = .prevoteStep then
      if isNil proposalId then t.precommitChosen ext sign proposalId
      else
        match t.findProposalMessage proposalId t.state.round with
        | none => t
        | some accepted => (t.lockOn accepted.header).precommitChosen ext sign proposalId
    else t
  | .quorumAny =>
    if t.state.step = .prevoteStep then t.scheduleStepTimeout ext .prevoteStep
    else t
  | _ => t

def onCurrentPrecommit (t : Engine) (v : Vote) : Engine :=
  let (t, result) := t.addVoteAt t.precommits v t.vs
  let t := t.requestMissing v result
  t.finalizeCounted ext result t.state.round

/-- Whether the precommits chose a proposal whose header is not known. -/
def waitingHeader (t : Engine) : Bool :=
  match t.precommitResult with
  | .quorumOf pid => !isNil pid && (findKnownHeader ext t.toEngineData pid).isNone
  | _ => false

/-- Timers that a vote of the current round may start. -/
def scheduleAfterVote (t : Engine) : Engine :=
  let t := if t.roundWait ∧ t.state.step = .prevoteStep then
      t.scheduleStepTimeout ext .prevoteStep
    else t
  if t.roundWait ∧ t.votesReachQuorum (t.cells.read t.precommits) ∧
      !t.waitingHeader ext ∧ t.finalizedHeight < t.state.height then
    (t.setStep .precommitStep).scheduleStepTimeout ext .precommitStep
  else t

def onVote (t : Engine) (v : Vote) (sign : Bytes → Bytes) : Engine :=
  if v.epochId ≤ t.finalizedHeight then t
  else if v.epochId ≠ t.state.height then t
  else if v.round < 0 then t
  else if t.state.round + maxRoundAhead < v.round then t
  else if v.round < t.state.round then
    match v.voteType with
    | .prevote => t.recordHistoricalPrevote v
    | .precommit => t.recordHistoricalPrecommit ext v
  else
    let t := t.followHigherRound ext v.round v.validator
    if v.round ≠ t.state.round then t
    else
      let t := match v.voteType with
        | .prevote => t.onCurrentPrevote ext v sign
        | .precommit => t.onCurrentPrecommit ext v
      t.scheduleAfterVote ext

/-- Whether another value is locked from the round of a finalize on. -/
def lockConflict (t : Engine) (f : Finalize) : Bool :=
  match t.state.lockedValue with
  | some header =>
    decide (f.proposalId ≠ ext.proposalId header) &&
      decide (f.commitRound ≤ t.state.lockedRound)
  | none => false

/-- Take over a finalize that was checked elsewhere. -/
def acceptFinalizeBatch (t : Engine) (f : Finalize) : Engine × Bool :=
  if f.epochId < t.finalizedHeight then (t, false)
  else if f.epochId = t.finalizedHeight then
    match t.pendingFinalized with
    | some pending => (t, sameFinalize pending f)
    | none => (t, false)
  else if f.epochId ≠ t.state.height then (t, false)
  else if f.proposalId ≠ ext.proposalId f.header then (t, false)
  else if t.lockConflict ext f then (t, false)
  else
    let t := t.cacheProposalHeaderOnly f.proposalId f.header
    let t := t.recordPolc f.commitRound f.proposalId
    let t := { t with state := { t.state with
      lockedRound := max t.state.lockedRound f.commitRound
      lockedValue := some f.header
      validRound := max t.state.lockedRound f.commitRound
      validValue := some f.header } }
    t.emitFinalized false f

def timeoutPropose (t : Engine) (sign : Bytes → Bytes) : Engine :=
  let t := t.setStep .prevoteStep
  let t := match castLocalVote ext t sign .prevote nilHash with
    | (t, .cast _) | (t, .alreadySame) => t.scheduleStepTimeout ext .prevoteStep
    | (t, .conflict _) | (t, .deferred) => t
  t.precommitNil ext sign

/-- Precommit nil when no proposal gathered a quorum in time. -/
def timeoutPrevote (t : Engine) (sign : Bytes → Bytes) : Engine :=
  let t := t.setStep .precommitStep
  match castLocalVote ext t sign .precommit nilHash with
  | (t, .cast _) | (t, .alreadySame) => t.scheduleStepTimeout ext .precommitStep
  | (t, .conflict _) | (t, .deferred) => t

def onTimeout (t : Engine) (step : RoundStep) (round generation : Int)
    (sign : Bytes → Bytes) : Engine :=
  if generation ≠ t.generation then t
  else if round ≠ t.state.round then t
  else if step ≠ t.state.step then t
  else if !t.timerAllowed step then
    { t with voteTimers := t.voteTimers.filter fun prior => prior ≠ step }
  else if step = .proposeStep ∧ t.localVotingAllowed then t.timeoutPropose ext sign
  else if step = .prevoteStep ∧ t.localVotingAllowed then t.timeoutPrevote ext sign
  else if !t.roundWait then startRound ext t (t.state.round + 1)
  else
    match step with
    | .proposeStep => t.emit (.scheduleTimeout step round (timeoutMs ext round step) generation)
    | .prevoteStep => (t.setStep .precommitStep).scheduleStepTimeout ext .precommitStep
    | .precommitStep => startRound ext t (t.state.round + 1)

end Engine
end LiteNode
