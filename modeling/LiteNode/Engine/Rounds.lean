import LiteNode.Engine.State

/-!
# Rounds, heights and validator sets

How the engine opens a round, moves to a height and counts its votes again for
another validator set, and how it learns of votes and proposals of past rounds.
-/

namespace LiteNode
namespace Engine

variable (ext : Externals)

def roundRetained (t : Engine) (round : Int) : Bool :=
  let recentFloor := max 0 (t.state.round - roundHistoryLimit)
  decide (recentFloor ≤ round) || round = t.state.lockedRound ||
    round = t.state.validRound || t.polcRequests.mem round ||
    t.proofSearch = some round

def oldestPolcRequest (t : Engine) : Option Int :=
  t.polcRequests.toList.foldl
    (fun oldest entry =>
      match oldest with
      | none => some entry.1
      | some value => some (min value entry.1))
    none

def rememberPolcRequest (t : Engine) (round : Int) : Engine × Bool :=
  if round < 0 ∨ t.state.round ≤ round ∨ round ≤ t.state.lockedRound ∨
      t.polcByRound.mem round then (t, false)
  else if t.polcRequests.mem round then (t, true)
  else
    let requests := if roundHistoryLimit ≤ t.polcRequests.length then
        match t.oldestPolcRequest with
        | some oldest => t.polcRequests.remove oldest
        | none => t.polcRequests
      else t.polcRequests
    ({ t with polcRequests := requests.replace round (-1) }, true)

def emitPolcRequest (t : Engine) (round : Int) : Engine :=
  emit { t with polcRequests := t.polcRequests.replace round t.state.round }
    (.requestRoundEvidence round)

def requestPolc (t : Engine) (round : Int) : Engine :=
  let (t, remembered) := t.rememberPolcRequest round
  if remembered then
    match t.polcRequests.find? round with
    | some lastSent => if lastSent < t.state.round then t.emitPolcRequest round else t
    | none => t
  else t

def leastRecentPolcRequest (t : Engine) (except : Option Int) : Option (Int × Int) :=
  t.polcRequests.toList.foldl
    (fun selected entry =>
      if some entry.1 = except ∨ t.state.round ≤ entry.2 then selected
      else
        match selected with
        | none => some entry
        | some best =>
          if entry.2 < best.2 ∨ (entry.2 = best.2 ∧ best.1 < entry.1) then some entry
          else selected)
    none

def retryPolcRequest (t : Engine) (except : Option Int) : Engine :=
  match t.leastRecentPolcRequest except with
  | none => t
  | some (round, _) =>
    let t := t.emit (.requestRoundEvidence round)
    { t with polcRequests := t.polcRequests.replace round t.state.round }

def pruneRoundHistory (t : Engine) : Engine :=
  { t with
    prevotesByRound := t.prevotesByRound.filterKeys t.roundRetained
    sourcePrevotes := t.sourcePrevotes.filterKeys t.roundRetained
    precommitsByRound := t.precommitsByRound.filterKeys t.roundRetained }

def startRound (t : Engine) (round : Int) : Engine :=
  let prevotes := t.cells.size
  let precommits := t.cells.size + 1
  let t := { t with
    cells := (t.cells.alloc createVoteSet).alloc createVoteSet
    voteTimers := []
    state := { t.state with round, step := .proposeStep } }
  let previous := if 0 < round then some (round - 1) else none
  let t := match previous with
    | some round => t.requestPolc round
    | none => t
  let t := t.retryPolcRequest previous
  let t := { t with
    prevotes
    prevotesByRound := t.prevotesByRound.replace round prevotes
    precommits
    precommitsByRound := t.precommitsByRound.replace round precommits }
  let t := t.pruneRoundHistory
  let t := { t with currentProposal := none, pendingPrevote := none }
  t.emit (.scheduleTimeout .proposeStep round (timeoutMs ext round .proposeStep) t.generation)

/-- Move to a later round; the source raises when the round does not
advance. -/
def realignRound (t : Engine) (round : Int) : Engine × Except String Unit :=
  if round ≤ t.state.round then (t, .error "consensus round must advance")
  else (startRound ext { t with generation := t.generation + 1 } round, .ok ())

/-! ## Changing the validator set -/

/-- Count every table of votes again, in fresh cells. -/
def projectRounds (policy : QuorumPolicy) (vs : ValidatorSet) (cells : Cells VoteSet)
    (rounds : Table Int Ref) : Cells VoteSet × Table Int Ref :=
  rounds.toList.foldl
    (fun (projected : Cells VoteSet × Table Int Ref) entry =>
      (projected.1.alloc
          (VoteSet.projectVotes policy vs (projected.1.read entry.2)),
        projected.2.replace entry.1 projected.1.size))
    (cells, ∅)

def projectedPolc (t : Engine) (vs : ValidatorSet) (rounds : Table Int Ref) : Table Int Bytes :=
  rounds.toList.foldl
    (fun polc entry =>
      match VoteSet.quorumPid t.policy t.state.height vs (t.cells.read entry.2) with
      | some proposalId => polc.replace entry.1 proposalId
      | none => polc)
    ∅

/-- Latest round with a quorum of precommits, and its proposal id. -/
def projectedFinalize (t : Engine) (vs : ValidatorSet) (rounds : Table Int Ref) :
    Option (Int × Bytes) :=
  rounds.toList.foldl
    (fun found entry =>
      match VoteSet.quorumPid t.policy t.state.height vs (t.cells.read entry.2), found with
      | none, _ => found
      | some proposalId, none => some (entry.1, proposalId)
      | some proposalId, some (priorRound, priorId) =>
        if priorRound < entry.1 ∨ (entry.1 = priorRound ∧ proposalId < priorId) then
          some (entry.1, proposalId)
        else found)
    none

/-- Cell of the source votes of a round, created when there is none. -/
def sourceVotesAt (t : Engine) (round : Int) : Engine × Ref :=
  match t.sourcePrevotes.find? round with
  | some saved => (t, saved)
  | none =>
    let saved := t.cells.size
    ({ t with
      cells := t.cells.alloc createVoteSet
      sourcePrevotes := t.sourcePrevotes.replace round saved }, saved)

def addSourceVotes (t : Engine) (source : ValidatorSet) (round : Int) (ref : Ref) : Engine :=
  let (t, saved) := t.sourceVotesAt round
  let votes := VoteSet.addVotes t.policy source (t.cells.read saved)
    (t.cells.read ref).votes.values
  { t with cells := t.cells.write saved votes }

/-- Count the prevotes of every round for the source set. -/
def saveSourceVotes (t : Engine) (source : ValidatorSet) : Engine :=
  t.prevotesByRound.toList.foldl (fun t entry => t.addSourceVotes source entry.1 entry.2) t

/-- Tables, proof-of-lock records and valid value for a new set. -/
structure Projection where
  prevotes : Table Int Ref
  precommits : Table Int Ref
  polc : Table Int Bytes
  validRound : Int
  validValue : Option EpochHeader

/-- Valid value that the records of a projection still support. -/
def supportedValid (t : Engine) (polc : Table Int Bytes) : Int × Option EpochHeader :=
  match t.state.validValue with
  | some header =>
    if 0 ≤ t.state.validRound ∧ polc.find? t.state.validRound = some (ext.proposalId header) then
      (t.state.validRound, some header)
    else (-1, none)
  | none => (-1, none)

/-- Valid value after a projection, the locked one when that is later. -/
def projectedValid (t : Engine) (polc : Table Int Bytes) : Int × Option EpochHeader :=
  let valid := supportedValid ext t polc
  if valid.1 < t.state.lockedRound then (t.state.lockedRound, t.state.lockedValue)
  else valid

def projectedState (t : Engine) (vs : ValidatorSet) : Engine × Projection :=
  let prevotes := projectRounds t.policy vs t.cells t.prevotesByRound
  let precommits := projectRounds t.policy vs prevotes.1 t.precommitsByRound
  let source := vs.sourceSet t.chainId t.state.height
  let t := { t with cells := precommits.1 }
  let polc := t.projectedPolc vs prevotes.2
  let saved : Engine × Table Int Bytes := match source with
    | none => (t, polc)
    | some source =>
      let t := t.saveSourceVotes source
      (t, (t.projectedPolc source t.sourcePrevotes).toList.foldl
        (fun polc entry => polc.replace entry.1 entry.2) polc)
  let valid := projectedValid ext saved.1 saved.2
  (saved.1, ⟨prevotes.2, precommits.2, saved.2, valid.1, valid.2⟩)

/-- Cell of a round's votes, created when the table has none. -/
def currentVotes (cells : Cells VoteSet) (rounds : Table Int Ref) (round : Int) :
    Cells VoteSet × Table Int Ref × Ref :=
  match rounds.find? round with
  | some votes => (cells, rounds, votes)
  | none => (cells.alloc createVoteSet, rounds.replace round cells.size, cells.size)

def replaceValidatorSet (t : Engine) (vs : ValidatorSet) : Engine :=
  if ext.validatorSetHash t.vs = ext.validatorSetHash vs then { t with vs }
  else
    let (t, projection) := projectedState ext t vs
    let (cells, prevotesByRound, prevotes) := currentVotes t.cells projection.prevotes t.state.round
    let (cells, precommitsByRound, precommits) :=
      currentVotes cells projection.precommits t.state.round
    { t with
      cells
      prevotesByRound
      precommitsByRound
      prevotes
      precommits
      polcByRound := projection.polc
      polcRequests := ∅
      higherRoundEvidence := ∅
      state := { t.state with
        validRound := projection.validRound
        validValue := projection.validValue }
      vs }

/-- Change the set and move to a later round; the source raises when the round
does not advance. -/
def reconfigureValidatorSet (t : Engine) (round : Int) (vs : ValidatorSet) :
    Engine × Except String Unit :=
  if round ≤ t.state.round then (t, .error "consensus reconfiguration round must advance")
  else
    let (t, projection) := projectedState ext t vs
    let finalize := t.projectedFinalize vs projection.precommits
    let t := { t with
      vs
      generation := t.generation + 1
      outputs := []
      state := { t.state with
        validRound := projection.validRound
        validValue := projection.validValue }
      polcByRound := projection.polc
      polcRequests := ∅
      prevotesByRound := projection.prevotes
      precommitsByRound := projection.precommits
      higherRoundEvidence := ∅ }
    let t := match finalize with
      | some (commitRound, proposalId) =>
        match t.findHeader proposalId with
        | some header => (emitLocalFinalize ext t header proposalId commitRound).1
        | none => t.emit (.requestProposal commitRound proposalId)
      | none => t
    (startRound ext t round, .ok ())

/-- Round after the last one in which the engine itself voted. -/
def afterVotes (t : Engine) (rounds : Table Int Ref) (minimum : Int) : Int :=
  rounds.toList.foldl
    (fun minimum entry =>
      if (t.cells.read entry.2).votes.mem t.myAddr then max minimum (entry.1 + 1)
      else minimum)
    minimum

def startHeight (t : Engine) (height : Int) : Engine :=
  let sameHeight := decide (height = t.state.height)
  let round := if !sameHeight then 0
    else
      t.afterVotes t.precommitsByRound
        (t.afterVotes t.prevotesByRound (max t.state.round (t.state.lockedRound + 1)))
  let t := { t with generation := t.generation + 1, outputs := [] }
  let t := if !sameHeight then
      { t with
        reliefLimit := none
        state := initialEngineState height
        proposalCache := ∅
        proposalMessages := ∅ }
    else t
  let t := { t with polcRequests := ∅ }
  let t := if !sameHeight then
      { t with
        proofSearch := none
        polcByRound := ∅
        prevotesByRound := ∅
        sourcePrevotes := ∅
        precommitsByRound := ∅ }
    else t
  let t := { t with higherRoundEvidence := ∅ }
  startRound ext t round

def polcMatches (t : Engine) (round : Int) (proposalId : Bytes) : Bool :=
  match t.polcByRound.find? round with
  | some known => known = proposalId
  | none => false

def pastProposalNeeded (t : Engine) (p : Propose) : Bool :=
  p.chainId = t.chainId && p.epochId = t.state.height &&
    decide (0 ≤ p.round) && decide (p.round < t.state.round) &&
    decide (max t.state.validRound t.state.lockedRound < p.round) &&
    t.polcMatches p.round (ext.proposalId p.header) &&
    (t.findProposalMessage (ext.proposalId p.header) p.round).isNone

end Engine

/-- Whether a proposal is well formed and signed for a set. -/
def proofProposalCheck (ext : Externals) (chainId : Bytes) (p : Propose) (vs : ValidatorSet) :
    Bool :=
  proposalIsWellFormed ext chainId vs p &&
    (vs.pubkeyOfAddr p.proposer).any fun pubkey => ext.verifyPropose pubkey p

def proofProposalValid (ext : Externals) (chainId : Bytes) (vs : ValidatorSet) (p : Propose) :
    Bool :=
  ext.txListHashForHeader p.txHashes = p.header.txListHash &&
    ext.parentCommitHashOpt p.parentCommit = p.header.parentCommitHash &&
    (proofProposalCheck ext chainId p vs ||
      (vs.sourceSet chainId p.epochId).any (proofProposalCheck ext chainId p))

namespace Engine

variable (ext : Externals)

def learnPastProposal (t : Engine) (p : Propose) (execute : Propose → Bool) : Engine × Bool :=
  if t.pastProposalNeeded ext p && proofProposalValid ext t.chainId t.vs p &&
      execute p then (t.cacheProposalMessage ext p, true)
  else (t, false)

def prevoteQuorum (t : Engine) (vs : ValidatorSet) (votes : VoteSet) (vote : Vote) : Bool :=
  vote.chainId = t.chainId && vote.epochId = t.state.height &&
    vote.voteType = .prevote && !isNil vote.proposalId &&
    votes.votes.find? vote.validator = some vote &&
    vs.quorumReachedAt t.policy t.state.height
      (votes.countForPid vote.proposalId) (votes.weightForPid vote.proposalId)

def learnPrevote (t : Engine) (vs : ValidatorSet) (ref : Ref) (vote : Vote) : Engine :=
  if t.prevoteQuorum vs (t.cells.read ref) vote then t.recordPolc vote.round vote.proposalId
  else t

/-- Cell of the prevotes of a round, created when there is none. -/
def prevotesAt (t : Engine) (round : Int) : Engine × Ref :=
  match t.prevotesByRound.find? round with
  | some votes => (t, votes)
  | none =>
    ({ t with
      cells := t.cells.alloc createVoteSet
      prevotesByRound := t.prevotesByRound.replace round t.cells.size }, t.cells.size)

/-- Cell of the precommits of a round, created when there is none. -/
def precommitsAt (t : Engine) (round : Int) : Engine × Ref :=
  match t.precommitsByRound.find? round with
  | some votes => (t, votes)
  | none =>
    ({ t with
      cells := t.cells.alloc createVoteSet
      precommitsByRound := t.precommitsByRound.replace round t.cells.size }, t.cells.size)

def recordHistoricalPrevote (t : Engine) (vote : Vote) : Engine :=
  if 0 ≤ vote.round ∧ (vote.round < t.state.round ∨ (vote.round = t.state.round ∧ t.roundWait)) ∧
      (t.roundRetained vote.round ∨
        (t.policy.select t.state.height = .stake ∧ t.polcMatches vote.round vote.proposalId)) then
    let t := match t.vs.sourceSet t.chainId t.state.height with
      | none => t
      | some source =>
        let (t, saved) := t.sourceVotesAt vote.round
        let t := (t.addVoteAt saved vote source).1
        t.learnPrevote source saved vote
    let (t, votes) := t.prevotesAt vote.round
    let t := (t.addVoteAt votes vote t.vs).1
    t.learnPrevote t.vs votes vote
  else t

/-- Whether the lock of a saved proposal is already in place. -/
def restoredPrecommitLock (t : Engine) (proposal : Propose) : Bool :=
  proposal.epochId = t.state.height &&
    t.state.lockedRound = proposal.round &&
    decide (proposal.round + (if t.roundWait then 0 else 1) ≤ t.state.round) &&
    t.state.lockedValue.any fun header => ext.proposalId header = ext.proposalId proposal.header

/-- Take up the lock of a saved proposal. When the source raises because the
round after the proposal's does not advance, the lock stays. -/
def restorePrecommitLock (t : Engine) (proposal : Propose) : Engine × Except String Unit :=
  if proposal.chainId ≠ t.chainId then (t, .error "pending proposal chain mismatch")
  else if proposal.epochId ≠ t.state.height then (t, .error "pending proposal height mismatch")
  else if proposal.header.protoVersion ≠ ext.versionForEpoch proposal.epochId then
    (t, .error "pending proposal protocol mismatch")
  else if proposal.header.chainId ≠ proposal.chainId then
    (t, .error "pending proposal header chain mismatch")
  else if proposal.header.epochId ≠ proposal.epochId then
    (t, .error "pending proposal header height mismatch")
  else if t.restoredPrecommitLock ext proposal then (t, .ok ())
  else if !t.isPristine then (t, .error "consensus engine is not pristine")
  else
    let proposalId := ext.proposalId proposal.header
    let t := t.cacheProposalMessage ext proposal
    let t := t.recordPolc proposal.round proposalId
    let t := { t with state := { t.state with
      lockedRound := proposal.round
      lockedValue := some proposal.header
      validRound := proposal.round
      validValue := some proposal.header } }
    if t.roundWait then
      (startRound ext { t with generation := t.generation + 1 } proposal.round, .ok ())
    else realignRound ext t (proposal.round + 1)

def withinLimit (t : Engine) (maxAhead : Option Int) (round : Int) : Bool :=
  match maxAhead with
  | none => true
  | some limit => decide (round ≤ t.state.round + limit)

def recordHigherRound (t : Engine) (maxAhead : Option Int) (round : Int) (validator : Bytes) :
    Engine :=
  if t.vs.isValidator validator && decide (t.state.round < round) &&
      t.withinLimit maxAhead round then
    match t.higherRoundEvidence.find? validator with
    | some prior =>
      if round ≤ prior then t
      else { t with higherRoundEvidence := t.higherRoundEvidence.replace validator round }
    | none =>
      { t with higherRoundEvidence := t.higherRoundEvidence.replace validator round }
  else t

/-- First round, from the highest report down, that enough reports reach. -/
def selectSkipRound (t : Engine) (signerCount signedWeight : Int) : List (Int × Int) → Option Int
  | [] => none
  | (round, validatorWeight) :: rest =>
    let signerCount := signerCount + 1
    let signedWeight := signedWeight + validatorWeight
    if t.vs.roundSkipReachedAt t.policy t.state.height signerCount signedWeight then some round
    else t.selectSkipRound signerCount signedWeight rest

def roundSkipTarget (t : Engine) : Option Int :=
  let reports := t.higherRoundEvidence.toList.foldl
    (fun reports entry =>
      if entry.2 ≤ t.state.round then reports
      else
        match t.vs.weightOfAddr entry.1 with
        | none => reports
        | some weight => (entry.2, weight) :: reports)
    []
  t.selectSkipRound 0 0 (reports.insertionSort fun left right => right.1 ≤ left.1)

def tryRoundSkip (t : Engine) : Engine × Bool :=
  if !t.roundSkipReady then (t, false)
  else if t.state.height ≤ t.finalizedHeight then (t, false)
  else
    match t.roundSkipTarget with
    | none => (t, false)
    | some target => ((realignRound ext { t with higherRoundEvidence := ∅ } target).1, true)

def tryRoundStep (t : Engine) : Engine × Bool :=
  if !t.roundWait || !t.roundSkipReady ||
      decide (t.state.height ≤ t.finalizedHeight) ||
      t.state.round = maxInt then (t, false)
  else if t.higherRoundEvidence.toList.any fun entry =>
      decide (t.state.round < entry.2) && t.vs.isValidator entry.1 then
    ((realignRound ext t (t.state.round + 1)).1, true)
  else (t, false)

def onRoundSync (t : Engine) (round : Int) (validator : Bytes) : Engine × Bool :=
  if t.vs.isValidator validator && decide (t.state.round < round) then
    (t.recordHigherRound (some maxSyncAhead) round validator).tryRoundSkip ext
  else (t, false)

end Engine
end LiteNode
