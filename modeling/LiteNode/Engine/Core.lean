import LiteNode.Engine.Consistency
import LiteNode.Engine.Voting

/-!
# What an engine step can do

An engine without its cells: the vote sets of each round, the lock, the known
proposals, and the votes and finalizes that were sent. `Move` lists the changes
that a single step of the code makes to it. Every operation of the engine is a
sequence of moves, so an invariant is proved once for each move.
-/

namespace LiteNode

/-- The tables that keep the votes of each round. -/
inductive TableKind
  | prevote
  | source
  | precommit
  deriving DecidableEq

def TableKind.voteType : TableKind → VoteType
  | .prevote | .source => .prevote
  | .precommit => .precommit

def VoteType.table : VoteType → TableKind
  | .prevote => .prevote
  | .precommit => .precommit

@[simp] theorem VoteType.voteType_table (voteType : VoteType) :
    voteType.table.voteType = voteType := by
  cases voteType <;> rfl

theorem VoteType.table_ne_source (voteType : VoteType) : voteType.table ≠ .source := by
  cases voteType <;> simp [VoteType.table]

/-- Whether the counters of a vote set show a quorum for a proposal id. -/
def VoteSet.ShowsQuorum (policy : QuorumPolicy) (votes : VoteSet) (epochId : Int)
    (vs : ValidatorSet) (pid : Bytes) : Prop :=
  vs.quorumReachedAt policy epochId (votes.countForPid pid)
      (votes.weightForPid pid) = true ∨
    isNil pid = true ∧ votes.nilQuorum policy epochId vs = true

/-- Engine data with vote sets in place of references. -/
structure View where
  chainId : Bytes
  policy : QuorumPolicy
  myAddr : Bytes
  vs : ValidatorSet
  state : EngineState
  votes : TableKind → Int → Option VoteSet
  currentProposal : Option Propose
  cache : Bytes → Option ProposalCacheEntry
  messages : Bytes → Int → Option Propose
  polc : Int → Option Bytes
  finalizedHeight : Int
  pendingFinalized : Option Finalize

/-- Chain, validator set and height that an engine works with. -/
structure Setting where
  chainId : Bytes
  vs : ValidatorSet
  height : Int

def View.setting (c : View) : Setting := ⟨c.chainId, c.vs, c.state.height⟩

/-- A view with the votes and finalizes sent so far, newest first. -/
structure Core extends View where log : List (View × Output)

namespace EngineData

def table (t : EngineData) : TableKind → Table Int Ref
  | .prevote => t.prevotesByRound
  | .source => t.sourcePrevotes
  | .precommit => t.precommitsByRound

/-- Vote set of a round in a table. -/
def votesAt (t : EngineData) (kind : TableKind) (round : Int) : Option VoteSet :=
  ((t.table kind).find? round).map t.cells.read

def view (t : EngineData) : View where
  chainId := t.chainId
  policy := t.policy
  myAddr := t.myAddr
  vs := t.vs
  state := t.state
  votes := t.votesAt
  currentProposal := t.currentProposal
  cache := t.proposalCache.find?
  messages pid round := t.proposalMessages.find? (pid, round)
  polc := t.polcByRound.find?
  finalizedHeight := t.finalizedHeight
  pendingFinalized := t.pendingFinalized

end EngineData

/-- Votes and finalizes, which other engines count, with their view. -/
def logEntry : EngineData × Output → Option (View × Output)
  | (data, .sendVote vote proposal) => some (data.view, .sendVote vote proposal)
  | (data, .sendFinalize finalize) => some (data.view, .sendFinalize finalize)
  | _ => none

def Engine.core (t : Engine) : Core := { t.view with log := t.history.filterMap logEntry }

namespace View

def countingSet (c : View) : TableKind → Option ValidatorSet
  | .prevote | .precommit => some c.vs
  | .source => c.vs.sourceSet c.chainId c.state.height

/-- Some prevotes of the round show a quorum for the proposal id. -/
def Supports (c : View) (round : Int) (pid : Bytes) : Prop :=
  ∃ kind set votes, kind ≠ .precommit ∧ c.votes kind round = some votes ∧
    c.countingSet kind = some set ∧ votes.ShowsQuorum c.policy c.state.height set pid

def PrevotesShow (c : View) (pid : Bytes) : Prop :=
  ∃ votes, c.votes .prevote c.state.round = some votes ∧
    votes.ShowsQuorum c.policy c.state.height c.vs pid

/-- Whether the lock lets a proposal be prevoted. -/
def LockAllows (ext : Externals) (c : View) (proposalId : Bytes) (validRound : Option Int) : Prop :=
  c.state.lockedRound < 0 ∨ proposalId = c.state.lockedPid ext ∨
    ∃ round, validRound = some round ∧ c.state.lockedRound < round ∧
      round < c.state.round ∧ c.polc round = some proposalId

/-- What lets the engine vote for a proposal id in the current round. -/
def MayVote (ext : Externals) (c : View) (voteType : VoteType) (pid : Bytes) : Prop :=
  isNil pid = true ∨
    match voteType with
    | .prevote => c.LockAllows ext pid ((c.messages pid c.state.round).bind Propose.validRound)
    | .precommit =>
      c.state.lockedRound = c.state.round ∧ c.PrevotesShow pid ∧
        ∃ proposal, c.messages pid c.state.round = some proposal ∧
          c.state.lockedValue = some proposal.header

/-- The vote is the engine's own for the current round. -/
structure OwnVote (c : View) (voteType : VoteType) (pid : Bytes) (vote : Vote) : Prop where
  chainId : vote.chainId = c.chainId
  epochId : vote.epochId = c.state.height
  round : vote.round = c.state.round
  voteType : vote.voteType = voteType
  proposalId : vote.proposalId = pid
  validator : vote.validator = c.myAddr

/-- No vote of the engine itself is stored for the round. -/
def OwnFree (c : View) (round : Int) : Prop :=
  ∀ kind votes, kind ≠ .source → c.votes kind round = some votes → votes.votes.find? c.myAddr = none

/-- The round advances, or at least repeats no vote of the engine. -/
def MayOpen (c : View) (round : Int) : Prop :=
  c.state.round < round ∨ c.state.round ≤ round ∧ c.OwnFree round

/-- The header is stored under the proposal id, or is held with it. -/
def Knows (ext : Externals) (c : View) (pid : Bytes) (header : EpochHeader) : Prop :=
  (∃ entry, c.cache pid = some entry ∧ entry.header = header) ∨
    ext.proposalId header = pid ∧
      (c.currentProposal.map Propose.header = some header ∨
        c.state.lockedValue = some header ∨ c.state.validValue = some header)

/-- Precommits of a round for a proposal id, by validator. -/
def precommitsForPid (c : View) (round : Int) (pid : Bytes) : List Vote :=
  match c.votes .precommit round with
  | none => []
  | some votes =>
    sortByKey Vote.validator
      (votes.votes.values.filter fun vote => vote.voteType = .precommit && vote.proposalId = pid)

/-- What the engine checks before it sends a finalize. -/
structure MayFinalize (ext : Externals) (c : View) (f : Finalize) : Prop where
  idle : c.pendingFinalized = none
  chainId : f.chainId = c.chainId
  epochId : f.epochId = c.state.height
  precommits : f.precommits = c.precommitsForPid f.commitRound f.proposalId
  parent : ext.parentCommitHashOpt f.parentCommit = f.header.parentCommitHash
  header : c.Knows ext f.proposalId f.header
  quorum : ∃ votes, c.votes .precommit f.commitRound = some votes ∧
    votes.ShowsQuorum c.policy c.state.height c.vs f.proposalId

end View

/-- Assumptions on what an engine is given. -/
structure Inputs where
  /-- Votes handed to the engine. -/
  vote : Vote → Prop
  /-- Votes that the engine signed. -/
  signed : Vote → Prop
  /-- Headers whose author the engine does not check. -/
  author : Setting → EpochHeader → Prop
  /-- Proposals whose lock is restored. -/
  restored : Propose → Prop
  /-- Proofs of lock that are recorded without their votes. -/
  polc : Int → Bytes → Prop
  /-- Finalizes that are taken over. -/
  finalize : Setting → Finalize → Prop
  /-- Changes of the height. -/
  height : Int → Int → Prop
  /-- Validator sets given in the middle of a round. -/
  replace : View → ValidatorSet → Prop
  /-- Validator sets given together with a later round. -/
  reconfigure : View → ValidatorSet → Prop

namespace Core

variable (ext : Externals)

def setVotes (c : Core) (kind : TableKind) (round : Int) (votes : VoteSet) : Core :=
  { c with votes := fun k r => if k = kind ∧ r = round then some votes else c.votes k r }

/-- Open a round with empty tables; the others are kept selectively. -/
def openRound (c : Core) (round : Int) (keep : Int → Bool) : Core :=
  { c with
    state := { c.state with round, step := .proposeStep }
    votes := fun kind r =>
      if keep r then
        if kind ≠ .source ∧ r = round then some createVoteSet
        else c.votes kind r
      else none
    currentProposal := none }

/-- Forget everything and start over at a height. -/
def startHeight (c : Core) (height : Int) : Core :=
  { c with
    state := initialEngineState height
    votes := fun kind r => if kind ≠ .source ∧ r = 0 then some createVoteSet else none
    currentProposal := none
    cache := fun _ => none
    messages := fun _ _ => none
    polc := fun _ => none }

def setCache (c : Core) (pid : Bytes) (entry : ProposalCacheEntry) : Core :=
  { c with cache := fun id => if id = pid then some entry else c.cache id }

def cacheMessage (c : Core) (proposal : Propose) : Core :=
  let pid := ext.proposalId proposal.header
  { c.setCache pid
      ⟨proposal.header, some proposal.txHashes, proposal.parentCommit⟩ with
    messages := fun id round =>
      if id = pid ∧ round = proposal.round then some proposal
      else c.messages id round }

def recordPolc (c : Core) (round : Int) (pid : Bytes) : Core :=
  { c with polc := fun r => if r = round then some pid else c.polc r }

def setValid (c : Core) (round : Int) (value : Option EpochHeader) : Core :=
  { c with
    state := { c.state with validRound := round, validValue := value } }

/-- Lock a header for a round, and hold it as valid value. -/
def lock (c : Core) (round : Int) (header : EpochHeader) : Core :=
  { c with state := { c.state with
      lockedRound := round
      lockedValue := some header
      validRound := round
      validValue := some header } }

/-- Count the own vote and send it. -/
def cast (c : Core) (vote : Vote) (proposal : Option Propose) (votes : VoteSet) : Core :=
  let counted := c.setVotes vote.voteType.table c.state.round (votes.addVote c.policy vote c.vs).1
  { counted with log := (counted.toView, .sendVote vote proposal) :: c.log }

/-- Hold a finalize until it is acknowledged. -/
def hold (c : Core) (f : Finalize) : Core :=
  { c with finalizedHeight := f.epochId, pendingFinalized := some f }

def finalize (c : Core) (f : Finalize) : Core :=
  { c.hold f with log := ((c.hold f).toView, .sendFinalize f) :: c.log }

def finalizeOpt (c : Core) : Option Finalize → Core
  | none => c
  | some f => c.finalize f

/-- Votes of a table once they are counted for another set. -/
def installedVotes (c : Core) (vs : ValidatorSet) : TableKind → Int → Option VoteSet
  | .prevote, round => (c.votes .prevote round).map (VoteSet.projectVotes c.policy vs)
  | .precommit, round => (c.votes .precommit round).map (VoteSet.projectVotes c.policy vs)
  | .source, round =>
    match vs.sourceSet c.chainId c.state.height, c.votes .prevote round with
    | some source, some votes =>
      some (VoteSet.addVotes c.policy source
        ((c.votes .source round).getD createVoteSet) votes.votes.values)
    | _, _ => c.votes .source round

/-- Source votes of an installed set are the saved ones, with the prevotes of
the round added where the height has extra authors. -/
theorem installedVotes_source {c : Core} {vs : ValidatorSet} {round : Int} {votes : VoteSet}
    (installed : c.installedVotes vs .source round = some votes) :
    c.votes .source round = some votes ∨
    ∃ members old, vs.sourceSet c.chainId c.state.height = some members ∧
      c.votes .prevote round = some old ∧
      votes = VoteSet.addVotes c.policy members
        ((c.votes .source round).getD createVoteSet) old.votes.values := by
  simp only [installedVotes] at installed
  split at installed
  · next members old counting found =>
    exact Or.inr ⟨members, old, counting, found, (Option.some.inj installed).symm⟩
  · exact Or.inl installed

/-- Change the set, with the proof-of-lock records and valid value left. -/
def install (c : Core) (vs : ValidatorSet) (polc : Int → Option Bytes)
    (validRound : Int) (validValue : Option EpochHeader) : Core :=
  { c with
    vs
    votes := c.installedVotes vs
    polc
    state := { c.state with validRound, validValue } }

/-- The header may be proposed: it fits the height and has an author, or it is
the valid value. -/
def Proposable (inputs : Inputs) (c : Core) (header : EpochHeader) : Prop :=
  (header.epochId = c.state.height ∧ header.chainId = c.chainId ∧
      header.protoVersion = ext.versionForEpoch c.state.height ∧
      (c.vs.isAuthor c.chainId c.state.height header.creatorAddr = true ∨
        inputs.author c.setting header)) ∨
    c.state.validValue = some header

/-- Conditions under which the set may change. -/
structure MayInstall
    (c : Core) (vs : ValidatorSet) (polc : Int → Option Bytes)
    (validRound : Int) (validValue : Option EpochHeader) : Prop where
  supported : ∀ round pid, polc round = some pid → isNil pid = false ∧
    (c.install vs polc validRound validValue).Supports round pid
  valid : ∀ header, validValue = some header →
    c.state.lockedValue = some header ∨ c.state.validValue = some header

/-- Conditions under which a lock may be taken over from a finalize. -/
structure MayTake (inputs : Inputs) (c : Core) (f : Finalize) : Prop where
  trusted : inputs.finalize c.setting f
  epochId : f.epochId = c.state.height
  proposalId : f.proposalId = ext.proposalId f.header
  unfinalized : c.finalizedHeight < f.epochId
  lock : ∀ header, c.state.lockedValue = some header →
    ext.proposalId header = f.proposalId ∨ c.state.lockedRound < f.commitRound

end Core

/-- The changes that the engine makes to its data. -/
inductive Move (ext : Externals) (inputs : Inputs) (c : Core) : Core → Prop
  | openTable (kind : TableKind) (round : Int) (absent : c.votes kind round = none) :
      Move ext inputs c (c.setVotes kind round createVoteSet)
  | count (kind : TableKind) (vote : Vote) (votes : VoteSet) (set : ValidatorSet)
      (stored : c.votes kind vote.round = some votes) (counting : c.countingSet kind = some set)
      (trusted : inputs.vote vote) (epoch : vote.epochId = c.state.height)
      (type : vote.voteType = kind.voteType) :
      Move ext inputs c (c.setVotes kind vote.round (votes.addVote c.policy vote set).1)
  | openRound (round : Int) (keep : Int → Bool) (nonneg : 0 ≤ round) (kept : keep round = true)
      (mayOpen : c.MayOpen round) :
      Move ext inputs c (c.openRound round keep)
  | startHeight (height : Int) (different : height ≠ c.state.height)
      (allowed : inputs.height c.state.height height) :
      Move ext inputs c (c.startHeight height)
  | setStep (step : RoundStep) : Move ext inputs c { c with state := { c.state with step } }
  | cacheBundle (header : EpochHeader) (txHashes : List Bytes) (parentCommit : Option ParentCommit)
      (proposable : c.Proposable ext inputs header) :
      Move ext inputs c (c.setCache (ext.proposalId header) ⟨header, some txHashes, parentCommit⟩)
  | cacheMessage (proposal : Propose) (proposable : c.Proposable ext inputs proposal.header) :
      Move ext inputs c (c.cacheMessage ext proposal)
  | cacheHeader (f : Finalize) (take : c.MayTake ext inputs f) :
      Move ext inputs c (c.setCache f.proposalId ⟨f.header, none, none⟩)
  | recordPolc (round : Int) (pid : Bytes) (proper : isNil pid = false)
      (origin : c.Supports round pid ∨ inputs.polc round pid ∨
        ∃ f, c.MayTake ext inputs f ∧ round = f.commitRound ∧ pid = f.proposalId) :
      Move ext inputs c (c.recordPolc round pid)
  | setValid (round : Int) (pid : Bytes) (entry : ProposalCacheEntry)
      (known : c.cache pid = some entry) :
      Move ext inputs c (c.setValid round (some entry.header))
  | setCurrent (pid : Bytes) (proposal : Propose)
      (entry : ProposalCacheEntry) (known : c.cache pid = some entry)
      (header : proposal.header = entry.header) :
      Move ext inputs c { c with currentProposal := some proposal }
  | lock (pid : Bytes) (proposal : Propose) (known : c.messages pid c.state.round = some proposal)
      (shown : c.PrevotesShow pid) :
      Move ext inputs c (c.lock c.state.round proposal.header)
  | restoreLock (proposal : Propose) (round : Int) (keep : Int → Bool)
      (trusted : inputs.restored proposal) (proposable : c.Proposable ext inputs proposal.header)
      (start : c.state.round = 0) (proposed : 0 ≤ proposal.round)
      (reached : proposal.round ≤ round) (kept : keep round = true) (mayOpen : c.MayOpen round) :
      Move ext inputs c ((c.lock proposal.round proposal.header).openRound round keep)
  | cast (voteType : VoteType) (pid : Bytes) (vote : Vote)
      (proposal : Option Propose) (votes : VoteSet) (member : c.vs.isValidator c.myAddr = true)
      (own : c.OwnVote voteType pid vote) (trusted : inputs.signed vote)
      (stored : c.votes voteType.table c.state.round = some votes)
      (fresh : votes.votes.find? c.myAddr = none) (mayVote : c.MayVote ext voteType pid) :
      Move ext inputs c (c.cast vote proposal votes)
  | finalize (f : Finalize) (mayFinalize : c.MayFinalize ext f) : Move ext inputs c (c.finalize f)
  | takeLock (f : Finalize) (take : c.MayTake ext inputs f) :
      Move ext inputs c (c.lock (max c.state.lockedRound f.commitRound) f.header)
  | takeFinalize (f : Finalize) (trusted : inputs.finalize c.setting f)
      (epoch : f.epochId = c.state.height) (idle : c.pendingFinalized = none) :
      Move ext inputs c (c.hold f)
  | acknowledge : Move ext inputs c { c with pendingFinalized := none }
  | rename (vs : ValidatorSet) (same : ext.validatorSetHash c.vs = ext.validatorSetHash vs)
      (allowed : inputs.replace c.toView vs) :
      Move ext inputs c { c with vs }
  | install (vs : ValidatorSet) (polc : Int → Option Bytes)
      (validRound : Int) (validValue : Option EpochHeader)
      (different : ext.validatorSetHash c.vs ≠ ext.validatorSetHash vs)
      (allowed : inputs.replace c.toView vs)
      (mayInstall : c.MayInstall vs polc validRound validValue) :
      Move ext inputs c (c.install vs polc validRound validValue)
  | reconfigure (vs : ValidatorSet) (polc : Int → Option Bytes)
      (validRound : Int) (validValue : Option EpochHeader)
      (finalized : Option Finalize) (round : Int) (keep : Int → Bool)
      (allowed : inputs.reconfigure c.toView vs)
      (mayInstall : c.MayInstall vs polc validRound validValue)
      (mayFinalize : ∀ f ∈ finalized, (c.install vs polc validRound validValue).MayFinalize ext f)
      (advance : c.state.round < round) (kept : keep round = true) :
      Move ext inputs c
        (((c.install vs polc validRound validValue).finalizeOpt finalized).openRound round keep)

abbrev Moves (ext : Externals) (inputs : Inputs) : Core → Core → Prop :=
  Relation.ReflTransGen (Move ext inputs)

end LiteNode
