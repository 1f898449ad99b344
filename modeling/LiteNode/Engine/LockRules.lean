import LiteNode.Engine.Agreement
import LiteNode.Engine.Provenance
import LiteNode.Engine.Tallies

/-!
# The rules of the lock

Over one height with one validator set, the engine precommits a proposal only
when it has a quorum of prevotes and the lock on it, and prevotes against its
lock only for a later proof of lock. The round of the lock grows with the rounds
of the engine; only a finalize of a later round brings it ahead of them.
-/

namespace LiteNode
namespace View

/-- The prevotes of the round hold votes for the proposal id that reach a
quorum. -/
def HoldsPrevoteQuorum (c : View) (round : Int) (pid : Bytes) : Prop :=
  ∃ votes, c.votes .prevote round = some votes ∧
    c.vs.quorumReachedAt c.policy c.state.height (votes.votesFor pid).length
      (weigh c.vs (votes.votesFor pid)) = true

/-- The locked value has the proposal id. -/
def LockedOn (ext : Externals) (c : View) (pid : Bytes) : Prop :=
  ∃ header, c.state.lockedValue = some header ∧ ext.proposalId header = pid

/-- The proposal of the current round names a proof of lock for the proposal id
from after the lock. -/
def Unlocks (ext : Externals) (c : View) (pid : Bytes) : Prop :=
  ∃ proposal round, c.messages pid c.state.round = some proposal ∧
    ext.proposalId proposal.header = pid ∧
    proposal.validRound = some round ∧ c.state.lockedRound < round ∧
    round < c.state.round ∧ c.polc round = some pid

/-- The view is one in which the engine may send the vote. -/
structure Justifies (ext : Externals) (c : View) (vote : Vote) : Prop where
  round : vote.round = c.state.round
  precommit : vote.voteType = .precommit → isNil vote.proposalId = false →
    c.HoldsPrevoteQuorum vote.round vote.proposalId ∧
      c.state.lockedRound = vote.round ∧ c.LockedOn ext vote.proposalId
  prevote : vote.voteType = .prevote → isNil vote.proposalId = false →
    c.state.lockedRound < 0 ∨ c.LockedOn ext vote.proposalId ∨ c.Unlocks ext vote.proposalId

end View

namespace Core

variable {ext : Externals} {inputs : Inputs} {source : SourceWeights}
variable {c c' : Core}

/-- Proposals are stored under their ids, and a lock has a value. -/
structure Orderly (ext : Externals) (c : Core) : Prop where
  named : ∀ pid round proposal, c.messages pid round = some proposal →
    ext.proposalId proposal.header = pid
  valued : c.state.lockedValue = none → c.state.lockedRound < 0

/-- Every vote that was sent was justified. -/
def Justified (ext : Externals) (c : Core) : Prop :=
  ∀ view vote proposal, (view, Output.sendVote vote proposal) ∈ c.log → view.Justifies ext vote

theorem orderly_move (orderly : c.Orderly ext) (move : Move ext inputs c c') : c'.Orderly ext := by
  cases move with
  | startHeight height =>
    refine ⟨fun pid round proposal stored => ?_, fun _ => ?_⟩
    · cases stored
    · exact Int.negSucc_lt_zero 0
  | cacheMessage proposal =>
    refine ⟨fun pid round stored found => ?_, orderly.valued⟩
    have found' : (if pid = ext.proposalId proposal.header ∧
        round = proposal.round then some proposal
      else c.messages pid round) = some stored := found
    split at found'
    · next same =>
      cases found'
      exact same.1.symm
    · exact orderly.named pid round stored found'
  | lock | restoreLock | takeLock => exact ⟨orderly.named, fun none => by cases none⟩
  | reconfigure vs polc validRound validValue finalized =>
    cases finalized <;> exact ⟨orderly.named, orderly.valued⟩
  | _ => exact ⟨orderly.named, orderly.valued⟩

theorem holdsPrevoteQuorum_of_show {pid : Bytes}
    (tallied : c.Tallied source) (proper : isNil pid = false) (shown : c.PrevotesShow pid) :
    c.HoldsPrevoteQuorum c.state.round pid := by
  obtain ⟨votes, stored, shows⟩ := shown
  have consistent := (tallied.tally .prevote c.state.round votes stored).consistent c.vs rfl
  exact ⟨votes, stored, consistent.reached_of_shows proper shows⟩

/-- Counting the engine's vote changes nothing that justifies it. -/
theorem justifies_cast {voteType : VoteType} {pid : Bytes} {vote : Vote} {votes : VoteSet}
    (orderly : c.Orderly ext) (tallied : c.Tallied source)
    (own : c.OwnVote voteType pid vote) (mayVote : c.MayVote ext voteType pid) :
    (c.setVotes vote.voteType.table c.state.round votes).Justifies ext vote := by
  have type := own.voteType
  have named := own.proposalId
  refine ⟨own.round, fun precommit proper => ?_, fun prevote proper => ?_⟩
  · rw [named] at proper ⊢
    rw [own.round]
    rcases mayVote with nil | may
    · rw [nil] at proper
      cases proper
    obtain rfl : voteType = .precommit := type.symm.trans precommit
    obtain ⟨locked, shown, proposal, stored, value⟩ := may
    obtain ⟨prevotes, found, reached⟩ := holdsPrevoteQuorum_of_show tallied proper shown
    refine ⟨⟨prevotes, (if_neg ?_).trans found, reached⟩, locked,
      proposal.header, value, orderly.named _ _ _ stored⟩
    rw [precommit]
    exact fun same => nomatch same.1
  · rw [named] at proper ⊢
    rcases mayVote with nil | may
    · rw [nil] at proper
      cases proper
    obtain rfl : voteType = .prevote := type.symm.trans prevote
    rcases may with unlocked | same | ⟨round, carried, later, earlier, proof⟩
    · exact Or.inl unlocked
    · cases value : c.state.lockedValue with
      | none => exact Or.inl (orderly.valued value)
      | some header =>
        refine Or.inr (Or.inl ⟨header, value, ?_⟩)
        rw [same, EngineState.lockedPid, value]
    · obtain ⟨proposal, stored, carries⟩ := Option.bind_eq_some_iff.mp carried
      exact Or.inr (Or.inr ⟨proposal, round, stored,
        orderly.named _ _ _ stored, carries, later, earlier, proof⟩)

/-- Every vote that a move sends is justified. -/
theorem justified_move (orderly : c.Orderly ext) (tallied : c.Tallied source)
    (justified : c.Justified ext) (move : Move ext inputs c c') : c'.Justified ext := by
  intro view vote proposal listed
  rcases log_move move listed with
    before | ⟨voteType, pid, sent, carried, votes, equal, -, own, mayVote⟩ |
      ⟨before, f, equal, -⟩
  · exact justified view vote proposal before
  · cases equal
    exact justifies_cast orderly tallied own mayVote
  · cases equal

/-- Within a height, neither the lock nor the round falls below a bound that
both have reached. -/
theorem lockedRound_move {bound : Int} (oneHeight : ∀ old new, ¬ inputs.height old new)
    (above : bound ≤ c.state.lockedRound ∧ bound ≤ c.state.round) (move : Move ext inputs c c') :
    bound ≤ c'.state.lockedRound ∧ bound ≤ c'.state.round := by
  cases move with
  | openRound round keep nonneg kept mayOpen =>
    refine ⟨above.1, ?_⟩
    rcases mayOpen with later | ⟨notBefore, -⟩
    · exact above.2.trans later.le
    · exact above.2.trans notBefore
  | startHeight height different allowed => exact absurd allowed (oneHeight _ _)
  | lock pid proposal => exact ⟨above.2, above.2⟩
  | restoreLock proposal round keep trusted proposable start proposed reached =>
    rw [start] at above
    exact ⟨above.2.trans proposed, above.2.trans (proposed.trans reached)⟩
  | takeLock f => exact ⟨above.1.trans (le_max_left _ _), above.2⟩
  | reconfigure vs polc validRound validValue finalized round keep allowed
      mayInstall mayFinalize advance =>
      have later := above.2.trans advance.le
      cases finalized <;> exact ⟨above.1, later⟩
  | _ => exact above

/-- The lock does not get ahead of the round, when the finalizes that are taken
over are of rounds that were reached. -/
theorem lockedRound_le_move {bound : Int} (oneHeight : ∀ old new, ¬ inputs.height old new)
    (onTime : ∀ setting f, inputs.finalize setting f → f.commitRound ≤ bound)
    (behind : c.state.lockedRound ≤ c.state.round ∧ bound ≤ c.state.round)
    (move : Move ext inputs c c') :
    c'.state.lockedRound ≤ c'.state.round ∧ bound ≤ c'.state.round := by
  cases move with
  | openRound round keep nonneg kept mayOpen =>
    have notBefore : c.state.round ≤ round := by
      rcases mayOpen with later | ⟨notBefore, -⟩
      · exact later.le
      · exact notBefore
    exact ⟨behind.1.trans notBefore, behind.2.trans notBefore⟩
  | startHeight height different allowed => exact absurd allowed (oneHeight _ _)
  | lock pid proposal => exact ⟨le_refl _, behind.2⟩
  | restoreLock proposal round keep trusted proposable start proposed reached =>
    rw [start] at behind
    exact ⟨reached, behind.2.trans (proposed.trans reached)⟩
  | takeLock f take => exact ⟨max_le behind.1 ((onTime _ f take.trusted).trans behind.2), behind.2⟩
  | reconfigure vs polc validRound validValue finalized round keep allowed
      mayInstall mayFinalize advance =>
      have locked := behind.1.trans advance.le
      have later := behind.2.trans advance.le
      cases finalized <;> exact ⟨locked, later⟩
  | _ => exact behind

end Core

/-- Assumptions that admit every input within a height and for one set. -/
def Inputs.fixed (finalize : Finalize → Prop) : Inputs where
  vote _ := True
  signed _ := True
  author _ _ := True
  restored _ := True
  polc _ _ := True
  finalize _ := finalize
  height _ _ := False
  replace c vs := vs = c.vs
  reconfigure c vs := vs = c.vs

namespace Engine

variable {ext : Externals} {t t' : Engine}

/-- Calls that stay at one height with one validator set. A restored proposal
has a round, and votes handed over for the history are prevotes of the
height. -/
def OneHeight (t : Engine) : Operation → Prop
  | .startHeight height => height = t.state.height
  | .replaceValidatorSet vs => vs = t.vs
  | .reconfigureValidatorSet _ vs => vs = t.vs
  | .restorePrecommitLock p => 0 ≤ p.round
  | .recordHistoricalPrevote vote => vote.epochId = t.state.height ∧ vote.voteType = .prevote
  | _ => True

/-- Finalizes that are taken over are of rounds that the engine has reached. -/
def OnTime (t : Engine) : Operation → Prop
  | .acceptFinalizeBatch f => f.commitRound ≤ t.state.round
  | _ => True

theorem admits_of_oneHeight {operation : Operation}
    {finalize : Finalize → Prop} (oneHeight : OneHeight t operation)
    (given : ∀ f, operation = .acceptFinalizeBatch f → finalize f) :
    (Inputs.fixed finalize).Admits ext t operation := by
  cases operation with
  | restorePrecommitLock p => exact ⟨trivial, trivial, trivial, oneHeight⟩
  | startHeight height => exact fun different => absurd oneHeight different
  | replaceValidatorSet vs => exact oneHeight
  | reconfigureValidatorSet round vs => exact oneHeight
  | acceptFinalizeBatch f => exact given f rfl
  | recordHistoricalPrevote vote => exact ⟨trivial, oneHeight⟩
  | _ => simp [Inputs.Admits, Inputs.Signs, Inputs.fixed]

theorem evolves_of_oneHeight (fit : t.Fit) (reaches : Reaches ext OneHeight t t') :
    Evolves ext (.fixed fun _ => True) t t' :=
  evolves_of_reaches (fun _ _ _ allowed =>
    admits_of_oneHeight allowed fun _ _ => trivial) fit reaches

/-- The lock does not fall below the lesser of its round and the engine's. -/
theorem lockedRound_le_of_reaches (fit : t.Fit) (reaches : Reaches ext OneHeight t t') :
    min t.state.lockedRound t.state.round ≤ t'.state.lockedRound :=
  (moves_invariant
    (fun c =>
      min t.state.lockedRound t.state.round ≤ c.state.lockedRound ∧
        min t.state.lockedRound t.state.round ≤ c.state.round)
    (evolves_of_oneHeight fit reaches).moves
    ⟨min_le_left _ _, min_le_right _ _⟩
    fun _ _ above => Core.lockedRound_move (fun _ _ => id) above).1

/-- The lock stays behind the round while finalizes come on time. -/
theorem lockedRound_le_round_of_reaches (fit : t.Fit)
    (behind : t.state.lockedRound ≤ t.state.round) (reaches : Reaches ext
      (fun t operation => OneHeight t operation ∧ OnTime t operation) t t') :
    t'.state.lockedRound ≤ t'.state.round := by
  refine (reaches.invariant
    (fun t => t.Fit ∧ t.state.lockedRound ≤ t.state.round)
    ⟨fit, behind⟩ ?_).2
  rintro t operation ⟨fit, behind⟩ ⟨oneHeight, onTime⟩
  have admits : (Inputs.fixed fun f => f.commitRound ≤ t.state.round).Admits ext t operation :=
    admits_of_oneHeight oneHeight fun f same => by subst same; exact onTime
  have evolves := evolves_apply fit admits
  refine ⟨evolves.fit, (moves_invariant
    (fun c => c.state.lockedRound ≤ c.state.round ∧ t.state.round ≤ c.state.round)
    evolves.moves ⟨behind, le_refl _⟩ ?_).1⟩
  exact fun _ _ behind => Core.lockedRound_le_move (fun _ _ => id) (fun _ _ early => early) behind

/-- The lock is kept by its rules: all votes were justified, the round of the
lock does not decrease unless it is ahead of the engine's round, and it gets
there through a finalize of a later round only. -/
structure KeepsLock (ext : Externals) (start t : Engine) : Prop where
  justified : ∀ data vote proposal,
    (data, Output.sendVote vote proposal) ∈ t.history → data.view.Justifies ext vote
  grows : ∀ t', Reaches ext OneHeight t t' →
    min t.state.lockedRound t.state.round ≤ t'.state.lockedRound
  behind : Reaches ext
      (fun t operation => OneHeight t operation ∧ OnTime t operation) start t →
    t.state.lockedRound ≤ t.state.round

/-- Every run over one height with one set keeps the lock by its rules. -/
theorem keepsLock_of_reaches
    {policy : QuorumPolicy} {chainId myAddr : Bytes} {vs : ValidatorSet}
    {start : Int} {canVote : Bool} (reaches : Reaches ext OneHeight
      (createForPolicy policy chainId myAddr vs start canVote) t) :
    KeepsLock ext (createForPolicy policy chainId myAddr vs start canVote) t := by
  have fit := fit_createForPolicy policy chainId myAddr vs start canVote
  have evolves := evolves_of_oneHeight fit reaches
  obtain ⟨-, -, justified⟩ := moves_invariant
    (fun c => c.Orderly ext ∧ c.Tallied (sourceWeights chainId vs) ∧ c.Justified ext)
    evolves.moves
    ⟨⟨fun _ _ _ stored => (by cases stored), fun _ => Int.negSucc_lt_zero 0⟩,
      tallied_createForPolicy (derives_sourceWeights chainId vs),
      fun _ _ _ listed => by cases listed⟩
    fun c c' ⟨orderly, tallied, justified⟩ move =>
      ⟨Core.orderly_move orderly move,
        Core.tallied_move (fun vs same => ⟨by
          rcases same with rfl | rfl <;> exact tallied.derives,
          fun _ => by rcases same with rfl | rfl <;> rfl⟩) tallied move,
        Core.justified_move orderly tallied justified move⟩
  exact
    { justified := fun data vote proposal sent =>
        justified data.view vote proposal (List.mem_filterMap.mpr ⟨_, sent, rfl⟩)
      grows := fun _ reaches' => lockedRound_le_of_reaches evolves.fit reaches'
      behind := lockedRound_le_round_of_reaches fit (by show (-1 : Int) ≤ 0; decide) }

/-- Member one's engine in a set of four, before it may vote. -/
def lockStart : Engine := create [0] [1] (.plainCount [1, 2, 3, 4]) 1 false

/-- A finalize of the other members. -/
def lockFinalize (round : Int) : Finalize where
  chainId := [0]
  epochId := 1
  commitRound := round
  header := .plain [0] 1 [7] 2
  proposalId := [7]
  precommits := [2, 3, 4].map (Vote.plain [0] 1 round .precommit [7])
  parentCommit := none

/-- The others vote for a proposal and finalize it, and the engine votes
then. -/
def lockRun (round : Int) : List Operation :=
  [.propose (.plain [0] 1 0 [7] 2), .onVote (.plain [0] 1 0 .prevote [7] 2) id,
    .onVote (.plain [0] 1 0 .prevote [7] 3) id, .onVote (.plain [0] 1 0 .prevote [7] 4) id,
    .acceptFinalizeBatch (lockFinalize round), .setCanVote true, .resumeVoting id]

theorem keepsLock_lockRun : KeepsLock .plain lockStart (lockStart.run .plain (lockRun 3)) := by
  have reaches : Reaches .plain OneHeight lockStart (lockStart.run .plain (lockRun 3)) :=
    reaches_run ⟨trivial, trivial, trivial, trivial, trivial, trivial, trivial, trivial⟩
  exact keepsLock_of_reaches reaches

/-- A lock from a finalize of round three falls back to round zero. -/
theorem lockedRound_falls_lockRun :
    ∃ t t', Reaches .plain OneHeight lockStart t ∧
      Reaches .plain OneHeight t t' ∧
      t'.state.lockedRound < t.state.lockedRound := by
  refine ⟨lockStart.run .plain ((lockRun 3).take 5),
    (lockStart.run .plain ((lockRun 3).take 5)).run .plain ((lockRun 3).drop 5),
    reaches_run ⟨trivial, trivial, trivial, trivial, trivial, trivial⟩,
    reaches_run ⟨trivial, trivial, trivial⟩, ?_⟩
  decide +kernel

end Engine
end LiteNode
