import LiteNode.Engine.Provenance
import LiteNode.Engine.Refinement

/-!
# One vote for each step

The engine remembers its vote of the current step only in the vote table of the
round. As long as the table keeps that vote, the engine sends at most one vote
of each type in a round. Replacing the validator set by one without the engine
loses the vote.
-/

namespace LiteNode

def VoteSet.Keyed (votes : VoteSet) : Prop :=
  ∀ addr vote, votes.votes.find? addr = some vote → vote.validator = addr

theorem VoteSet.keyed_createVoteSet : createVoteSet.Keyed := by
  intro addr vote stored
  simp [createVoteSet] at stored

theorem VoteSet.Keyed.addVote {votes : VoteSet} (keyed : votes.Keyed)
    (policy : QuorumPolicy) (vote : Vote) (set : ValidatorSet) :
    (votes.addVote policy vote set).1.Keyed := by
  intro addr stored found
  rcases VoteSet.find?_addVote_origin found with before | ⟨rfl, same⟩
  · exact keyed addr stored before
  · exact same.symm

theorem VoteSet.Keyed.addVotes {votes : VoteSet} (keyed : votes.Keyed)
    (policy : QuorumPolicy) (set : ValidatorSet) (list : List Vote) :
    (votes.addVotes policy set list).Keyed := by
  induction list generalizing votes with
  | nil => exact keyed
  | cons vote rest ih => exact ih (keyed.addVote policy vote set)

namespace Core

variable {ext : Externals} {inputs : Inputs} {c c' : Core}

/-- All vote sets store votes under their voters. -/
def Keyed (c : Core) : Prop := ∀ kind round votes, c.votes kind round = some votes → votes.Keyed

variable {round : Int} {votes : VoteSet} {voteType : VoteType}

theorem keyed_setVotes (keyed : c.Keyed) {kind : TableKind} (new : votes.Keyed) :
    (c.setVotes kind round votes).Keyed := by
  intro k r found stored
  have stored' : (if k = kind ∧ r = round then some votes else c.votes k r) = some found := stored
  split at stored'
  · cases stored'
    exact new
  · exact keyed k r found stored'

theorem keyed_openRound (keyed : c.Keyed) (round : Int) (keep : Int → Bool) :
    (c.openRound round keep).Keyed := by
  intro kind r votes stored
  have stored' : (if keep r then
      if kind ≠ .source ∧ r = round then some createVoteSet
      else c.votes kind r
    else none) = some votes := stored
  split at stored'
  · split at stored'
    · cases stored'
      exact VoteSet.keyed_createVoteSet
    · exact keyed kind r votes stored'
  · cases stored'

theorem keyed_install (keyed : c.Keyed) (vs : ValidatorSet)
    (polc : Int → Option Bytes) (validRound : Int) (validValue : Option EpochHeader) :
    (c.install vs polc validRound validValue).Keyed := by
  intro kind round votes stored
  have stored' : c.installedVotes vs kind round = some votes := stored
  cases kind with
  | prevote | precommit =>
    obtain ⟨old, -, rfl⟩ := Option.map_eq_some_iff.mp stored'
    exact VoteSet.keyed_createVoteSet.addVotes _ _ _
  | source =>
    have kept := keyed .source round
    rcases installedVotes_source stored' with
      same | ⟨members, old, -, -, rfl⟩
    · exact kept votes same
    · refine VoteSet.Keyed.addVotes ?_ _ _ _
      cases saved : c.votes .source round with
      | none => exact VoteSet.keyed_createVoteSet
      | some votes => exact kept votes saved

/-- Every move stores votes under their voters. -/
theorem keyed_move (keyed : c.Keyed) (move : Move ext inputs c c') : c'.Keyed := by
  cases move with
  | openTable kind round absent => exact keyed_setVotes keyed VoteSet.keyed_createVoteSet
  | count kind vote votes set stored =>
    exact keyed_setVotes keyed ((keyed kind vote.round votes stored).addVote _ _ _)
  | openRound round keep => exact keyed_openRound keyed round keep
  | startHeight height =>
    intro kind r votes stored
    have stored' : (if kind ≠ .source ∧ r = 0 then some createVoteSet
      else none) = some votes := stored
    split at stored'
    · cases stored'
      exact VoteSet.keyed_createVoteSet
    · cases stored'
  | restoreLock proposal round keep => exact keyed_openRound keyed round keep
  | cast voteType pid vote proposal votes member own trusted stored =>
    exact keyed_setVotes keyed ((keyed voteType.table c.state.round votes stored).addVote _ _ _)
  | install vs polc validRound validValue =>
    exact keyed_install keyed vs polc validRound validValue
  | reconfigure vs polc validRound validValue finalized round keep =>
    have installed := keyed_install keyed vs polc validRound validValue
    cases finalized with
    | none | some => exact keyed_openRound installed round keep
  | _ => exact keyed

/-! ## Votes sent -/

/-- The engine's own vote of the type is stored for the current round. -/
def Holds (c : Core) (voteType : VoteType) : Prop :=
  ∃ votes, c.votes voteType.table c.state.round = some votes ∧ (votes.votes.find? c.myAddr).isSome

/-- Votes that were sent are for earlier steps, or are still stored, and no
two of them are for one step. -/
structure VotesOnce (c : Core) : Prop where
  earlier : ∀ vote, c.Sent vote → vote.epochId < c.state.height ∨
    vote.epochId = c.state.height ∧ (vote.round < c.state.round ∨
      vote.round = c.state.round ∧ c.Holds vote.voteType)
  once : ∀ vote other, c.Sent vote → c.Sent other →
    vote.epochId = other.epochId → vote.round = other.round →
    vote.voteType = other.voteType → vote.proposalId = other.proposalId

/-- Nothing is sent and the stored votes of the engine stay. -/
theorem VotesOnce.of_kept (votesOnce : c.VotesOnce) (sent : ∀ vote, c'.Sent vote → c.Sent vote)
    (height : c'.state.height = c.state.height) (round : c'.state.round = c.state.round)
    (holds : ∀ voteType, c.Holds voteType → c'.Holds voteType) :
    c'.VotesOnce where
  earlier vote sending := by
    rw [height, round]
    rcases votesOnce.earlier vote (sent vote sending) with
      before | ⟨same, below | ⟨current, held⟩⟩
    · exact Or.inl before
    · exact Or.inr ⟨same, Or.inl below⟩
    · exact Or.inr ⟨same, Or.inr ⟨current, holds _ held⟩⟩
  once vote other sending sending' :=
    votesOnce.once vote other (sent vote sending) (sent other sending')

/-- Nothing is sent and a later round opens. -/
theorem VotesOnce.of_later (votesOnce : c.VotesOnce) (sent : ∀ vote, c'.Sent vote → c.Sent vote)
    (height : c'.state.height = c.state.height)
    (later : ∀ vote, c.Sent vote → vote.epochId = c.state.height → vote.round < c'.state.round) :
    c'.VotesOnce where
  earlier vote sending := by
    rw [height]
    rcases votesOnce.earlier vote (sent vote sending) with before | ⟨same, -⟩
    · exact Or.inl before
    · exact Or.inr ⟨same, Or.inl (later vote (sent vote sending) same)⟩
  once vote other sending sending' :=
    votesOnce.once vote other (sent vote sending) (sent other sending')

theorem VotesOnce.lt_of_mayOpen (votesOnce : c.VotesOnce)
    (mayOpen : c.MayOpen round) {vote : Vote} (sent : c.Sent vote)
    (same : vote.epochId = c.state.height) : vote.round < round := by
  rcases votesOnce.earlier vote sent with before | ⟨-, below | ⟨current, held⟩⟩
  · omega
  · rcases mayOpen with later | ⟨notBefore, -⟩ <;> omega
  · rcases mayOpen with later | ⟨notBefore, free⟩
    · omega
    · obtain ⟨votes, stored, own⟩ := held
      by_contra notBelow
      have reached : round = c.state.round := by omega
      rw [free vote.voteType.table votes vote.voteType.table_ne_source (reached ▸ stored)] at own
      cases own

theorem holds_setVotes (held : c.Holds voteType) {kind : TableKind} {new : VoteSet}
    (stored : c.votes kind round = some votes)
    (grows : ∀ addr, (votes.votes.find? addr).isSome → (new.votes.find? addr).isSome) :
    (c.setVotes kind round new).Holds voteType := by
  obtain ⟨own, found, present⟩ := held
  by_cases same : voteType.table = kind ∧ c.state.round = round
  · refine ⟨new, if_pos same, grows c.myAddr ?_⟩
    obtain ⟨rfl, rfl⟩ := same
    rw [found] at stored
    cases stored
    exact present
  · exact ⟨own, (if_neg same).trans found, present⟩

theorem isSome_addVote {addr : Bytes} (present : (votes.votes.find? addr).isSome)
    (policy : QuorumPolicy) (vote : Vote) (set : ValidatorSet) :
    ((votes.addVote policy vote set).1.votes.find? addr).isSome := by
  obtain ⟨stored, found⟩ := Option.isSome_iff_exists.mp present
  rw [VoteSet.find?_addVote_of_some found]
  rfl

/-- The engine's own vote survives a set in which the engine has a weight. -/
theorem holds_install (keyed : c.Keyed) (held : c.Holds voteType) {vs : ValidatorSet}
    (weighs : (vs.weightOfAddr c.myAddr).isSome) (polc : Int → Option Bytes) (validRound : Int)
    (validValue : Option EpochHeader) :
    (c.install vs polc validRound validValue).Holds voteType := by
  obtain ⟨votes, stored, present⟩ := held
  refine ⟨VoteSet.projectVotes c.policy vs votes, ?_, ?_⟩
  · cases voteType <;> exact congrArg (Option.map _) stored
  · change ((VoteSet.projectVotes c.policy vs votes).votes.find? c.myAddr).isSome
    rw [VoteSet.find?_projectVotes (keyed _ _ votes stored), if_pos weighs]
    exact present

/-- Sending the own vote when none is stored. -/
theorem votesOnce_cast (votesOnce : c.VotesOnce)
    {pid : Bytes} {vote : Vote} {proposal : Option Propose}
    (member : c.vs.isValidator c.myAddr = true) (own : c.OwnVote voteType pid vote)
    (stored : c.votes voteType.table c.state.round = some votes)
    (fresh : votes.votes.find? c.myAddr = none) : (c.cast vote proposal votes).VotesOnce := by
  have type := own.voteType
  have sent_iff : ∀ other, (c.cast vote proposal votes).Sent other →
      other = vote ∨ c.Sent other := by
    rintro other ⟨view, carried, listed⟩
    rcases List.mem_cons.mp listed with equal | before
    · cases equal
      exact Or.inl rfl
    · exact Or.inr ⟨view, carried, before⟩
  have unsent : ∀ other, c.Sent other → other.epochId = vote.epochId →
      other.round = vote.round → other.voteType = vote.voteType → False := by
    intro other sent epoch round sameType
    rcases votesOnce.earlier other sent with
      before | ⟨same, below | ⟨current, held⟩⟩
    · rw [epoch, own.epochId] at before
      exact lt_irrefl _ before
    · rw [round, own.round] at below
      exact lt_irrefl _ below
    · obtain ⟨kept, found, present⟩ := held
      rw [sameType, type, stored] at found
      cases found
      rw [fresh] at present
      cases present
  have holds : ∀ voteType, c.Holds voteType → (c.cast vote proposal votes).Holds voteType := by
    intro other held
    exact holds_setVotes held (type ▸ stored) fun addr present => isSome_addVote present _ _ _
  refine ⟨?_, ?_⟩
  · intro other sent
    rcases sent_iff other sent with rfl | before
    · refine Or.inr ⟨own.epochId, Or.inr ⟨own.round, ?_⟩⟩
      refine ⟨(votes.addVote c.policy other c.vs).1, if_pos ⟨rfl, rfl⟩, ?_⟩
      change ((votes.addVote c.policy other c.vs).1.votes.find? c.myAddr).isSome
      rw [VoteSet.find?_addVote, if_pos ⟨own.validator.symm, fresh,
        ValidatorSet.weightOfAddr_isSome_of_isValidator member⟩]
      rfl
    · rcases votesOnce.earlier other before with
        past | ⟨same, below | ⟨current, held⟩⟩
      · exact Or.inl past
      · exact Or.inr ⟨same, Or.inl below⟩
      · exact Or.inr ⟨same, Or.inr ⟨current, holds _ held⟩⟩
  · intro first second sent sent' epoch round sameType
    rcases sent_iff first sent with rfl | before <;>
      rcases sent_iff second sent' with rfl | before'
    · rfl
    · exact (unsent second before' epoch.symm round.symm sameType.symm).elim
    · exact (unsent first before epoch round sameType).elim
    · exact votesOnce.once first second before before' epoch round sameType

/-- Every move keeps the votes sent unique, when heights grow and a set that is
given in the middle of a round keeps the engine's own votes. -/
theorem votesOnce_move (heights : ∀ old new, inputs.height old new → old ≤ new)
    (sets : ∀ (c : Core) vs, inputs.replace c.toView vs →
      ext.validatorSetHash c.vs ≠ ext.validatorSetHash vs →
      (vs.weightOfAddr c.myAddr).isSome ∨ c.OwnFree c.state.round)
    (keyed : c.Keyed) (votesOnce : c.VotesOnce) (move : Move ext inputs c c') : c'.VotesOnce := by
  cases move with
  | openTable kind round absent =>
    refine votesOnce.of_kept (fun _ sent => sent) rfl rfl fun voteType held => ?_
    obtain ⟨votes, stored, present⟩ := held
    refine ⟨votes, (if_neg ?_).trans stored, present⟩
    rintro ⟨rfl, same⟩
    have same' : c.state.round = round := same
    rw [same', absent] at stored
    cases stored
  | count kind vote votes set stored =>
    exact votesOnce.of_kept (fun _ sent => sent) rfl rfl
      fun voteType held => holds_setVotes held stored
        fun addr present => isSome_addVote present _ _ _
  | openRound round keep nonneg kept mayOpen =>
    exact votesOnce.of_later (fun _ sent => sent) rfl
      fun _ sent same => votesOnce.lt_of_mayOpen mayOpen sent same
  | startHeight height different allowed =>
    refine ⟨fun vote sent => Or.inl ?_, votesOnce.once⟩
    have grows := heights _ _ allowed
    change vote.epochId < height
    rcases votesOnce.earlier vote sent with before | ⟨same, -⟩ <;> omega
  | restoreLock proposal round keep trusted proposable start proposed reached
      kept mayOpen =>
      exact votesOnce.of_later (fun _ sent => sent) rfl
        fun _ sent same => votesOnce.lt_of_mayOpen mayOpen sent same
  | cast voteType pid vote proposal votes member own trusted stored fresh =>
    exact votesOnce_cast votesOnce member own stored fresh
  | finalize f mayFinalize =>
    refine votesOnce.of_kept ?_ rfl rfl fun _ held => held
    rintro vote ⟨view, proposal, listed⟩
    rcases List.mem_cons.mp listed with equal | before
    · cases equal
    · exact ⟨view, proposal, before⟩
  | install vs polc validRound validValue different allowed mayInstall =>
    refine votesOnce.of_kept (fun _ sent => sent) rfl rfl fun voteType held => ?_
    rcases sets c vs allowed different with weighs | free
    · exact holds_install keyed held weighs polc validRound validValue
    · obtain ⟨votes, stored, present⟩ := held
      rw [free _ votes voteType.table_ne_source stored] at present
      cases present
  | reconfigure vs polc validRound validValue finalized round keep allowed
      mayInstall mayFinalize advance =>
      have height_eq : (((c.install vs polc validRound validValue).finalizeOpt
          finalized).openRound round keep).state.height = c.state.height := by
        cases finalized <;> rfl
      refine votesOnce.of_later ?_ height_eq fun vote sent same => ?_
      · rintro vote ⟨view, proposal, listed⟩
        cases finalized with
        | none => exact ⟨view, proposal, listed⟩
        | some f =>
          rcases List.mem_cons.mp listed with equal | before
          · cases equal
          · exact ⟨view, proposal, before⟩
      · exact votesOnce.lt_of_mayOpen (Or.inl advance) sent same
  | _ => exact votesOnce.of_kept (fun _ sent => sent) rfl rfl fun _ held => held

end Core

/-- Assumptions that admit every input, when heights grow and a set that is
given in the middle of a round keeps the engine's own votes. -/
def Inputs.keepingVotes (ext : Externals) : Inputs where
  vote _ := True
  signed _ := True
  author _ _ := True
  restored _ := True
  polc _ _ := True
  finalize _ _ := True
  height old new := old ≤ new
  replace c vs := ext.validatorSetHash c.vs ≠ ext.validatorSetHash vs →
    (vs.weightOfAddr c.myAddr).isSome ∨ c.OwnFree c.state.round
  reconfigure _ _ := True

namespace Engine

variable {ext : Externals} {t : Engine}

/-- No vote of the engine is stored for the current round. -/
def NotVoted (t : Engine) : Prop :=
  (t.cells.read t.prevotes).votes.mem t.myAddr = false ∧
    (t.cells.read t.precommits).votes.mem t.myAddr = false

/-- Calls that keep the engine's own votes: a set that is counted anew gives
the engine a weight, unless the engine has not voted in the round. Heights do
not decrease, a restored proposal has a round, and votes handed over for the
history are prevotes of the height. -/
def KeepsOwnVotes (ext : Externals) (t : Engine) : Operation → Prop
  | .replaceValidatorSet vs =>
    ext.validatorSetHash t.vs ≠ ext.validatorSetHash vs →
      (vs.weightOfAddr t.myAddr).isSome ∨ t.NotVoted
  | .startHeight height => t.state.height ≤ height
  | .restorePrecommitLock p => 0 ≤ p.round
  | .recordHistoricalPrevote vote => vote.epochId = t.state.height ∧ vote.voteType = .prevote
  | _ => True

theorem ownFree_of_notVoted (fit : t.Fit) (notVoted : t.NotVoted) :
    t.view.OwnFree t.state.round := by
  intro kind votes proper stored
  have stored' : t.votesAt kind t.state.round = some votes := stored
  cases kind with
  | prevote =>
    rw [fit.votesAt_prevotes] at stored'
    cases stored'
    exact VoteSet.mem_eq_false_iff.mp notVoted.1
  | source => exact absurd rfl proper
  | precommit =>
    rw [fit.votesAt_precommits] at stored'
    cases stored'
    exact VoteSet.mem_eq_false_iff.mp notVoted.2

theorem admits_of_keepsOwnVotes {operation : Operation} (fit : t.Fit)
    (keeps : KeepsOwnVotes ext t operation) : (Inputs.keepingVotes ext).Admits ext t operation := by
  cases operation with
  | restorePrecommitLock p => exact ⟨trivial, trivial, trivial, keeps⟩
  | startHeight height => exact fun _ => keeps
  | replaceValidatorSet vs =>
    exact fun different => (keeps different).imp id (ownFree_of_notVoted fit)
  | recordHistoricalPrevote vote => exact ⟨trivial, keeps⟩
  | _ => simp [Inputs.Admits, Inputs.Signs, Inputs.keepingVotes]

def sentVotes (t : Engine) : List Vote :=
  t.history.filterMap fun entry =>
    match entry.2 with
    | .sendVote vote _ => some vote
    | _ => none

/-- Any two votes that the engine sent for one step are for one proposal. -/
def SendsOneVote (t : Engine) : Prop :=
  ∀ vote ∈ t.sentVotes, ∀ other ∈ t.sentVotes,
    vote.epochId = other.epochId → vote.round = other.round →
    vote.voteType = other.voteType → vote.proposalId = other.proposalId

theorem sent_of_mem_sentVotes {vote : Vote} (sent : vote ∈ t.sentVotes) : t.core.Sent vote := by
  obtain ⟨⟨data, output⟩, emitted, same⟩ := List.mem_filterMap.mp sent
  cases output with
  | sendVote carried proposal =>
    cases same
    exact ⟨data.view, proposal, List.mem_filterMap.mpr ⟨_, emitted, rfl⟩⟩
  | _ => cases same

/-- In every run whose calls keep the engine's own votes, the engine sends one
vote for each step at most. -/
theorem sendsOneVote_of_reaches
    {policy : QuorumPolicy} {chainId myAddr : Bytes} {vs : ValidatorSet}
    {start : Int} {canVote : Bool} (reaches : Reaches ext (KeepsOwnVotes ext)
      (createForPolicy policy chainId myAddr vs start canVote) t) :
    t.SendsOneVote := by
  have fit := fit_createForPolicy policy chainId myAddr vs start canVote
  have evolves : Evolves ext (.keepingVotes ext) _ t :=
    evolves_of_reaches (fun _ _ => admits_of_keepsOwnVotes) fit reaches
  have unsent : ∀ vote, ¬ (createForPolicy policy chainId myAddr vs start
      canVote).core.Sent vote := by
    rintro vote ⟨view, proposal, listed⟩
    cases listed
  have kept := moves_invariant (fun c => c.Keyed ∧ c.VotesOnce) evolves.moves
    ⟨fun kind round votes stored =>
        votesAt_createForPolicy stored ▸ VoteSet.keyed_createVoteSet,
      fun vote sent => absurd sent (unsent vote),
      fun vote _ sent => absurd sent (unsent vote)⟩
    (fun c c' kept move => ⟨Core.keyed_move kept.1 move,
      Core.votesOnce_move (fun _ _ grows => grows) (fun _ _ given => given) kept.1 kept.2 move⟩)
  intro vote sent other sent'
  exact kept.2.once vote other (sent_of_mem_sentVotes sent) (sent_of_mem_sentVotes sent')

/-- Member one's engine in a set of four. -/
def ownStart : Engine := create [0] [1] (.plainCount [1, 2, 3, 4]) 1 true

/-- A vote for nil, two changes of the set, and a proposal in the same
round. -/
def ownRun (middle : ValidatorSet) : List Operation :=
  [.onTimeout .proposeStep 0 0 id, .replaceValidatorSet middle,
    .replaceValidatorSet (.plainCount [1, 2, 3, 4]), .propose (.plain [0] 1 0 [7] 2)]

/-- Another member may come and go. -/
theorem sendsOneVote_ownRun :
    (ownStart.run .plain (ownRun (.plainCount [1, 2, 3]))).SendsOneVote := by
  have reaches : Reaches .plain (KeepsOwnVotes .plain) ownStart
      (ownStart.run .plain (ownRun (.plainCount [1, 2, 3]))) :=
    reaches_run ⟨trivial, fun _ => Or.inl (by decide),
      fun _ => Or.inl (by decide), trivial, trivial⟩
  exact sendsOneVote_of_reaches reaches

/-- When the engine's own member comes and goes, it votes twice. -/
theorem not_sendsOneVote_ownRun :
    ¬ (ownStart.run .plain (ownRun (.plainCount [2, 3, 4]))).SendsOneVote := by
  intro one
  have sent : (ownStart.run .plain
      (ownRun (.plainCount [2, 3, 4]))).sentVotes =
        [⟨[0], 1, 0, .prevote, [7], [1], [7]⟩,
          ⟨[0], 1, 0, .prevote, nilHash, [1], nilHash⟩] := by
    decide +kernel
  have same := one ⟨[0], 1, 0, .prevote, [7], [1], [7]⟩ (by simp [sent])
    ⟨[0], 1, 0, .prevote, nilHash, [1], nilHash⟩ (by simp [sent]) rfl rfl rfl
  exact absurd same (by decide)

end Engine
end LiteNode
