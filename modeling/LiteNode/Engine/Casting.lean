import LiteNode.Engine.Knowledge

/-!
# Moves that send votes and finalizes

Casting the engine's own vote, finalizing locally and opening a round.
-/

namespace LiteNode

/-- Whatever is signed with the function is one of the engine's votes. -/
def Inputs.Signs (inputs : Inputs) (ext : Externals) (sign : Bytes → Bytes) : Prop :=
  ∀ vote : Vote, inputs.signed { vote with signature := sign (ext.voteSignBytes vote) }

namespace Engine

variable {ext : Externals} {inputs : Inputs} {t : Engine}
variable {sign : Bytes → Bytes} {voteType : VoteType} {pid : Bytes}

/-! ## Local votes -/

/-- The engine once its own vote is counted, and what that vote decides. -/
def countedOwn (ext : Externals) (t : Engine) (sign : Bytes → Bytes)
    (voteType : VoteType) (pid : Bytes) : Engine × VoteAddResult :=
  t.addVoteAt (t.voteSetFor voteType) (signedVote ext t.toEngineData sign voteType pid) t.vs

/-- The engine once its own vote is counted and sent. -/
def sentOwn (ext : Externals) (t : Engine) (sign : Bytes → Bytes)
    (voteType : VoteType) (pid : Bytes) (proposal : Option Propose) : Engine :=
  (countedOwn ext t sign voteType pid).1.emit
    (.sendVote (signedVote ext t.toEngineData sign voteType pid) proposal)

/-- A vote is refused, or deferred, or counted and sent. -/
theorem castLocalVote_cases (ext : Externals) (t : Engine) (sign : Bytes → Bytes)
    (voteType : VoteType) (pid : Bytes) :
    castLocalVote ext t sign voteType pid = (t, .alreadySame) ∨
    (∃ prior, castLocalVote ext t sign voteType pid = (t, .conflict prior)) ∨
    castLocalVote ext t sign voteType pid =
      (t.emit (.requestProposal t.state.round (t.votedPid ext voteType pid)), .deferred) ∨
    ∃ proposal, (t.cells.read (t.voteSetFor voteType)).votes.find? t.myAddr = none ∧
      (voteType = .precommit → isNil pid = false →
        ∃ p, t.findProposalMessage pid t.state.round = some p) ∧
      castLocalVote ext t sign voteType pid =
        (sentOwn ext t sign voteType (t.votedPid ext voteType pid) proposal,
          .cast (countedOwn ext t sign voteType (t.votedPid ext voteType pid)).2) := by
  unfold castLocalVote
  simp only
  cases known : (t.cells.read (t.voteSetFor voteType)).votes.find? t.myAddr with
  | some prior =>
    simp only
    split
    · exact Or.inl rfl
    · exact Or.inr (Or.inl ⟨prior, rfl⟩)
  | none =>
    simp only [true_and]
    by_cases asked : voteType = .precommit ∧ (!isNil (t.votedPid ext voteType pid)) = true
    · obtain ⟨rfl, proper⟩ := asked
      simp only [proper, and_self, true_and, if_true]
      cases message : t.findProposalMessage (t.votedPid ext .precommit pid) t.state.round with
      | none => exact Or.inr (Or.inr (Or.inl (by simp)))
      | some p =>
        exact Or.inr (Or.inr (Or.inr ⟨some p, fun _ _ => ⟨p, message⟩, rfl⟩))
    · rw [if_neg asked, if_neg fun both => asked ⟨both.1, both.2.1⟩]
      refine Or.inr (Or.inr (Or.inr ⟨none, ?_, rfl⟩))
      rintro rfl proper
      exact absurd ⟨rfl, by simpa [votedPid] using proper⟩ asked

/-- Only cells changed. -/
def Counts (t t' : Engine) : Prop := t'.toEngineData = { t.toEngineData with cells := t'.cells }

namespace Counts

variable {t' : Engine}

theorem refl (t : Engine) : Counts t t := rfl

/-- Any field that the equation leaves alone is the same. -/
theorem field (counts : Counts t t') (get : EngineData → α) :
    get t'.toEngineData = get { t.toEngineData with cells := t'.cells } :=
  congrArg get counts

theorem state (counts : Counts t t') : t'.state = t.state := counts.field EngineData.state

theorem vs (counts : Counts t t') : t'.vs = t.vs := counts.field EngineData.vs

theorem myAddr (counts : Counts t t') : t'.myAddr = t.myAddr := counts.field EngineData.myAddr

end Counts

theorem counts_sentOwn (proposal : Option Propose) :
    Counts t (sentOwn ext t sign voteType pid proposal) := by
  unfold Counts sentOwn
  rw [toEngineData_emit]
  rfl

theorem counts_castLocalVote (ext : Externals) (t : Engine) (sign : Bytes → Bytes)
    (voteType : VoteType) (pid : Bytes) : Counts t (castLocalVote ext t sign voteType pid).1 := by
  rcases castLocalVote_cases ext t sign voteType pid with
    equal | ⟨prior, equal⟩ | equal | ⟨proposal, -, -, equal⟩
  · rw [equal]; exact Counts.refl t
  · rw [equal]; exact Counts.refl t
  · rw [equal]
    unfold Counts
    rw [toEngineData_emit]
  · rw [equal]; exact counts_sentOwn proposal

/-- The lock rule of the code, on the view. -/
theorem lockAllows_iff {validRound : Option Int} :
    t.lockAllows ext pid validRound = true ↔ t.core.LockAllows ext pid validRound := by
  unfold EngineData.lockAllows View.LockAllows
  change _ ↔ t.state.lockedRound < 0 ∨ pid = t.state.lockedPid ext ∨
    ∃ round, validRound = some round ∧ t.state.lockedRound < round ∧
      round < t.state.round ∧ t.polcByRound.find? round = some pid
  by_cases unlocked : t.state.lockedRound < 0
  · simp [unlocked]
  by_cases locked : pid = t.state.lockedPid ext
  · simp [locked]
  cases validRound with
  | none => simp
  | some round =>
    by_cases above : round ≤ t.state.lockedRound
    · simp [above, not_lt.mpr above]
    by_cases below : t.state.round ≤ round
    · simp [below, not_lt.mpr below]
    · simp [above, below, not_le.mp above, not_le.mp below]

/-- A prevote is nil or passes the lock rule. -/
theorem votedPid_prevote (t : Engine) (pid : Bytes) :
    isNil (t.votedPid ext .prevote pid) = true ∨
      t.core.LockAllows ext (t.votedPid ext .prevote pid)
        ((t.findProposalMessage (t.votedPid ext .prevote pid)
          t.state.round).bind Propose.validRound) := by
  by_cases allowed : (isNil pid || t.lockAllows ext pid
      ((t.findProposalMessage pid t.state.round).bind Propose.validRound)) = true
  · have voted : t.votedPid ext .prevote pid = pid := if_pos allowed
    rw [voted]
    rcases Bool.or_eq_true_iff.mp allowed with nil | allows
    · exact Or.inl nil
    · exact Or.inr (lockAllows_iff.mp allows)
  · have voted : t.votedPid ext .prevote pid = nilHash := if_neg allowed
    rw [voted]
    exact Or.inl (by simp [isNil])

/-- Counting and sending the own vote is a move. -/
theorem evolves_sentOwn (fit : t.Fit) (member : t.amIValidator = true)
    (signs : inputs.Signs ext sign) (proposal : Option Propose)
    (fresh : (t.cells.read (t.voteSetFor voteType)).votes.find? t.myAddr =
      none) (mayVote : t.core.MayVote ext voteType pid) :
    Evolves ext inputs t (sentOwn ext t sign voteType pid proposal) := by
  have stored := find?_voteSetFor fit.toAligned voteType
  have data_eq : (sentOwn ext t sign voteType pid proposal).toEngineData =
      (countedOwn ext t sign voteType pid).1.toEngineData :=
    toEngineData_emit _ _
  have fit' : (sentOwn ext t sign voteType pid proposal).Fit := by
    rw [data_eq]
    exact fit_write fit _ _
  let vote := signedVote ext t.toEngineData sign voteType pid
  have own : t.core.OwnVote voteType pid vote := ⟨rfl, rfl, rfl, rfl, rfl, rfl⟩
  have core_eq : (sentOwn ext t sign voteType pid proposal).core =
      t.core.cast vote proposal (t.cells.read (t.voteSetFor voteType)) := by
    have counted : (countedOwn ext t sign voteType pid).1.core =
        t.core.setVotes voteType.table t.state.round
          ((t.cells.read (t.voteSetFor voteType)).addVote t.policy vote t.vs).1 :=
      core_write fit.separated stored _
    unfold sentOwn
    rw [emit_eq_push (by simp)]
    unfold Core.cast
    simp only
    change ({ (countedOwn ext t sign voteType pid).1.core with
      log := ((countedOwn ext t sign voteType pid).1.core.toView, _) ::
        (countedOwn ext t sign voteType pid).1.core.log } : Core) = _
    rw [counted]
    rfl
  refine Evolves.of_move fit' ?_
  rw [core_eq]
  exact Move.cast voteType pid vote proposal _ member own (signs _)
    (EngineData.votesAt_eq stored) fresh mayVote

/-- Casting a local vote is a move. A precommit needs the lock and the
prevotes behind it. -/
theorem evolves_castLocalVote (fit : t.Fit) (member : t.amIValidator = true)
    (signs : inputs.Signs ext sign) (locked : voteType = .precommit → isNil pid = false →
      ∀ p, t.findProposalMessage pid t.state.round = some p →
        t.state.lockedRound = t.state.round ∧ t.core.PrevotesShow pid ∧
          t.state.lockedValue = some p.header) :
    Evolves ext inputs t (castLocalVote ext t sign voteType pid).1 := by
  rcases castLocalVote_cases ext t sign voteType pid with
    equal | ⟨prior, equal⟩ | equal | ⟨proposal, fresh, known, equal⟩
  · rw [equal]; exact Evolves.refl fit
  · rw [equal]; exact Evolves.refl fit
  · rw [equal]
    have quiet : Quiet t (t.emit (.requestProposal t.state.round
        (t.votedPid ext voteType pid))) := quiet_emit t fun _ => rfl
    exact quiet.evolves fit
  · rw [equal]
    refine evolves_sentOwn fit member signs proposal fresh ?_
    cases voteType with
    | prevote => exact votedPid_prevote t pid
    | precommit =>
      change isNil pid = true ∨ _
      cases nil : isNil pid with
      | true => exact Or.inl rfl
      | false =>
        obtain ⟨p, message⟩ := known rfl nil
        obtain ⟨round, shown, value⟩ := locked rfl nil p message
        exact Or.inr ⟨round, shown, p, message, value⟩

theorem showsQuorum_of_counted {policy : QuorumPolicy} {votes : VoteSet} {epochId : Int}
    {vs : ValidatorSet} (counted : votes.counted policy epochId vs pid = true) :
    votes.ShowsQuorum policy epochId vs pid := by
  unfold VoteSet.counted at counted
  split at counted
  · next nil => exact Or.inr ⟨nil, counted⟩
  · exact Or.inl counted

theorem shows_of_castLocalVote {pid' : Bytes} (fit : t.Fit)
    (reported : (castLocalVote ext t sign voteType pid).2 = .cast (.quorumOf pid')) :
    pid' = t.votedPid ext voteType pid ∧
    ∃ votes,
      (castLocalVote ext t sign voteType pid).1.votesAt voteType.table t.state.round = some votes ∧
      votes.ShowsQuorum t.policy t.state.height t.vs pid' := by
  rcases castLocalVote_cases ext t sign voteType pid with
    equal | ⟨prior, equal⟩ | equal | ⟨proposal, -, -, equal⟩
  · simp [equal] at reported
  · simp [equal] at reported
  · simp [equal] at reported
  · rw [equal] at reported ⊢
    have stored := find?_voteSetFor fit.toAligned voteType
    have result : ((t.cells.read (t.voteSetFor voteType)).addVote t.policy
        (signedVote ext t.toEngineData sign voteType
          (t.votedPid ext voteType pid)) t.vs).2 = .quorumOf pid' :=
      LocalVoteOutcome.cast.inj reported
    obtain ⟨pid_eq, counted⟩ := VoteSet.counted_of_addVote result
    refine ⟨pid_eq, _, ?_, showsQuorum_of_counted counted⟩
    have data_eq : (sentOwn ext t sign voteType (t.votedPid ext voteType pid)
        proposal).toEngineData = (countedOwn ext t sign voteType
          (t.votedPid ext voteType pid)).1.toEngineData :=
      toEngineData_emit _ _
    rw [data_eq]
    refine (EngineData.votesAt_write fit.separated stored _ _ _).trans ?_
    rw [if_pos ⟨rfl, rfl⟩]

/-- Only the pending finalize changed. -/
def Finishes (t t' : Engine) : Prop :=
  t'.toEngineData = { t.toEngineData with
    finalizedHeight := t'.finalizedHeight
    pendingFinalized := t'.pendingFinalized }

/-- Any field that the equation leaves alone is the same. -/
theorem Finishes.field {t' : Engine} (finishes : Finishes t t') (get : EngineData → α) :
    get t'.toEngineData = get { t.toEngineData with
      finalizedHeight := t'.finalizedHeight
      pendingFinalized := t'.pendingFinalized } :=
  congrArg get finishes

theorem Finishes.samePlaces {t' : Engine} (finishes : Finishes t t') :
    t.SamePlaces t'.toEngineData where
  cells := finishes.field EngineData.cells
  table kind := by
    cases kind
    · exact finishes.field EngineData.prevotesByRound
    · exact finishes.field EngineData.sourcePrevotes
    · exact finishes.field EngineData.precommitsByRound
  prevotes := finishes.field EngineData.prevotes
  precommits := finishes.field EngineData.precommits
  round := finishes.field fun data => data.state.round

theorem finishes_emitFinalized (t : Engine) (send : Bool) (f : Finalize) :
    Finishes t (t.emitFinalized send f).1 := by
  unfold emitFinalized
  split
  · rfl
  · cases send
    · rfl
    · simp only [if_true]
      unfold Finishes
      rw [toEngineData_emit]

theorem finishes_emitLocalFinalize
    (ext : Externals) (t : Engine) (header : EpochHeader) (pid : Bytes) (round : Int) :
    Finishes t (emitLocalFinalize ext t header pid round).1 := by
  unfold emitLocalFinalize
  split
  · exact finishes_emitFinalized t true _
  · unfold Finishes
    rw [toEngineData_emit]

/-- The precommits put into a finalize are those of the view. -/
theorem precommitsForPid_eq (t : EngineData) (round : Int) (pid : Bytes) :
    precommitsForPid t round pid = t.view.precommitsForPid round pid := by
  have stored : t.view.votes .precommit round =
      (t.precommitsByRound.find? round).map t.cells.read := rfl
  unfold precommitsForPid View.precommitsForPid
  rw [stored]
  cases t.precommitsByRound.find? round <;> rfl

theorem core_emitFinalized (idle : t.pendingFinalized = none) (f : Finalize) :
    (t.emitFinalized true f).1.core = t.core.finalize f := by
  unfold emitFinalized
  rw [idle]
  simp only [if_true]
  rw [emit_eq_push (by simp)]
  rfl

theorem core_emitLocalFinalize {header : EpochHeader} {round : Int}
    (known : t.core.Knows ext pid header)
    (quorum : ∃ votes, t.core.votes .precommit round = some votes ∧
      votes.ShowsQuorum t.policy t.state.height t.vs pid) :
    (emitLocalFinalize ext t header pid round).1.core = t.core ∨
    ∃ f, t.core.MayFinalize ext f ∧
      (emitLocalFinalize ext t header pid round).1.core = t.core.finalize f := by
  unfold emitLocalFinalize
  cases made : makeFinalize ext t.toEngineData header pid round with
  | error _ => exact Or.inl (quiet_emit t fun _ => rfl).core_eq
  | ok f =>
    simp only
    cases pending : t.pendingFinalized with
    | some other =>
      left
      unfold emitFinalized
      rw [pending]
    | none =>
      refine Or.inr ⟨f, ?_, core_emitFinalized pending f⟩
      unfold makeFinalize parentCommitForFinalize at made
      simp only at made
      split at made
      · next hash =>
        simp only [Except.map, Except.ok.injEq] at made
        subst made
        exact
          { idle := pending
            chainId := rfl
            epochId := rfl
            precommits := precommitsForPid_eq _ _ _
            parent := hash
            header := known
            quorum := quorum }
      · split at made <;> simp [Except.map] at made

theorem evolves_emitLocalFinalize (fit : t.Fit) {header : EpochHeader} {round : Int}
    (known : t.core.Knows ext pid header)
    (quorum : ∃ votes, t.core.votes .precommit round = some votes ∧
      votes.ShowsQuorum t.policy t.state.height t.vs pid) :
    Evolves ext inputs t (emitLocalFinalize ext t header pid round).1 := by
  have fit' := fit.of_same (finishes_emitLocalFinalize ext t header pid round).samePlaces
  rcases core_emitLocalFinalize known quorum with equal | ⟨f, may, equal⟩
  · exact ⟨fit', equal ▸ Relation.ReflTransGen.refl⟩
  · refine Evolves.of_move fit' ?_
    rw [equal]
    exact Move.finalize f may

end Engine
end LiteNode
