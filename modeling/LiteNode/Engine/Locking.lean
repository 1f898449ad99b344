import LiteNode.Engine.Projecting

/-!
# Moves that lock and precommit

Every precommit for a proposal follows a lock on it in the same round, taken
when the prevotes of the round show a quorum. Resuming and timeouts combine
these with votes for nil.
-/

namespace LiteNode
namespace Engine

variable {ext : Externals} {inputs : Inputs} {t : Engine}
variable {sign : Bytes → Bytes} {voteType : VoteType} {pid : Bytes}

theorem member_of_allowed (allowed : t.localVotingAllowed = true) : t.amIValidator = true :=
  (Bool.and_eq_true_iff.mp allowed).1

theorem evolves_setStep (fit : t.Fit) (step : RoundStep) : Evolves ext inputs t (t.setStep step) :=
  Evolves.of_move (fit.of_same ⟨rfl, fun _ => rfl, rfl, rfl, rfl⟩) (Move.setStep step)

theorem prevotesShow_of_result (fit : t.Fit) (result : t.prevoteResult = .quorumOf pid) :
    t.core.PrevotesShow pid :=
  ⟨_, fit.votesAt_prevotes, VoteSet.showsQuorum_of_quorumResult result⟩

theorem prevotesShow_supports (shown : t.core.PrevotesShow pid) :
    t.core.Supports t.state.round pid := by
  obtain ⟨votes, stored, shows⟩ := shown
  exact ⟨.prevote, t.vs, votes, by simp, stored, rfl, shows⟩

/-- A vote that is counted, or was before, starts a timer. -/
theorem quiet_settleOutcome
    (ext : Externals) (step : RoundStep) (t : Engine) (outcome : LocalVoteOutcome) :
    Quiet t (match outcome with
      | .cast _ | .alreadySame => t.scheduleStepTimeout ext step
      | .conflict _ | .deferred => t) := by
  cases outcome with
  | cast | alreadySame => exact quiet_scheduleStepTimeout ext t step
  | conflict _ => exact Quiet.refl t
  | deferred => exact Quiet.refl t

theorem quiet_settle
    (ext : Externals) (step : RoundStep) (cast : Engine × LocalVoteOutcome) :
    Quiet cast.1 (match cast with
      | (t, .cast _) | (t, .alreadySame) => t.scheduleStepTimeout ext step
      | (t, .conflict _) | (t, .deferred) => t) := by
  obtain ⟨t, outcome⟩ := cast
  have settled := quiet_settleOutcome ext step t outcome
  cases outcome <;> exact settled

/-- As above, and a deferred vote starts a timer too. -/
theorem quiet_settleDeferred
    (ext : Externals) (step : RoundStep) (cast : Engine × LocalVoteOutcome) :
    Quiet cast.1 (match cast with
      | (t, .cast _) | (t, .alreadySame) | (t, .deferred) => t.scheduleStepTimeout ext step
      | (t, .conflict _) => t) := by
  obtain ⟨t, outcome⟩ := cast
  cases outcome with
  | cast | alreadySame | deferred => exact quiet_scheduleStepTimeout ext t step
  | conflict _ => exact Quiet.refl t

/-- Casting a prevote is a move, and so is casting a vote for nil. -/
theorem evolves_castFree (fit : t.Fit) (member : t.amIValidator = true)
    (signs : inputs.Signs ext sign) (voteType : VoteType) (pid : Bytes)
    (free : voteType = .prevote ∨ pid = nilHash) :
    Evolves ext inputs t (castLocalVote ext t sign voteType pid).1 := by
  refine evolves_castLocalVote fit member signs ?_
  rintro rfl proper
  rcases free with prevote | rfl
  · cases prevote
  · simp [isNil] at proper

theorem evolves_precommitNil (fit : t.Fit) (signs : inputs.Signs ext sign) :
    Evolves ext inputs t (t.precommitNil ext sign) := by
  unfold precommitNil
  split
  · next enabled =>
    have stepped : Evolves ext inputs _ _ := evolves_setStep fit .precommitStep
    have casts := stepped.trans (evolves_castFree stepped.fit
      (member_of_allowed enabled.1) signs .precommit nilHash (Or.inr rfl))
    exact casts.quiet (quiet_settleDeferred ext .precommitStep _)
  · exact Evolves.refl fit

theorem evolves_timeoutPropose (fit : t.Fit) (member : t.amIValidator = true)
    (signs : inputs.Signs ext sign) : Evolves ext inputs t (t.timeoutPropose ext sign) := by
  have stepped : Evolves ext inputs _ _ := evolves_setStep fit .prevoteStep
  have casts := stepped.trans (evolves_castFree stepped.fit member signs
    .prevote nilHash (Or.inl rfl))
  have settled := casts.quiet (quiet_settle ext .prevoteStep _)
  exact settled.trans (evolves_precommitNil settled.fit signs)

theorem evolves_timeoutPrevote (fit : t.Fit) (member : t.amIValidator = true)
    (signs : inputs.Signs ext sign) : Evolves ext inputs t (t.timeoutPrevote ext sign) := by
  have stepped : Evolves ext inputs _ _ := evolves_setStep fit .precommitStep
  have casts := stepped.trans (evolves_castFree stepped.fit member signs
    .precommit nilHash (Or.inr rfl))
  exact casts.quiet (quiet_settle ext .precommitStep _)

theorem evolves_onTimeout (fit : t.Fit) (step : RoundStep) (round generation : Int)
    (signs : inputs.Signs ext sign) :
    Evolves ext inputs t (t.onTimeout ext step round generation sign) := by
  have advances : Evolves ext inputs t (startRound ext t (t.state.round + 1)) :=
    have later : t.state.round < t.state.round + 1 := by omega
    evolves_startRound fit.separated (fit.round_nonneg.trans later.le) (Or.inl later)
  unfold onTimeout
  split
  · exact Evolves.refl fit
  split
  · exact Evolves.refl fit
  split
  · exact Evolves.refl fit
  split
  · have quiet : Quiet t { t with
        voteTimers := t.voteTimers.filter fun prior => prior ≠ step } :=
      ⟨rfl, rfl⟩
    exact quiet.evolves fit
  split
  · next enabled =>
    exact evolves_timeoutPropose fit (member_of_allowed enabled.2) signs
  split
  · next enabled =>
    exact evolves_timeoutPrevote fit (member_of_allowed enabled.2) signs
  split
  · exact advances
  cases step with
  | proposeStep => exact (quiet_emit t fun _ => rfl).evolves fit
  | prevoteStep =>
    exact (evolves_setStep fit .precommitStep).quiet (quiet_scheduleStepTimeout ext _ _)
  | precommitStep => exact advances

variable {p : Propose} {t' : Engine}

theorem evolves_lockOn (fit : t.Fit) (known : t.findProposalMessage pid t.state.round = some p)
    (shown : t.core.PrevotesShow pid) : Evolves ext inputs t (t.lockOn p.header) :=
  Evolves.of_move (fit.of_same ⟨rfl, fun _ => rfl, rfl, rfl, rfl⟩) (Move.lock pid p known shown)

theorem evolves_lockAndCast (fit : t.Fit) (member : t.amIValidator = true)
    (signs : inputs.Signs ext sign) (known : t.findProposalMessage pid t.state.round = some p)
    (shown : t.core.PrevotesShow pid) :
    Evolves ext inputs t (castLocalVote ext
      ((t.lockOn p.header).setStep .precommitStep) sign .precommit pid).1 := by
  have locked : Evolves ext inputs _ _ := evolves_lockOn fit known shown
  have stepped := locked.trans (evolves_setStep locked.fit .precommitStep)
  refine stepped.trans (evolves_castLocalVote stepped.fit member signs ?_)
  intro _ _ other found
  have same : other = p := Option.some.inj (found.symm.trans known)
  exact ⟨rfl, shown, by rw [same]; rfl⟩

theorem findProposalMessage_recordPolc
    (t : Engine) (round : Int) (recorded : Bytes) (pid : Bytes) (r : Int) :
    (t.recordPolc round recorded).findProposalMessage pid r = t.findProposalMessage pid r := by
  unfold recordPolc promoteKnownHeader
  split
  · rfl
  split
  · split <;> rfl
  · rfl

theorem evolves_lockChosen (fit : t.Fit) (member : t.amIValidator = true)
    (signs : inputs.Signs ext sign) (known : t.findProposalMessage pid t.state.round = some p)
    (shown : t.core.PrevotesShow pid) :
    Evolves ext inputs t (castLocalVote ext
      (((t.recordPolc t.state.round pid).lockOn p.header).setStep
        .precommitStep) sign .precommit pid).1 := by
  have recorded : Evolves ext inputs _ _ := evolves_recordPolc fit
    fun _ => Or.inl (prevotesShow_supports shown)
  have learns := learns_recordPolc t t.state.round pid
  have member' : (t.recordPolc t.state.round pid).amIValidator = true := by
    unfold amIValidator at member ⊢
    rw [learns.vs, learns.myAddr]
    exact member
  refine recorded.trans (evolves_lockAndCast recorded.fit member' signs ?_
    (learns.prevotesShow shown))
  rw [findProposalMessage_recordPolc, learns.round]
  exact known

/-- Precommits of the current round that decide, as a result, show a quorum. -/
theorem precommitsShow_of_result (fit : t.Fit) (result : t.precommitResult = .quorumOf pid) :
    ∃ votes, t.core.votes .precommit t.state.round = some votes ∧
      votes.ShowsQuorum t.policy t.state.height t.vs pid :=
  ⟨_, fit.votesAt_precommits, VoteSet.showsQuorum_of_quorumResult result⟩

theorem evolves_finalizeQuorum (fit : t.Fit) (result : t.precommitResult = .quorumOf pid) :
    Evolves ext inputs t (finalizeQuorum ext t pid).1 := by
  unfold finalizeQuorum
  cases found : t.findHeader pid with
  | none => exact Evolves.refl fit
  | some header =>
    obtain ⟨entry, stored, header_eq⟩ := Option.map_eq_some_iff.mp found
    exact evolves_emitLocalFinalize fit (Or.inl ⟨entry, stored, header_eq⟩)
      (precommitsShow_of_result fit result)

theorem evolves_resumePrevote (fit : t.Fit) (member : t.amIValidator = true)
    (signs : inputs.Signs ext sign) : Evolves ext inputs t (t.resumePrevote ext sign) := by
  have cleared : Quiet t { t with pendingPrevote := none } := ⟨rfl, rfl⟩
  unfold resumePrevote
  split
  · next height round pid pending =>
    split
    · have stepped : Evolves ext inputs _ _ := (cleared.evolves fit).trans
        (evolves_setStep (cleared.fit fit) .prevoteStep)
      have casts := stepped.trans (evolves_castFree stepped.fit member signs
        .prevote pid (Or.inl rfl))
      exact casts.quiet (quiet_settle ext .prevoteStep _)
    · exact cleared.evolves fit
  · exact Evolves.refl fit

theorem evolves_resumePrecommit (fit : t.Fit) (member : t.amIValidator = true)
    (signs : inputs.Signs ext sign) : Evolves ext inputs t (t.resumePrecommit ext sign) := by
  unfold resumePrecommit
  split
  · next pid result =>
    split
    · split
      · exact Evolves.refl fit
      · next p known =>
        exact (evolves_lockChosen fit member signs known
          (prevotesShow_of_result fit result)).quiet
          (quiet_settleDeferred ext .precommitStep _)
    · exact Evolves.refl fit
  · exact Evolves.refl fit

theorem evolves_resumeFinalize (fit : t.Fit) : Evolves ext inputs t (t.resumeFinalize ext) := by
  unfold resumeFinalize
  split
  · split
    · next pid result =>
      split
      · exact evolves_finalizeQuorum fit result
      · exact Evolves.refl fit
    · exact Evolves.refl fit
  · exact Evolves.refl fit

theorem Counts.keeps (counts : Counts t t') : Keeps t t' :=
  ⟨counts.field EngineData.chainId, counts.field EngineData.policy,
    counts.myAddr, counts.vs, congrArg EngineState.height counts.state⟩

/-- Stepping, casting and starting a timer leave the set alone. -/
theorem keeps_cast (step : RoundStep) (voteType : VoteType) (pid : Bytes) (quiet : Quiet
      (castLocalVote ext (t.setStep step) sign voteType pid).1 t') :
    Keeps t t' := by
  have stepped : Keeps t (t.setStep step) := ⟨rfl, rfl, rfl, rfl, rfl⟩
  exact stepped.trans ((counts_castLocalVote ext (t.setStep step) sign voteType
    pid).keeps.trans quiet.keeps)

theorem keeps_precommitNil (ext : Externals) (t : Engine)
    (sign : Bytes → Bytes) : Keeps t (t.precommitNil ext sign) := by
  unfold precommitNil
  split
  · exact keeps_cast .precommitStep .precommit nilHash (quiet_settleDeferred ext .precommitStep _)
  · exact Keeps.refl t

theorem keeps_resumePrevote (ext : Externals) (t : Engine)
    (sign : Bytes → Bytes) : Keeps t (t.resumePrevote ext sign) := by
  have cleared : Quiet t { t with pendingPrevote := none } := ⟨rfl, rfl⟩
  unfold resumePrevote
  split
  · next height round pid pending =>
    split
    · exact cleared.keeps.trans (keeps_cast .prevoteStep .prevote pid
        (quiet_settle ext .prevoteStep _))
    · exact cleared.keeps
  · exact Keeps.refl t

theorem Keeps.member (keeps : Keeps t t')
    (member : t.amIValidator = true) : t'.amIValidator = true := by
  unfold amIValidator at member ⊢
  rw [keeps.vs, keeps.myAddr]
  exact member

theorem evolves_resumeVoting (fit : t.Fit) (signs : inputs.Signs ext sign) :
    Evolves ext inputs t (t.resumeVoting ext sign) := by
  unfold resumeVoting
  split
  · exact Evolves.refl fit
  · next enabled =>
    have member := member_of_allowed (t := t) (by simpa using enabled)
    have prevoted := evolves_resumePrevote fit member signs
    have nil := prevoted.trans (evolves_precommitNil prevoted.fit signs)
    have keeps := (keeps_resumePrevote ext t sign).trans (keeps_precommitNil ext _ sign)
    have precommitted := nil.trans (evolves_resumePrecommit nil.fit (keeps.member member) signs)
    exact precommitted.trans (evolves_resumeFinalize precommitted.fit)

theorem evolves_onReady (fit : t.Fit) (signs : inputs.Signs ext sign) :
    Evolves ext inputs t (t.onReady ext sign) := by
  have resumed := evolves_resumeVoting fit signs
  unfold onReady
  simp only
  split
  · exact resumed.quiet (quiet_scheduleStepTimeout ext _ _)
  · exact resumed

end Engine
end LiteNode
