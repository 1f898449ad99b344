import LiteNode.Engine.Locking

/-!
# Moves that count votes

Votes of the current round, votes of past rounds and the engine's own saved
votes, and finalizes that were checked elsewhere.
-/

namespace LiteNode
namespace Engine

variable {ext : Externals} {inputs : Inputs} {t : Engine}
variable {sign : Bytes → Bytes} {vote : Vote}

theorem counts_addVoteAt (t : Engine) (ref : Ref) (vote : Vote)
    (set : ValidatorSet) : Counts t (t.addVoteAt ref vote set).1 := rfl

variable {kind : TableKind} {ref : Ref} {set : ValidatorSet} {pid : Bytes}

theorem shows_of_addVoteAt (fit : t.Fit) {round : Int}
    (stored : (t.table kind).find? round = some ref) (epoch : vote.epochId = t.state.height)
    (reported : (t.addVoteAt ref vote set).2 = .quorumOf pid) :
    ∃ votes, (t.addVoteAt ref vote set).1.votesAt kind round = some votes ∧
      votes.ShowsQuorum t.policy t.state.height set pid := by
  obtain ⟨-, counted⟩ := VoteSet.counted_of_addVote reported
  refine ⟨_, ?_, epoch ▸ showsQuorum_of_counted counted⟩
  refine (EngineData.votesAt_write fit.separated stored _ _ _).trans ?_
  rw [if_pos ⟨rfl, rfl⟩]

theorem learns_learnPrevote (t : Engine) (set : ValidatorSet) (ref : Ref)
    (vote : Vote) : Learns t (t.learnPrevote set ref vote) := by
  unfold learnPrevote
  split
  · exact learns_recordPolc t _ _
  · exact Learns.refl t

/-- A proof of lock is recorded when prevotes back it. -/
theorem evolves_learnPrevote (fit : t.Fit) (stored : (t.table kind).find? vote.round = some ref)
    (prevotes : kind ≠ .precommit) (counting : t.core.countingSet kind = some set) :
    Evolves ext inputs t (t.learnPrevote set ref vote) := by
  unfold learnPrevote
  split
  · next quorum =>
    unfold prevoteQuorum at quorum
    simp only [Bool.and_eq_true] at quorum
    exact evolves_recordPolc fit fun _ => Or.inl ⟨kind, set, _, prevotes,
      EngineData.votesAt_eq stored, counting, Or.inl quorum.2⟩
  · exact Evolves.refl fit

/-- Counting a prevote and recording the proof of lock that it completes. -/
theorem evolves_countPrevote (fit : t.Fit) (stored : (t.table kind).find? vote.round = some ref)
    (prevotes : kind ≠ .precommit) (counting : t.core.countingSet kind = some set)
    (trusted : inputs.vote vote) (epoch : vote.epochId = t.state.height)
    (type : vote.voteType = .prevote) :
    Evolves ext inputs t ((t.addVoteAt ref vote set).1.learnPrevote set ref vote) := by
  have type' : vote.voteType = kind.voteType := by
    cases kind with
    | prevote => exact type
    | source => exact type
    | precommit => exact absurd rfl prevotes
  have counted : Evolves ext inputs _ _ := evolves_addVoteAt fit stored counting trusted
    epoch type'
  have stored' : ((t.addVoteAt ref vote set).1.table kind).find? vote.round = some ref := by
    cases kind <;> exact stored
  have counting' : (t.addVoteAt ref vote set).1.core.countingSet kind = some set := by
    cases kind <;> exact counting
  exact counted.trans (evolves_learnPrevote counted.fit stored' prevotes counting')

theorem keeps_sourceVotesAt (t : Engine) (round : Int) : Keeps t (t.sourceVotesAt round).1 := by
  unfold sourceVotesAt
  split <;> exact ⟨rfl, rfl, rfl, rfl, rfl⟩

theorem keeps_prevotesAt (t : Engine) (round : Int) : Keeps t (t.prevotesAt round).1 := by
  unfold prevotesAt
  split <;> exact ⟨rfl, rfl, rfl, rfl, rfl⟩

theorem keeps_precommitsAt (t : Engine) (round : Int) : Keeps t (t.precommitsAt round).1 := by
  unfold precommitsAt
  split <;> exact ⟨rfl, rfl, rfl, rfl, rfl⟩

def countSource (t : Engine) (source : ValidatorSet) (vote : Vote) : Engine :=
  let saved := t.sourceVotesAt vote.round
  ((saved.1.addVoteAt saved.2 vote source).1).learnPrevote source saved.2 vote

def countPrevote (t : Engine) (vote : Vote) : Engine :=
  let votes := t.prevotesAt vote.round
  ((votes.1.addVoteAt votes.2 vote votes.1.vs).1).learnPrevote votes.1.vs votes.2 vote

theorem keeps_countSource (t : Engine) (source : ValidatorSet) (vote : Vote) :
    Keeps t (t.countSource source vote) :=
  (keeps_sourceVotesAt t vote.round).trans
    ((counts_addVoteAt _ _ vote source).keeps.trans (learns_learnPrevote _ source _ vote).keeps)

theorem evolves_countSource (fit : t.Fit) {source : ValidatorSet}
    (counting : t.core.countingSet .source = some source)
    (trusted : inputs.vote vote) (epoch : vote.epochId = t.state.height)
    (type : vote.voteType = .prevote) : Evolves ext inputs t (t.countSource source vote) := by
  have saved : Evolves ext inputs _ _ := evolves_sourceVotesAt fit vote.round
  have keeps := keeps_sourceVotesAt t vote.round
  refine saved.trans (evolves_countPrevote saved.fit
    (find?_sourceVotesAt t vote.round) (by simp) ?_ trusted
    (epoch.trans keeps.height.symm) type)
  change (t.sourceVotesAt vote.round).1.vs.sourceSet
    (t.sourceVotesAt vote.round).1.chainId
    (t.sourceVotesAt vote.round).1.state.height = some source
  rw [keeps.vs, keeps.chainId, keeps.height]
  exact counting

theorem evolves_countPrevoteAt (fit : t.Fit) (trusted : inputs.vote vote)
    (epoch : vote.epochId = t.state.height) (type : vote.voteType = .prevote) :
    Evolves ext inputs t (t.countPrevote vote) := by
  have stored : Evolves ext inputs _ _ := evolves_prevotesAt fit vote.round
  have keeps := keeps_prevotesAt t vote.round
  exact stored.trans (evolves_countPrevote stored.fit
    (find?_prevotesAt t vote.round) (by simp) rfl trusted
    (epoch.trans keeps.height.symm) type)

theorem evolves_recordHistoricalPrevote (fit : t.Fit) (trusted : inputs.vote vote)
    (epoch : vote.epochId = t.state.height) (type : vote.voteType = .prevote) :
    Evolves ext inputs t (t.recordHistoricalPrevote vote) := by
  unfold recordHistoricalPrevote
  split
  · cases source : t.vs.sourceSet t.chainId t.state.height with
    | none => exact evolves_countPrevoteAt fit trusted epoch type
    | some set =>
      have counted : Evolves ext inputs _ _ := evolves_countSource fit source trusted epoch type
      exact counted.trans (evolves_countPrevoteAt counted.fit trusted
        (epoch.trans (keeps_countSource t set vote).height.symm) type)
  · exact Evolves.refl fit

/-- A header that is found under a proposal id is known for it. -/
theorem knows_of_findKnownHeader {header : EpochHeader}
    (found : findKnownHeader ext t.toEngineData pid = some header) :
    t.core.Knows ext pid header := by
  have ofValid : findKnownHeader.knownValid ext t.toEngineData pid =
      some header → t.core.Knows ext pid header := by
    intro chosen
    unfold findKnownHeader.knownValid at chosen
    split at chosen
    · next value valid =>
      split at chosen
      · next same =>
        cases chosen
        exact Or.inr ⟨same, Or.inr (Or.inr valid)⟩
      · cases chosen
    · cases chosen
  have ofValue : findKnownHeader.knownValue ext t.toEngineData pid =
      some header → t.core.Knows ext pid header := by
    intro chosen
    unfold findKnownHeader.knownValue at chosen
    split at chosen
    · next value locked =>
      split at chosen
      · next same =>
        cases chosen
        exact Or.inr ⟨same, Or.inr (Or.inl locked)⟩
      · exact ofValid chosen
    · exact ofValid chosen
  unfold findKnownHeader at found
  split at found
  · next stored =>
    cases found
    obtain ⟨entry, stored, header_eq⟩ := Option.map_eq_some_iff.mp stored
    exact Or.inl ⟨entry, stored, header_eq⟩
  · split at found
    · next p current =>
      split at found
      · next same =>
        cases found
        refine Or.inr ⟨same, Or.inl ?_⟩
        change t.currentProposal.map Propose.header = some p.header
        rw [current]
        rfl
      · exact ofValue found
    · exact ofValue found

theorem evolves_finalizeCounted (fit : t.Fit) (result : VoteAddResult) {round : Int}
    (quorum : ∀ pid, result = .quorumOf pid →
      ∃ votes, t.core.votes .precommit round = some votes ∧
        votes.ShowsQuorum t.policy t.state.height t.vs pid) :
    Evolves ext inputs t (t.finalizeCounted ext result round) := by
  unfold finalizeCounted
  split
  · next pid =>
    split
    · split
      · exact Evolves.refl fit
      · next header found =>
        exact evolves_emitLocalFinalize fit (knows_of_findKnownHeader found) (quorum pid rfl)
    · exact Evolves.refl fit
  · exact Evolves.refl fit

theorem evolves_countPrecommit (fit : t.Fit)
    (stored : (t.table .precommit).find? vote.round = some ref)
    (trusted : inputs.vote vote) (epoch : vote.epochId = t.state.height)
    (type : vote.voteType = .precommit) :
    Evolves ext inputs t
      (((t.addVoteAt ref vote t.vs).1.requestMissing vote
        (t.addVoteAt ref vote t.vs).2).finalizeCounted ext
          (t.addVoteAt ref vote t.vs).2 vote.round) := by
  have counted : Evolves ext inputs _ _ := evolves_addVoteAt fit stored rfl trusted epoch type
  have asked := quiet_requestMissing (t.addVoteAt ref vote t.vs).1 vote
    (t.addVoteAt ref vote t.vs).2
  refine (counted.quiet asked).trans (evolves_finalizeCounted (asked.fit counted.fit) _ ?_)
  intro pid reported
  obtain ⟨votes, found, shows⟩ := shows_of_addVoteAt fit stored epoch reported
  rw [asked.core_eq, asked.data]
  exact ⟨votes, found, shows⟩

theorem evolves_recordHistoricalPrecommit (fit : t.Fit) (trusted : inputs.vote vote)
    (epoch : vote.epochId = t.state.height) (type : vote.voteType = .precommit) :
    Evolves ext inputs t (t.recordHistoricalPrecommit ext vote) := by
  unfold recordHistoricalPrecommit
  split
  · have stored : Evolves ext inputs _ _ := evolves_precommitsAt fit vote.round
    exact stored.trans (evolves_countPrecommit stored.fit
      (find?_precommitsAt t vote.round) trusted
      (epoch.trans (keeps_precommitsAt t vote.round).height.symm) type)
  · exact Evolves.refl fit

theorem evolves_precommitChosen (fit : t.Fit) (signs : inputs.Signs ext sign)
    (locked : isNil pid = false →
      ∀ p, t.findProposalMessage pid t.state.round = some p →
        t.state.lockedRound = t.state.round ∧ t.core.PrevotesShow pid ∧
          t.state.lockedValue = some p.header) :
    Evolves ext inputs t (t.precommitChosen ext sign pid) := by
  unfold precommitChosen
  split
  · next enabled =>
    have stepped : Evolves ext inputs _ _ := evolves_setStep fit .precommitStep
    exact (stepped.trans (evolves_castLocalVote stepped.fit
      (member_of_allowed enabled) signs fun _ => locked)).quiet
      (quiet_settleDeferred ext .precommitStep _)
  · exact Evolves.refl fit

/-- Acting on what the prevotes of the current round decide. -/
theorem evolves_actOnPrevotes
    (fit : t.Fit) (signs : inputs.Signs ext sign) (result : VoteAddResult) :
    (∀ pid, result = .quorumOf pid → t.core.PrevotesShow pid) →
    Evolves ext inputs t
      (match result with
      | .quorumOf proposalId =>
        if t.state.step = .prevoteStep then
          if isNil proposalId then t.precommitChosen ext sign proposalId
          else
            match t.findProposalMessage proposalId t.state.round with
            | none => t
            | some accepted => (t.lockOn accepted.header).precommitChosen ext sign proposalId
        else t
      | .quorumAny =>
        if t.state.step = .prevoteStep then t.scheduleStepTimeout ext .prevoteStep
        else t
      | _ => t) := by
  intro shown
  split
  · next pid =>
    split
    · split
      · next nil =>
        exact evolves_precommitChosen fit signs fun proper => by
          simp [nil] at proper
      · split
        · exact Evolves.refl fit
        · next accepted known =>
          have locked : Evolves ext inputs _ _ := evolves_lockOn fit known (shown pid rfl)
          refine locked.trans (evolves_precommitChosen locked.fit signs ?_)
          intro _ p found
          have same : p = accepted := Option.some.inj (found.symm.trans known)
          exact ⟨rfl, shown pid rfl, by rw [same]; rfl⟩
    · exact Evolves.refl fit
  · split
    · exact (quiet_scheduleStepTimeout ext t _).evolves fit
    · exact Evolves.refl fit
  · exact Evolves.refl fit

theorem evolves_onCurrentPrevote (fit : t.Fit) (signs : inputs.Signs ext sign)
    (trusted : inputs.vote vote) (epoch : vote.epochId = t.state.height)
    (round : vote.round = t.state.round) (type : vote.voteType = .prevote) :
    Evolves ext inputs t (t.onCurrentPrevote ext vote sign) := by
  have stored : (t.table .prevote).find? vote.round = some t.prevotes := by
    rw [round]
    exact fit.prevotes
  have counted : Evolves ext inputs _ _ := evolves_countPrevote fit stored (by simp) rfl
    trusted epoch type
  have asked := quiet_requestMissing
    ((t.addVoteAt t.prevotes vote t.vs).1.learnPrevote t.vs t.prevotes vote)
    vote (t.addVoteAt t.prevotes vote t.vs).2
  have settled := counted.quiet asked
  refine settled.trans (evolves_actOnPrevotes settled.fit signs
    (t.addVoteAt t.prevotes vote t.vs).2 ?_)
  intro pid reported
  obtain ⟨votes, found, shows⟩ := shows_of_addVoteAt fit stored epoch reported
  have shown : (t.addVoteAt t.prevotes vote t.vs).1.core.PrevotesShow pid :=
    ⟨votes, round ▸ found, shows⟩
  rw [asked.core_eq]
  exact (learns_learnPrevote _ t.vs t.prevotes vote).prevotesShow shown

theorem evolves_onCurrentPrecommit (fit : t.Fit) (trusted : inputs.vote vote)
    (epoch : vote.epochId = t.state.height)
    (round : vote.round = t.state.round) (type : vote.voteType = .precommit) :
    Evolves ext inputs t (t.onCurrentPrecommit ext vote) := by
  have stored : (t.table .precommit).find? vote.round = some t.precommits := by
    rw [round]
    exact fit.precommits
  have counted : Evolves ext inputs _ _ := evolves_countPrecommit fit stored trusted epoch type
  have asked := quiet_requestMissing (t.addVoteAt t.precommits vote t.vs).1
    vote (t.addVoteAt t.precommits vote t.vs).2
  have round_eq : ((t.addVoteAt t.precommits vote t.vs).1.requestMissing vote
      (t.addVoteAt t.precommits vote t.vs).2).state.round = vote.round :=
    (congrArg (fun data : EngineData => data.state.round) asked.data).trans round.symm
  unfold onCurrentPrecommit
  simp only [round_eq]
  exact counted

theorem evolves_scheduleAfterVote (fit : t.Fit) :
    Evolves ext inputs t (t.scheduleAfterVote ext) := by
  have first : Quiet t (if t.roundWait ∧ t.state.step = .prevoteStep then
      t.scheduleStepTimeout ext .prevoteStep else t) := by
    split
    · exact quiet_scheduleStepTimeout ext t _
    · exact Quiet.refl t
  have settled : Evolves ext inputs _ _ := first.evolves fit
  unfold scheduleAfterVote
  generalize (if t.roundWait ∧ t.state.step = .prevoteStep then
    t.scheduleStepTimeout ext .prevoteStep else t) = waited at settled
  simp only
  split
  · exact (settled.trans (evolves_setStep settled.fit .precommitStep)).quiet
      (quiet_scheduleStepTimeout ext _ _)
  · exact settled

theorem evolves_onVote (fit : t.Fit) (signs : inputs.Signs ext sign) (trusted : inputs.vote vote) :
    Evolves ext inputs t (t.onVote ext vote sign) := by
  unfold onVote
  split
  · exact Evolves.refl fit
  split
  · exact Evolves.refl fit
  next epoch =>
  have epoch := not_not.mp epoch
  split
  · exact Evolves.refl fit
  split
  · exact Evolves.refl fit
  split
  · cases type : vote.voteType with
    | prevote => exact evolves_recordHistoricalPrevote fit trusted epoch type
    | precommit => exact evolves_recordHistoricalPrecommit fit trusted epoch type
  have followed : Evolves ext inputs _ _ := evolves_followHigherRound fit vote.round vote.validator
  have keeps : Keeps t (t.followHigherRound ext vote.round vote.validator) :=
    keeps_followHigherRound fit vote.round vote.validator
  have epoch' := epoch.trans keeps.height.symm
  simp only
  split
  · exact followed
  · next round =>
    have round := not_not.mp round
    cases type : vote.voteType with
    | prevote =>
      have counted := followed.trans (evolves_onCurrentPrevote followed.fit
        signs trusted epoch' round type)
      exact counted.trans (evolves_scheduleAfterVote counted.fit)
    | precommit =>
      have counted := followed.trans (evolves_onCurrentPrecommit followed.fit
        trusted epoch' round type)
      exact counted.trans (evolves_scheduleAfterVote counted.fit)

end Engine
end LiteNode
