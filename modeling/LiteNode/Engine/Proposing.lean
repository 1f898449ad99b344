import LiteNode.Engine.Locking
import LiteNode.Types.Authors

/-!
# Moves that handle proposals

An engine's own proposal, a proposal of another leader, and a proposal of a
past round that a proof of lock asks for.
-/

namespace LiteNode
namespace Engine

variable {ext : Externals} {inputs : Inputs} {t : Engine}
variable {sign : Bytes → Bytes} {voteType : VoteType} {pid : Bytes}

variable {header : EpochHeader} {p : Propose}

/-- Finalizing the locked value once the own precommit made up a quorum. -/
theorem evolves_emitOwn (fit : t.Fit) {pid' : Bytes}
    (casts : (castLocalVote ext t sign .precommit pid).1.Fit)
    (reported : (castLocalVote ext t sign .precommit pid).2 =
      .cast (.quorumOf pid')) (value : t.state.lockedValue = some header)
    (named : ext.proposalId header = pid) :
    Evolves ext inputs (castLocalVote ext t sign .precommit pid).1
      (emitLocalFinalize ext (castLocalVote ext t sign .precommit pid).1
        header pid
        (castLocalVote ext t sign .precommit pid).1.state.round).1 := by
  have counts := counts_castLocalVote ext t sign .precommit pid
  obtain ⟨pid_eq, votes, stored, shows⟩ := shows_of_castLocalVote fit reported
  have pid_eq' : pid' = pid := pid_eq
  subst pid_eq'
  refine evolves_emitLocalFinalize casts (Or.inr ⟨named, Or.inr (Or.inl ?_)⟩)
    ⟨votes, ?_, ?_⟩
  · change (castLocalVote ext t sign .precommit pid').1.state.lockedValue = _
    rw [counts.state]
    exact value
  · rw [counts.state]
    exact stored
  · rw [counts.keeps.policy, counts.keeps.vs, counts.state]
    exact shows

theorem evolves_precommitOwn (fit : t.Fit) (member : t.amIValidator = true)
    (signs : inputs.Signs ext sign) (known : t.findProposalMessage pid t.state.round = some p)
    (named : ext.proposalId p.header = pid) (shown : t.core.PrevotesShow pid) :
    Evolves ext inputs t (t.precommitOwn ext sign p.header pid) := by
  have chosen : ∃ recorded : Engine, recorded = (if t.policy.select t.state.height = .stake then
        t.recordPolc t.state.round pid else t) ∧
      Evolves ext inputs t (castLocalVote ext
        ((recorded.lockOn p.header).setStep .precommitStep) sign .precommit pid).1 ∧
      ((recorded.lockOn p.header).setStep .precommitStep).Fit := by
    by_cases stake : t.policy.select t.state.height = .stake
    · rw [if_pos stake]
      have recorded : Evolves ext inputs _ _ := evolves_recordPolc fit
        fun _ => Or.inl (prevotesShow_supports shown)
      exact ⟨_, rfl, evolves_lockChosen fit member signs known shown,
        recorded.fit.of_same ⟨rfl, fun _ => rfl, rfl, rfl, rfl⟩⟩
    · rw [if_neg stake]
      exact ⟨_, rfl, evolves_lockAndCast fit member signs known shown,
        fit.of_same ⟨rfl, fun _ => rfl, rfl, rfl, rfl⟩⟩
  obtain ⟨recorded, recorded_eq, casts, locked⟩ := chosen
  unfold precommitOwn
  rw [← recorded_eq]
  dsimp only
  split
  · next t' pid' equal =>
    split
    · have emits : Evolves ext inputs _ _ := evolves_emitOwn locked casts.fit
        (congrArg Prod.snd equal) rfl named
      rw [equal] at casts emits
      exact casts.trans emits
    · rw [equal] at casts
      exact casts.quiet (quiet_scheduleStepTimeout ext _ _)
  · next t' outcome _ equal =>
    rw [equal] at casts
    exact casts.quiet (quiet_scheduleStepTimeout ext _ _)

/-- Going on to precommit once the own prevote made up a quorum. -/
theorem evolves_precommitCast (fit : t.Fit) (casts : (castLocalVote ext t sign .prevote pid).1.Fit)
    (member : t.amIValidator = true) (signs : inputs.Signs ext sign) {pid' : Bytes}
    (known : t.findProposalMessage pid' t.state.round = some p)
    (named : ext.proposalId p.header = pid')
    (reported : (castLocalVote ext t sign .prevote pid).2 = .cast (.quorumOf pid')) :
    Evolves ext inputs (castLocalVote ext t sign .prevote pid).1
      ((castLocalVote ext t sign .prevote pid).1.precommitOwn ext sign p.header pid') := by
  have counts := counts_castLocalVote ext t sign .prevote pid
  obtain ⟨-, votes, stored, shows⟩ := shows_of_castLocalVote fit reported
  refine evolves_precommitOwn casts (counts.keeps.member member) signs ?_ named
    ⟨votes, ?_, ?_⟩
  · rw [counts.state]
    exact (congrArg (fun messages => messages.find? (pid', t.state.round))
      (counts.field EngineData.proposalMessages)).trans known
  · rw [← counts.state] at stored
    exact stored
  · rw [← counts.keeps.policy, ← counts.keeps.vs, ← counts.keeps.height] at shows
    exact shows

theorem evolves_cacheProposalBundle (fit : t.Fit) (txHashes : List Bytes)
    (parentCommit : Option ParentCommit) (proposable : t.core.Proposable ext inputs header) :
    Evolves ext inputs t (t.cacheProposalBundle (ext.proposalId header) header
      txHashes parentCommit) := by
  refine Evolves.of_move (fit.of_same ⟨rfl, fun _ => rfl, rfl, rfl, rfl⟩) ?_
  rw [show (t.cacheProposalBundle (ext.proposalId header) header txHashes
    parentCommit).core = _ from core_setCache t _ _]
  exact Move.cacheBundle header txHashes parentCommit proposable

/-- Messages and cache of an engine that differ by promotions only. -/
theorem promoteCachedPolc_known (t : Engine) (pid : Bytes) :
    (t.promoteCachedPolc pid).proposalMessages = t.proposalMessages ∧
      (t.promoteCachedPolc pid).proposalCache = t.proposalCache := by
  unfold promoteCachedPolc
  generalize t.polcByRound.toList = entries
  induction entries generalizing t with
  | nil => exact ⟨rfl, rfl⟩
  | cons entry rest ih =>
    rw [List.foldl_cons]
    have step : ∀ t' : Engine, t' = (if entry.2 = pid then
          t.promoteKnownHeader entry.1 pid else t) →
        t'.proposalMessages = t.proposalMessages ∧ t'.proposalCache = t.proposalCache := by
      rintro t' rfl
      unfold promoteKnownHeader
      split
      · split
        · split <;> exact ⟨rfl, rfl⟩
        · exact ⟨rfl, rfl⟩
      · exact ⟨rfl, rfl⟩
    obtain ⟨messages, cache⟩ := step _ rfl
    obtain ⟨messages', cache'⟩ := ih (if entry.2 = pid then
      t.promoteKnownHeader entry.1 pid else t)
    exact ⟨messages'.trans messages, cache'.trans cache⟩

/-- A stored proposal is found again. -/
theorem find?_cacheProposalMessage (t : Engine) (p : Propose) :
    (t.cacheProposalMessage ext p).findProposalMessage
        (ext.proposalId p.header) p.round = some p ∧
      (t.cacheProposalMessage ext p).proposalCache.find?
        (ext.proposalId p.header) = some ⟨p.header, some p.txHashes, p.parentCommit⟩ := by
  rw [cacheProposalMessage_eq]
  obtain ⟨messages, cache⟩ := promoteCachedPolc_known (storeMessage ext t p)
    (ext.proposalId p.header)
  refine ⟨?_, ?_⟩
  · unfold EngineData.findProposalMessage
    rw [messages]
    exact Table.find?_replace _ _ _
  · rw [cache]
    exact Table.find?_replace _ _ _

theorem evolves_holdProposal (fit : t.Fit) (proposable : t.core.Proposable ext inputs p.header) :
    Evolves ext inputs t { t.cacheProposalMessage ext p with currentProposal := some p } := by
  have stored := evolves_cacheProposalMessage fit proposable
  refine stored.trans (Evolves.of_move (stored.fit.of_same ⟨rfl, fun _ => rfl, rfl, rfl, rfl⟩) ?_)
  exact Move.setCurrent (ext.proposalId p.header) p _ (find?_cacheProposalMessage t p).2 rfl

/-- A header keeps its standing when the engine learns of proposals only. -/
theorem Proposable.of_learns {t' : Engine}
    (learns : Learns t t') (value : t'.state.validValue = t.state.validValue)
    (proposable : t.core.Proposable ext inputs header) : t'.core.Proposable ext inputs header := by
  rcases proposable with ⟨epoch, chain, version, author⟩ | valid
  · have epoch' : header.epochId = t'.state.height := epoch.trans learns.height.symm
    refine Or.inl ⟨epoch', chain.trans (learns.field EngineData.chainId).symm,
      version.trans (congrArg ext.versionForEpoch learns.height.symm), ?_⟩
    rcases author with author | trusted
    · left
      change t'.vs.isAuthor t'.chainId t'.state.height header.creatorAddr = true
      rw [learns.vs, learns.height, learns.field EngineData.chainId]
      exact author
    · exact Or.inr (learns.setting ▸ trusted)
  · exact Or.inr (value.trans valid)

theorem evolves_proposeResolved (fit : t.Fit) (member : t.amIValidator = true)
    (signs : inputs.Signs ext sign) {resolved : Resolved}
    (proposable : t.core.Proposable ext inputs resolved.1) :
    Evolves ext inputs t (t.proposeResolved ext sign resolved) := by
  obtain ⟨header, txHashes, validRound, parentCommit⟩ := resolved
  have bundled := evolves_cacheProposalBundle fit txHashes parentCommit proposable
  let cached := t.cacheProposalBundle (ext.proposalId header) header txHashes parentCommit
  let propose := signedPropose ext cached.toEngineData sign
    (header, txHashes, validRound, parentCommit)
  have learnsBundle : Learns t cached := rfl
  have proposable' : cached.core.Proposable ext inputs propose.header :=
    Proposable.of_learns learnsBundle rfl proposable
  have held := bundled.trans (evolves_holdProposal bundled.fit proposable')
  let holding : Engine := { cached.cacheProposalMessage ext propose with
    currentProposal := some propose }
  have sent : Quiet holding (holding.emit (.sendPropose propose)) := quiet_emit holding fun _ => rfl
  let voting := (holding.emit (.sendPropose propose)).setStep .prevoteStep
  have stepped := (held.quiet sent).trans (evolves_setStep (sent.fit held.fit) .prevoteStep)
  have learns := (learns_cacheProposalMessage ext cached propose).keeps
  have sending := sent.keeps
  have keeps : Keeps t voting :=
    { chainId := sending.chainId.trans learns.chainId
      policy := sending.policy.trans learns.policy
      myAddr := sending.myAddr.trans learns.myAddr
      vs := sending.vs.trans learns.vs
      height := sending.height.trans learns.height }
  have casts := stepped.trans (evolves_castFree stepped.fit
    (keeps.member member) signs .prevote (ext.proposalId header) (Or.inl rfl))
  have round_eq : voting.state.round = propose.round :=
    (congrArg (fun data : EngineData => data.state.round) sent.data).trans
      (learns_cacheProposalMessage ext cached propose).round
  have known : voting.findProposalMessage (ext.proposalId header)
      voting.state.round = some propose := by
    rw [round_eq]
    exact (congrArg (fun data : EngineData => data.findProposalMessage
      (ext.proposalId header) propose.round) sent.data).trans
      (find?_cacheProposalMessage cached propose).1
  unfold proposeResolved
  simp only
  split
  · next t' pid' equal =>
    split
    · next same =>
      subst same
      have finish : Evolves ext inputs _ _ := evolves_precommitCast stepped.fit
        casts.fit (keeps.member member) signs known rfl
        (congrArg Prod.snd equal)
      rw [equal] at casts finish
      exact casts.trans finish
    · rw [equal] at casts
      exact casts.quiet (quiet_scheduleStepTimeout ext _ _)
  · next t' result _ equal =>
    rw [equal] at casts
    exact casts.quiet (quiet_scheduleStepTimeout ext _ _)
  · next t' equal =>
    rw [equal] at casts
    exact casts.quiet (quiet_scheduleStepTimeout ext _ _)
  · next t' prior equal =>
    rw [equal] at casts
    exact casts
  · next t' equal =>
    rw [equal] at casts
    exact casts

/-- What is proposed fits the height, or is the valid value. -/
theorem proposable_of_resolveProposal {txHashes : List Bytes}
    {parentCommit : Option ParentCommit} {resolved : Resolved}
    (given : t.core.Proposable ext inputs header)
    (resolves : t.resolveProposal ext header txHashes parentCommit = some resolved) :
    t.core.Proposable ext inputs resolved.1 := by
  unfold resolveProposal at resolves
  split at resolves
  · split at resolves
    · next value valid =>
      split at resolves
      · simp only at resolves
        split at resolves
        · cases resolves
        split at resolves
        · cases resolves
        · cases resolves
          exact Or.inr valid
      · cases resolves
        exact given
    · cases resolves
      exact given
  · cases resolves
    exact given

theorem evolves_doPropose (fit : t.Fit) (parentCommit : Option ParentCommit)
    (txHashes : List Bytes) (author : inputs.author t.core.setting header)
    (signs : inputs.Signs ext sign) :
    Evolves ext inputs t (t.doPropose ext parentCommit header txHashes sign) := by
  unfold doPropose
  split
  · exact Evolves.refl fit
  next enabled =>
  split
  · exact Evolves.refl fit
  split
  · exact Evolves.refl fit
  next epoch =>
  split
  · exact Evolves.refl fit
  next chain =>
  split
  · exact Evolves.refl fit
  next version =>
  split
  · exact Evolves.refl fit
  split
  · exact Evolves.refl fit
  next resolved resolves =>
  simp only
  split
  · exact Evolves.refl fit
  have epoch' : header.epochId = t.state.height := not_not.mp epoch
  have given : t.core.Proposable ext inputs header := by
    refine Or.inl ⟨epoch', not_not.mp chain, ?_, Or.inr author⟩
    rw [not_not.mp version, epoch']
    rfl
  exact evolves_proposeResolved fit
    (member_of_allowed (by simpa using enabled)) signs
    (proposable_of_resolveProposal given resolves)

theorem finishes_finalizeFromCache (ext : Externals) (t : Engine) (pid : Bytes) :
    Finishes t (t.finalizeFromCache ext pid).1 := by
  unfold finalizeFromCache
  split
  · split
    · split
      · unfold finalizeQuorum
        split
        · rfl
        · exact finishes_emitLocalFinalize ext t _ pid _
      · rfl
    · rfl
  · rfl

theorem evolves_finalizeFromCache (pid : Bytes) (fit : t.Fit) :
    Evolves ext inputs t (t.finalizeFromCache ext pid).1 := by
  unfold finalizeFromCache
  split
  · split
    · next pid' result =>
      split
      · next same =>
        exact evolves_finalizeQuorum fit (same ▸ result)
      · exact Evolves.refl fit
    · exact Evolves.refl fit
  · exact Evolves.refl fit

theorem evolves_precommitAccepted (fit : t.Fit) (member : t.amIValidator = true)
    (signs : inputs.Signs ext sign)
    (known : t.findProposalMessage (ext.proposalId p.header) t.state.round =
      some p) (shown : t.core.PrevotesShow (ext.proposalId p.header)) :
    Evolves ext inputs t (t.precommitAccepted ext sign p.header
      (ext.proposalId p.header) (ext.proposalId p.header)) := by
  have recorded : Evolves ext inputs _ _ := evolves_recordPolc fit
    fun _ => Or.inl (prevotesShow_supports shown)
  have locked : (((t.recordPolc t.state.round
      (ext.proposalId p.header)).lockOn p.header).setStep .precommitStep).Fit :=
    recorded.fit.of_same ⟨rfl, fun _ => rfl, rfl, rfl, rfl⟩
  have casts : Evolves ext inputs _ _ := evolves_lockChosen fit member signs known shown
  unfold precommitAccepted
  simp only
  split
  · next t' pid' equal =>
    have emits : Evolves ext inputs _ _ := evolves_emitOwn locked casts.fit
      (congrArg Prod.snd equal) rfl rfl
    rw [equal] at casts emits
    exact casts.trans emits
  · next t' outcome _ equal =>
    rw [equal] at casts
    exact casts.quiet (quiet_scheduleStepTimeout ext _ _)

theorem evolves_prevoteProposal (fit : t.Fit) (member : t.amIValidator = true)
    (signs : inputs.Signs ext sign) {accept : Bool} (known : accept = true →
      t.findProposalMessage (ext.proposalId p.header) t.state.round = some p) :
    Evolves ext inputs t (t.prevoteProposal ext sign p accept) := by
  have stepped : Evolves ext inputs _ _ := evolves_setStep fit .prevoteStep
  let voteProposalId := if accept then ext.proposalId p.header else nilHash
  have casts := stepped.trans (evolves_castFree stepped.fit member signs
    .prevote voteProposalId (Or.inl rfl))
  have counts := counts_castLocalVote ext (t.setStep .prevoteStep) sign .prevote voteProposalId
  unfold prevoteProposal
  rcases cast : castLocalVote ext (t.setStep .prevoteStep) sign .prevote
    voteProposalId with ⟨t', outcome⟩
  rw [cast] at casts counts
  have settled := casts.quiet (quiet_settleOutcome ext .prevoteStep t' outcome)
  have nil := settled.trans (evolves_precommitNil settled.fit signs)
  simp only [show castLocalVote ext (t.setStep .prevoteStep) sign .prevote
    (if accept then ext.proposalId p.header else nilHash) = (t', outcome) from cast]
  by_cases quorum : accept = true ∧ t'.prevoteResult = .quorumOf voteProposalId
  · obtain ⟨rfl, result⟩ := quorum
    have voted : voteProposalId = ext.proposalId p.header := rfl
    rw [voted] at result
    simp only [result, if_true, decide_true, and_self]
    refine casts.trans (evolves_precommitAccepted casts.fit
      (counts.keeps.member member) signs ?_
      (prevotesShow_of_result casts.fit result))
    rw [counts.state]
    exact (congrArg (fun messages => messages.find?
      (ext.proposalId p.header, t.state.round))
      (counts.field EngineData.proposalMessages)).trans (known rfl)
  · rw [if_neg]
    · exact nil
    · rintro ⟨accepted, reported⟩
      refine quorum ⟨accepted, ?_⟩
      split at reported
      · next pid' result => rw [result, of_decide_eq_true reported]
      · exact absurd reported Bool.false_ne_true

/-- A kept proposal changes what is known, and the current proposal. -/
theorem keepProposal_data (ext : Externals) (t : Engine) (p : Propose) (accept lockOk : Bool) :
    ∃ current, (t.keepProposal ext p accept lockOk).toEngineData =
      { (t.cacheProposalMessage ext p).toEngineData with
        currentProposal := current } := by
  unfold keepProposal
  cases accept <;> cases lockOk <;> cases p.validRound
  case false.false.some round => exact ⟨_, (quiet_requestPolc _ round).data⟩
  case true.false.some round => exact ⟨_, (quiet_requestPolc _ round).data⟩
  all_goals exact ⟨_, rfl⟩

theorem evolves_keepProposal (fit : t.Fit) (accept lockOk : Bool)
    (proposable : t.core.Proposable ext inputs p.header) :
    Evolves ext inputs t (t.keepProposal ext p accept lockOk) := by
  have stored := evolves_cacheProposalMessage fit proposable
  have held := evolves_holdProposal fit proposable
  unfold keepProposal
  cases accept <;> cases lockOk <;> cases p.validRound
  case false.false.some round => exact stored.quiet (quiet_requestPolc _ round)
  case true.false.some round => exact held.quiet (quiet_requestPolc _ round)
  case true.false.none => exact held
  case true.true.none => exact held
  case true.true.some => exact held
  all_goals exact stored

theorem proposable_of_valid {verify : Bytes → Bytes → Bytes → Bool}
    {execute : Propose → Bool} (epoch : p.epochId = t.state.height)
    (valid : t.proposalValid ext p verify execute = true) :
    t.core.Proposable ext inputs p.header := by
  unfold proposalValid at valid
  simp only [Bool.and_eq_true] at valid
  have fits := headerFits_of_wellFormed valid.1.2.1
  rw [epoch] at fits
  exact Or.inl ⟨fits.sameEpoch, fits.sameChain, fits.protoVersion, Or.inl fits.author⟩

/-- Prevoting a proposal, or remembering to, unless it was finalized. -/
theorem evolves_voteOn (fit : t.Fit) (signs : inputs.Signs ext sign)
    {accept : Bool} (pid : Bytes) (finalized : Bool) (known : accept = true →
      t.findProposalMessage (ext.proposalId p.header) t.state.round = some p) :
    Evolves ext inputs t
      (if finalized then t
        else if !t.canPrevote then t
        else if !t.localVotingAllowed then t.rememberPendingPrevote pid
        else t.prevoteProposal ext sign p accept) := by
  split
  · exact Evolves.refl fit
  split
  · exact Evolves.refl fit
  split
  · exact (quiet_rememberPendingPrevote t pid).evolves fit
  · next enabled =>
    exact evolves_prevoteProposal fit (member_of_allowed (by simpa using enabled)) signs known

/-- A proposal that is found before finalizing is found after it. -/
theorem findProposalMessage_finalizeFromCache
    (ext : Externals) (t : Engine) (pid : Bytes) (other : Bytes) :
    (t.finalizeFromCache ext pid).1.findProposalMessage other
        (t.finalizeFromCache ext pid).1.state.round =
      t.findProposalMessage other t.state.round := by
  have finishes := finishes_finalizeFromCache ext t pid
  rw [finishes.samePlaces.round]
  exact congrArg (fun messages => messages.find? (other, t.state.round))
    (finishes.field EngineData.proposalMessages)

theorem findProposalMessage_keepProposal (ext : Externals) (t : Engine) (accept lockOk : Bool)
    (round : p.round = t.state.round) :
    (t.keepProposal ext p accept lockOk).findProposalMessage
        (ext.proposalId p.header)
        (t.keepProposal ext p accept lockOk).state.round = some p := by
  obtain ⟨current, data⟩ := keepProposal_data ext t p accept lockOk
  rw [data]
  change (t.cacheProposalMessage ext p).findProposalMessage _
    (t.cacheProposalMessage ext p).state.round = _
  rw [(learns_cacheProposalMessage ext t p).round, ← round]
  exact (find?_cacheProposalMessage t p).1

theorem evolves_onCurrentPropose (fit : t.Fit) (verify : Bytes → Bytes → Bytes → Bool)
    (execute : Propose → Bool) (signs : inputs.Signs ext sign)
    (epoch : p.epochId = t.state.height) (round : p.round = t.state.round) :
    Evolves ext inputs t (t.onCurrentPropose ext p verify execute sign) := by
  unfold onCurrentPropose
  cases valid : t.proposalValid ext p verify execute with
  | false =>
    exact evolves_voteOn fit signs nilHash false fun accepted => by cases accepted
  | true =>
    simp only [Bool.true_and, if_true]
    generalize (t.authorOk ext p &&
      t.lockAllows ext (ext.proposalId p.header) p.validRound) = lockOk
    have kept : Evolves ext inputs _ _ := evolves_keepProposal fit lockOk
      lockOk (proposable_of_valid epoch valid)
    have finalized : Evolves ext inputs _ _ := kept.trans
      (evolves_finalizeFromCache (ext.proposalId p.header) kept.fit)
    refine finalized.trans (evolves_voteOn finalized.fit signs _ _ ?_)
    intro _
    rw [findProposalMessage_finalizeFromCache]
    exact findProposalMessage_keepProposal ext t lockOk lockOk round

theorem evolves_onPropose (fit : t.Fit) (p : Propose) (verify : Bytes → Bytes → Bytes → Bool)
    (execute : Propose → Bool) (signs : inputs.Signs ext sign) :
    Evolves ext inputs t (t.onPropose ext p verify execute sign) := by
  unfold onPropose
  split
  · exact Evolves.refl fit
  split
  · exact Evolves.refl fit
  next epoch =>
  split
  · exact Evolves.refl fit
  have followed : Evolves ext inputs _ _ := evolves_followHigherRound fit p.round p.proposer
  simp only
  split
  · exact followed
  · next round =>
    exact followed.trans (evolves_onCurrentPropose followed.fit verify execute
      signs ((not_not.mp epoch).trans (keeps_followHigherRound fit p.round p.proposer).height.symm)
      (not_not.mp round))

theorem proposable_of_proof (needed : t.pastProposalNeeded ext p = true)
    (valid : proofProposalValid ext t.chainId t.vs p = true) :
    t.core.Proposable ext inputs p.header := by
  have epoch : p.epochId = t.state.height := by
    unfold pastProposalNeeded at needed
    simp only [Bool.and_eq_true, decide_eq_true_eq] at needed
    exact needed.1.1.1.1.1.2
  have fits : HeaderFits ext t.chainId t.vs p.epochId p.header := by
    unfold proofProposalValid proofProposalCheck at valid
    simp only [Bool.and_eq_true, Bool.or_eq_true] at valid
    rcases valid.2 with own | source
    · exact headerFits_of_wellFormed own.1
    · obtain ⟨set, found, checked⟩ := (Option.any_eq_true _ _).mp source
      have fits := headerFits_of_wellFormed (Bool.and_eq_true_iff.mp checked).1
      exact { fits with
        author := ValidatorSet.isAuthor_of_sourceSet found fits.author }
  rw [epoch] at fits
  exact Or.inl ⟨fits.sameEpoch, fits.sameChain, fits.protoVersion, Or.inl fits.author⟩

theorem evolves_learnPastProposal (fit : t.Fit) (p : Propose) (execute : Propose → Bool) :
    Evolves ext inputs t (t.learnPastProposal ext p execute).1 := by
  unfold learnPastProposal
  split
  · next accepted =>
    simp only [Bool.and_eq_true] at accepted
    exact evolves_cacheProposalMessage fit (proposable_of_proof accepted.1.1 accepted.1.2)
  · exact Evolves.refl fit

end Engine
end LiteNode
