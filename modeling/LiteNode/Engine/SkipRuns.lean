import LiteNode.Engine.Operation
import LiteNode.Engine.RoundSkip

/-!
# Round skips over runs

Only reports change the evidence of higher rounds, and only a skip, a new height
and a new set clear it. So the evidence of a member is the highest round that
the member reported since it was cleared.
-/

namespace LiteNode
namespace Engine

variable {ext : Externals} {t : Engine} {sign : Bytes → Bytes}

/-- The evidence of higher rounds, and the round. -/
def standing (t : Engine) : Table Bytes Int × Int := (t.higherRoundEvidence, t.state.round)

@[simp, grind =] theorem standing_emit (t : Engine) (output : Output) :
    (t.emit output).standing = t.standing := by
  unfold emit
  split
  · split
    · split <;> rfl
    · rfl
  · rfl

@[simp, grind =] theorem standing_scheduleStepTimeout (step : RoundStep) :
    (t.scheduleStepTimeout ext step).standing = t.standing :=
  standing_emit t _

@[simp, grind =] theorem standing_setStep (step : RoundStep) :
    (t.setStep step).standing = t.standing := rfl

@[simp, grind =] theorem standing_lockOn (header : EpochHeader) :
    (t.lockOn header).standing = t.standing := rfl

@[simp, grind =] theorem standing_addVoteAt (ref : Ref) (v : Vote) (vs : ValidatorSet) :
    (t.addVoteAt ref v vs).1.standing = t.standing := rfl

@[simp, grind =] theorem standing_promoteKnownHeader (round : Int) (proposalId : Bytes) :
    (t.promoteKnownHeader round proposalId).standing = t.standing := by
  unfold promoteKnownHeader
  split
  · split <;> rfl
  · rfl

@[simp, grind =] theorem standing_recordPolc (round : Int) (proposalId : Bytes) :
    (t.recordPolc round proposalId).standing = t.standing := by
  unfold recordPolc
  split
  · rfl
  · rw [standing_promoteKnownHeader]
    rfl

theorem standing_foldl {step : Engine → α → Engine}
    (keeps : ∀ t item, (step t item).standing = t.standing) (items : List α) (t : Engine) :
    (items.foldl step t).standing = t.standing := by
  induction items generalizing t with
  | nil => rfl
  | cons item rest ih => rw [List.foldl_cons, ih, keeps]

@[simp, grind =] theorem standing_cacheProposalMessage (proposal : Propose) :
    (t.cacheProposalMessage ext proposal).standing = t.standing := by
  unfold cacheProposalMessage promoteCachedPolc
  rw [standing_foldl]
  · rfl
  · intro t entry
    split
    · exact standing_promoteKnownHeader _ _
    · rfl

@[simp, grind =] theorem standing_castLocalVote (voteType : VoteType) (pid : Bytes) :
    (castLocalVote ext t sign voteType pid).1.standing = t.standing := by
  unfold castLocalVote
  grind

@[simp, grind =] theorem standing_emitFinalized (send : Bool) (finalize : Finalize) :
    (t.emitFinalized send finalize).1.standing = t.standing := by
  unfold emitFinalized
  split
  · rfl
  · dsimp only
    split
    · rw [standing_emit]
      rfl
    · rfl

@[simp, grind =] theorem standing_emitLocalFinalize (header : EpochHeader) (pid : Bytes)
    (round : Int) : (emitLocalFinalize ext t header pid round).1.standing = t.standing := by
  unfold emitLocalFinalize
  split
  · exact standing_emitFinalized _ _
  · exact standing_emit _ _

@[simp, grind =] theorem standing_finalizeQuorum (pid : Bytes) :
    (finalizeQuorum ext t pid).1.standing = t.standing := by
  unfold finalizeQuorum
  split
  · rfl
  · exact standing_emitLocalFinalize _ _ _

@[simp, grind =] theorem standing_precommitNil :
    (t.precommitNil ext sign).standing = t.standing := by
  unfold precommitNil
  grind

@[simp, grind =] theorem standing_requestMissing (vote : Vote) (result : VoteAddResult) :
    (t.requestMissing vote result).standing = t.standing := by
  unfold requestMissing
  grind

@[simp, grind =] theorem standing_learnPrevote (vs : ValidatorSet) (ref : Ref)
    (vote : Vote) : (t.learnPrevote vs ref vote).standing = t.standing := by
  unfold learnPrevote
  grind

@[simp, grind =] theorem standing_finalizeCounted (result : VoteAddResult) (round : Int) :
    (t.finalizeCounted ext result round).standing = t.standing := by
  unfold finalizeCounted
  grind

@[simp, grind =] theorem standing_requestPolc (round : Int) :
    (t.requestPolc round).standing = t.standing := by
  have remembered : (t.rememberPolcRequest round).1.standing = t.standing := by
    unfold rememberPolcRequest
    split
    · rfl
    · split <;> rfl
  unfold requestPolc emitPolcRequest
  dsimp only
  split
  · split
    · split
      · rw [standing_emit]
        exact remembered
      · exact remembered
    · exact remembered
  · exact remembered

@[simp, grind =] theorem standing_rememberPendingPrevote (pid : Bytes) :
    (t.rememberPendingPrevote pid).standing = t.standing := by
  unfold rememberPendingPrevote
  split
  · rfl
  · split <;> rfl

@[simp, grind =] theorem standing_keepProposal (p : Propose) (accept lockOk : Bool) :
    (t.keepProposal ext p accept lockOk).standing = t.standing := by
  have cached := @standing_cacheProposalMessage ext t p
  unfold keepProposal
  cases accept <;> cases lockOk <;> grind [standing]

@[simp, grind =] theorem standing_finalizeFromCache (pid : Bytes) :
    (t.finalizeFromCache ext pid).1.standing = t.standing := by
  unfold finalizeFromCache
  grind

@[simp, grind =] theorem standing_precommitAccepted (header : EpochHeader) (pid pid' : Bytes) :
    (t.precommitAccepted ext sign header pid pid').standing = t.standing := by
  unfold precommitAccepted
  dsimp only
  split <;> grind

@[simp, grind =] theorem standing_prevoteProposal (p : Propose) (accept : Bool) :
    (t.prevoteProposal ext sign p accept).standing = t.standing := by
  unfold prevoteProposal
  grind

@[simp, grind =] theorem standing_onCurrentPropose (p : Propose)
    (verify : Bytes → Bytes → Bytes → Bool) (execute : Propose → Bool) :
    (t.onCurrentPropose ext p verify execute sign).standing = t.standing := by
  unfold onCurrentPropose
  grind

@[simp, grind =] theorem standing_precommitChosen (pid : Bytes) :
    (t.precommitChosen ext sign pid).standing = t.standing := by
  unfold precommitChosen
  grind

@[simp, grind =] theorem standing_onCurrentPrevote (v : Vote) :
    (t.onCurrentPrevote ext v sign).standing = t.standing := by
  unfold onCurrentPrevote
  dsimp only
  split
  · split
    · split
      · grind
      · split <;> grind
    · grind
  · split <;> grind
  · grind

@[simp, grind =] theorem standing_onCurrentPrecommit (v : Vote) :
    (t.onCurrentPrecommit ext v).standing = t.standing := by
  unfold onCurrentPrecommit
  grind

@[simp, grind =] theorem standing_scheduleAfterVote :
    (t.scheduleAfterVote ext).standing = t.standing := by
  unfold scheduleAfterVote
  grind

@[simp, grind =] theorem standing_sourceVotesAt (round : Int) :
    (t.sourceVotesAt round).1.standing = t.standing := by
  unfold sourceVotesAt
  split <;> rfl

@[simp, grind =] theorem standing_prevotesAt (round : Int) :
    (t.prevotesAt round).1.standing = t.standing := by
  unfold prevotesAt
  split <;> rfl

@[simp, grind =] theorem standing_precommitsAt (round : Int) :
    (t.precommitsAt round).1.standing = t.standing := by
  unfold precommitsAt
  split <;> rfl

@[simp, grind =] theorem standing_recordHistoricalPrevote (vote : Vote) :
    (t.recordHistoricalPrevote vote).standing = t.standing := by
  unfold recordHistoricalPrevote
  grind

@[simp, grind =] theorem standing_recordHistoricalPrecommit (vote : Vote) :
    (t.recordHistoricalPrecommit ext vote).standing = t.standing := by
  unfold recordHistoricalPrecommit
  grind

@[simp, grind =] theorem standing_resumePrevote :
    (t.resumePrevote ext sign).standing = t.standing := by
  unfold resumePrevote
  grind [standing]

@[simp, grind =] theorem standing_resumePrecommit :
    (t.resumePrecommit ext sign).standing = t.standing := by
  unfold resumePrecommit
  split
  · split
    · split
      · rfl
      · dsimp only
        split <;> grind
    · rfl
  · rfl

@[simp, grind =] theorem standing_resumeFinalize :
    (t.resumeFinalize ext).standing = t.standing := by
  unfold resumeFinalize
  grind

@[simp, grind =] theorem standing_resumeVoting :
    (t.resumeVoting ext sign).standing = t.standing := by
  unfold resumeVoting
  split
  · rfl
  · simp

@[simp, grind =] theorem standing_onReady : (t.onReady ext sign).standing = t.standing := by
  unfold onReady
  grind

@[simp, grind =] theorem standing_precommitOwn (header : EpochHeader) (pid : Bytes) :
    (t.precommitOwn ext sign header pid).standing = t.standing := by
  unfold precommitOwn
  grind

@[simp, grind =] theorem standing_proposeResolved (resolved : Resolved) :
    (t.proposeResolved ext sign resolved).standing = t.standing := by
  unfold proposeResolved
  dsimp only
  generalize equal : castLocalVote _ _ _ _ _ = cast
  have counted : cast.1.standing = t.standing := by
    rw [← equal, standing_castLocalVote, standing_setStep, standing_emit]
    exact standing_cacheProposalMessage _
  split <;> grind

@[simp, grind =] theorem standing_doPropose (parentCommit : Option ParentCommit)
    (header : EpochHeader) (txHashes : List Bytes) :
    (t.doPropose ext parentCommit header txHashes sign).standing = t.standing := by
  unfold doPropose
  grind

@[simp, grind =] theorem standing_restoreLocalVotes (votes : List Vote) :
    (t.restoreLocalVotes ext votes).1.standing = t.standing := by
  have restored := @standing_foldl _ restoreLocalVote
    (fun t vote => by unfold restoreLocalVote; grind) votes t
  unfold restoreLocalVotes
  grind

@[simp, grind =] theorem standing_learnPastProposal (p : Propose) (execute : Propose → Bool) :
    (t.learnPastProposal ext p execute).1.standing = t.standing := by
  unfold learnPastProposal
  grind

@[simp, grind =] theorem standing_acceptFinalizeBatch (f : Finalize) :
    (t.acceptFinalizeBatch ext f).1.standing = t.standing := by
  have cached : (t.cacheProposalHeaderOnly f.proposalId f.header).standing = t.standing := by
    unfold cacheProposalHeaderOnly
    split <;> rfl
  unfold acceptFinalizeBatch
  split
  · rfl
  split
  · split <;> rfl
  split
  · rfl
  split
  · rfl
  split
  · rfl
  · dsimp only
    rw [standing_emitFinalized]
    exact (standing_recordPolc _ _).trans cached

@[simp, grind =] theorem standing_timeoutPropose :
    (t.timeoutPropose ext sign).standing = t.standing := by
  unfold timeoutPropose
  grind

@[simp, grind =] theorem standing_timeoutPrevote :
    (t.timeoutPrevote ext sign).standing = t.standing := by
  unfold timeoutPrevote
  grind

@[simp, grind =] theorem standing_setReliefLimit (limit : Option Int) :
    (t.setReliefLimit ext limit).standing = t.standing := by
  unfold setReliefLimit
  dsimp only
  split
  · rw [standing_scheduleStepTimeout]
    rfl
  · rfl

@[simp, grind =] theorem standing_retryPolcRequest (except : Option Int) :
    (t.retryPolcRequest except).standing = t.standing := by
  unfold retryPolcRequest
  split
  · rfl
  · exact standing_emit _ _

@[simp] theorem standing_startRound (t : Engine) (round : Int) :
    (startRound ext t round).standing = (t.higherRoundEvidence, round) := by
  unfold startRound
  rw [standing_emit]
  refine (standing_retryPolcRequest _).trans ?_
  split
  · exact standing_requestPolc _
  · rfl

theorem standing_realignRound (round : Int) :
    (t.realignRound ext round).1.standing = (t.higherRoundEvidence, max t.state.round round) := by
  unfold realignRound
  split
  · next behind =>
    rw [max_eq_left behind]
    rfl
  · next ahead =>
    rw [max_eq_right (not_le.mp ahead).le]
    exact standing_startRound _ _

/-- A skip moves to a later round and clears the evidence. -/
theorem tryRoundSkip_cases (ext : Externals) (t : Engine) :
    t.tryRoundSkip ext = (t, false) ∨
      ∃ target, t.roundSkipTarget = some target ∧ t.state.round < target ∧
        (t.tryRoundSkip ext).1.standing = (∅, target) ∧ (t.tryRoundSkip ext).2 = true := by
  unfold tryRoundSkip
  split
  · exact .inl rfl
  split
  · exact .inl rfl
  split
  · exact .inl rfl
  · next target selected =>
    have later := lt_of_roundSkipTarget selected
    refine .inr ⟨target, selected, later, ?_, rfl⟩
    rw [standing_realignRound]
    exact congrArg _ (max_eq_right later.le)

@[simp, grind =] theorem evidence_tryRoundStep :
    (t.tryRoundStep ext).1.higherRoundEvidence = t.higherRoundEvidence := by
  unfold tryRoundStep
  split
  · rfl
  split
  · exact congrArg Prod.fst (standing_realignRound _)
  · rfl

theorem evidence_startRound (round : Int) :
    (startRound ext t round).higherRoundEvidence = t.higherRoundEvidence :=
  congrArg Prod.fst (@standing_startRound ext t round)

@[simp, grind =] theorem evidence_onTimeout (step : RoundStep) (round generation : Int) :
    (t.onTimeout ext step round generation sign).higherRoundEvidence = t.higherRoundEvidence := by
  have steady : ∀ {t' : Engine}, t'.standing = t.standing →
      t'.higherRoundEvidence = t.higherRoundEvidence :=
    fun same => congrArg Prod.fst same
  unfold onTimeout
  split
  · rfl
  split
  · rfl
  split
  · rfl
  split
  · rfl
  split
  · exact steady standing_timeoutPropose
  split
  · exact steady standing_timeoutPrevote
  split
  · exact evidence_startRound _
  split
  · exact steady (standing_emit _ _)
  · exact steady (standing_scheduleStepTimeout _)
  · exact evidence_startRound _

@[simp, grind =] theorem evidence_restorePrecommitLock (proposal : Propose) :
    (t.restorePrecommitLock ext proposal).1.higherRoundEvidence = t.higherRoundEvidence := by
  have stored : ((t.cacheProposalMessage ext proposal).recordPolc proposal.round
      (ext.proposalId proposal.header)).higherRoundEvidence = t.higherRoundEvidence :=
    congrArg Prod.fst ((standing_recordPolc _ _).trans (standing_cacheProposalMessage proposal))
  unfold restorePrecommitLock
  iterate 7
    split
    · rfl
  dsimp only
  split
  · exact (evidence_startRound _).trans stored
  · exact (congrArg Prod.fst (standing_realignRound _)).trans stored

theorem evidence_emit (t : Engine) (output : Output) :
    (t.emit output).higherRoundEvidence = t.higherRoundEvidence :=
  congrArg Prod.fst (standing_emit t output)

theorem evidence_startHeight (height : Int) : (t.startHeight ext height).higherRoundEvidence = ∅ :=
  evidence_startRound _

theorem evidence_replaceValidatorSet (vs : ValidatorSet) :
    (t.replaceValidatorSet ext vs).higherRoundEvidence =
      if ext.validatorSetHash t.vs = ext.validatorSetHash vs then t.higherRoundEvidence
      else ∅ := by
  unfold replaceValidatorSet
  split <;> rfl

theorem evidence_reconfigureValidatorSet (round : Int) (vs : ValidatorSet) :
    (t.reconfigureValidatorSet ext round vs).1.higherRoundEvidence =
      if round ≤ t.state.round then t.higherRoundEvidence else ∅ := by
  unfold reconfigureValidatorSet
  split
  · rfl
  · dsimp only
    rw [evidence_startRound]
    split
    · split
      · exact congrArg Prod.fst (standing_emitLocalFinalize _ _ _)
      · rw [evidence_emit]
    · rfl

end Engine

/-! ## Reports -/

namespace Operation

/-- How far ahead a message may be, its round and its sender, when the engine
compares the round with its own. -/
def news (t : Engine) : Operation → Option (Int × Int × Bytes)
  | .onRoundSync round validator =>
    if t.vs.isValidator validator then some (maxSyncAhead, round, validator)
    else none
  | .onVote v _ =>
    if t.finalizedHeight < v.epochId ∧ v.epochId = t.state.height ∧
        0 ≤ v.round ∧ v.round ≤ t.state.round + maxRoundAhead then
      some (maxRoundAhead, v.round, v.validator)
    else none
  | .onPropose p _ _ _ =>
    if t.finalizedHeight < p.epochId ∧ p.epochId = t.state.height ∧
        p.round ≤ t.state.round + maxRoundAhead then
      some (maxRoundAhead, p.round, p.proposer)
    else none
  | _ => none

def IsMessage : Operation → Prop
  | .onRoundSync _ _ | .onVote _ _ | .onPropose _ _ _ _ => True
  | _ => False

/-- A member and the round, ahead of the engine and within the limit, that the
member is seen in. -/
def report (t : Engine) (operation : Operation) : Option (Bytes × Int) :=
  match operation.news t with
  | some (limit, round, validator) =>
    if t.vs.isValidator validator ∧ t.state.round < round ∧
        round ≤ t.state.round + limit then some (validator, round)
    else none
  | none => none

/-- Whether a message makes the engine skip ahead. -/
def skips (ext : Externals) (t : Engine) (operation : Operation) : Bool :=
  match operation.news t with
  | some (limit, round, validator) =>
    decide (t.state.round < round) &&
      ((t.recordHigherRound (some limit) round validator).tryRoundSkip ext).2
  | none => false

/-- Whether a call clears the evidence of higher rounds. -/
def clears (ext : Externals) (t : Engine) : Operation → Bool
  | .tryRoundSkip => (t.tryRoundSkip ext).2
  | .startHeight _ => true
  | .replaceValidatorSet vs => decide (ext.validatorSetHash t.vs ≠ ext.validatorSetHash vs)
  | .reconfigureValidatorSet round _ => decide (t.state.round < round)
  | operation => operation.skips ext t

/-- Reports since the evidence was cleared, after one more call. -/
def seen (ext : Externals) (t : Engine) (reports : List (Bytes × Int))
    (operation : Operation) : List (Bytes × Int) :=
  if operation.clears ext t then [] else (operation.report t).toList ++ reports

/-- Reports since the evidence was cleared, after more calls. -/
def seenAfter (ext : Externals) (t : Engine) (reports : List (Bytes × Int)) :
    List Operation → List (Bytes × Int)
  | [] => reports
  | operation :: rest => seenAfter ext (operation.apply ext t) (operation.seen ext t reports) rest

end Operation

def highestReport (validator : Bytes) : List (Bytes × Int) → Option Int
  | [] => none
  | (name, round) :: rest =>
    if validator = name then
      match highestReport validator rest with
      | some prior => some (max prior round)
      | none => some round
    else highestReport validator rest

theorem highestReport_spec (validator : Bytes) (reports : List (Bytes × Int)) :
    (∀ highest, highestReport validator reports = some highest →
      IsGreatest {round | (validator, round) ∈ reports} highest) ∧
    (highestReport validator reports = none → ∀ round, (validator, round) ∉ reports) := by
  induction reports with
  | nil => exact ⟨fun _ none => (nomatch none), fun _ _ => List.not_mem_nil⟩
  | cons report rest ih =>
    obtain ⟨name, round⟩ := report
    obtain ⟨greatest, absent⟩ := ih
    unfold highestReport
    split
    · next same =>
      subst same
      split
      · next prior found =>
        obtain ⟨listed, upper⟩ := greatest prior found
        refine ⟨fun highest equal => ?_, fun none => (nomatch none)⟩
        obtain rfl := Option.some.inj equal
        constructor
        · rcases max_choice prior round with larger | larger
          · rw [larger]
            exact List.mem_cons_of_mem _ listed
          · rw [larger]
            exact List.mem_cons_self
        · intro other present
          rcases List.mem_cons.mp present with equal | present
          · rw [(Prod.mk.inj equal).2]
            exact le_max_right _ _
          · exact (upper present).trans (le_max_left _ _)
      · next missing =>
        refine ⟨fun highest equal => ?_, fun none => (nomatch none)⟩
        obtain rfl := Option.some.inj equal
        refine ⟨List.mem_cons_self, fun other present => ?_⟩
        rcases List.mem_cons.mp present with equal | present
        · exact (Prod.mk.inj equal).2.le
        · exact absurd present (absent missing other)
    · next different =>
      have skip : ∀ other, (validator, other) ∈ (name, round) :: rest ↔
          (validator, other) ∈ rest := by
        intro other
        simp [different]
      simp only [skip]
      exact ⟨greatest, absent⟩

namespace Engine

variable {ext : Externals} {t : Engine} {reports : List (Bytes × Int)}

/-- The evidence holds the highest report of each member. -/
def Records (t : Engine) (reports : List (Bytes × Int)) : Prop :=
  ∀ validator, t.higherRoundEvidence.find? validator = highestReport validator reports

theorem Records.congr {t' : Engine} (records : t.Records reports)
    (same : t'.higherRoundEvidence = t.higherRoundEvidence) : t'.Records reports := by
  intro validator
  rw [same]
  exact records validator

theorem records_of_cleared (cleared : t.higherRoundEvidence = ∅) : t.Records [] := by
  intro validator
  rw [cleared]
  exact Table.find?_empty validator

/-- Compare the round of a message with the engine's. -/
def hear (ext : Externals) (t : Engine) (limit round : Int) (validator : Bytes) : Engine × Bool :=
  if t.state.round < round then (t.recordHigherRound (some limit) round validator).tryRoundSkip ext
  else (t, false)

theorem round_recordHigherRound (maxAhead : Option Int) (round : Int) (validator : Bytes) :
    (t.recordHigherRound maxAhead round validator).state = t.state := by
  unfold recordHigherRound
  split
  · split
    · split <;> rfl
    · rfl
  · rfl

/-- A message never moves the engine back, and moves it ahead when the engine
skips. -/
theorem hear_round (limit round : Int) (validator : Bytes) :
    t.state.round ≤ (t.hear ext limit round validator).1.state.round ∧
      ((t.hear ext limit round validator).2 = true →
        t.state.round < (t.hear ext limit round validator).1.state.round) := by
  unfold hear
  split
  · have same := @round_recordHigherRound t (some limit) round validator
    rcases tryRoundSkip_cases ext (t.recordHigherRound (some limit) round
      validator) with stays | ⟨target, -, later, moved, -⟩
    · rw [stays]
      exact ⟨(congrArg EngineState.round same).ge, fun skipped => (nomatch skipped)⟩
    · have target_eq : _ = target := congrArg Prod.snd moved
      rw [same] at later
      exact ⟨(later.trans_eq target_eq.symm).le, fun _ => later.trans_eq target_eq.symm⟩
  · exact ⟨le_rfl, fun skipped => (nomatch skipped)⟩

theorem Records.recordHigherRound (records : t.Records reports)
    (limit round : Int) (validator : Bytes) :
    (t.recordHigherRound (some limit) round validator).Records
      ((if t.vs.isValidator validator ∧ t.state.round < round ∧
          round ≤ t.state.round + limit then some (validator, round)
        else none).toList ++ reports) := by
  unfold Engine.recordHigherRound
  by_cases counts : t.vs.isValidator validator ∧ t.state.round < round ∧
      round ≤ t.state.round + limit
  · obtain ⟨member, ahead, within⟩ := counts
    have taken : (t.vs.isValidator validator && decide (t.state.round < round) &&
        t.withinLimit (some limit) round) = true := by
      simp [withinLimit, member, ahead, within]
    rw [if_pos taken, if_pos ⟨member, ahead, within⟩]
    intro name
    have recorded := records validator
    by_cases same : name = validator
    · subst same
      split
      · next prior found =>
        rw [found] at recorded
        split
        · next lower =>
          simp [highestReport, ← recorded, found, max_eq_left lower]
        · next higher =>
          simp [highestReport, ← recorded, max_eq_right (not_le.mp higher).le]
      · next missing =>
        rw [missing] at recorded
        simp [highestReport, ← recorded]
    · have others : highestReport name ((some (validator, round)).toList ++
          reports) = highestReport name reports := by
        simp [highestReport, same]
      rw [others, ← records name]
      split
      · split
        · rfl
        · exact Table.find?_replace_ne same
      · exact Table.find?_replace_ne same
  · have ignored : ¬ (t.vs.isValidator validator &&
        decide (t.state.round < round) &&
          t.withinLimit (some limit) round) = true := by
      simpa [withinLimit, and_assoc] using counts
    rw [if_neg ignored, if_neg counts]
    exact records

theorem followHigherRound_eq (round : Int) (validator : Bytes) :
    t.followHigherRound ext round validator = (t.hear ext maxRoundAhead round validator).1 := by
  unfold followHigherRound hear
  split <;> rfl

variable {limit round : Int} {validator : Bytes} {operation : Operation}

theorem hear_of_le (validator : Bytes) (behind : round ≤ t.state.round) :
    t.hear ext limit round validator = (t, false) :=
  if_neg (not_lt.mpr behind)

theorem standing_onVote {v : Vote} {sign : Bytes → Bytes}
    (news : (Operation.onVote v sign).news t = some (limit, round, validator)) :
    (t.onVote ext v sign).standing = (t.hear ext limit round validator).1.standing := by
  simp only [Operation.news] at news
  split at news
  · next guards =>
    obtain ⟨fresh, epoch, nonneg, within⟩ := guards
    obtain ⟨rfl, rfl, rfl⟩ := news
    unfold onVote
    rw [if_neg (not_le.mpr fresh), if_neg (not_not.mpr epoch), if_neg (by omega), if_neg (by omega)]
    split
    · next past =>
      rw [hear_of_le v.validator past.le]
      split
      · exact standing_recordHistoricalPrevote v
      · exact standing_recordHistoricalPrecommit v
    · rw [followHigherRound_eq]
      dsimp only
      split
      · rfl
      · rw [standing_scheduleAfterVote]
        split
        · exact standing_onCurrentPrevote v
        · exact standing_onCurrentPrecommit v
  · cases news

theorem standing_onPropose {p : Propose}
    {verify : Bytes → Bytes → Bytes → Bool} {execute : Propose → Bool} {sign : Bytes → Bytes}
    (news : (Operation.onPropose p verify execute sign).news t = some (limit, round, validator)) :
    (t.onPropose ext p verify execute sign).standing =
      (t.hear ext limit round validator).1.standing := by
  simp only [Operation.news] at news
  split at news
  · next guards =>
    obtain ⟨fresh, epoch, within⟩ := guards
    obtain ⟨rfl, rfl, rfl⟩ := news
    unfold onPropose
    rw [if_neg (not_le.mpr fresh), if_neg (not_not.mpr epoch), if_neg (by omega),
      followHigherRound_eq]
    dsimp only
    split
    · rfl
    · exact standing_onCurrentPropose p verify execute
  · cases news

/-- A call with news does to the rounds what hearing the news does. -/
theorem standing_apply (news : operation.news t = some (limit, round, validator)) :
    (operation.apply ext t).standing = (t.hear ext limit round validator).1.standing := by
  cases operation with
  | onVote v sign => exact standing_onVote news
  | onPropose p verify execute sign => exact standing_onPropose news
  | onRoundSync round' validator' =>
    simp only [Operation.news] at news
    split at news
    · next member =>
      obtain ⟨rfl, rfl, rfl⟩ := news
      by_cases ahead : t.state.round < round <;>
        simp [Operation.apply, onRoundSync, hear, member, ahead]
    · cases news
  | _ => cases news

/-- A message without news leaves the rounds alone. -/
theorem standing_apply_of_stale (message : operation.IsMessage) (stale : operation.news t = none) :
    (operation.apply ext t).standing = t.standing := by
  cases operation with
  | onVote v sign =>
    simp only [Operation.news] at stale
    split at stale
    · cases stale
    · next guards =>
      change (t.onVote ext v sign).standing = t.standing
      unfold onVote
      split
      · rfl
      split
      · rfl
      split
      · rfl
      split
      · rfl
      · next final epoch sound within =>
        exact absurd ⟨not_le.mp final, not_not.mp epoch, not_lt.mp sound, not_lt.mp within⟩ guards
  | onPropose p verify execute sign =>
    simp only [Operation.news] at stale
    split at stale
    · cases stale
    · next guards =>
      change (t.onPropose ext p verify execute sign).standing = t.standing
      unfold onPropose
      split
      · rfl
      split
      · rfl
      split
      · rfl
      · next final epoch within =>
        exact absurd ⟨not_le.mp final, not_not.mp epoch, not_lt.mp within⟩ guards
  | onRoundSync round validator =>
    simp only [Operation.news] at stale
    split at stale
    · cases stale
    · next stranger =>
      simp [Operation.apply, onRoundSync, stranger]
  | _ => cases message

theorem skips_eq (news : operation.news t = some (limit, round, validator)) :
    operation.skips ext t = (t.hear ext limit round validator).2 := by
  unfold Operation.skips hear
  rw [news]
  by_cases ahead : t.state.round < round <;> simp [ahead]

/-- A message that makes no skip leaves its report among the highest ones. -/
theorem Records.hear (records : t.Records reports) (limit round : Int) (validator : Bytes) :
    ((t.hear ext limit round validator).2 = true →
      (t.hear ext limit round validator).1.higherRoundEvidence = ∅) ∧
    ((t.hear ext limit round validator).2 = false →
      (t.hear ext limit round validator).1.Records
        ((if t.vs.isValidator validator ∧ t.state.round < round ∧
            round ≤ t.state.round + limit then some (validator, round)
          else none).toList ++ reports)) := by
  unfold Engine.hear
  split
  · have recorded := records.recordHigherRound limit round validator
    rcases tryRoundSkip_cases ext (t.recordHigherRound (some limit) round
      validator) with stays | ⟨target, -, -, moved, skipped⟩
    · rw [stays]
      exact ⟨fun skipped => (nomatch skipped), fun _ => recorded⟩
    · rw [skipped]
      exact ⟨fun _ => congrArg Prod.fst moved, fun stays => (nomatch stays)⟩
  · next behind =>
    rw [if_neg (fun counts => behind counts.2.1)]
    exact ⟨fun skipped => (nomatch skipped), fun _ => records⟩

theorem records_message (message : operation.IsMessage) (records : t.Records reports) :
    (operation.apply ext t).Records (operation.seen ext t reports) := by
  have clears : operation.clears ext t = operation.skips ext t := by
    cases operation with
    | onVote _ _ | onPropose _ _ _ _ | onRoundSync _ _ => rfl
    | _ => cases message
  unfold Operation.seen
  rw [clears]
  cases news : operation.news t with
  | none =>
    have silent : operation.skips ext t = false := by simp [Operation.skips, news]
    have unreported : operation.report t = none := by simp [Operation.report, news]
    rw [silent, unreported]
    exact records.congr (congrArg Prod.fst (standing_apply_of_stale message news))
  | some heard =>
    obtain ⟨limit, round, validator⟩ := heard
    have moved := congrArg Prod.fst (@standing_apply ext t _ _ _ _ news)
    obtain ⟨cleared, recorded⟩ := @Records.hear ext t reports records limit round validator
    rw [skips_eq news]
    split
    · next skipped =>
      exact records_of_cleared (moved.trans (cleared skipped))
    · next stays =>
      have report : operation.report t =
          if t.vs.isValidator validator ∧ t.state.round < round ∧
            round ≤ t.state.round + limit then some (validator, round)
          else none := by
        simp only [Operation.report, news]
      rw [report]
      exact (recorded (Bool.eq_false_iff.mpr stays)).congr moved

/-- Every call keeps the highest reports since the evidence was cleared. -/
theorem records_apply (operation : Operation) (records : t.Records reports) :
    (operation.apply ext t).Records (operation.seen ext t reports) := by
  have steady : ∀ {t' : Engine}, t'.standing = t.standing →
      t'.Records reports := fun same => records.congr (congrArg Prod.fst same)
  cases operation with
  | onVote _ _ | onPropose _ _ _ _ | onRoundSync _ _ => exact records_message trivial records
  | tryRoundSkip =>
    rcases tryRoundSkip_cases ext t with stays | ⟨target, -, -, moved, skipped⟩
    · have same : (t.tryRoundSkip ext).1 = t := congrArg Prod.fst stays
      have silent : (t.tryRoundSkip ext).2 = false := congrArg Prod.snd stays
      simpa [Operation.seen, Operation.clears, Operation.report,
        Operation.news, Operation.apply, silent, same] using records
    · simpa [Operation.seen, Operation.clears, Operation.apply, skipped] using
        records_of_cleared (congrArg Prod.fst moved)
  | startHeight height => exact records_of_cleared (evidence_startHeight height)
  | replaceValidatorSet vs =>
    have evidence := @evidence_replaceValidatorSet ext t vs
    by_cases same : ext.validatorSetHash t.vs = ext.validatorSetHash vs
    · rw [if_pos same] at evidence
      simpa [Operation.seen, Operation.clears, Operation.report,
        Operation.news, Operation.apply, same] using records.congr evidence
    · rw [if_neg same] at evidence
      simpa [Operation.seen, Operation.clears, Operation.apply, same] using
        records_of_cleared evidence
  | reconfigureValidatorSet round vs =>
    have evidence := @evidence_reconfigureValidatorSet ext t round vs
    by_cases behind : round ≤ t.state.round
    · rw [if_pos behind] at evidence
      simpa [Operation.seen, Operation.clears, Operation.report,
        Operation.news, Operation.apply, not_lt.mpr behind] using records.congr evidence
    · rw [if_neg behind] at evidence
      simpa [Operation.seen, Operation.clears, Operation.apply,
        not_le.mp behind] using records_of_cleared evidence
  | doPropose parentCommit header txHashes sign =>
    exact steady (standing_doPropose parentCommit header txHashes)
  | onTimeout step round generation sign =>
    exact records.congr (evidence_onTimeout step round generation)
  | resumeVoting sign => exact steady standing_resumeVoting
  | onReady sign => exact steady standing_onReady
  | restoreLocalVotes votes => exact steady (standing_restoreLocalVotes votes)
  | restorePrecommitLock proposal => exact records.congr (evidence_restorePrecommitLock proposal)
  | realignRound round => exact records.congr (congrArg Prod.fst (standing_realignRound round))
  | learnPastProposal p execute => exact steady (standing_learnPastProposal p execute)
  | acceptFinalizeBatch f => exact steady (standing_acceptFinalizeBatch f)
  | recordHistoricalPrevote vote => exact steady (standing_recordHistoricalPrevote vote)
  | recordPolc round pid => exact steady (standing_recordPolc round pid)
  | tryRoundStep => exact records.congr evidence_tryRoundStep
  | setReliefLimit limit => exact steady (standing_setReliefLimit limit)
  | setProofSearch _ | setCanVote _ | setRoundSkipReady _ => exact records.congr rfl
  | drainOutputs =>
    refine records.congr ?_
    unfold Operation.apply drainOutputs
    dsimp only
    split
    · split <;> rfl
    · rfl
  | ackFinalized f =>
    refine records.congr ?_
    unfold Operation.apply ackFinalized
    dsimp only
    split
    · split <;> rfl
    · rfl

theorem records_run (operations : List Operation) (records : t.Records reports) :
    (t.run ext operations).Records (Operation.seenAfter ext t reports operations) := by
  induction operations generalizing t reports with
  | nil => exact records
  | cons operation rest ih => exact ih (records_apply operation records)

/-- Calls that receive a message never move the engine back, and move it ahead
when they make it skip. -/
theorem round_message (message : operation.IsMessage) :
    t.state.round ≤ (operation.apply ext t).state.round ∧
      (operation.skips ext t = true → t.state.round < (operation.apply ext t).state.round) := by
  cases news : operation.news t with
  | none =>
    have same : _ = t.state.round :=
      congrArg Prod.snd (@standing_apply_of_stale ext t _ message news)
    refine ⟨same.ge, fun skips => ?_⟩
    simp [Operation.skips, news] at skips
  | some heard =>
    obtain ⟨limit, round, validator⟩ := heard
    have moved : (operation.apply ext t).state.round = _ :=
      congrArg Prod.snd (@standing_apply ext t _ _ _ _ news)
    rw [moved, skips_eq news]
    exact hear_round limit round validator

theorem find?_eq_some_iff_of_records (records : t.Records reports) :
    t.higherRoundEvidence.find? validator = some round ↔
      IsGreatest {round | (validator, round) ∈ reports} round := by
  obtain ⟨greatest, absent⟩ := highestReport_spec validator reports
  rw [records validator]
  constructor
  · exact greatest round
  · intro highest
    cases found : highestReport validator reports with
    | none => exact absurd highest.1 (absent found round)
    | some other => rw [(greatest other found).unique highest]

/-- A round skip has the greatest round ahead that is backed as its target, by
members who outweigh what a quorum leaves out. In every run the evidence of a
member is the highest round, ahead and within the limit, that the member was
seen in since the evidence was cleared, and messages and skips only move the
engine ahead. -/
theorem roundSkip_justified {start : Engine} (sound : t.vs.Sound)
    (cleared : start.higherRoundEvidence = ∅) (operations : List Operation) :
    ((∀ round, t.roundSkipTarget = some round →
        t.state.round < round ∧ t.Backed round ∧
          ∀ later, round < later → ¬ t.Backed later) ∧
      (t.roundSkipTarget = none ↔ ∀ round, t.state.round < round → ¬ t.Backed round) ∧
      ∀ round, t.Backed round →
        t.vs.totalWeight - t.vs.quorumWeight < ∑ addr ∈ t.backers round, t.vs.weightOf addr ∧
          (t.policy.select t.state.height ≠ .prior → t.vs.f + 1 ≤ (t.backers round).card)) ∧
    (∀ validator round,
      (start.run ext operations).higherRoundEvidence.find? validator = some round ↔
        IsGreatest {round | (validator, round) ∈
          Operation.seenAfter ext start [] operations} round) ∧
    (∀ operation : Operation, operation.IsMessage →
      (start.run ext operations).state.round ≤
          (operation.apply ext (start.run ext operations)).state.round ∧
        (operation.skips ext (start.run ext operations) = true →
          (start.run ext operations).state.round <
            (operation.apply ext (start.run ext operations)).state.round)) ∧
    (((start.run ext operations).tryRoundSkip ext).2 = true →
      (start.run ext operations).state.round <
        ((start.run ext operations).tryRoundSkip ext).1.state.round) ∧
    (((start.run ext operations).tryRoundSkip ext).2 = false →
      ((start.run ext operations).tryRoundSkip ext).1 = start.run ext operations) := by
  refine ⟨⟨fun round target => greatest_of_roundSkipTarget sound target,
    roundSkipTarget_eq_none_iff sound,
    fun round backed => ValidatorSet.outweigh_of_roundSkipReachedAt backed⟩,
    fun validator round => ?_, fun operation message => round_message message,
    ?_⟩
  · exact find?_eq_some_iff_of_records (records_run operations (records_of_cleared cleared))
  · rcases tryRoundSkip_cases ext (start.run ext operations) with
      stays | ⟨target, -, later, moved, skipped⟩
    · rw [stays]
      exact ⟨fun skipped => (nomatch skipped), fun _ => rfl⟩
    · rw [skipped]
      exact ⟨fun _ => later.trans_eq (congrArg Prod.snd moved).symm,
        fun stays => (nomatch stays)⟩

end Engine

/-- Two of four members report higher rounds while skips are held back. -/
def skipReports : List Operation :=
  [.setRoundSkipReady false, .onRoundSync 3 [2], .onRoundSync 4 [3]]

/-- An engine among four members of equal weight. -/
def skipStart : Engine := Engine.create [] [1] (.plain [(1, 1), (2, 1), (3, 1), (4, 1)]) 5 true

/-- Two of four members justify a skip to the lower of their rounds. -/
theorem Engine.roundSkip_justified_reports :
    (skipStart.run .plain skipReports).Backed 3 ∧
      IsGreatest {round | ([3], round) ∈
        Operation.seenAfter .plain skipStart [] skipReports} 4 := by
  have sound : (skipStart.run .plain skipReports).vs.Sound :=
    ValidatorSet.sound_build (by decide) true
  have justified := @Engine.roundSkip_justified .plain _ skipStart sound rfl skipReports
  exact ⟨(justified.1.1 3 (by decide +kernel)).2.1, (justified.2.1 [3] 4).mp (by decide +kernel)⟩

end LiteNode
