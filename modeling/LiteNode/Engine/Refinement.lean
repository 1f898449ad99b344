import LiteNode.Engine.Installing
import LiteNode.Engine.Operation
import LiteNode.Engine.Proposing
import LiteNode.Engine.Receiving

/-!
# Every operation is a sequence of moves

The remaining operations, and the theorem that covers all of them. Invariants
of a run are proved for single moves and follow for the engine from here.
-/

namespace LiteNode
namespace Engine

variable {ext : Externals} {inputs : Inputs} {t : Engine}

variable {f : Finalize}

/-- A finalize keeps its standing when the engine learns of proposals only. -/
theorem MayTake.of_learns {t' : Engine}
    (learns : Learns t t') (take : t.core.MayTake ext inputs f) :
    t'.core.MayTake ext inputs f where
  trusted := learns.setting ▸ take.trusted
  epochId := take.epochId.trans learns.height.symm
  proposalId := take.proposalId
  unfinalized := by
    have same : t'.finalizedHeight = t.finalizedHeight := learns.field EngineData.finalizedHeight
    exact lt_of_eq_of_lt same take.unfinalized
  lock := by
    have value : t'.state.lockedValue = t.state.lockedValue :=
      learns.field fun data => data.state.lockedValue
    have round : t'.state.lockedRound = t.state.lockedRound :=
      learns.field fun data => data.state.lockedRound
    intro header locked
    rcases take.lock header (value.symm.trans locked) with same | later
    · exact Or.inl same
    · exact Or.inr (lt_of_eq_of_lt round later)

theorem learns_cacheProposalHeaderOnly (t : Engine) (pid : Bytes) (header : EpochHeader) :
    Learns t (t.cacheProposalHeaderOnly pid header) := by
  unfold cacheProposalHeaderOnly
  split <;> rfl

theorem evolves_cacheProposalHeaderOnly (fit : t.Fit) (take : t.core.MayTake ext inputs f) :
    Evolves ext inputs t (t.cacheProposalHeaderOnly f.proposalId f.header) := by
  have fit' := fit.of_same (learns_cacheProposalHeaderOnly t f.proposalId f.header).samePlaces
  unfold cacheProposalHeaderOnly at fit' ⊢
  split
  · exact Evolves.refl fit
  · next unknown =>
    rw [if_neg unknown] at fit'
    refine Evolves.of_move fit' ?_
    rw [show ({ t with
      proposalCache := t.proposalCache.replace f.proposalId
        ⟨f.header, none, none⟩ } : Engine).core = _ from core_setCache t _ _]
    exact Move.cacheHeader f take

/-- Lock on the header of a finalize, from the later of the two rounds on. -/
def takeLock (t : Engine) (f : Finalize) : Engine :=
  { t with state := { t.state with
      lockedRound := max t.state.lockedRound f.commitRound
      lockedValue := some f.header
      validRound := max t.state.lockedRound f.commitRound
      validValue := some f.header } }

theorem evolves_takeFinalize (fit : t.Fit) (trusted : inputs.finalize t.core.setting f)
    (epoch : f.epochId = t.state.height) : Evolves ext inputs t (t.emitFinalized false f).1 := by
  have fit' := fit.of_same (finishes_emitFinalized t false f).samePlaces
  unfold emitFinalized at fit' ⊢
  split
  · exact Evolves.refl fit
  · next idle =>
    rw [idle] at fit'
    exact Evolves.of_move fit' (Move.takeFinalize f trusted epoch idle)

/-- A lock held against a finalize is for the same value or an earlier round. -/
theorem lock_of_noConflict (allowed : t.lockConflict ext f = false)
    {header : EpochHeader} (locked : t.state.lockedValue = some header) :
    ext.proposalId header = f.proposalId ∨ t.state.lockedRound < f.commitRound := by
  unfold lockConflict at allowed
  rw [locked] at allowed
  simp only [Bool.and_eq_false_iff, decide_eq_false_iff_not] at allowed
  rcases allowed with same | later
  · exact Or.inl (not_not.mp same).symm
  · exact Or.inr (not_le.mp later)

theorem evolves_acceptFinalizeBatch (fit : t.Fit) (trusted : inputs.finalize t.core.setting f) :
    Evolves ext inputs t (t.acceptFinalizeBatch ext f).1 := by
  unfold acceptFinalizeBatch
  split
  · exact Evolves.refl fit
  next notEarlier =>
  split
  · split <;> exact Evolves.refl fit
  next notSame =>
  split
  · exact Evolves.refl fit
  next epoch =>
  split
  · exact Evolves.refl fit
  next named =>
  split
  · exact Evolves.refl fit
  next conflict =>
  have take : t.core.MayTake ext inputs f :=
    { trusted := trusted
      epochId := not_not.mp epoch
      proposalId := not_not.mp named
      unfinalized := lt_of_le_of_ne (not_lt.mp notEarlier) fun same => notSame same.symm
      lock := fun header locked => lock_of_noConflict (Bool.eq_false_iff.mpr conflict) locked }
  have cached := evolves_cacheProposalHeaderOnly fit take
  have learns := learns_cacheProposalHeaderOnly t f.proposalId f.header
  have take' := MayTake.of_learns learns take
  have recorded : Evolves ext inputs _ _ := cached.trans (evolves_recordPolc cached.fit
    fun _ => Or.inr (Or.inr ⟨f, take', rfl, rfl⟩))
  have learns' := learns.trans (learns_recordPolc _ f.commitRound f.proposalId)
  have take'' := MayTake.of_learns learns' take
  let known := (t.cacheProposalHeaderOnly f.proposalId f.header).recordPolc
    f.commitRound f.proposalId
  have locked : Evolves ext inputs known (known.takeLock f) :=
    Evolves.of_move
      (recorded.fit.of_same ⟨rfl, fun _ => rfl, rfl, rfl, rfl⟩)
      (Move.takeLock f take'')
  exact (recorded.trans locked).trans
    (evolves_takeFinalize locked.fit take''.trusted take''.epochId)

theorem restorableVote_spec {vote : Vote} (restorable : t.restorableVote ext vote = true) :
    vote.epochId = t.state.height ∧ vote.round = t.state.round := by
  unfold restorableVote at restorable
  simp only [Bool.and_eq_true, decide_eq_true_eq] at restorable
  exact ⟨restorable.1.1.1.1.2, restorable.1.1.1.2⟩

theorem restoreLocalVote_data (t : Engine) (vote : Vote) :
    ∃ step, (t.restoreLocalVote vote).toEngineData =
      { (t.addVoteAt (t.voteSetFor vote.voteType) vote
          t.vs).1.toEngineData with
        state := { t.state with step } } := by
  unfold restoreLocalVote
  simp only
  split
  · rw [toEngineData_emit]
    split
    · exact ⟨_, rfl⟩
    · split
      · exact ⟨_, rfl⟩
      · exact ⟨t.state.step, rfl⟩
  · split
    · exact ⟨_, rfl⟩
    · split
      · exact ⟨_, rfl⟩
      · exact ⟨t.state.step, rfl⟩

theorem evolves_restoreLocalVote (fit : t.Fit) {vote : Vote} (trusted : inputs.vote vote)
    (epoch : vote.epochId = t.state.height) (round : vote.round = t.state.round) :
    Evolves ext inputs t (t.restoreLocalVote vote) := by
  have stored : (t.table vote.voteType.table).find? vote.round =
      some (t.voteSetFor vote.voteType) := by
    rw [round]
    exact find?_voteSetFor fit.toAligned vote.voteType
  have counting : t.core.countingSet vote.voteType.table = some t.vs := by
    cases vote.voteType <;> rfl
  have counted : Evolves ext inputs _ _ := evolves_addVoteAt fit stored counting trusted
    epoch (VoteType.voteType_table vote.voteType).symm
  let added := (t.addVoteAt (t.voteSetFor vote.voteType) vote t.vs).1
  let stepped := if vote.voteType = .precommit then
      added.setStep .precommitStep
    else if added.state.step = .proposeStep then added.setStep .prevoteStep
    else added
  have steps : Evolves ext inputs added stepped := by
    unfold stepped
    split
    · exact evolves_setStep counted.fit _
    · split
      · exact evolves_setStep counted.fit _
      · exact Evolves.refl counted.fit
  have asked : Quiet stepped (if !isNil vote.proposalId then
      stepped.emit (.requestProposal vote.round vote.proposalId)
    else stepped) := by
    split
    · exact quiet_emit stepped fun _ => rfl
    · exact Quiet.refl stepped
  exact (counted.trans steps).quiet asked

theorem evolves_restoreLocalVotes (fit : t.Fit) {votes : List Vote}
    (trusted : ∀ vote ∈ votes, inputs.vote vote) :
    Evolves ext inputs t (t.restoreLocalVotes ext votes).1 := by
  have restores : ∀ (list : List Vote) (t : Engine), t.Fit →
      (∀ vote ∈ list, inputs.vote vote ∧ vote.epochId = t.state.height ∧
        vote.round = t.state.round) →
      Evolves ext inputs t (list.foldl restoreLocalVote t) := by
    intro list
    induction list with
    | nil => exact fun t fit _ => Evolves.refl fit
    | cons vote rest ih =>
      intro t fit given
      obtain ⟨trusted, epoch, round⟩ := given vote List.mem_cons_self
      have restored : Evolves ext inputs _ _ := evolves_restoreLocalVote fit trusted epoch round
      obtain ⟨step, data⟩ := restoreLocalVote_data t vote
      have state : (t.restoreLocalVote vote).state = { t.state with step } :=
        congrArg EngineData.state data
      refine restored.trans (ih _ restored.fit ?_)
      intro other present
      rw [state]
      exact given other (List.mem_cons_of_mem _ present)
  unfold restoreLocalVotes
  simp only
  split
  · exact Evolves.refl fit
  · next accepted =>
    simp only [not_or, Bool.not_eq_true', Bool.not_eq_false, List.all_eq_true] at accepted
    have counted := restores votes t fit fun vote present =>
      ⟨trusted vote present, restorableVote_spec (accepted.2 vote present)⟩
    have asked : Quiet (votes.foldl restoreLocalVote t) (if votes ≠ [] then
        (votes.foldl restoreLocalVote t).emit (.requestRoundEvidence
          (votes.foldl restoreLocalVote t).state.round)
      else votes.foldl restoreLocalVote t) := by
      split
      · exact quiet_emit _ fun _ => rfl
      · exact Quiet.refl _
    exact (counted.quiet asked).quiet (quiet_scheduleStepTimeout ext _ _)

theorem evolves_ackFinalized (fit : t.Fit) (f : Finalize) :
    Evolves ext inputs t (t.ackFinalized f).1 := by
  unfold ackFinalized
  split
  · split
    · exact Evolves.of_move (fit.of_same ⟨rfl, fun _ => rfl, rfl, rfl, rfl⟩) Move.acknowledge
    · exact Evolves.refl fit
  · exact Evolves.refl fit

theorem quiet_drainOutputs (t : Engine) : Quiet t t.drainOutputs.1 := by
  unfold drainOutputs
  simp only
  split
  · split <;> exact ⟨rfl, rfl⟩
  · exact ⟨rfl, rfl⟩

end Engine

/-- What is assumed of a call, on the engine that it is made on. -/
def Inputs.Admits (inputs : Inputs) (ext : Externals) (t : Engine) : Operation → Prop
  | .doPropose _ header _ sign => inputs.author t.core.setting header ∧ inputs.Signs ext sign
  | .onPropose _ _ _ sign => inputs.Signs ext sign
  | .onVote vote sign => inputs.vote vote ∧ inputs.Signs ext sign
  | .onTimeout _ _ _ sign => inputs.Signs ext sign
  | .resumeVoting sign => inputs.Signs ext sign
  | .onReady sign => inputs.Signs ext sign
  | .restoreLocalVotes votes => ∀ vote ∈ votes, inputs.vote vote
  | .restorePrecommitLock p =>
    inputs.restored p ∧ inputs.author t.core.setting p.header ∧
      inputs.polc p.round (ext.proposalId p.header) ∧ 0 ≤ p.round
  | .startHeight height => height ≠ t.state.height → inputs.height t.state.height height
  | .replaceValidatorSet vs => inputs.replace t.view vs
  | .reconfigureValidatorSet _ vs => inputs.reconfigure t.view vs
  | .acceptFinalizeBatch f => inputs.finalize t.core.setting f
  | .recordHistoricalPrevote vote =>
    inputs.vote vote ∧ vote.epochId = t.state.height ∧ vote.voteType = .prevote
  | .recordPolc round pid => inputs.polc round pid
  | _ => True

namespace Engine

/-- Every admitted call is a sequence of moves. -/
theorem evolves_apply (fit : t.Fit) {operation : Operation}
    (admits : inputs.Admits ext t operation) : Evolves ext inputs t (operation.apply ext t) := by
  cases operation with
  | doPropose parentCommit header txHashes sign =>
    exact evolves_doPropose fit parentCommit txHashes admits.1 admits.2
  | onPropose p verify execute sign => exact evolves_onPropose fit p verify execute admits
  | onVote v sign => exact evolves_onVote fit admits.2 admits.1
  | onTimeout step round generation sign =>
    exact evolves_onTimeout fit step round generation admits
  | onRoundSync round validator => exact evolves_onRoundSync fit round validator
  | resumeVoting sign => exact evolves_resumeVoting fit admits
  | onReady sign => exact evolves_onReady fit admits
  | restoreLocalVotes votes => exact evolves_restoreLocalVotes fit admits
  | restorePrecommitLock proposal =>
    exact evolves_restorePrecommitLock fit admits.1 admits.2.1 admits.2.2.1 admits.2.2.2
  | realignRound round => exact evolves_realignRound fit round
  | startHeight height => exact evolves_startHeight fit admits
  | replaceValidatorSet vs => exact evolves_replaceValidatorSet fit admits
  | reconfigureValidatorSet round vs => exact evolves_reconfigureValidatorSet fit round admits
  | learnPastProposal p execute => exact evolves_learnPastProposal fit p execute
  | acceptFinalizeBatch f => exact evolves_acceptFinalizeBatch fit admits
  | recordHistoricalPrevote vote =>
    exact evolves_recordHistoricalPrevote fit admits.1 admits.2.1 admits.2.2
  | recordPolc round pid => exact evolves_recordPolc fit fun _ => Or.inr (Or.inl admits)
  | tryRoundSkip => exact evolves_tryRoundSkip fit
  | tryRoundStep => exact evolves_tryRoundStep fit
  | setReliefLimit limit => exact (quiet_setReliefLimit ext t limit).evolves fit
  | setProofSearch round =>
    have quiet : Quiet t { t with proofSearch := round } := ⟨rfl, rfl⟩
    exact quiet.evolves fit
  | setCanVote canVote =>
    have quiet : Quiet t { t with canVote } := ⟨rfl, rfl⟩
    exact quiet.evolves fit
  | setRoundSkipReady ready =>
    have quiet : Quiet t { t with roundSkipReady := ready } := ⟨rfl, rfl⟩
    exact quiet.evolves fit
  | drainOutputs => exact (quiet_drainOutputs t).evolves fit
  | ackFinalized f => exact evolves_ackFinalized fit f

variable {ext : Externals} {inputs : Inputs} {t : Engine}
variable {allowed : Engine → Operation → Prop}

/-- A run of admitted calls is a sequence of moves. -/
theorem evolves_of_reaches {t' : Engine} (admits : ∀ t operation, t.Fit → allowed t operation →
      inputs.Admits ext t operation) (fit : t.Fit) (reaches : Reaches ext allowed t t') :
    Evolves ext inputs t t' := by
  induction reaches with
  | refl => exact Evolves.refl fit
  | tail _ call ih =>
    obtain ⟨operation, allows, rfl⟩ := call
    exact ih.trans (evolves_apply ih.fit (admits _ operation ih.fit allows))

/-- What every move keeps holds in every engine that a run reaches. -/
theorem moves_invariant (invariant : Core → Prop) {t' : Engine}
    (moves : Moves ext inputs t.core t'.core) (start : invariant t.core)
    (keeps : ∀ c c', invariant c → Move ext inputs c c' → invariant c') : invariant t'.core := by
  generalize t'.core = last at moves
  induction moves with
  | refl => exact start
  | tail _ move ih => exact keeps _ _ ih move

/-- A new engine has its references in order. -/
theorem fit_createForPolicy (policy : QuorumPolicy) (chainId myAddr : Bytes) (vs : ValidatorSet)
    (startHeight : Int) (canVote : Bool) :
    (createForPolicy policy chainId myAddr vs startHeight canVote).Fit := by
  have place_eq : (createForPolicy policy chainId myAddr vs startHeight
      canVote).place = fun name => match name with
        | (.prevote, 0) => some 0
        | (.precommit, 0) => some 1
        | _ => none := by
    funext ⟨kind, round⟩
    cases kind with
    | prevote | precommit =>
      refine (Table.find?_replace_eq_ite _ _ _ _).trans ?_
      by_cases zero : round = 0 <;> simp [zero, Table.find?_empty]
    | source => exact Table.find?_empty _
  refine ⟨⟨?_, ?_, le_refl _⟩, ?_⟩
  · exact Table.find?_replace _ _ _
  · exact Table.find?_replace _ _ _
  · unfold EngineData.Separated
    rw [place_eq]
    constructor
    · intro name ref placed
      split at placed <;> cases placed
      · exact Nat.zero_lt_two
      · exact Nat.one_lt_two
    · intro name other ref placed placed'
      split at placed <;> split at placed' <;> simp_all <;>
        exact absurd (placed.trans placed'.symm) (by decide)

/-- A new engine holds empty vote sets only. -/
theorem votesAt_createForPolicy
    {policy : QuorumPolicy} {chainId myAddr : Bytes} {vs : ValidatorSet}
    {start : Int} {canVote : Bool} {kind : TableKind} {round : Int} {votes : VoteSet}
    (stored : (createForPolicy policy chainId myAddr vs start canVote).votesAt
      kind round = some votes) : votes = createVoteSet := by
  obtain ⟨ref, found, rfl⟩ := Option.map_eq_some_iff.mp stored
  cases kind with
  | prevote | precommit =>
    have found' := (Table.find?_replace_eq_ite _ _ _ _).symm.trans found
    split at found'
    · cases found'; rfl
    · simp at found'
  | source => simp [EngineData.table, createForPolicy] at found

end Engine
end LiteNode
