import LiteNode.Engine.Casting

/-!
# Moves that open a round or a height

Opening a round creates its two vote sets and prunes the tables of rounds that
are no longer needed. The current round is always kept.
-/

namespace LiteNode
namespace EngineData

/-- Keep the entries of some rounds. -/
def prune (t : EngineData) (keep : Int → Bool) : EngineData :=
  { t with
    prevotesByRound := t.prevotesByRound.filterKeys keep
    sourcePrevotes := t.sourcePrevotes.filterKeys keep
    precommitsByRound := t.precommitsByRound.filterKeys keep }

theorem place_prune (t : EngineData) (keep : Int → Bool) :
    (t.prune keep).place = fun name => if keep name.2 then t.place name else none := by
  funext ⟨kind, round⟩
  cases kind <;> exact Table.find?_filterKeys _ _ _

theorem votesAt_prune (t : EngineData) (keep : Int → Bool) (kind : TableKind) (round : Int) :
    (t.prune keep).votesAt kind round = if keep round then t.votesAt kind round else none := by
  change ((t.prune keep).place (kind, round)).map t.cells.read = _
  rw [place_prune]
  simp only
  split <;> rfl

theorem separated_prune {t : EngineData} (separated : t.Separated)
    (keep : Int → Bool) : (t.prune keep).Separated := by
  refine separated.restrict id Function.injective_id ?_
  intro name ref stored
  rw [place_prune] at stored
  simp only at stored
  split at stored
  · exact stored
  · cases stored

/-- Data with a round opened and the tables pruned. -/
def opened (t : EngineData) (round : Int) (keep : Int → Bool) : EngineData :=
  { ((t.allocTable .prevote round).allocTable .precommit round).prune keep with
    state := { t.state with round, step := .proposeStep }
    prevotes := t.cells.size
    precommits := t.cells.size + 1
    currentProposal := none }

theorem place_opened (t : EngineData) (round : Int) (keep : Int → Bool) :
    (t.opened round keep).place =
      (((t.allocTable .prevote round).allocTable .precommit round).prune keep).place := by
  funext ⟨kind, r⟩
  cases kind <;> rfl

/-- Opening a kept round puts references in order. -/
theorem fit_opened {t : EngineData} (separated : t.Separated) {round : Int} {keep : Int → Bool}
    (nonneg : 0 ≤ round) (kept : keep round = true) : (t.opened round keep).Fit := by
  have pruned := separated_prune (separated_allocTable
    (separated_allocTable separated .prevote round) .precommit round) keep
  refine ⟨⟨?_, ?_, nonneg⟩, ?_⟩
  · change (t.opened round keep).place (.prevote, round) = _
    rw [place_opened, place_prune, place_allocTable, place_allocTable]
    simp [kept, opened]
  · change (t.opened round keep).place (.precommit, round) = _
    rw [place_opened, place_prune, place_allocTable, cells_allocTable]
    simp [kept, opened]
  · unfold Separated
    rw [place_opened]
    exact pruned

theorem votesAt_opened {t : EngineData} (separated : t.Separated)
    (round : Int) (keep : Int → Bool) (kind : TableKind) (r : Int) :
    (t.opened round keep).votesAt kind r =
      if keep r then
        if kind ≠ .source ∧ r = round then some createVoteSet
        else t.votesAt kind r
      else none := by
  have pruned : (t.opened round keep).votesAt kind r =
      (((t.allocTable .prevote round).allocTable .precommit round).prune keep).votesAt kind r :=
    congrArg (fun place => (place (kind, r)).map
      (t.opened round keep).cells.read) (place_opened t round keep)
  rw [pruned, votesAt_prune, votesAt_allocTable
    (separated_allocTable separated .prevote round), votesAt_allocTable separated]
  cases kind <;> simp

end EngineData

namespace Engine

variable {ext : Externals} {inputs : Inputs} {t : Engine}

/-- Ask for the proof of lock of a round, if there is one. -/
def askedPolc (t : Engine) : Option Int → Engine
  | some round => t.requestPolc round
  | none => t

variable {round : Int}

/-- Opening a round, up to outputs that concern no vote. -/
theorem startRound_opened (ext : Externals) (t : Engine) (nonneg : 0 ≤ round) :
    ∃ keep : Int → Bool, keep round = true ∧
      (startRound ext t round).toEngineData = t.toEngineData.opened round keep ∧
      (startRound ext t round).history.filterMap logEntry = t.history.filterMap logEntry := by
  let first : Engine := { t with
    cells := (t.cells.alloc createVoteSet).alloc createVoteSet
    voteTimers := []
    state := { t.state with round, step := .proposeStep } }
  let previous := if 0 < round then some (round - 1) else none
  let asked := first.askedPolc previous
  let second := asked.retryPolcRequest previous
  have quiet : Quiet first second := by
    refine Quiet.trans ?_ (quiet_retryPolcRequest _ _)
    unfold asked askedPolc
    cases previous with
    | some round => exact quiet_requestPolc _ _
    | none => exact Quiet.refl _
  let third : Engine := { second with
    prevotes := t.cells.size
    prevotesByRound := second.prevotesByRound.replace round t.cells.size
    precommits := t.cells.size + 1
    precommitsByRound := second.precommitsByRound.replace round (t.cells.size + 1) }
  have started : startRound ext t round =
      emit { third.pruneRoundHistory with
        currentProposal := none, pendingPrevote := none }
        (.scheduleTimeout .proposeStep round
          (timeoutMs ext round .proposeStep)
          third.pruneRoundHistory.generation) := rfl
  refine ⟨third.roundRetained, ?_, ?_, ?_⟩
  · have round_eq : third.state.round = round :=
      congrArg (fun data : EngineData => data.state.round) quiet.data
    have floor_le : max 0 (round - roundHistoryLimit) ≤ round := by
      unfold roundHistoryLimit
      omega
    unfold roundRetained
    rw [round_eq]
    simp [floor_le]
  · rw [started, toEngineData_emit]
    change { (({ second.toEngineData with
      prevotes := t.cells.size
      prevotesByRound := second.prevotesByRound.replace round t.cells.size
      precommits := t.cells.size + 1
      precommitsByRound := second.precommitsByRound.replace round (t.cells.size + 1) } :
        EngineData).prune third.roundRetained) with
      currentProposal := none } = _
    rw [quiet.data]
    unfold EngineData.opened EngineData.allocTable
    simp only [EngineData.setTable, EngineData.table, Cells.size_alloc]
    rfl
  · rw [started, (quiet_emit _ fun _ => rfl).log]
    exact quiet.log

theorem core_startRound (ext : Externals) (separated : t.Separated) (nonneg : 0 ≤ round) :
    ∃ keep : Int → Bool, keep round = true ∧ (startRound ext t round).Fit ∧
      (startRound ext t round).core = t.core.openRound round keep := by
  obtain ⟨keep, kept, data_eq, log_eq⟩ := startRound_opened ext t nonneg
  refine ⟨keep, kept, ?_, ?_⟩
  · rw [data_eq]
    exact EngineData.fit_opened separated nonneg kept
  · have votes_eq : (t.toEngineData.opened round keep).votesAt =
        (t.core.openRound round keep).votes := by
      funext kind r
      exact EngineData.votesAt_opened separated round keep kind r
    unfold core
    rw [data_eq, log_eq]
    exact congrArg (fun table => ({ t.core.openRound round keep with
      votes := table } : Core)) votes_eq

/-- Opening a round is a move. -/
theorem evolves_startRound (separated : t.Separated) (nonneg : 0 ≤ round)
    (mayOpen : t.core.MayOpen round) : Evolves ext inputs t (startRound ext t round) := by
  obtain ⟨keep, kept, fit, core_eq⟩ := core_startRound ext separated nonneg
  refine Evolves.of_move fit ?_
  rw [core_eq]
  exact Move.openRound round keep nonneg kept mayOpen

theorem quiet_setGeneration (t : Engine) (generation : Int) :
    Quiet t { t with generation } := ⟨rfl, rfl⟩

theorem evolves_realignRound (fit : t.Fit) (round : Int) :
    Evolves ext inputs t (realignRound ext t round).1 := by
  unfold realignRound
  split
  · exact Evolves.refl fit
  · next advances =>
    have later : t.state.round < round := not_le.mp advances
    have quiet := quiet_setGeneration t (t.generation + 1)
    exact (quiet.evolves fit).trans (evolves_startRound
      (quiet.fit fit).separated (fit.round_nonneg.trans later.le)
      (Or.inl later))

theorem quiet_setEvidence (t : Engine) (evidence : Table Bytes Int) :
    Quiet t { t with higherRoundEvidence := evidence } := ⟨rfl, rfl⟩

theorem evolves_tryRoundSkip (fit : t.Fit) : Evolves ext inputs t (t.tryRoundSkip ext).1 := by
  unfold tryRoundSkip
  split
  · exact Evolves.refl fit
  split
  · exact Evolves.refl fit
  split
  · exact Evolves.refl fit
  · have cleared := quiet_setEvidence t ∅
    exact (cleared.evolves fit).trans (evolves_realignRound (cleared.fit fit) _)

theorem evolves_tryRoundStep (fit : t.Fit) : Evolves ext inputs t (t.tryRoundStep ext).1 := by
  unfold tryRoundStep
  split
  · exact Evolves.refl fit
  split
  · exact evolves_realignRound fit _
  · exact Evolves.refl fit

theorem evolves_onRoundSync (fit : t.Fit) (round : Int) (validator : Bytes) :
    Evolves ext inputs t (t.onRoundSync ext round validator).1 := by
  unfold onRoundSync
  split
  · have recorded := quiet_recordHigherRound t (some maxSyncAhead) round validator
    exact (recorded.evolves fit).trans (evolves_tryRoundSkip (recorded.fit fit))
  · exact Evolves.refl fit

theorem evolves_followHigherRound (fit : t.Fit) (round : Int) (validator : Bytes) :
    Evolves ext inputs t (t.followHigherRound ext round validator) := by
  unfold followHigherRound
  split
  · have recorded := quiet_recordHigherRound t (some maxRoundAhead) round validator
    exact (recorded.evolves fit).trans (evolves_tryRoundSkip (recorded.fit fit))
  · exact Evolves.refl fit

/-- Identity, set, height and finalized height, which opening a round leaves
alone. -/
structure Keeps (t t' : Engine) : Prop where
  chainId : t'.chainId = t.chainId
  policy : t'.policy = t.policy
  myAddr : t'.myAddr = t.myAddr
  vs : t'.vs = t.vs
  height : t'.state.height = t.state.height

theorem Keeps.refl (t : Engine) : Keeps t t := ⟨rfl, rfl, rfl, rfl, rfl⟩

theorem Keeps.trans {t t' t'' : Engine}
    (first : Keeps t t') (second : Keeps t' t'') : Keeps t t'' :=
  ⟨second.chainId.trans first.chainId, second.policy.trans first.policy,
    second.myAddr.trans first.myAddr, second.vs.trans first.vs, second.height.trans first.height⟩

theorem Quiet.keeps {t t' : Engine} (quiet : Quiet t t') : Keeps t t' :=
  ⟨congrArg EngineData.chainId quiet.data, congrArg EngineData.policy quiet.data,
    congrArg EngineData.myAddr quiet.data, congrArg EngineData.vs quiet.data,
    congrArg (fun data : EngineData => data.state.height) quiet.data⟩

theorem Learns.keeps {t t' : Engine} (learns : Learns t t') : Keeps t t' :=
  ⟨learns.field EngineData.chainId, learns.policy, learns.myAddr, learns.vs, learns.height⟩

theorem keeps_startRound (t : Engine) (nonneg : 0 ≤ round) : Keeps t (startRound ext t round) := by
  obtain ⟨keep, -, data_eq, -⟩ := startRound_opened ext t nonneg
  exact
    { chainId := (congrArg EngineData.chainId data_eq).trans rfl
      policy := (congrArg EngineData.policy data_eq).trans rfl
      myAddr := (congrArg EngineData.myAddr data_eq).trans rfl
      vs := (congrArg EngineData.vs data_eq).trans rfl
      height := (congrArg (fun data : EngineData => data.state.height) data_eq).trans rfl }

theorem keeps_realignRound (fit : t.Fit) (round : Int) : Keeps t (realignRound ext t round).1 := by
  unfold realignRound
  split
  · exact Keeps.refl t
  · next advances =>
    exact (quiet_setGeneration t _).keeps.trans (keeps_startRound _
      (fit.round_nonneg.trans (not_le.mp advances).le))

theorem keeps_followHigherRound (fit : t.Fit) (round : Int) (validator : Bytes) :
    Keeps t (t.followHigherRound ext round validator) := by
  unfold followHigherRound
  split
  · have recorded := quiet_recordHigherRound t (some maxRoundAhead) round validator
    refine recorded.keeps.trans ?_
    unfold tryRoundSkip
    split
    · exact Keeps.refl _
    split
    · exact Keeps.refl _
    split
    · exact Keeps.refl _
    · have cleared := quiet_setEvidence
        (t.recordHigherRound (some maxRoundAhead) round validator) ∅
      exact cleared.keeps.trans (keeps_realignRound ((recorded.trans cleared).fit fit) _)
  · exact Keeps.refl t

theorem le_foldl_afterVotes (t : Engine) (entries : List (Int × Ref)) (minimum : Int) :
    minimum ≤ entries.foldl (fun minimum entry =>
      if (t.cells.read entry.2).votes.mem t.myAddr then max minimum (entry.1 + 1)
      else minimum) minimum := by
  induction entries generalizing minimum with
  | nil => exact le_refl _
  | cons entry rest ih =>
    rw [List.foldl_cons]
    refine le_trans ?_ (ih _)
    split
    · exact le_max_left _ _
    · exact le_refl _

theorem le_afterVotes (t : Engine) (rounds : Table Int Ref) (minimum : Int) :
    minimum ≤ t.afterVotes rounds minimum :=
  le_foldl_afterVotes t rounds.toList minimum

/-- The round after the votes lies above each round with an own vote. -/
theorem lt_afterVotes (rounds : Table Int Ref) {ref : Ref} (stored : rounds.find? round = some ref)
    (voted : (t.cells.read ref).votes.mem t.myAddr = true) (minimum : Int) :
    round < t.afterVotes rounds minimum := by
  have present := Table.mem_toList.mpr stored
  unfold afterVotes
  generalize rounds.toList = entries at present
  induction entries generalizing minimum with
  | nil => simp at present
  | cons entry rest ih =>
    rw [List.foldl_cons]
    rcases List.mem_cons.mp present with rfl | later
    · simp only [voted, if_true]
      have grows := le_foldl_afterVotes t rest (max minimum (round + 1))
      omega
    · exact ih _ later

/-- Round in which the engine goes on at its height. -/
def resumedRound (t : Engine) : Int :=
  t.afterVotes t.precommitsByRound
    (t.afterVotes t.prevotesByRound (max t.state.round (t.state.lockedRound + 1)))

theorem round_le_resumedRound (t : Engine) : t.state.round ≤ t.resumedRound :=
  (le_max_left _ _).trans ((le_afterVotes t _ _).trans (le_afterVotes t _ _))

/-- The engine has no vote in the round in which it goes on. -/
theorem ownFree_resumedRound (t : Engine) : t.core.OwnFree t.resumedRound := by
  intro kind votes proper stored
  have stored' : ((t.table kind).find? t.resumedRound).map t.cells.read = some votes := stored
  obtain ⟨ref, found, rfl⟩ := Option.map_eq_some_iff.mp stored'
  cases voted : (t.cells.read ref).votes.mem t.myAddr with
  | false => exact VoteSet.mem_eq_false_iff.mp voted
  | true =>
    exfalso
    cases kind with
    | prevote =>
      have before := lt_afterVotes t.prevotesByRound found
        voted (max t.state.round (t.state.lockedRound + 1))
      have after := le_afterVotes t t.precommitsByRound
        (t.afterVotes t.prevotesByRound (max t.state.round (t.state.lockedRound + 1)))
      exact absurd (before.trans_le after) (lt_irrefl _)
    | source => exact proper rfl
    | precommit => exact absurd (lt_afterVotes t.precommitsByRound found voted _) (lt_irrefl _)

theorem evolves_startHeight (fit : t.Fit) {height : Int}
    (allowed : height ≠ t.state.height → inputs.height t.state.height height) :
    Evolves ext inputs t (startHeight ext t height) := by
  by_cases same : height = t.state.height
  · let cleared : Engine := { t with
      generation := t.generation + 1
      outputs := []
      polcRequests := ∅
      higherRoundEvidence := ∅ }
    have quiet : Quiet t cleared := ⟨rfl, rfl⟩
    have started : startHeight ext t height = startRound ext cleared t.resumedRound := by
      unfold startHeight
      simp only [same, decide_true, Bool.not_true, Bool.false_eq_true, if_false]
      rfl
    rw [started]
    refine (quiet.evolves fit).trans (evolves_startRound
      (quiet.fit fit).separated
      (fit.round_nonneg.trans t.round_le_resumedRound) ?_)
    rw [quiet.core_eq]
    exact Or.inr ⟨t.round_le_resumedRound, t.ownFree_resumedRound⟩
  · let emptied : Engine := { t with
      generation := t.generation + 1
      outputs := []
      reliefLimit := none
      state := initialEngineState height
      proposalCache := ∅
      proposalMessages := ∅
      polcRequests := ∅
      proofSearch := none
      polcByRound := ∅
      prevotesByRound := ∅
      sourcePrevotes := ∅
      precommitsByRound := ∅
      higherRoundEvidence := ∅ }
    have started : startHeight ext t height = startRound ext emptied 0 := by
      unfold startHeight
      simp only [same, decide_false, Bool.not_false, if_true]
      rfl
    have unplaced : ∀ name, emptied.place name = none := by
      rintro ⟨kind, round⟩
      cases kind <;> exact Table.find?_empty _
    have separated : emptied.Separated := by
      constructor
      · intro name ref placed
        rw [unplaced] at placed
        cases placed
      · intro name other ref placed
        rw [unplaced] at placed
        cases placed
    obtain ⟨keep, kept, fit', core_eq⟩ := core_startRound ext separated (le_refl 0)
    have core_eq' : emptied.core.openRound 0 keep = t.core.startHeight height := by
      have votes_eq : (emptied.core.openRound 0 keep).votes = fun kind r =>
          if kind ≠ .source ∧ r = 0 then some createVoteSet else none := by
        funext kind r
        have absent : emptied.core.votes kind r = none :=
          congrArg (Option.map emptied.cells.read) (unplaced (kind, r))
        simp only [Core.openRound, absent]
        by_cases zero : r = 0
        · simp [zero, kept]
        · simp [zero]
      have cache_eq : (∅ : Table Bytes ProposalCacheEntry).find? =
          fun _ => none := by
        funext pid
        exact Table.find?_empty _
      have messages_eq : (fun pid round =>
          (∅ : Table (Bytes × Int) Propose).find? (pid, round)) = fun _ _ => none := by
        funext pid round
        exact Table.find?_empty _
      have polc_eq : (∅ : Table Int Bytes).find? = fun _ => none := by
        funext round
        exact Table.find?_empty _
      unfold Core.startHeight
      rw [← cache_eq, ← messages_eq, ← polc_eq, ← votes_eq]
      rfl
    rw [started]
    refine Evolves.of_move fit' ?_
    rw [core_eq, core_eq']
    exact Move.startHeight height same (allowed same)

/-- A pristine engine is in round zero and holds no votes there. -/
theorem isPristine_spec (fit : t.Fit) (pristine : t.isPristine = true) :
    t.state.round = 0 ∧ t.core.OwnFree 0 := by
  unfold isPristine at pristine
  simp only [Bool.and_eq_true, decide_eq_true_eq] at pristine
  obtain ⟨⟨⟨⟨⟨⟨⟨-, start⟩, -⟩, -⟩, noPrevotes⟩, noPrecommits⟩, -⟩, -⟩ := pristine
  refine ⟨start, ?_⟩
  intro kind votes proper stored
  have stored' : t.votesAt kind t.state.round = some votes := by
    rw [start]
    exact stored
  cases kind with
  | prevote =>
    rw [fit.votesAt_prevotes] at stored'
    cases stored'
    exact Table.find?_of_length_eq_zero noPrevotes _
  | source => exact absurd rfl proper
  | precommit =>
    rw [fit.votesAt_precommits] at stored'
    cases stored'
    exact Table.find?_of_length_eq_zero noPrecommits _

/-- Locking a restored proposal and opening a round from its own on is a
move. -/
theorem evolves_restoredLock (fit : t.Fit) {proposal : Propose} (trusted : inputs.restored proposal)
    (proposable : t.core.Proposable ext inputs proposal.header)
    (start : t.state.round = 0) (proposed : 0 ≤ proposal.round)
    (reached : proposal.round ≤ round) (mayOpen : t.core.MayOpen round) {locked : Engine}
    (same : t.SamePlaces locked.toEngineData)
    (core_eq : locked.core = t.core.lock proposal.round proposal.header) :
    Evolves ext inputs t (startRound ext locked round) := by
  obtain ⟨keep, kept, fit', opened⟩ := core_startRound ext
    (fit.of_same same).separated (proposed.trans reached)
  refine Evolves.of_move fit' ?_
  rw [opened, core_eq]
  exact Move.restoreLock proposal round keep trusted proposable start proposed reached kept mayOpen

theorem evolves_restorePrecommitLock
    (fit : t.Fit) {proposal : Propose} (trusted : inputs.restored proposal)
    (author : inputs.author t.core.setting proposal.header)
    (polc : inputs.polc proposal.round (ext.proposalId proposal.header))
    (proposed : 0 ≤ proposal.round) :
    Evolves ext inputs t (restorePrecommitLock ext t proposal).1 := by
  unfold restorePrecommitLock
  split
  · exact Evolves.refl fit
  next chain =>
  split
  · exact Evolves.refl fit
  next epoch =>
  split
  · exact Evolves.refl fit
  next version =>
  split
  · exact Evolves.refl fit
  next headerChain =>
  split
  · exact Evolves.refl fit
  next headerEpoch =>
  split
  · exact Evolves.refl fit
  split
  · exact Evolves.refl fit
  next pristine =>
  obtain ⟨start, free⟩ := isPristine_spec fit (by simpa using pristine)
  have epoch' : proposal.epochId = t.state.height := not_not.mp epoch
  have proposable : t.core.Proposable ext inputs proposal.header := by
    refine Or.inl ⟨?_, ?_, ?_, Or.inr author⟩
    · exact (not_not.mp headerEpoch).trans epoch'
    · exact (not_not.mp headerChain).trans (not_not.mp chain)
    · rw [not_not.mp version, epoch']
      rfl
  have stored : Evolves ext inputs _ _ := evolves_cacheProposalMessage fit proposable
  have recorded : Evolves ext inputs _ _ := evolves_recordPolc stored.fit
    (fun _ => Or.inr (Or.inl polc))
  have learns := (learns_cacheProposalMessage ext t proposal).trans
    (learns_recordPolc _ proposal.round (ext.proposalId proposal.header))
  have start' := learns.round.trans start
  have free' : ((t.cacheProposalMessage ext proposal).recordPolc
      proposal.round (ext.proposalId proposal.header)).core.OwnFree 0 := by
    intro kind votes proper found
    have found' := found
    change EngineData.votesAt _ kind 0 = some votes at found'
    rw [learns.samePlaces.votesAt] at found'
    exact (congrArg (votes.votes.find? ·) learns.myAddr).trans (free kind votes proper found')
  have proposable' : ((t.cacheProposalMessage ext proposal).recordPolc
      proposal.round (ext.proposalId proposal.header)).core.Proposable ext
      inputs proposal.header := by
    refine Or.inl ⟨?_, ?_, ?_, Or.inr (learns.setting ▸ author)⟩
    · exact ((not_not.mp headerEpoch).trans epoch').trans learns.height.symm
    · exact ((not_not.mp headerChain).trans (not_not.mp chain)).trans
        (learns.field EngineData.chainId).symm
    · refine ((not_not.mp version).trans ?_).trans
        (congrArg ext.versionForEpoch learns.height.symm)
      rw [epoch']
  have mayOpen : ∀ round, proposal.round ≤ round →
      ((t.cacheProposalMessage ext proposal).recordPolc proposal.round
        (ext.proposalId proposal.header)).core.MayOpen round := by
    intro round reached
    rcases (proposed.trans reached).lt_or_eq with positive | zero
    · exact Or.inl (lt_of_eq_of_lt start' positive)
    · subst zero
      exact Or.inr ⟨le_of_eq start', free'⟩
  simp only
  split
  · refine (stored.trans recorded).trans (evolves_restoredLock recorded.fit
      trusted proposable' start' proposed (le_refl _) (mayOpen _ (le_refl _))
      ⟨rfl, fun _ => rfl, rfl, rfl, rfl⟩ rfl)
  · unfold realignRound
    split
    · next stuck =>
      have bound : proposal.round + 1 ≤ 0 := stuck.trans (le_of_eq start')
      omega
    · refine (stored.trans recorded).trans (evolves_restoredLock recorded.fit
        trusted proposable' start' proposed (by omega)
        (mayOpen _ (by omega)) ⟨rfl, fun _ => rfl, rfl, rfl, rfl⟩ rfl)

end Engine
end LiteNode
