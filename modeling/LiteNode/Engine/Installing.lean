import LiteNode.Engine.Projecting

/-!
# Installing a validator set

What `projectedState` returns, and the two operations that install it.
-/

namespace LiteNode
namespace Engine

variable {ext : Externals} {inputs : Inputs} {t : Engine} {vs : ValidatorSet}

variable {round : Int} {pid : Bytes} {projected : Engine × Projection}

/-- A recorded proof of lock is read off a listed cell. -/
theorem foldl_projectedPolc (t : Engine) (vs : ValidatorSet) (entries : List (Int × Ref))
    (polc : Table Int Bytes)
    (recorded : (entries.foldl
      (fun polc entry =>
        match VoteSet.quorumPid t.policy t.state.height vs (t.cells.read entry.2) with
        | some proposalId => polc.replace entry.1 proposalId
        | none => polc)
      polc).find? round = some pid) :
    polc.find? round = some pid ∨ ∃ ref, (round, ref) ∈ entries ∧
      VoteSet.quorumPid t.policy t.state.height vs (t.cells.read ref) = some pid := by
  induction entries generalizing polc with
  | nil => exact Or.inl recorded
  | cons entry rest ih =>
    rw [List.foldl_cons] at recorded
    rcases ih _ recorded with step | ⟨ref, present, found⟩
    · split at step
      · next proposalId found =>
        rw [Table.find?_replace_eq_ite] at step
        split at step
        · next same =>
          cases step
          subst same
          exact Or.inr ⟨entry.2, List.mem_cons_self, found⟩
        · exact Or.inl step
      · exact Or.inl step
    · exact Or.inr ⟨ref, List.mem_cons_of_mem _ present, found⟩

theorem find?_projectedPolc {rounds : Table Int Ref}
    (recorded : (t.projectedPolc vs rounds).find? round = some pid) :
    ∃ ref, rounds.find? round = some ref ∧
      VoteSet.quorumPid t.policy t.state.height vs (t.cells.read ref) = some pid := by
  rcases foldl_projectedPolc t vs _ _ recorded with none | ⟨ref, present, found⟩
  · rw [Table.find?_empty] at none
    cases none
  · exact ⟨ref, Table.mem_toList.mp present, found⟩

/-- A record copied into another table is in one of the two. -/
theorem find?_foldl_replace (entries : List (Int × Bytes)) (polc : Table Int Bytes)
    (recorded : (entries.foldl
      (fun polc entry => polc.replace entry.1 entry.2) polc).find? round = some pid) :
    polc.find? round = some pid ∨ (round, pid) ∈ entries := by
  induction entries generalizing polc with
  | nil => exact Or.inl recorded
  | cons entry rest ih =>
    rw [List.foldl_cons] at recorded
    rcases ih _ recorded with step | present
    · rw [Table.find?_replace_eq_ite] at step
      split at step
      · next same =>
        cases step
        subst same
        exact Or.inr List.mem_cons_self
      · exact Or.inl step
    · exact Or.inr (List.mem_cons_of_mem _ present)

/-- A projected finalize is read off a cell of the table. -/
theorem projectedFinalize_spec {rounds : Table Int Ref}
    (projected : t.projectedFinalize vs rounds = some (round, pid)) :
    ∃ ref, rounds.find? round = some ref ∧
      VoteSet.quorumPid t.policy t.state.height vs (t.cells.read ref) = some pid := by
  have backed : ∀ entry, t.projectedFinalize vs rounds = some entry →
      ∃ ref, rounds.find? entry.1 = some ref ∧
        VoteSet.quorumPid t.policy t.state.height vs (t.cells.read ref) = some entry.2 := by
    refine List.foldlRecOn _ _
      (motive := fun found => ∀ entry : Int × Bytes, found = some entry → ∃ ref,
        rounds.find? entry.1 = some ref ∧ VoteSet.quorumPid t.policy
          t.state.height vs (t.cells.read ref) = some entry.2)
      (by simp) ?_
    intro found earlier entry present other equal
    have own := Table.mem_toList.mp present
    split at equal
    · exact earlier other equal
    · next proposalId _ chosen =>
      cases equal
      exact ⟨entry.2, own, chosen⟩
    · next proposalId _ priorRound priorId chosen =>
      split at equal
      · cases equal
        exact ⟨entry.2, own, chosen⟩
      · exact earlier other equal
  exact backed (round, pid) projected

def installedData (projected : Engine × Projection) : EngineData :=
  { projected.1.toEngineData with
    prevotesByRound := projected.2.prevotes
    precommitsByRound := projected.2.precommits }

/-- What a projection is made of. -/
structure Projected
    (t : Engine) (vs : ValidatorSet) (projected : Engine × Projection) :
    Prop where
  saves : SavesSource t projected.1
  separated : (installedData projected).Separated
  votes : (installedData projected).votesAt = t.core.installedVotes vs
  polc : ∀ round pid, projected.2.polc.find? round = some pid → isNil pid = false ∧
    ((∃ votes, t.core.installedVotes vs .prevote round = some votes ∧
        votes.ShowsQuorum t.policy t.state.height vs pid) ∨
      ∃ source votes, vs.sourceSet t.chainId t.state.height = some source ∧
        t.core.installedVotes vs .source round = some votes ∧
        votes.ShowsQuorum t.policy t.state.height source pid)
  valid : ∀ header, projected.2.validValue = some header →
    t.state.lockedValue = some header ∨ t.state.validValue = some header

theorem projectedValid_spec {polc : Table Int Bytes} {header : EpochHeader}
    (valid : (projectedValid ext t polc).2 = some header) :
    t.state.lockedValue = some header ∨ t.state.validValue = some header := by
  unfold projectedValid at valid
  simp only at valid
  split at valid
  · exact Or.inl valid
  · unfold supportedValid at valid
    split at valid
    · next value found =>
      split at valid
      · cases valid
        exact Or.inr found
      · cases valid
    · cases valid

/-- The engine with both tables counted again in fresh cells. -/
def recounted (t : Engine) (vs : ValidatorSet) : Engine :=
  { t with cells := (projectRounds t.policy vs
      (projectRounds t.policy vs t.cells t.prevotesByRound).1
      t.precommitsByRound).1 }

/-- References of the two new tables. -/
def recountedPlace (t : Engine) (vs : ValidatorSet) : Int ⊕ Int → Option Ref :=
  Sum.elim (projectRounds t.policy vs t.cells t.prevotesByRound).2.find?
    (projectRounds t.policy vs
      (projectRounds t.policy vs t.cells t.prevotesByRound).1
      t.precommitsByRound).2.find?

theorem installedVotes_prevote (t : Engine) (vs : ValidatorSet) (round : Int) :
    t.core.installedVotes vs .prevote round =
      (t.prevotesByRound.find? round).map fun ref =>
        VoteSet.projectVotes t.policy vs (t.cells.read ref) := by
  change ((t.prevotesByRound.find? round).map t.cells.read).map _ = _
  cases t.prevotesByRound.find? round <;> rfl

theorem installedVotes_precommit (t : Engine) (vs : ValidatorSet) (round : Int) :
    t.core.installedVotes vs .precommit round =
      (t.precommitsByRound.find? round).map fun ref =>
        VoteSet.projectVotes t.policy vs (t.cells.read ref) := by
  change ((t.precommitsByRound.find? round).map t.cells.read).map _ = _
  cases t.precommitsByRound.find? round <;> rfl

/-- Counting both tables again fills them with the votes of the old ones. -/
theorem recounted_spec (separated : t.Separated) (vs : ValidatorSet) :
    let middle := recounted t vs
    let names := middle.placeWith (recountedPlace t vs)
    middle.cells.Separated names ∧
    (∀ kind round, middle.cells.contents names (Sum.inl (kind, round)) = t.votesAt kind round) ∧
    (∀ round, middle.cells.contents names (Sum.inr (Sum.inl round)) =
      t.core.installedVotes vs .prevote round) ∧
    ∀ round, middle.cells.contents names (Sum.inr (Sum.inr round)) =
      t.core.installedVotes vs .precommit round := by
  obtain ⟨separated₁, older₁, newer₁⟩ := projectRounds_spec t.policy vs t.cells t.prevotesByRound separated
    (fun round ref found => ⟨(.prevote, round), found⟩)
  obtain ⟨separated₂, older₂, newer₂⟩ := projectRounds_spec t.policy vs _
    t.precommitsByRound separated₁
    (fun round ref found => ⟨Sum.inl (.precommit, round), found⟩)
  have place_eq : (recounted t vs).place = t.place := by
    funext ⟨kind, round⟩
    cases kind <;> rfl
  let rename : (TableKind × Int) ⊕ (Int ⊕ Int) → ((TableKind × Int) ⊕ Int) ⊕ Int :=
    Sum.elim (fun entry => Sum.inl (Sum.inl entry))
      (Sum.elim (fun round => Sum.inl (Sum.inr round)) Sum.inr)
  have names_eq : (recounted t vs).placeWith (recountedPlace t vs) =
      fun name => beside (beside t.place (projectRounds t.policy vs t.cells
        t.prevotesByRound).2) (projectRounds t.policy vs
          (projectRounds t.policy vs t.cells t.prevotesByRound).1
          t.precommitsByRound).2 (rename name) := by
    funext name
    unfold EngineData.placeWith
    rw [place_eq]
    rcases name with entry | round | round <;> rfl
  have injective : Function.Injective rename := by
    rintro (entry | round | round) (entry' | round' | round') equal <;> simp_all [rename]
  simp only
  rw [names_eq]
  refine ⟨?_, ?_, ?_, ?_⟩
  · exact separated₂.restrict rename injective fun placed => placed
  · intro kind round
    exact (older₂ (Sum.inl (kind, round))).trans (older₁ (kind, round))
  · intro round
    rw [installedVotes_prevote]
    exact (older₂ (Sum.inr round)).trans (newer₁ round)
  · intro round
    rw [installedVotes_precommit]
    refine (newer₂ round).trans ?_
    cases found : t.precommitsByRound.find? round with
    | none => rfl
    | some ref =>
      have read_eq := older₁ (.precommit, round)
      have here : t.place (.precommit, round) = some ref := found
      have beside_eq : beside t.place (projectRounds t.policy vs t.cells
          t.prevotesByRound).2 (Sum.inl (.precommit, round)) = some ref :=
        found
      rw [Cells.contents_of_place here, Cells.contents_of_place beside_eq] at read_eq
      simp only [Option.map_some, Option.some.inj read_eq]

/-- The engine once the source votes are saved as well. -/
def resaved (t : Engine) (vs : ValidatorSet) : Engine :=
  match vs.sourceSet t.chainId t.state.height with
  | none => recounted t vs
  | some source => (recounted t vs).saveSourceVotes source

theorem resaved_spec (separated : t.Separated) (vs : ValidatorSet) :
    let saved := resaved t vs
    let names := saved.placeWith (recountedPlace t vs)
    saved.cells.Separated names ∧ SavesSource t saved ∧
    (∀ round, saved.cells.contents names (Sum.inl (.source, round)) =
      t.core.installedVotes vs .source round) ∧
    (∀ round, saved.cells.contents names (Sum.inr (Sum.inl round)) =
      t.core.installedVotes vs .prevote round) ∧
    ∀ round, saved.cells.contents names (Sum.inr (Sum.inr round)) =
      t.core.installedVotes vs .precommit round := by
  obtain ⟨middle, older, prevotes, precommits⟩ := recounted_spec separated vs
  unfold resaved
  cases source : vs.sourceSet t.chainId t.state.height with
  | none =>
    refine ⟨middle, rfl, ?_, prevotes, precommits⟩
    intro round
    have source' : vs.sourceSet t.core.chainId t.core.state.height = none := source
    rw [Core.installedVotes, source']
    exact older .source round
  | some members =>
    obtain ⟨first, second, third, fourth⟩ := foldl_addSourceVotes
      members (recounted t vs).prevotesByRound.toList middle
      (fun entry present => Table.mem_toList.mp present)
      (recounted t vs).prevotesByRound.nodup_keys
    have saves : SavesSource t (recounted t vs) := rfl
    refine ⟨first, saves.trans second, ?_, ?_, ?_⟩
    · intro round
      have source' : vs.sourceSet t.core.chainId t.core.state.height = some members := source
      rw [Core.installedVotes, source']
      refine (fourth round).trans ?_
      rw [Table.lookup_toList, older]
      have entry_eq : t.core.votes .prevote round =
          (recounted t vs).cells.contents
            ((recounted t vs).placeWith (recountedPlace t vs))
            (Sum.inl (.prevote, round)) := (older .prevote round).symm
      rw [entry_eq]
      unfold Cells.contents
      have place_eq : (recounted t vs).placeWith (recountedPlace t vs)
          (Sum.inl (.prevote, round)) = t.prevotesByRound.find? round := rfl
      rw [place_eq]
      have table_eq : (recounted t vs).prevotesByRound = t.prevotesByRound := rfl
      rw [table_eq]
      cases t.prevotesByRound.find? round <;> rfl
    · intro round
      exact (third _ (by simp)).trans (prevotes round)
    · intro round
      exact (third _ (by simp)).trans (precommits round)

/-- A projection counts all tables again and keeps backed records only. -/
theorem projected_projectedState
    (ext : Externals) (separated : t.Separated) (vs : ValidatorSet) :
    Projected t vs (projectedState ext t vs) := by
  obtain ⟨saved, saves, sources, prevotes, precommits⟩ := resaved_spec separated vs
  obtain ⟨-, -, middlePrevotes, -⟩ := recounted_spec separated vs
  let first := projectRounds t.policy vs t.cells t.prevotesByRound
  let second := projectRounds t.policy vs first.1 t.precommitsByRound
  have engine_eq : (projectedState ext t vs).1 = resaved t vs := by
    unfold projectedState resaved
    cases vs.sourceSet t.chainId t.state.height <;> rfl
  have cells_eq : (installedData (projectedState ext t vs)).cells = (resaved t vs).cells := by
    rw [← engine_eq]
    rfl
  let rename : TableKind × Int → (TableKind × Int) ⊕ (Int ⊕ Int)
    | (.prevote, round) => Sum.inr (Sum.inl round)
    | (.precommit, round) => Sum.inr (Sum.inr round)
    | (.source, round) => Sum.inl (.source, round)
  have place_eq : (installedData (projectedState ext t vs)).place =
      fun name => (resaved t vs).placeWith (recountedPlace t vs) (rename name) := by
    funext ⟨kind, round⟩
    cases kind with
    | prevote => rfl
    | precommit => rfl
    | source =>
      rw [← engine_eq]
      rfl
  have injective : Function.Injective rename := by
    rintro ⟨kind, round⟩ ⟨kind', round'⟩ equal
    cases kind <;> cases kind' <;> simp_all [rename]
  have votes_eq : (installedData (projectedState ext t vs)).votesAt = t.core.installedVotes vs := by
    funext kind round
    rw [EngineData.votesAt_eq_contents, place_eq, cells_eq]
    cases kind with
    | prevote => exact prevotes round
    | precommit => exact precommits round
    | source => exact sources round
  refine ⟨?_, ?_, votes_eq, ?_, ?_⟩
  · rw [engine_eq]
    exact saves
  · unfold EngineData.Separated
    rw [place_eq, cells_eq]
    exact saved.restrict rename injective fun placed => placed
  · intro round pid recorded
    have ofPrevotes : ((recounted t vs).projectedPolc vs first.2).find? round =
        some pid → isNil pid = false ∧ ∃ votes,
          t.core.installedVotes vs .prevote round = some votes ∧
          votes.ShowsQuorum t.policy t.state.height vs pid := by
      intro found
      obtain ⟨ref, stored, chosen⟩ := find?_projectedPolc found
      obtain ⟨proper, shows⟩ := VoteSet.showsQuorum_of_quorumPid chosen
      refine ⟨proper, _, ?_, shows⟩
      rw [← middlePrevotes round]
      have stored' : (recounted t vs).placeWith (recountedPlace t vs)
        (Sum.inr (Sum.inl round)) = some ref := stored
      exact Cells.contents_of_place stored'
    have polc_eq : (projectedState ext t vs).2.polc =
        match vs.sourceSet t.chainId t.state.height with
        | none => (recounted t vs).projectedPolc vs first.2
        | some source =>
          ((resaved t vs).projectedPolc source
            (resaved t vs).sourcePrevotes).toList.foldl
            (fun polc entry => polc.replace entry.1 entry.2)
            ((recounted t vs).projectedPolc vs first.2) := by
      unfold projectedState resaved
      cases vs.sourceSet t.chainId t.state.height <;> rfl
    rw [polc_eq] at recorded
    cases source : vs.sourceSet t.chainId t.state.height with
    | none =>
      rw [source] at recorded
      obtain ⟨proper, found⟩ := ofPrevotes recorded
      exact ⟨proper, Or.inl found⟩
    | some members =>
      rw [source] at recorded
      rcases find?_foldl_replace _ _ recorded with found | present
      · obtain ⟨proper, found⟩ := ofPrevotes found
        exact ⟨proper, Or.inl found⟩
      · obtain ⟨ref, stored, chosen⟩ := find?_projectedPolc (Table.mem_toList.mp present)
        obtain ⟨proper, shows⟩ := VoteSet.showsQuorum_of_quorumPid chosen
        refine ⟨proper, Or.inr ⟨members, (resaved t vs).cells.read ref, rfl, ?_, ?_⟩⟩
        · rw [← sources round]
          have stored' : (resaved t vs).placeWith (recountedPlace t vs)
            (Sum.inl (.source, round)) = some ref := stored
          exact Cells.contents_of_place stored'
        · have policy_eq : (resaved t vs).policy = t.policy := by rw [saves]
          have height_eq : (resaved t vs).state.height = t.state.height := by rw [saves]
          rw [policy_eq, height_eq] at shows
          exact shows
  · intro header valid
    have valid' : (projectedValid ext (resaved t vs)
        (projectedState ext t vs).2.polc).2 = some header := by
      rw [← valid]
      unfold projectedState resaved
      cases vs.sourceSet t.chainId t.state.height <;> rfl
    have found := projectedValid_spec valid'
    rw [saves] at found
    exact found

/-- The data of an engine in which a projection is installed. -/
def installed (t : Engine) (vs : ValidatorSet) (projected : Engine × Projection) : EngineData :=
  { installedData projected with
    vs
    polcByRound := projected.2.polc
    state := { t.state with
      validRound := projected.2.validRound
      validValue := projected.2.validValue } }

abbrev installedCore (t : Engine) (vs : ValidatorSet) (projected : Engine × Projection) : Core :=
  t.core.install vs projected.2.polc.find? projected.2.validRound projected.2.validValue

theorem Projected.mayInstall (spec : Projected t vs projected) :
    t.core.MayInstall vs projected.2.polc.find? projected.2.validRound projected.2.validValue where
  supported := by
    intro round pid recorded
    obtain ⟨proper, found | found⟩ := spec.polc round pid recorded
    · obtain ⟨votes, stored, shows⟩ := found
      exact ⟨proper, .prevote, vs, votes, by simp, stored, rfl, shows⟩
    · obtain ⟨source, votes, counting, stored, shows⟩ := found
      exact ⟨proper, .source, source, votes, by simp, stored, counting, shows⟩
  valid := spec.valid

/-- An engine whose data is the installed projection. -/
theorem Projected.core_eq (spec : Projected t vs projected) {t' : Engine}
    (data : t'.toEngineData = { installed t vs projected with
      prevotes := t'.prevotes, precommits := t'.precommits })
    (log : t'.history.filterMap logEntry = t.history.filterMap logEntry) :
    t'.Separated ∧ t'.core = installedCore t vs projected := by
  obtain ⟨engine, projection⟩ := projected
  have saves := spec.saves
  have separated := spec.separated
  have votes := spec.votes
  constructor
  · have place_eq : t'.place = (installedData (engine, projection)).place := by
      funext ⟨kind, round⟩
      rw [data]
      cases kind <;> rfl
    have cells_eq : t'.cells = (installedData (engine, projection)).cells := by
      rw [data]
      rfl
    unfold EngineData.Separated
    rw [place_eq, cells_eq]
    exact separated
  · unfold core
    rw [data, log]
    have view_eq : ({ installed t vs (engine, projection) with
        prevotes := t'.prevotes, precommits := t'.precommits } :
        EngineData).view = { (installedCore t vs (engine, projection)).toView
          with votes := (installedData (engine, projection)).votesAt } := by
      simp only at saves
      simp only
      rw [saves]
      rfl
    rw [view_eq, votes]
    rfl

/-- The current round keeps its entry. -/
theorem Projected.current (spec : Projected t vs projected) (fit : t.Fit) :
    (∃ ref, projected.2.prevotes.find? t.state.round = some ref) ∧
      ∃ ref, projected.2.precommits.find? t.state.round = some ref := by
  have prevotes : (installedData projected).votesAt .prevote t.state.round =
      _ := congrFun (congrFun spec.votes .prevote) t.state.round
  have precommits :
      (installedData projected).votesAt .precommit t.state.round =
        _ := congrFun (congrFun spec.votes .precommit) t.state.round
  rw [installedVotes_prevote, fit.prevotes] at prevotes
  rw [installedVotes_precommit, fit.precommits] at precommits
  obtain ⟨first, stored, -⟩ := Option.map_eq_some_iff.mp prevotes
  obtain ⟨second, stored', -⟩ := Option.map_eq_some_iff.mp precommits
  exact ⟨⟨first, stored⟩, ⟨second, stored'⟩⟩

/-- The engine in which a projection is installed, with the cells of the
current round. -/
def replaced (t : Engine) (vs : ValidatorSet) (projected : Engine × Projection)
    (prevotes precommits : Ref) : Engine :=
  { projected.1 with
    prevotesByRound := projected.2.prevotes
    precommitsByRound := projected.2.precommits
    prevotes
    precommits
    polcByRound := projected.2.polc
    polcRequests := ∅
    higherRoundEvidence := ∅
    state := { t.state with
      validRound := projected.2.validRound
      validValue := projected.2.validValue }
    vs }

/-- The current round has its cells already, so none is created. -/
theorem replaceValidatorSet_eq (fit : t.Fit)
    (different : ext.validatorSetHash t.vs ≠ ext.validatorSetHash vs) :
    ∃ prevotes precommits,
      (projectedState ext t vs).2.prevotes.find? t.state.round = some prevotes ∧
      (projectedState ext t vs).2.precommits.find? t.state.round = some precommits ∧
      replaceValidatorSet ext t vs =
        replaced t vs (projectedState ext t vs) prevotes precommits := by
  have spec := projected_projectedState ext fit.separated vs
  obtain ⟨⟨first, stored⟩, second, stored'⟩ := spec.current fit
  refine ⟨first, second, stored, stored', ?_⟩
  have state_eq : (projectedState ext t vs).1.state = t.state := by rw [spec.saves]
  unfold replaceValidatorSet replaced
  rw [if_neg different]
  simp only [currentVotes, state_eq, stored, stored']

/-- Replacing the validator set is a move. -/
theorem evolves_replaceValidatorSet (fit : t.Fit) (allowed : inputs.replace t.core.toView vs) :
    Evolves ext inputs t (replaceValidatorSet ext t vs) := by
  by_cases same : ext.validatorSetHash t.vs = ext.validatorSetHash vs
  · unfold replaceValidatorSet
    rw [if_pos same]
    refine Evolves.of_move (fit.of_same ⟨rfl, fun _ => rfl, rfl, rfl, rfl⟩) ?_
    exact Move.rename vs same allowed
  · have spec := projected_projectedState ext fit.separated vs
    obtain ⟨first, second, stored, stored', equal⟩ := replaceValidatorSet_eq fit same
    rw [equal]
    have history_eq : (projectedState ext t vs).1.history = t.history := by rw [spec.saves]
    have log_eq : (replaced t vs (projectedState ext t vs) first
        second).history.filterMap logEntry = t.history.filterMap logEntry := by
      simp only [replaced, history_eq]
    obtain ⟨separated, core_eq⟩ := spec.core_eq rfl log_eq
    refine Evolves.of_move ⟨⟨stored, stored', fit.round_nonneg⟩, separated⟩ ?_
    rw [core_eq]
    exact Move.install vs _ _ _ same allowed spec.mayInstall

/-- The engine in which a projection is installed before a later round opens. -/
def reconfigured (t : Engine) (vs : ValidatorSet) (projected : Engine × Projection) : Engine :=
  { projected.1 with
    vs
    generation := t.generation + 1
    outputs := []
    state := { t.state with
      validRound := projected.2.validRound
      validValue := projected.2.validValue }
    polcByRound := projected.2.polc
    polcRequests := ∅
    prevotesByRound := projected.2.prevotes
    precommitsByRound := projected.2.precommits
    higherRoundEvidence := ∅ }

/-- Finalize what the precommits already chose, or ask for its proposal. -/
def finalizeProjected (ext : Externals) (t : Engine) (found : Option (Int × Bytes)) : Engine :=
  match found with
  | some (commitRound, pid) =>
    match t.findHeader pid with
    | some header => (emitLocalFinalize ext t header pid commitRound).1
    | none => t.emit (.requestProposal commitRound pid)
  | none => t

theorem reconfigureValidatorSet_eq (fit : t.Fit) (advance : t.state.round < round) :
    (reconfigureValidatorSet ext t round vs).1 =
      startRound ext (finalizeProjected ext
        (reconfigured t vs (projectedState ext t vs))
        ((projectedState ext t vs).1.projectedFinalize vs
          (projectedState ext t vs).2.precommits)) round := by
  have spec := projected_projectedState ext fit.separated vs
  have state_eq : (projectedState ext t vs).1.state = t.state := by rw [spec.saves]
  have generation_eq : (projectedState ext t vs).1.generation = t.generation := by
    rw [spec.saves]
  unfold reconfigureValidatorSet reconfigured finalizeProjected
  rw [if_neg (not_le.mpr advance)]
  dsimp only
  rw [state_eq, generation_eq]
  all_goals rfl

/-- A projected finalize is sent only when the precommits back it. -/
theorem finalizeProjected_spec (ext : Externals)
    (separated : t.Separated) {found : Option (Int × Bytes)}
    (quorum : ∀ round pid, found = some (round, pid) →
      ∃ votes, t.core.votes .precommit round = some votes ∧
        votes.ShowsQuorum t.policy t.state.height t.vs pid) :
    (finalizeProjected ext t found).Separated ∧
    ∃ finalized, (∀ f ∈ finalized, t.core.MayFinalize ext f) ∧
      (finalizeProjected ext t found).core = t.core.finalizeOpt finalized := by
  unfold finalizeProjected
  cases found with
  | none => exact ⟨separated, none, by simp, rfl⟩
  | some chosen =>
    obtain ⟨round, pid⟩ := chosen
    simp only
    cases known : t.findHeader pid with
    | none =>
      have quiet : Quiet t (t.emit (.requestProposal round pid)) := quiet_emit t fun _ => rfl
      exact ⟨quiet.data ▸ separated, none, by simp, quiet.core_eq⟩
    | some header =>
      simp only
      refine ⟨(finishes_emitLocalFinalize ext t header pid
        round).samePlaces.separated separated, ?_⟩
      obtain ⟨entry, stored, header_eq⟩ := Option.map_eq_some_iff.mp known
      rcases core_emitLocalFinalize (Or.inl ⟨entry, stored, header_eq⟩) (quorum round pid rfl) with
        core_eq | ⟨f, mayFinalize, core_eq⟩
      · exact ⟨none, by simp, core_eq⟩
      · refine ⟨some f, ?_, core_eq⟩
        rintro other ⟨⟩
        exact mayFinalize

/-- Changing the set with a round change is a move. -/
theorem evolves_reconfigureValidatorSet (fit : t.Fit) (round : Int)
    (allowed : inputs.reconfigure t.core.toView vs) :
    Evolves ext inputs t (reconfigureValidatorSet ext t round vs).1 := by
  by_cases late : round ≤ t.state.round
  · unfold reconfigureValidatorSet
    rw [if_pos late]
    exact Evolves.refl fit
  · have advance := not_le.mp late
    rw [reconfigureValidatorSet_eq fit advance]
    have spec := projected_projectedState ext fit.separated vs
    have history_eq : (projectedState ext t vs).1.history = t.history := by rw [spec.saves]
    have log_eq : (reconfigured t vs
        (projectedState ext t vs)).history.filterMap logEntry = t.history.filterMap logEntry := by
      simp only [reconfigured, history_eq]
    obtain ⟨separated, core_eq⟩ := spec.core_eq rfl log_eq
    obtain ⟨separated', finalized, mayFinalize, final_eq⟩ :=
      finalizeProjected_spec ext separated (by
        intro commitRound pid (projected :
          (projectedState ext t vs).1.projectedFinalize vs
            (projectedState ext t vs).2.precommits = some (commitRound, pid))
        obtain ⟨ref, stored, chosen⟩ := projectedFinalize_spec projected
        refine ⟨(projectedState ext t vs).1.cells.read ref, ?_, ?_⟩
        · have stored' : ((reconfigured t vs (projectedState ext t vs)).table
            .precommit).find? commitRound = some ref := stored
          exact EngineData.votesAt_eq stored'
        · have shows := (VoteSet.showsQuorum_of_quorumPid chosen).2
          have height_eq : (projectedState ext t vs).1.state.height = t.state.height := by
            rw [spec.saves]
          rw [height_eq] at shows
          exact shows)
    obtain ⟨keep, kept, fit', started⟩ := core_startRound ext
      separated' (fit.round_nonneg.trans advance.le)
    refine Evolves.of_move fit' ?_
    rw [started, final_eq, core_eq]
    rw [core_eq] at mayFinalize
    exact Move.reconfigure vs _ _ _ finalized round keep allowed
      spec.mayInstall mayFinalize advance kept

end Engine
end LiteNode
