import LiteNode.Engine.Core

/-!
# Cells and references

Each table entry refers to a cell of its own, and the current vote sets are the
cells stored for the current round. Under these two facts a change of one cell
is a change of one vote set in the view.
-/

namespace LiteNode
namespace EngineData

/-- Entries of the tables, as names for cells. -/
def place (t : EngineData) (name : TableKind × Int) : Option Ref := (t.table name.1).find? name.2

/-- Table entries refer to allocated cells, and no two share one. -/
abbrev Separated (t : EngineData) : Prop := t.cells.Separated t.place

/-- The current vote sets are the ones stored for the current round. -/
structure Aligned (t : EngineData) : Prop where
  prevotes : t.prevotesByRound.find? t.state.round = some t.prevotes
  precommits : t.precommitsByRound.find? t.state.round = some t.precommits
  round_nonneg : 0 ≤ t.state.round

/-- References are in order. -/
structure Fit (t : EngineData) : Prop extends Aligned t where separated : t.Separated

variable {t : EngineData}

theorem votesAt_eq_contents (t : EngineData) (kind : TableKind) (round : Int) :
    t.votesAt kind round = t.cells.contents t.place (kind, round) := rfl

variable {kind : TableKind} {round : Int}

theorem votesAt_eq {ref : Ref} (stored : (t.table kind).find? round = some ref) :
    t.votesAt kind round = some (t.cells.read ref) := by
  simp [votesAt, stored]

/-- The current prevotes are those of the round. -/
theorem Aligned.votesAt_prevotes (aligned : t.Aligned) :
    t.votesAt .prevote t.state.round = some (t.cells.read t.prevotes) := by
  have stored : (t.table .prevote).find? t.state.round = some t.prevotes := aligned.prevotes
  exact votesAt_eq stored

/-- The current precommits are those of the round. -/
theorem Aligned.votesAt_precommits (aligned : t.Aligned) :
    t.votesAt .precommit t.state.round = some (t.cells.read t.precommits) := by
  have stored : (t.table .precommit).find? t.state.round = some t.precommits := aligned.precommits
  exact votesAt_eq stored

theorem place_write (ref : Ref) (votes : VoteSet) :
    ({ t with cells := t.cells.write ref votes } : EngineData).place = t.place := by
  funext ⟨kind, round⟩
  cases kind <;> rfl

theorem votesAt_write (separated : t.Separated) {ref : Ref}
    (stored : (t.table kind).find? round = some ref) (votes : VoteSet)
    (other : TableKind) (r : Int) :
    ({ t with cells := t.cells.write ref votes } : EngineData).votesAt other
        r =
      if other = kind ∧ r = round then some votes else t.votesAt other r := by
  have placed : t.place (kind, round) = some ref := stored
  have written := separated.contents_write placed votes (other, r)
  simp only [Prod.mk.injEq] at written
  rw [votesAt_eq_contents, place_write]
  exact written

/-- Writing a cell keeps references in order. -/
theorem Fit.write (fit : t.Fit) (ref : Ref) (votes : VoteSet) :
    ({ t with cells := t.cells.write ref votes } : EngineData).Fit where
  prevotes := fit.prevotes
  precommits := fit.precommits
  round_nonneg := fit.round_nonneg
  separated := by
    unfold Separated
    rw [place_write]
    exact fit.separated.write ref votes

def setTable (t : EngineData) (kind : TableKind) (table : Table Int Ref) : EngineData :=
  match kind with
  | .prevote => { t with prevotesByRound := table }
  | .source => { t with sourcePrevotes := table }
  | .precommit => { t with precommitsByRound := table }

theorem table_setTable (t : EngineData) (kind other : TableKind) (table : Table Int Ref) :
    (t.setTable kind table).table other = if other = kind then table else t.table other := by
  cases kind <;> cases other <;> rfl

theorem cells_setTable (t : EngineData) (kind : TableKind) (table : Table Int Ref) :
    (t.setTable kind table).cells = t.cells := by
  cases kind <;> rfl

/-- Create the vote set of a round. -/
def allocTable (t : EngineData) (kind : TableKind) (round : Int) : EngineData :=
  ({ t with cells := t.cells.alloc createVoteSet } : EngineData).setTable kind
    ((t.table kind).replace round t.cells.size)

theorem cells_allocTable (t : EngineData) (kind : TableKind) (round : Int) :
    (t.allocTable kind round).cells = t.cells.alloc createVoteSet := by
  unfold allocTable
  rw [cells_setTable]

theorem place_allocTable (t : EngineData) (kind : TableKind) (round : Int) :
    (t.allocTable kind round).place = fun other =>
      if other = (kind, round) then some t.cells.size else t.place other := by
  funext ⟨other, r⟩
  unfold place allocTable
  rw [table_setTable]
  simp only [Prod.mk.injEq]
  by_cases same : other = kind
  · subst same
    simp only [if_true, true_and]
    exact Table.find?_replace_eq_ite _ _ _ _
  · rw [if_neg same, if_neg fun both => same both.1]
    cases other <;> rfl

/-- A new cell is an entry of its own. -/
theorem separated_allocTable (separated : t.Separated) (kind : TableKind) (round : Int) :
    (t.allocTable kind round).Separated := by
  unfold Separated
  rw [place_allocTable, cells_allocTable]
  exact separated.alloc _ _

theorem votesAt_allocTable (separated : t.Separated) (kind other : TableKind) (round r : Int) :
    (t.allocTable kind round).votesAt other r =
      if other = kind ∧ r = round then some createVoteSet
      else t.votesAt other r := by
  have allocated := separated.contents_alloc (kind, round) createVoteSet (other, r)
  simp only [Prod.mk.injEq] at allocated
  rw [votesAt_eq_contents, place_allocTable, cells_allocTable]
  exact allocated

/-- A cell is created only where the table has no entry, so the current vote
sets stay. -/
theorem Fit.allocTable (fit : t.Fit) (absent : (t.table kind).find? round = none) :
    (t.allocTable kind round).Fit := by
  have state_eq : (t.allocTable kind round).state = t.state := by
    cases kind <;> rfl
  have prevotes_eq : (t.allocTable kind round).prevotes = t.prevotes := by
    cases kind <;> rfl
  have precommits_eq : (t.allocTable kind round).precommits = t.precommits := by
    cases kind <;> rfl
  have kept : ∀ other {ref}, t.place other = some ref →
      (t.allocTable kind round).place other = some ref := by
    intro other ref stored
    rw [place_allocTable]
    simp only
    rw [if_neg, stored]
    rintro rfl
    rw [show t.place (kind, round) = none from absent] at stored
    cases stored
  refine ⟨⟨?_, ?_, ?_⟩, separated_allocTable fit.separated kind round⟩
  · rw [state_eq, prevotes_eq]
    exact kept (.prevote, _) fit.prevotes
  · rw [state_eq, precommits_eq]
    exact kept (.precommit, _) fit.precommits
  · rw [state_eq]
    exact fit.round_nonneg

end EngineData

namespace Engine

/-- The engine's current vote set of a type is the one stored for its round. -/
theorem find?_voteSetFor {t : Engine} (aligned : t.Aligned) (voteType : VoteType) :
    (t.table voteType.table).find? t.state.round = some (t.voteSetFor voteType) := by
  cases voteType
  · exact aligned.prevotes
  · exact aligned.precommits

/-- Only data changed that no vote and no lock depends on. -/
structure Quiet (t t' : Engine) : Prop where
  data : t'.toEngineData = t.toEngineData
  log : t'.history.filterMap logEntry = t.history.filterMap logEntry

theorem Quiet.refl (t : Engine) : Quiet t t := ⟨rfl, rfl⟩

theorem Quiet.trans {t t' t'' : Engine}
    (first : Quiet t t') (second : Quiet t' t'') : Quiet t t'' :=
  ⟨second.data.trans first.data, second.log.trans first.log⟩

theorem Quiet.core_eq {t t' : Engine} (quiet : Quiet t t') : t'.core = t.core := by
  unfold core
  rw [quiet.data, quiet.log]

@[simp] theorem toEngineData_emit (t : Engine) (output : Output) :
    (t.emit output).toEngineData = t.toEngineData := by
  unfold emit
  split
  · split
    · split <;> rfl
    · rfl
  · rfl

theorem emit_eq_push {t : Engine} {output : Output} (plain : ∀ step round delay generation,
      output ≠ .scheduleTimeout step round delay generation) :
    t.emit output = t.push output := by
  unfold emit
  split
  · exact absurd rfl (plain _ _ _ _)
  · rfl

/-- Outputs other than votes and finalizes are quiet. -/
theorem quiet_emit {output : Output} (t : Engine)
    (silent : ∀ data, logEntry (data, output) = none) : Quiet t (t.emit output) := by
  refine ⟨toEngineData_emit t output, ?_⟩
  unfold emit
  split
  · split
    · split
      · simp [push, silent]
      · rfl
    · simp [push, silent]
  · simp [push, silent]

theorem quiet_scheduleStepTimeout (ext : Externals) (t : Engine) (step : RoundStep) :
    Quiet t (t.scheduleStepTimeout ext step) :=
  quiet_emit t fun _ => rfl

theorem quiet_setPolcRequests (t : Engine) (requests : Table Int Int) :
    Quiet t { t with polcRequests := requests } := ⟨rfl, rfl⟩

theorem quiet_requestPolc (t : Engine) (round : Int) : Quiet t (t.requestPolc round) := by
  have remember : Quiet t (t.rememberPolcRequest round).1 := by
    unfold rememberPolcRequest
    split
    · exact Quiet.refl t
    · split
      · exact Quiet.refl t
      · exact quiet_setPolcRequests t _
  unfold requestPolc
  simp only
  split
  · split
    · split
      · refine remember.trans ?_
        exact (quiet_setPolcRequests _ _).trans (quiet_emit _ fun _ => rfl)
      · exact remember
    · exact remember
  · exact remember

theorem quiet_retryPolcRequest (t : Engine) (except : Option Int) :
    Quiet t (t.retryPolcRequest except) := by
  unfold retryPolcRequest
  split
  · exact Quiet.refl t
  · exact (quiet_emit t fun _ => rfl).trans (quiet_setPolcRequests _ _)

theorem quiet_recordHigherRound
    (t : Engine) (maxAhead : Option Int) (round : Int) (validator : Bytes) :
    Quiet t (t.recordHigherRound maxAhead round validator) := by
  unfold recordHigherRound
  split
  · split
    · split
      · exact Quiet.refl t
      · exact ⟨rfl, rfl⟩
    · exact ⟨rfl, rfl⟩
  · exact Quiet.refl t

theorem quiet_rememberPendingPrevote (t : Engine) (proposalId : Bytes) :
    Quiet t (t.rememberPendingPrevote proposalId) := by
  unfold rememberPendingPrevote
  split
  · exact Quiet.refl t
  · split <;> exact ⟨rfl, rfl⟩

theorem quiet_requestMissing (t : Engine) (vote : Vote) (result : VoteAddResult) :
    Quiet t (t.requestMissing vote result) := by
  unfold requestMissing
  split
  · exact quiet_emit t fun _ => rfl
  · exact Quiet.refl t

theorem quiet_setReliefLimit (ext : Externals) (t : Engine) (limit : Option Int) :
    Quiet t (t.setReliefLimit ext limit) := by
  unfold setReliefLimit
  simp only
  split
  · have changed : Quiet t { t with reliefLimit := limit } := ⟨rfl, rfl⟩
    exact changed.trans (quiet_scheduleStepTimeout ext _ _)
  · exact ⟨rfl, rfl⟩

/-- References stay in order, and the change is a sequence of moves. -/
structure Evolves (ext : Externals) (inputs : Inputs) (t t' : Engine) : Prop where
  fit : t'.Fit
  moves : Moves ext inputs t.core t'.core

variable {ext : Externals} {inputs : Inputs} {t t' t'' : Engine}

theorem Evolves.refl (fit : t.Fit) : Evolves ext inputs t t := ⟨fit, Relation.ReflTransGen.refl⟩

theorem Evolves.trans (first : Evolves ext inputs t t') (second : Evolves ext inputs t' t'') :
    Evolves ext inputs t t'' :=
  ⟨second.fit, first.moves.trans second.moves⟩

theorem Evolves.of_move (fit : t'.Fit) (move : Move ext inputs t.core t'.core) :
    Evolves ext inputs t t' :=
  ⟨fit, Relation.ReflTransGen.single move⟩

theorem Quiet.fit (quiet : Quiet t t') (fit : t.Fit) : t'.Fit := quiet.data ▸ fit

theorem Quiet.evolves (quiet : Quiet t t') (fit : t.Fit) : Evolves ext inputs t t' := by
  refine ⟨quiet.fit fit, ?_⟩
  rw [quiet.core_eq]

theorem Evolves.quiet (first : Evolves ext inputs t t') (second : Quiet t' t'') :
    Evolves ext inputs t t'' :=
  first.trans (second.evolves first.fit)

end Engine
end LiteNode
