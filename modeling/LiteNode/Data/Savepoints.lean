import Mathlib.Data.List.Basic

/-!
# Savepoints

A value that may change has a stack of saved values. A checkpoint saves the
value, a rollback goes back to what was saved last and a commit forgets it.
Over properly nested steps nothing that was saved before is lost, so that a
rollback goes back to the value at its checkpoint.
-/

namespace LiteNode

inductive Mark
  | checkpoint | rollback | commit
  deriving DecidableEq

/-- A value and what was saved of it, the last one first. -/
structure Savepoints (β : Type u) where
  current : β
  saved : List β

namespace Savepoints

variable {β : Type u}

/-- What a step does to the saved values; a step without a mark changes the
value only. -/
inductive Step : Option Mark → Savepoints β → Savepoints β → Prop
  | change (before after : β) (saved : List β) : Step none ⟨before, saved⟩ ⟨after, saved⟩
  | checkpoint (value : β) (saved : List β) :
      Step (some .checkpoint) ⟨value, saved⟩ ⟨value, value :: saved⟩
  | rollback (before last : β) (saved : List β) :
      Step (some .rollback) ⟨before, last :: saved⟩ ⟨last, saved⟩
  /-- Without a checkpoint a rollback goes back to the start. -/
  | restart (before after : β) : Step (some .rollback) ⟨before, []⟩ ⟨after, []⟩
  | commit (value : β) (saved : List β) : Step (some .commit) ⟨value, saved⟩ ⟨value, saved.tail⟩

/-- One step for each of some marks. -/
inductive Run : List (Option Mark) → Savepoints β → Savepoints β → Prop
  | nil (s : Savepoints β) : Run [] s s
  | cons {mark : Option Mark} {marks : List (Option Mark)}
      {first second last : Savepoints β} (step : Step mark first second)
      (rest : Run marks second last) : Run (mark :: marks) first last

/-- Marks that are properly nested. -/
inductive Balanced : List (Option Mark) → Prop
  | nil : Balanced []
  | change {rest : List (Option Mark)} (balanced : Balanced rest) : Balanced (none :: rest)
  | nested {body rest : List (Option Mark)} (closing : Mark)
      (closes : closing ≠ .checkpoint) (inner : Balanced body) (outer : Balanced rest) :
      Balanced (some .checkpoint :: (body ++ some closing :: rest))

variable {first last : Savepoints β}

theorem run_append_iff {left right : List (Option Mark)} : Run (left ++ right) first last ↔
      ∃ middle, Run left first middle ∧ Run right middle last := by
  constructor
  · intro run
    induction left generalizing first with
    | nil => exact ⟨first, .nil first, run⟩
    | cons mark marks ih =>
      cases run with
      | cons step rest =>
        obtain ⟨middle, before, after⟩ := ih rest
        exact ⟨middle, .cons step before, after⟩
  · rintro ⟨middle, before, after⟩
    induction before with
    | nil => exact after
    | cons step _ ih => exact .cons step (ih after)

theorem Run.split {left right : List (Option Mark)} (run : Run (left ++ right) first last) :
    ∃ middle, Run left first middle ∧ Run right middle last :=
  run_append_iff.mp run

/-- Properly nested steps leave what was saved before them. -/
theorem Run.saved_eq {marks : List (Option Mark)} (balanced : Balanced marks) (run : Run marks first last) :
    last.saved = first.saved := by
  induction balanced generalizing first last with
  | nil =>
    cases run
    rfl
  | change _ ih =>
    cases run with
    | cons step rest =>
      rw [ih rest]
      cases step
      rfl
  | nested closing closes _ _ innerHypothesis outerHypothesis =>
    cases run with
    | cons opening rest =>
      obtain ⟨middle, body, after⟩ := rest.split
      have kept := innerHypothesis body
      cases opening
      cases after with
      | cons ending rest =>
        rw [outerHypothesis rest]
        cases ending with
        | checkpoint => exact absurd rfl closes
        | rollback before value saved => exact (List.cons.inj kept).2
        | restart before after => cases kept
        | commit value saved =>
          simp only at kept
          rw [kept, List.tail_cons]

/-- A rollback goes back to the value at its checkpoint. -/
theorem Run.restores {body : List (Option Mark)} (balanced : Balanced body)
    (run : Run (some .checkpoint :: (body ++ [some .rollback])) first last) : last = first := by
  cases run with
  | cons opening rest =>
    obtain ⟨middle, inner, after⟩ := rest.split
    have kept := inner.saved_eq balanced
    cases opening
    cases after with
    | cons ending rest =>
      cases rest
      cases ending with
      | rollback before value saved =>
        cases kept
        rfl
      | restart before after => cases kept

theorem Run.commit_current
    (run : Run [some .commit] first last) : last.current = first.current := by
  cases run with
  | cons step rest =>
    cases rest
    cases step
    rfl

end Savepoints
end LiteNode
