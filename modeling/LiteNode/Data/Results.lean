import Mathlib.Init

/-!
# Results

How computations that may refuse are taken apart.
-/

/-! ## Computations that end well -/

namespace LiteNode

variable {σ ε α β : Type} {permitted : ε → Prop}

/-- How a result ends, whatever it leaves behind. -/
def EndsIn (permitted : ε → Prop) (holds : α → Prop) : Except ε (α × σ) → Prop
  | .ok (value, _) => holds value
  | .error reason => permitted reason

/-- From every state, a computation ends well. -/
def Ends (permitted : ε → Prop) (run : StateT σ (Except ε) α) (holds : α → Prop) : Prop :=
  ∀ s, EndsIn permitted holds (run.run s)

namespace Ends

variable {run : StateT σ (Except ε) α} {holds holds' : α → Prop}

theorem pure {value : α} (here : holds value) :
    Ends permitted (Pure.pure value : StateT σ (Except ε) α) holds :=
  fun _ => here

theorem throw {reason : ε} (allowed : permitted reason) :
    Ends permitted (MonadExcept.throw reason : StateT σ (Except ε) α) holds :=
  fun _ => allowed

theorem bind {next : α → StateT σ (Except ε) β} {goal : β → Prop} (first : Ends permitted run holds)
    (rest : ∀ value, holds value → Ends permitted (next value) goal) :
    Ends permitted (run >>= next) goal := by
  intro s
  have ended := first s
  rw [StateT.run_bind]
  cases result : run.run s with
  | error reason =>
    rw [result] at ended
    exact ended
  | ok outcome =>
    obtain ⟨value, after⟩ := outcome
    rw [result] at ended
    exact rest value ended after

theorem mono (ended : Ends permitted run holds) (weaker : ∀ value, holds value → holds' value) :
    Ends permitted run holds' := by
  intro s
  have here := ended s
  cases result : run.run s with
  | error reason =>
    rw [result] at here
    exact here
  | ok outcome =>
    rw [result] at here
    exact weaker _ here

theorem weaken {permitted' : ε → Prop} (ended : Ends permitted run holds)
    (weaker : ∀ reason, permitted reason → permitted' reason) : Ends permitted' run holds := by
  intro s
  have here := ended s
  cases result : run.run s with
  | error reason =>
    rw [result] at here
    exact weaker reason here
  | ok outcome =>
    rw [result] at here
    exact here

/-- Two properties of the value hold together. -/
theorem and (ended : Ends permitted run holds) (ended' : Ends permitted run holds') :
    Ends permitted run fun value => holds value ∧ holds' value := by
  intro s
  have here := ended s
  have there := ended' s
  cases result : run.run s with
  | error reason =>
    rw [result] at here
    exact here
  | ok outcome =>
    rw [result] at here there
    exact ⟨here, there⟩

/-- A value that is returned has the property. -/
theorem of_ok (ended : Ends permitted run holds) {s t : σ} {value : α}
    (ran : run.run s = .ok (value, t)) : holds value := by
  have here := ended s
  rw [ran] at here
  exact here

/-- An error that is raised is permitted. -/
theorem of_error (ended : Ends permitted run holds) {s : σ} {reason : ε}
    (ran : run.run s = .error reason) : permitted reason := by
  have here := ended s
  rw [ran] at here
  exact here

end Ends

/-- Whatever a computation returns has a property. -/
abbrev Returns (run : StateT σ (Except ε) α) (holds : α → Prop) : Prop :=
  Ends (fun _ => True) run holds

theorem Ends.returns {run : StateT σ (Except ε) α} {holds : α → Prop}
    (ended : Ends permitted run holds) : Returns run holds :=
  ended.weaken fun _ _ => trivial

theorem returns_any (run : StateT σ (Except ε) α) : Returns run fun _ => True := by
  intro s
  cases run.run s with
  | error reason => exact trivial
  | ok outcome => exact trivial

variable {ε α β : Type}

@[simp] theorem ok_bind (value : α) (next : α → Except ε β) :
    ((Except.ok value : Except ε α) >>= next) = next value :=
  rfl

@[simp] theorem error_bind (reason : ε) (next : α → Except ε β) :
    ((Except.error reason : Except ε α) >>= next) = .error reason :=
  rfl

/-- A chain that succeeds is made of steps that succeed. -/
theorem bind_eq_ok {result : Except ε α} {next : α → Except ε β} {value : β}
    (done : (result >>= next) = .ok value) :
    ∃ first, result = .ok first ∧ next first = .ok value := by
  cases result with
  | error reason => cases done
  | ok first => exact ⟨first, rfl, done⟩

theorem map_eq_ok {result : Except ε α} {f : α → β} {value : β} (done : result.map f = .ok value) :
    ∃ first, result = .ok first ∧ f first = value := by
  cases result with
  | error reason => cases done
  | ok first =>
    cases done
    exact ⟨first, rfl, rfl⟩

/-- A check that fails settles the result. -/
theorem ite_error_eq_ok_iff {failed : Prop} [Decidable failed] {reason : ε} {rest : Except ε α}
    {value : α} :
    (if failed then .error reason else rest) = .ok value ↔ ¬ failed ∧ rest = .ok value := by
  by_cases fails : failed <;> simp [fails]

end LiteNode
