import Mathlib.Data.List.Basic

/-!
# Crash points

A computation on a durable state makes its changes one after the other, and a
crash leaves one of the states between them. A triple says what a computation
that succeeds returns and ends in, and what holds wherever it crashes; triples
compose along the computation.
-/

namespace LiteNode

/-- An outcome, and the states that are passed through on the way to it. -/
structure Trace (σ α : Type) where
  outcome : α
  passed : List σ

/-- A computation on a durable state. -/
def Durable (σ α : Type) : Type := σ → Trace σ α

namespace Durable

variable {σ α β : Type}

def outcome (m : Durable σ α) (s : σ) : α := (m s).outcome

/-- The state that a computation ends in. -/
def final (m : Durable σ α) (s : σ) : σ := (m s).passed.getLastD s

/-- The states that a crash can leave. -/
def crashes (m : Durable σ α) (s : σ) : List σ := s :: (m s).passed

instance : Monad (Durable σ) where
  pure value := fun _ => ⟨value, []⟩
  bind m next := fun s =>
    let rest := next (m.outcome s) (m.final s)
    ⟨rest.outcome, (m s).passed ++ rest.passed⟩

def get : Durable σ σ := fun s => ⟨s, []⟩

/-- Pass through some states, and end in the last of them. -/
def pass (states : σ → List σ) : Durable σ Unit := fun s => ⟨(), states s⟩

@[simp] theorem outcome_bind (m : Durable σ α) (next : α → Durable σ β) (s : σ) :
    (m >>= next).outcome s = (next (m.outcome s)).outcome (m.final s) := rfl

@[simp] theorem final_bind (m : Durable σ α) (next : α → Durable σ β) (s : σ) :
    (m >>= next).final s = (next (m.outcome s)).final (m.final s) := by
  change ((m s).passed ++ _).getLastD s = List.getLastD _ (m.final s)
  rw [List.getLastD_eq_getLast?, List.getLastD_eq_getLast?,
    List.getLast?_append, Option.getD_or, final, List.getLastD_eq_getLast?]

theorem final_mem_crashes (m : Durable σ α) (s : σ) : m.final s ∈ m.crashes s := by
  rw [final, crashes]
  cases ends : (m s).passed.getLast? with
  | none => simp [List.getLastD_eq_getLast?, ends]
  | some last => simp [List.getLastD_eq_getLast?, ends, List.mem_of_getLast? ends]

/-- A crash comes before the end of the first computation or after it. -/
theorem crashes_bind (m : Durable σ α) (next : α → Durable σ β)
    {s left : σ} (crashed : left ∈ (m >>= next).crashes s) :
    left ∈ m.crashes s ∨ left ∈ (next (m.outcome s)).crashes (m.final s) := by
  change left ∈ s :: ((m s).passed ++ _) at crashed
  rw [← List.cons_append, List.mem_append] at crashed
  rcases crashed with first | later
  · exact Or.inl first
  · exact Or.inr (List.mem_cons_of_mem _ later)

end Durable

/-- A computation on a durable state that may fail. -/
abbrev Fallible (ε σ α : Type) : Type := ExceptT ε (Durable σ) α

namespace Fallible

variable {ε σ α β : Type}

def get : Fallible ε σ σ := ExceptT.lift Durable.get

def pass (states : σ → List σ) : Fallible ε σ Unit := ExceptT.lift (Durable.pass states)

def outcome (m : Fallible ε σ α) (s : σ) : Except ε α := Durable.outcome m.run s

def final (m : Fallible ε σ α) (s : σ) : σ := Durable.final m.run s

def crashes (m : Fallible ε σ α) (s : σ) : List σ := Durable.crashes m.run s

variable {next : α → Fallible ε σ β} {s : σ} {value : α} {reason : ε}

theorem outcome_bind {m : Fallible ε σ α} (done : m.outcome s = .ok value) :
    (m >>= next).outcome s = (next value).outcome (m.final s) := by
  have through : (m >>= next).outcome s =
      (ExceptT.bindCont next (m.outcome s)).outcome (m.final s) := rfl
  rw [through, done]
  rfl

theorem final_bind {m : Fallible ε σ α} (done : m.outcome s = .ok value) :
    (m >>= next).final s = (next value).final (m.final s) := by
  have through : (m >>= next).final s = (ExceptT.bindCont next (m.outcome s)).final (m.final s) :=
    Durable.final_bind ..
  rw [through, done]
  rfl

theorem crashes_bind {m : Fallible ε σ α} (done : m.outcome s = .ok value) {left : σ}
    (crashed : left ∈ (m >>= next).crashes s) :
    left ∈ m.crashes s ∨ left ∈ (next value).crashes (m.final s) := by
  have through : left ∈ m.crashes s ∨ left ∈
      (ExceptT.bindCont next (m.outcome s)).crashes (m.final s) :=
    Durable.crashes_bind _ _ crashed
  rw [done] at through
  exact through

theorem get_bind (next : σ → Fallible ε σ β) (s : σ) : (get >>= next) s = next s s := rfl

/-- A computation that returns a value and changes nothing. -/
def Returns (m : Fallible ε σ α) (s : σ) (value : α) : Prop := m s = ⟨.ok value, []⟩

theorem Returns.outcome {m : Fallible ε σ α}
    (returned : m.Returns s value) : m.outcome s = .ok value := by
  rw [Fallible.outcome, Durable.outcome, ExceptT.run, returned]

theorem Returns.final {m : Fallible ε σ α} (returned : m.Returns s value) : m.final s = s := by
  rw [Fallible.final, Durable.final, ExceptT.run, returned]
  rfl

theorem Returns.crashes {m : Fallible ε σ α}
    (returned : m.Returns s value) : m.crashes s = [s] := by
  rw [Fallible.crashes, Durable.crashes, ExceptT.run, returned]

theorem Returns.bind {m : Fallible ε σ α} (returned : m.Returns s value) {last : β}
    (rest : (next value).Returns s last) : (m >>= next).Returns s last := by
  have through : (m >>= next) s =
      ⟨((ExceptT.bindCont next (m s).outcome) (m.final s)).outcome,
        (m s).passed ++ ((ExceptT.bindCont next (m s).outcome) (m.final s)).passed⟩ := rfl
  rw [Returns, through, returned.final, returned]
  exact rest

/-- A computation that is refused before it changes anything. -/
def Refuses (m : Fallible ε σ α) (s : σ) (reason : ε) : Prop := m s = ⟨.error reason, []⟩

theorem Returns.refuses_bind {m : Fallible ε σ α} (returned : m.Returns s value)
    (refused : (next value).Refuses s reason) : (m >>= next).Refuses s reason := by
  have through : (m >>= next) s =
      ⟨((ExceptT.bindCont next (m s).outcome) (m.final s)).outcome,
        (m s).passed ++ ((ExceptT.bindCont next (m s).outcome) (m.final s)).passed⟩ := rfl
  rw [Refuses, through, returned.final, returned]
  exact refused

theorem Refuses.bind {m : Fallible ε σ α}
    (refused : m.Refuses s reason) (next : α → Fallible ε σ β) : (m >>= next).Refuses s reason := by
  have outcome : m.outcome s = .error reason := by
    rw [Fallible.outcome, Durable.outcome, ExceptT.run, refused]
  have through : (m >>= next) s =
      ⟨((ExceptT.bindCont next (m.outcome s)) (m.final s)).outcome,
        (m s).passed ++ ((ExceptT.bindCont next (m.outcome s)) (m.final s)).passed⟩ := rfl
  rw [Refuses, through, outcome, refused]
  rfl

theorem Refuses.outcome {m : Fallible ε σ α}
    (refused : m.Refuses s reason) : m.outcome s = .error reason := by
  rw [Fallible.outcome, Durable.outcome, ExceptT.run, refused]

theorem Refuses.final {m : Fallible ε σ α} (refused : m.Refuses s reason) : m.final s = s := by
  rw [Fallible.final, Durable.final, ExceptT.run, refused]
  rfl

theorem Refuses.crashes {m : Fallible ε σ α}
    (refused : m.Refuses s reason) : m.crashes s = [s] := by
  rw [Fallible.crashes, Durable.crashes, ExceptT.run, refused]

/-- A computation that succeeds from some states, what it returns and ends in,
and what holds wherever it crashes. -/
def Succeeds (P : σ → Prop) (m : Fallible ε σ α) (Q : α → σ → Prop) (C : σ → Prop) : Prop :=
  ∀ s, P s → (∃ value, m.outcome s = .ok value ∧ Q value (m.final s)) ∧ ∀ left ∈ m.crashes s, C left

section Triples

variable {P P' : σ → Prop} {Q Q' : α → σ → Prop} {R : β → σ → Prop}
  {C C' : σ → Prop} {m : Fallible ε σ α}

variable {value : α} {s : σ}

theorem Succeeds.pure (holds : ∀ s, P s → Q value s) (safe : ∀ s, P s → C s) :
    Succeeds P (Pure.pure value : Fallible ε σ α) Q C := by
  intro s start
  refine ⟨⟨value, rfl, holds s start⟩, ?_⟩
  intro left crashed
  rw [List.mem_singleton.mp crashed]
  exact safe s start

theorem Succeeds.bind {next : α → Fallible ε σ β} (first : Succeeds P m Q C)
    (rest : ∀ value, Succeeds (Q value) (next value) R C) : Succeeds P (m >>= next) R C := by
  intro s start
  obtain ⟨⟨value, done, ends⟩, safe⟩ := first s start
  obtain ⟨⟨last, doneToo, holds⟩, safeToo⟩ := rest value (m.final s) ends
  refine ⟨⟨last, ?_, ?_⟩, ?_⟩
  · rw [outcome_bind done, doneToo]
  · rw [final_bind done]
    exact holds
  · intro left crashed
    rcases crashes_bind done crashed with early | late
    · exact safe left early
    · exact safeToo left late

theorem Succeeds.weaken (triple : Succeeds P m Q C)
    (start : ∀ s, P' s → P s) (ends : ∀ value s, Q value s → Q' value s)
    (safe : ∀ s, C s → C' s) : Succeeds P' m Q' C' := by
  intro s holds
  obtain ⟨⟨value, done, final⟩, crashed⟩ := triple s (start s holds)
  exact ⟨⟨value, done, ends value _ final⟩, fun left member => safe left (crashed left member)⟩

/-- It is enough to treat the states one by one. -/
theorem Succeeds.of_states (each : ∀ s, P s → Succeeds (· = s) m Q C) : Succeeds P m Q C :=
  fun s start => each s start s rfl

/-- Only what a computation does from the state in question matters. -/
theorem Succeeds.congr {m' : Fallible ε σ α} (same : m s = m' s)
    (triple : Succeeds (· = s) m' Q C) : Succeeds (· = s) m Q C := by
  rintro _ rfl
  have taken := triple _ rfl
  rw [outcome, final, crashes, Durable.outcome, Durable.final,
    Durable.crashes, ExceptT.run] at taken ⊢
  rw [same]
  exact taken

theorem Returns.succeeds (returned : m.Returns s value) :
    Succeeds (· = s) m (fun result after => result = value ∧ after = s) (· = s) := by
  rintro _ rfl
  refine ⟨⟨value, returned.outcome, rfl, returned.final⟩, ?_⟩
  intro left crashed
  rw [returned.crashes] at crashed
  exact List.mem_singleton.mp crashed

/-- What a computation does first may only look at the state. -/
theorem Returns.succeeds_bind (returned : m.Returns s value) {next : α → Fallible ε σ β}
    (rest : Succeeds (· = s) (next value) R C) : Succeeds (· = s) (m >>= next) R C := by
  have safe : C s := (rest s rfl).2 s List.mem_cons_self
  have first := returned.succeeds.weaken (fun _ same => same)
    (fun _ _ same => same) (fun _ same => same ▸ safe)
  apply Succeeds.bind first
  intro result
  apply Succeeds.of_states
  rintro _ ⟨rfl, rfl⟩
  exact rest

theorem Succeeds.pass {states : σ → List σ} {E : σ → Prop}
    (ends : ∀ s, P s → E ((states s).getLastD s)) (safe : ∀ s, P s → C s)
    (between : ∀ s, P s → ∀ left ∈ states s, C left) :
    Succeeds P (Fallible.pass states : Fallible ε σ Unit) (fun _ => E) C := by
  intro s start
  have passed : (Fallible.pass states : Fallible ε σ Unit).crashes s = s :: states s := by
    change s :: (states s ++ []) = _
    rw [List.append_nil]
  have final : (Fallible.pass states : Fallible ε σ Unit).final s = (states s).getLastD s := by
    change (states s ++ []).getLastD s = _
    rw [List.append_nil]
  refine ⟨⟨(), rfl, ?_⟩, ?_⟩
  · rw [final]
    exact ends s start
  · intro left crashed
    rw [passed] at crashed
    rcases List.mem_cons.mp crashed with rfl | later
    · exact safe left start
    · exact between s start left later

/-- What follows a computation whose failures are handled. -/
def resume (handler : ε → Fallible ε σ α) : Except ε α → Durable σ (Except ε α)
  | .ok value => Pure.pure (.ok value)
  | .error reason => handler reason

/-- A handler that is not needed. -/
theorem Succeeds.unhandled (triple : Succeeds P m Q C)
    (handler : ε → Fallible ε σ α) : Succeeds P (m.tryCatch handler) Q C := by
  intro s start
  obtain ⟨⟨value, done, ends⟩, safe⟩ := triple s start
  have kept : resume handler (m.outcome s) = Pure.pure (m.outcome s) := by
    rw [done]
    rfl
  have outcome : outcome (m.tryCatch handler) s =
      (resume handler (m.outcome s)).outcome (m.final s) := rfl
  have final : final (m.tryCatch handler) s = (resume handler (m.outcome s)).final (m.final s) :=
    Durable.final_bind ..
  refine ⟨⟨value, ?_, ?_⟩, ?_⟩
  · rw [outcome, kept]
    exact done
  · rw [final, kept]
    exact ends
  · intro left crashed
    have through : left ∈ m.crashes s ∨ left ∈ (resume handler (m.outcome s)).crashes (m.final s) :=
      Durable.crashes_bind _ _ crashed
    rw [kept] at through
    rcases through with early | late
    · exact safe left early
    · rw [List.mem_singleton.mp late]
      exact safe _ (Durable.final_mem_crashes m.run s)

/-- A handler takes over where a computation is refused. -/
theorem Refuses.tryCatch {reason : ε} (refused : m.Refuses s reason)
    (handler : ε → Fallible ε σ α) : m.tryCatch handler s = handler reason s := by
  have same : m s = ⟨.error reason, []⟩ := refused
  have through : m.tryCatch handler s =
      ⟨(resume handler (m s).outcome ((m s).passed.getLastD s)).outcome,
        (m s).passed ++ (resume handler (m s).outcome ((m s).passed.getLastD s)).passed⟩ := rfl
  rw [through, same]
  rfl

theorem Refuses.handled {reason : ε} (refused : m.Refuses s reason) {handler : ε → Fallible ε σ α}
    (triple : Succeeds (· = s) (handler reason) Q C) : Succeeds (· = s) (m.tryCatch handler) Q C :=
  Succeeds.congr (refused.tryCatch handler) triple

theorem Returns.unhandled (returned : m.Returns s value) (handler : ε → Fallible ε σ α) :
    Returns (m.tryCatch handler) s value := by
  have same : m s = ⟨.ok value, []⟩ := returned
  have through : m.tryCatch handler s =
      ⟨(resume handler (m s).outcome ((m s).passed.getLastD s)).outcome,
        (m s).passed ++ (resume handler (m s).outcome ((m s).passed.getLastD s)).passed⟩ := rfl
  rw [Returns, through, same]
  rfl

/-- An invariant of a loop, about the items that were treated so far. -/
theorem Succeeds.foldlM {f : α → β → Fallible ε σ α} {items : List β} {I : List β → α → σ → Prop}
    (step : ∀ before item after acc, items = before ++ item :: after →
      Succeeds (I before acc) (f acc item) (I (before ++ [item])) C)
    (safe : ∀ before after acc s, items = before ++ after → I before acc s → C s) (start : α) :
    Succeeds (I [] start) (items.foldlM f start) (I items) C := by
  suffices loop : ∀ after before acc, items = before ++ after →
      Succeeds (I before acc) (after.foldlM f acc) (I items) C from
    loop items [] start rfl
  intro after
  induction after with
  | nil =>
    intro before acc split
    rw [List.append_nil] at split
    subst split
    exact Succeeds.pure (fun _ holds => holds)
      fun s holds => safe items [] acc s (List.append_nil _).symm holds
  | cons item after ih =>
    intro before acc split
    apply Succeeds.bind (step before item after acc split)
    intro value
    apply ih (before ++ [item]) value
    rw [split, List.append_assoc]
    rfl

end Triples
end Fallible
end LiteNode
