import Mathlib.Logic.Relation

/-!
# Computations made of permitted changes

A computation reads and changes a state and may stop early. It carries the
proof that each of its runs is a chain of permitted changes, so that whatever
every change preserves, the computation preserves.
-/

namespace LiteNode

open Relation (ReflTransGen)

/-- A computation on states, every run of which is a chain of changes. -/
structure Chained {σ : Type u} (R : σ → σ → Prop) (ε : Type u) (α : Type u) where
  run : σ → Except ε α × σ
  chain : ∀ s, ReflTransGen R s (run s).2

namespace Chained

variable {σ : Type u} {R : σ → σ → Prop} {ε α β : Type u}

variable {x : Chained R ε α}

@[ext] theorem ext {y : Chained R ε α} (same : ∀ s, x.run s = y.run s) : x = y := by
  cases x
  cases y
  congr
  funext s
  exact same s

/-- Change nothing. -/
def return' (a : α) : Chained R ε α where
  run s := (.ok a, s)
  chain _ := .refl

/-- Go on where the first computation ended, unless it stopped early. -/
def andThen (x : Chained R ε α) (f : α → Chained R ε β) : Chained R ε β where
  run s :=
    match x.run s with
    | (.ok a, after) => (f a).run after
    | (.error e, after) => (.error e, after)
  chain s := by
    have first := x.chain s
    split
    · next a after ended =>
      rw [ended] at first
      exact first.trans ((f a).chain after)
    · next e after ended =>
      rw [ended] at first
      exact first

instance : Monad (Chained R ε) where
  pure := return'
  bind := andThen

def reading : Chained R ε σ where
  run s := (.ok s, s)
  chain _ := .refl

instance : MonadReaderOf σ (Chained R ε) where
  read := reading

/-- Make a permitted change. -/
def change (f : σ → σ) (permitted : ∀ s, R s (f s)) : Chained R ε PUnit where
  run s := (.ok ⟨⟩, f s)
  chain s := .single (permitted s)

/-- Make a permitted change and say something about it. -/
def changing (f : σ → α × σ) (permitted : ∀ s, R s (f s).2) : Chained R ε α where
  run s := (.ok (f s).1, (f s).2)
  chain s := .single (permitted s)

def stopping (e : ε) : Chained R ε α where
  run s := (.error e, s)
  chain _ := .refl

/-- Go on with another computation where the first one stopped early. -/
def catching (x : Chained R ε α) (f : ε → Chained R ε α) : Chained R ε α where
  run s :=
    match x.run s with
    | (.ok a, after) => (.ok a, after)
    | (.error e, after) => (f e).run after
  chain s := by
    have first := x.chain s
    split
    · next a after ended =>
      rw [ended] at first
      exact first
    · next e after ended =>
      rw [ended] at first
      exact first.trans ((f e).chain after)

instance : MonadExceptOf ε (Chained R ε) where
  throw := stopping
  tryCatch := catching

@[simp] theorem run_pure (a : α) (s : σ) : (pure a : Chained R ε α).run s = (.ok a, s) := rfl

@[simp] theorem run_bind
    (x : Chained R ε α) (f : α → Chained R ε β) (s : σ) :
    (x >>= f).run s =
      match x.run s with
      | (.ok a, after) => (f a).run after
      | (.error e, after) => (.error e, after) := rfl

@[simp] theorem run_read (s : σ) : (read : Chained R ε σ).run s = (.ok s, s) := rfl

@[simp] theorem run_changing
    (f : σ → α × σ) (permitted : ∀ s, R s (f s).2) (s : σ) :
    (changing f permitted : Chained R ε α).run s = (.ok (f s).1, (f s).2) := rfl

@[simp] theorem run_tryCatch
    (x : Chained R ε α) (f : ε → Chained R ε α) (s : σ) :
    (tryCatch x f).run s =
      match x.run s with
      | (.ok a, after) => (.ok a, after)
      | (.error e, after) => (f e).run after := rfl

/-- A run that goes on went through the first computation. -/
theorem run_bind_ok {f : α → Chained R ε β} {s t : σ}
    {b : β} (ended : (x >>= f).run s = (.ok b, t)) :
    ∃ a after, x.run s = (.ok a, after) ∧ (f a).run after = (.ok b, t) := by
  rw [run_bind] at ended
  split at ended
  · next a after first => exact ⟨a, after, first, ended⟩
  · cases ended

/-- A first step that keeps the state. -/
theorem run_bind_same {f : α → Chained R ε β} {s t : σ} {b : β} {post : α → Prop}
    (ended : (x >>= f).run s = (.ok b, t))
    (same : ∀ {a after}, x.run s = (.ok a, after) → post a ∧ s = after) :
    ∃ a, post a ∧ (f a).run s = (.ok b, t) := by
  obtain ⟨a, after, first, rest⟩ := run_bind_ok ended
  obtain ⟨holds, rfl⟩ := same first
  exact ⟨a, holds, rest⟩

/-- A run that stops early does so in one of the two computations. -/
theorem run_bind_error {f : α → Chained R ε β} {s t : σ}
    {e : ε} (ended : (x >>= f).run s = (.error e, t)) :
    x.run s = (.error e, t) ∨
      ∃ a after, x.run s = (.ok a, after) ∧ (f a).run after = (.error e, t) := by
  rw [run_bind] at ended
  split at ended
  · next a after first => exact Or.inr ⟨a, after, first, ended⟩
  · next e' after first =>
    cases ended
    exact Or.inl first

/-- A computation to which every change is permitted. -/
abbrev Free (σ ε α : Type u) := Chained (fun _ _ : σ => True) ε α

/-- Make any change. -/
def modify (f : σ → σ) : Free σ ε PUnit := change f fun _ => trivial

@[simp] theorem run_modify (f : σ → σ) (s : σ) :
    (modify f : Free σ ε PUnit).run s = (.ok ⟨⟩, f s) := rfl

/-- A result that was found without changes. -/
def given : Except ε α → Chained R ε α
  | .ok a => pure a
  | .error e => throw e

@[simp] theorem run_given (result : Except ε α) (s : σ) :
    (given result : Chained R ε α).run s = (result, s) := by
  cases result <;> rfl

/-- A preorder that holds of every change holds of every run. -/
theorem relates (Q : σ → σ → Prop) [Std.Refl Q] [IsTrans σ Q]
    (holds : ∀ s t, R s t → Q s t) (x : Chained R ε α) (s : σ) : Q s (x.run s).2 := by
  have related := x.chain s
  generalize (x.run s).2 = t at related ⊢
  induction related with
  | refl => exact Std.Refl.refl s
  | tail _ step before => exact IsTrans.trans _ _ _ before (holds _ _ step)

/-- An invariant of every change is one of every run. -/
theorem invariant (I : σ → Prop) (kept : ∀ s t, R s t → I s → I t)
    (x : Chained R ε α) {s : σ} (holds : I s) : I (x.run s).2 := by
  have related := x.chain s
  generalize (x.run s).2 = t at related ⊢
  induction related with
  | refl => exact holds
  | tail _ step before => exact kept _ _ step before

end Chained
end LiteNode
