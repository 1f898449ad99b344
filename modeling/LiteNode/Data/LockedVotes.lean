import Mathlib.Order.Basic
import Mathlib.Data.Finset.Defs

/-!
# Voting under locks

Nodes vote in the two phases of numbered rounds, and a quorum of second votes in
one round decides a value. Honest nodes give second votes only to values that
have a quorum of first votes in the round, and later first votes to other values
only when these had a quorum of first votes in that round or after it. If any
two quorums share an honest node, then at most one value is decided, whatever
the order of the votes.
-/

namespace LiteNode

/-- Phases of a round. -/
inductive Phase
  | first
  | second

/-- Groups of nodes that may decide, any two of which share an honest node. -/
structure QuorumSystem (α : Type*) where
  honest : Finset α
  Quorum : Finset α → Prop
  meet : ∀ A B, Quorum A → Quorum B → ∃ a ∈ honest, a ∈ A ∧ a ∈ B

/-- Votes of each node for a value in a phase of a round. -/
abbrev Ballots (α ι β : Type*) := α → Phase → ι → β → Prop

namespace Ballots

variable {α ι β : Type*} [LinearOrder ι] (system : QuorumSystem α)
variable {s s' : Ballots α ι β} {phase : Phase} {round later : ι} {p q : β} {a : α}

/-- The honest nodes of a quorum all gave the vote. -/
def Backed (s : Ballots α ι β) (phase : Phase) (round : ι) (p : β) : Prop :=
  ∃ A, system.Quorum A ∧ ∀ a ∈ A, a ∈ system.honest → s a phase round p

/-- Some honest node of every quorum voted in a later round, and gave the value
no second vote. -/
def Dead (s : Ballots α ι β) (round : ι) (p : β) : Prop :=
  ∀ A, system.Quorum A → ∃ a ∈ system.honest, a ∈ A ∧ ¬ s a .second round p ∧
    ∃ phase later q, s a phase later q ∧ round < later

/-- A node that now gave these votes follows the rules. -/
structure Step (a : α) (s : Ballots α ι β) (votes : Phase → ι → β → Prop) : Prop where
  kept : s a ≤ votes
  once : ∀ phase round p q, votes phase round p → votes phase round q → p = q
  onward : ∀ phase round p, votes phase round p →
    s a phase round p ∨ ∀ phase' earlier q, s a phase' earlier q → earlier ≤ round
  second : ∀ round p, votes .second round p → s a .second round p ∨ s.Backed system .first round p
  first : ∀ round p locked q, votes .first round p → votes .second locked q → locked < round →
    s a .first round p ∨ ∃ proof, locked ≤ proof ∧ s.Backed system .first proof p

/-- What the rules keep of a node's votes: a value that it votes against after a
second vote is not decided in the round of that vote. -/
structure Lawful (s : Ballots α ι β) (votes : Phase → ι → β → Prop) : Prop where
  once : ∀ phase round p q, votes phase round p → votes phase round q → p = q
  second : ∀ round p, votes .second round p → s.Backed system .first round p
  passed : ∀ round p locked q, votes .first round p → votes .second locked q → locked < round →
    p ≠ q → s.Dead system locked q

/-- The votes of all honest nodes are lawful. -/
def Safe (s : Ballots α ι β) : Prop := ∀ a ∈ system.honest, s.Lawful system (s a)

variable {system}

omit [LinearOrder ι] in
theorem Backed.mono (kept : s ≤ s') (backed : s.Backed system phase round p) :
    s'.Backed system phase round p := by
  obtain ⟨A, quorum, votes⟩ := backed
  exact ⟨A, quorum, fun a member honest => kept a phase round p (votes a member honest)⟩

theorem not_backed_of_dead (dead : s.Dead system round p) : ¬ s.Backed system .second round p := by
  rintro ⟨A, quorum, votes⟩
  obtain ⟨a, honest, member, unvoted, -⟩ := dead A quorum
  exact unvoted (votes a member honest)

namespace Safe

variable (safe : s.Safe system)

include safe

/-- In one phase of a round one value is backed at most. -/
theorem eq_of_backed (backed : s.Backed system phase round p)
    (backed' : s.Backed system phase round q) : p = q := by
  obtain ⟨A, quorum, votes⟩ := backed
  obtain ⟨B, quorum', votes'⟩ := backed'
  obtain ⟨a, honest, member, member'⟩ := system.meet A B quorum quorum'
  exact (safe a honest).once phase round p q (votes a member honest) (votes' a member' honest)

/-- A decided value has a quorum of first votes in the round. -/
theorem backed_of_decided (decided : s.Backed system .second round p) :
    s.Backed system .first round p := by
  obtain ⟨A, quorum, votes⟩ := decided
  obtain ⟨a, honest, member, -⟩ := system.meet A A quorum quorum
  exact (safe a honest).second round p (votes a member honest)

/-- First votes of a quorum rule out other decisions in earlier rounds. -/
theorem dead_of_backed (backed : s.Backed system .first later p) (earlier : round < later)
    (different : p ≠ q) : s.Dead system round q := by
  obtain ⟨B, quorum', votes⟩ := backed
  intro A quorum
  obtain ⟨a, honest, member, member'⟩ := system.meet A B quorum quorum'
  have vote := votes a member' honest
  by_cases locked : s a .second round q
  · exact (safe a honest).passed later p round q vote locked earlier different A quorum
  · exact ⟨a, honest, member, locked, .first, later, p, vote, earlier⟩

/-- From the round of a decision on, only its value has first votes of a quorum. -/
theorem eq_of_decided_of_backed (decided : s.Backed system .second round p)
    (backed : s.Backed system .first later q) (notBefore : round ≤ later) : p = q := by
  rcases notBefore.eq_or_lt with rfl | before
  · exact safe.eq_of_backed (safe.backed_of_decided decided) backed
  · by_contra different
    exact not_backed_of_dead (safe.dead_of_backed backed before (Ne.symm different)) decided

/-- At most one value is decided. -/
theorem eq_of_decided (decided : s.Backed system .second round p)
    (decided' : s.Backed system .second later q) : p = q := by
  rcases le_total round later with before | after
  · exact safe.eq_of_decided_of_backed decided (safe.backed_of_decided decided') before
  · exact (safe.eq_of_decided_of_backed decided' (safe.backed_of_decided decided) after).symm

end Safe

namespace Step

variable [DecidableEq α] {votes : Phase → ι → β → Prop} (step : Step system a s votes)

include step

theorem le : s ≤ Function.update s a votes := le_update_iff.mpr ⟨step.kept, fun _ _ => le_rfl⟩

/-- What is ruled out stays so: no votes are given in past rounds. -/
theorem dead (dead : s.Dead system round p) : Dead system (Function.update s a votes) round p := by
  intro A quorum
  obtain ⟨b, honest, member, unvoted, phase, later, q, vote, after⟩ := dead A quorum
  refine ⟨b, honest, member, fun voted => ?_, phase, later, q, step.le _ _ _ _ vote, after⟩
  by_cases same : b = a
  · subst same
    rw [Function.update_self] at voted
    rcases step.onward .second round p voted with before | onward
    · exact unvoted before
    · exact absurd after (not_lt.mpr (onward phase later q vote))
  · exact unvoted (Function.update_of_ne same votes s ▸ voted)

/-- Votes by the rules keep decisions unique. -/
theorem safe (safe : s.Safe system) : Safe system (Function.update s a votes) := by
  intro b honest
  have lawful : s.Lawful system (Function.update s a votes b) := by
    by_cases same : b = a
    swap
    · exact (Function.update_of_ne same votes s).symm ▸ safe b honest
    subst same
    rw [Function.update_self]
    have backed : ∀ round p, votes .second round p → s.Backed system .first round p :=
      fun round p vote => (step.second round p vote).elim ((safe b honest).second round p) id
    refine ⟨step.once, backed, fun round p locked q vote lock earlier different => ?_⟩
    rcases step.first round p locked q vote lock earlier with old | ⟨proof, notBefore, proven⟩
    · rcases step.onward .second locked q lock with before | onward
      · exact (safe b honest).passed round p locked q old before earlier different
      · exact absurd earlier (not_lt.mpr (onward .first round p old))
    · rcases notBefore.eq_or_lt with rfl | after
      · exact absurd (safe.eq_of_backed proven (backed _ q lock)) different
      · exact safe.dead_of_backed proven after different
  exact ⟨lawful.once, fun r p vote => (lawful.second r p vote).mono step.le,
    fun r p l q vote lock earlier different =>
      step.dead (lawful.passed r p l q vote lock earlier different)⟩

end Step
end Ballots
end LiteNode
