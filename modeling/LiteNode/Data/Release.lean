import Mathlib.Algebra.Order.Ring.Int

/-!
# Releases of a reserve

A release pays a reserve out in steps along a curve of the amount issued so
far. Paying the differences of the curve telescopes: what is left is always the
reserve less the curve, no payment exceeds it, and the last step empties it.
-/

namespace LiteNode

/-- Amounts issued by each step of the release of a reserve, up to a last
step. -/
structure Release (reserve : Int) where
  issued : Nat → Int
  last : Nat
  issued_zero : issued 0 = 0
  monotone : ∀ {earlier later}, earlier ≤ later → issued earlier ≤ issued later
  issued_last : ∀ step, last ≤ step → issued step = reserve

namespace Release

variable {reserve : Int} (release : Release reserve)

/-- Amount that one step pays. -/
def payment (step : Nat) : Int := release.issued (step + 1) - release.issued step

/-- Amount left before a step. -/
def left (step : Nat) : Int := reserve - release.issued step

theorem payment_nonneg (step : Nat) : 0 ≤ release.payment step := by
  have grows := release.monotone (Nat.le_add_right step 1)
  unfold payment
  omega

theorem issued_le (step : Nat) : release.issued step ≤ reserve := by
  have grows := release.monotone (le_max_left step release.last)
  rwa [release.issued_last _ (le_max_right step release.last)] at grows

theorem payment_le_left (step : Nat) : release.payment step ≤ release.left step := by
  have bound := release.issued_le (step + 1)
  unfold payment left
  omega

@[simp] theorem left_zero : release.left 0 = reserve := by simp [left, release.issued_zero]

theorem left_succ (step : Nat) :
    release.left (step + 1) = release.left step - release.payment step := by
  unfold left payment
  omega

theorem left_of_last_le {step : Nat} (ended : release.last ≤ step) : release.left step = 0 := by
  rw [left, release.issued_last step ended, sub_self]

theorem payment_of_last_le {step : Nat} (ended : release.last ≤ step) :
    release.payment step = 0 := by
  rw [payment, release.issued_last step ended,
    release.issued_last (step + 1) (Nat.le_succ_of_le ended), sub_self]

end Release
end LiteNode
