import Mathlib.Tactic.Positivity

/-!
# Token buckets

A bucket earns credit at a rate up to its capacity. It is filled lazily: the
level at a time follows from the credit it had when it was last touched.
-/

namespace LiteNode

/-- The credit at a time, of a bucket last touched at another. -/
def level (capacity rate credit since now : Int) : Int :=
  min capacity (credit + rate * max 0 (now - since))

section Level

variable {capacity rate credit since now : Int}

theorem level_le_capacity : level capacity rate credit since now ≤ capacity := min_le_left ..

theorem level_nonneg (bound : 0 ≤ capacity) (gain : 0 ≤ rate)
    (some : 0 ≤ credit) : 0 ≤ level capacity rate credit since now := by
  apply le_min bound
  have earned : 0 ≤ rate * max 0 (now - since) := mul_nonneg gain (le_max_left ..)
  omega

/-- A bucket that was just touched has the credit it was left with. -/
theorem level_of_le (within : credit ≤ capacity) (fresh : now ≤ since) :
    level capacity rate credit since now = credit := by
  simp only [level]
  rw [max_eq_left (by omega), mul_zero, add_zero, min_eq_right within]

/-- More time earns no more than the rate. -/
theorem level_later (gain : 0 ≤ rate) {later : Int} (order : now ≤ later) :
    level capacity rate credit since later ≤
      level capacity rate credit since now + rate * (later - now) := by
  have longer : max 0 (later - since) ≤ max 0 (now - since) + (later - now) := by omega
  have earned := mul_le_mul_of_nonneg_left longer gain
  rw [mul_add] at earned
  have extra : 0 ≤ rate * (later - now) := mul_nonneg gain (by omega)
  simp only [level]
  omega

/-- A larger capacity and a faster rate leave no less. -/
theorem level_mono {capacity' rate' : Int} (room : capacity ≤ capacity') (faster : rate ≤ rate') :
    level capacity rate credit since now ≤ level capacity' rate' credit since now := by
  have earned : rate * max 0 (now - since) ≤ rate' * max 0 (now - since) :=
    mul_le_mul_of_nonneg_right faster (le_max_left ..)
  simp only [level]
  omega

theorem level_refund {refund cap : Int} (gift : 0 ≤ refund) :
    level capacity rate (min cap (credit + refund)) since now ≤
      level capacity rate credit since now + refund := by
  simp only [level]
  omega

/-- A bucket that was idle long enough is full. -/
theorem level_of_idle (some : 0 ≤ credit) (gain : 0 ≤ rate) {idle : Int}
    (enough : capacity ≤ rate * idle) (long : idle ≤ now - since) :
    level capacity rate credit since now = capacity := by
  have waited : idle ≤ max 0 (now - since) := le_trans long (le_max_right ..)
  have earned := mul_le_mul_of_nonneg_left waited gain
  simp only [level]
  omega

/-- Filling no further than the capacity allows changes no level. -/
theorem level_of_capped (bound : 0 ≤ capacity) (gain : 1 ≤ rate)
    (some : 0 ≤ credit) {elapsed : Int} (order : 0 ≤ elapsed) :
    min capacity (credit + min capacity elapsed * rate) =
      min capacity (credit + rate * elapsed) := by
  rcases le_total elapsed capacity with short | long
  · rw [min_eq_right short, mul_comm]
  · have least : capacity * 1 ≤ capacity * rate := mul_le_mul_of_nonneg_left gain bound
    have more : rate * capacity ≤ rate * elapsed := mul_le_mul_of_nonneg_left long (by omega)
    rw [mul_comm rate capacity] at more
    rw [min_eq_left long]
    omega

end Level
end LiteNode
