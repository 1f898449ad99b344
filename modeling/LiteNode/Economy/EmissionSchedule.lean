import LiteNode.Data.Release
import Mathlib.Tactic.Ring

/-!
# The emission schedule

The emission reserve is bound at its activation epoch and paid out along a
quadratic curve over a fixed number of epochs. Each epoch's reward is computed
without state from the curve, and is refused when the remaining reserve is not
the one the curve predicts.
-/

namespace LiteNode

/-- How the texts of the stored metadata denote numbers. -/
structure Numerals where
  intOfString : String → Option Int
  stringOfInt : Int → String
  zOfString : String → Option Int
  zToString : Int → String

namespace EmissionSchedule

/-- Emission is off, or follows the curve from an activation epoch. -/
inductive Schedule
  | inactive
  | securityCurve (activationEpoch : Int)
  deriving DecidableEq

/-- The reserve that an epoch starts from, with metadata to write. -/
structure Binding where
  initial : Int
  remaining : Int
  retired : Int
  active : Bool
  activated : Bool
  writes : List (String × String)
  deriving DecidableEq

def durationEpochs : Int := 47304000

def standardKey : String := "emission_standard"

def activationKey : String := "emission_activation_epoch"

def initialKey : String := "emission_initial"

def retiredKey : String := "supply_retired"

def standardName : String := "security_curve"

def growthWeight : Int := 17

def decayWeight : Int := 7

def weightDenominator : Int := 10

variable (numerals : Numerals)

def parseEpoch (label raw : String) : Except String Int :=
  match numerals.intOfString raw with
  | some value => if value < 0 then .error (label ++ " must be nonnegative") else .ok value
  | none => .error ("invalid " ++ label)

def parseNonnegative (label raw : String) : Except String Int :=
  match numerals.zOfString raw with
  | some value => if value < 0 then .error (label ++ " must be nonnegative") else .ok value
  | none => .error ("invalid " ++ label)

/-- A binding read back from stored metadata. -/
def validateStored (activationEpoch epochId remaining headroom : Int)
    (standard activation initial retired : String) : Except String Binding :=
  if standard ≠ standardName then .error "emission standard metadata mismatch"
  else if epochId < activationEpoch then .error "emission activation is ahead of canonical epoch"
  else if headroom < 0 then .error "emission headroom is negative"
  else if headroom < remaining then .error "emission remaining exceeds supply headroom"
  else
    match parseEpoch numerals "stored emission activation epoch" activation with
    | .error error => .error error
    | .ok storedActivation =>
      if storedActivation ≠ activationEpoch then .error "emission activation metadata mismatch"
      else
        match parseNonnegative numerals "emission initial reserve" initial with
        | .error error => .error error
        | .ok initial =>
          if initial < remaining then .error "emission remaining exceeds initial reserve"
          else
            match parseNonnegative numerals "retired supply" retired with
            | .error error => .error error
            | .ok retired =>
              if remaining + retired ≠ headroom then .error "supply envelope metadata mismatch"
              else
                .ok {
                  initial, remaining, retired
                  active := true
                  activated := false
                  writes := [] }

/-- The reserve bound at activation: what remains, or all headroom. -/
def activationReserve (remaining headroom : Int) : Except String Int :=
  if headroom < 0 then .error "emission headroom is negative"
  else if remaining < 0 then .error "emission remaining is negative"
  else if headroom < remaining then .error "emission remaining exceeds supply headroom"
  else if 0 < remaining then .ok remaining
  else .ok headroom

def idleBinding (remaining : Int) : Binding where
  initial := remaining
  remaining
  retired := 0
  active := false
  activated := false
  writes := []

/-- The binding made at the activation epoch, with the metadata it stores. -/
def activatedBinding (activationEpoch headroom initial : Int) : Binding where
  initial
  remaining := initial
  retired := headroom - initial
  active := true
  activated := true
  writes := [
    (standardKey, standardName), (activationKey, numerals.stringOfInt activationEpoch),
    (initialKey, numerals.zToString initial), (retiredKey, numerals.zToString (headroom - initial))]

def bind (schedule : Schedule) (epochId remaining headroom : Int)
    (storedStandard storedActivation storedInitial storedRetired :
      Option String) : Except String Binding :=
  match schedule with
  | .inactive =>
    match storedStandard, storedActivation, storedInitial, storedRetired with
    | none, none, none, none => .ok (idleBinding remaining)
    | _, _, _, _ => .error "active emission standard requires activation configuration"
  | .securityCurve activationEpoch =>
    match storedStandard, storedActivation, storedInitial, storedRetired with
    | some standard, some activation, some initial, some retired =>
      validateStored numerals activationEpoch epochId remaining headroom
        standard activation initial retired
    | none, none, none, none =>
      if epochId < activationEpoch then .ok (idleBinding remaining)
      else if epochId = activationEpoch then
        (activationReserve remaining headroom).map
          (activatedBinding numerals activationEpoch headroom)
      else .error "emission activation metadata missing"
    | _, _, _, _ => .error "incomplete emission activation metadata"

/-- Amount issued after a number of epochs, rounded towards zero. -/
def cumulative (initial elapsed : Int) : Int :=
  let bounded := max 0 (min durationEpochs elapsed)
  let growth := growthWeight * (durationEpochs * bounded)
  let decay := decayWeight * (bounded * bounded)
  let weight := growth - decay
  let denominator := weightDenominator * (durationEpochs * durationEpochs)
  (initial * weight).tdiv denominator

def curveReward (activationEpoch epochId remaining initial : Int) : Except String Int :=
  let elapsed := epochId - activationEpoch
  if elapsed < 0 then .ok 0
  else
    let issued := cumulative initial elapsed
    let expectedRemaining := initial - issued
    if remaining ≠ expectedRemaining then .error "emission schedule state mismatch"
    else if durationEpochs ≤ elapsed then .ok 0
    else
      let nextIssued := cumulative initial (elapsed + 1)
      let reward := nextIssued - issued
      if reward < 0 ∨ remaining < reward then .error "emission schedule reward out of bounds"
      else .ok reward

def reward (schedule : Schedule) (epochId : Int) (binding : Binding) : Except String (Option Int) :=
  match schedule with
  | .inactive => .ok (some 0)
  | .securityCurve activationEpoch =>
    (curveReward activationEpoch epochId binding.remaining binding.initial).map some

/-- Share of the reserve, out of a fixed denominator, issued after an epoch. -/
def weight (epochs : Nat) : Int :=
  let bounded := max 0 (min durationEpochs epochs)
  growthWeight * (durationEpochs * bounded) - decayWeight * (bounded * bounded)

theorem weight_zero : weight 0 = 0 := by decide

theorem weight_of_duration_le {epochs : Nat} (ended : durationEpochs ≤ epochs) :
    weight epochs = weightDenominator * (durationEpochs * durationEpochs) := by
  unfold weight
  rw [min_eq_left ended, max_eq_right (by decide)]
  decide

/-- Before the last epoch, one more epoch adds the slope of the curve. -/
theorem weight_succ {epochs : Nat} (running : (epochs : Int) < durationEpochs) :
    weight (epochs + 1) = weight epochs +
      (growthWeight * durationEpochs - decayWeight * (2 * epochs + 1)) := by
  have here : max 0 (min durationEpochs (epochs : Int)) = epochs := by omega
  have next : max 0 (min durationEpochs ((epochs + 1 : Nat) : Int)) = epochs + 1 := by
    push_cast
    omega
  unfold weight
  rw [here, next]
  ring

theorem weight_mono {earlier later : Nat} (ordered : earlier ≤ later) :
    weight earlier ≤ weight later := by
  refine monotone_nat_of_le_succ (fun epochs => ?_) ordered
  by_cases running : (epochs : Int) < durationEpochs
  · -- the slope is positive as long as `14 * (epochs + 1) ≤ 17 * duration`
    rw [weight_succ running]
    unfold growthWeight decayWeight durationEpochs at *
    omega
  · rw [weight_of_duration_le (not_lt.mp running), weight_of_duration_le (by push_cast; omega)]

theorem cumulative_natCast (initial : Int) (epochs : Nat) :
    cumulative initial epochs = (initial * weight epochs).tdiv
      (weightDenominator * (durationEpochs * durationEpochs)) := rfl

/-- The curve of a nonnegative reserve releases all of it. -/
def curve {initial : Int} (nonneg : 0 ≤ initial) : Release initial where
  issued epochs := cumulative initial epochs
  last := durationEpochs.toNat
  issued_zero := by rw [cumulative_natCast, weight_zero, mul_zero, Int.zero_tdiv]
  monotone := by
    intro earlier later ordered
    rw [cumulative_natCast, cumulative_natCast]
    exact Int.tdiv_le_tdiv (by decide) (mul_le_mul_of_nonneg_left (weight_mono ordered) nonneg)
  issued_last := by
    intro epochs ended
    have ended' : durationEpochs ≤ epochs := by omega
    change cumulative initial epochs = initial
    rw [cumulative_natCast, weight_of_duration_le ended']
    exact Int.mul_tdiv_cancel _ (by decide)

/-- Epochs run in order from the activation: what remains after them, and the
rewards they paid, newest first. -/
def runEpochs
    (activationEpoch : Int) (binding : Binding) :
    Nat → Except String (Int × List Int)
  | 0 => .ok (binding.remaining, [])
  | epochs + 1 => do
    let (remaining, paid) ← runEpochs activationEpoch binding epochs
    let reward ← curveReward activationEpoch (activationEpoch + epochs) remaining binding.initial
    return (remaining - reward, reward :: paid)

variable {initial : Int}

/-- The reward of an epoch is the payment of its step, if what remains is what
the curve leaves. -/
theorem curveReward_eq (nonneg : 0 ≤ initial) (activationEpoch : Int) (epochs : Nat) :
    curveReward activationEpoch (activationEpoch + epochs)
        ((curve nonneg).left epochs) initial =
      .ok ((curve nonneg).payment epochs) := by
  have elapsed : activationEpoch + epochs - activationEpoch = epochs := by ring
  have expected : (curve nonneg).left epochs = initial - cumulative initial epochs := rfl
  have paid : (curve nonneg).payment epochs =
      cumulative initial (epochs + 1) - cumulative initial epochs := rfl
  have paid_nonneg := (curve nonneg).payment_nonneg epochs
  have paid_le := (curve nonneg).payment_le_left epochs
  unfold curveReward
  rw [elapsed]
  dsimp only
  rw [if_neg (by omega), if_neg (by rw [expected]; exact not_not.mpr rfl)]
  by_cases ended : durationEpochs ≤ epochs
  · have last : (curve nonneg).last ≤ epochs := by
      change durationEpochs.toNat ≤ epochs
      omega
    rw [if_pos ended, (curve nonneg).payment_of_last_le last]
  · rw [if_neg ended, ← paid, if_neg (by omega)]

/-- A run leaves what the curve leaves, and has paid what the curve issued. -/
theorem runEpochs_eq {activationEpoch : Int} {binding : Binding}
    (nonneg : 0 ≤ binding.initial) (full : binding.remaining = binding.initial) (epochs : Nat) :
    ∃ paid, runEpochs activationEpoch binding epochs = .ok ((curve nonneg).left epochs, paid) ∧
      paid.sum = (curve nonneg).issued epochs := by
  induction epochs with
  | zero =>
    refine ⟨[], ?_, (curve nonneg).issued_zero.symm⟩
    rw [Release.left_zero, runEpochs, full]
  | succ epochs ih =>
    obtain ⟨paid, ran, total⟩ := ih
    refine ⟨(curve nonneg).payment epochs :: paid, ?_, ?_⟩
    · have reward := curveReward_eq nonneg activationEpoch epochs
      rw [Release.left_succ, runEpochs, ran]
      change (curveReward activationEpoch (activationEpoch + epochs)
        ((curve nonneg).left epochs) binding.initial).bind _ = _
      rw [reward]
      rfl
    · rw [List.sum_cons, total]
      unfold Release.payment
      omega

theorem initial_nonneg_of_activationReserve {remaining headroom : Int}
    (reserved : activationReserve remaining headroom = .ok initial) : 0 ≤ initial := by
  unfold activationReserve at reserved
  split at reserved
  · cases reserved
  · split at reserved
    · cases reserved
    · split at reserved
      · cases reserved
      · split at reserved <;> cases reserved <;> omega

/-- The activation epoch binds a reserve, none of which is paid yet. -/
theorem bind_activation {activationEpoch remaining headroom : Int} {binding : Binding}
    (bound : bind numerals (.securityCurve activationEpoch) activationEpoch
      remaining headroom none none none none = .ok binding) :
    ∃ initial, activationReserve remaining headroom = .ok initial ∧
      binding = activatedBinding numerals activationEpoch headroom initial := by
  simp only [bind, lt_irrefl, if_false, if_true] at bound
  cases reserved : activationReserve remaining headroom with
  | error error =>
    rw [reserved] at bound
    cases bound
  | ok initial =>
    rw [reserved] at bound
    exact ⟨initial, rfl, (Except.ok.inj bound).symm⟩

/-- Every nonnegative reserve within the headroom can be bound. -/
theorem bind_of_nonneg (nonneg : 0 ≤ initial) (activationEpoch : Int) :
    bind numerals (.securityCurve activationEpoch) activationEpoch initial
        initial none none none none =
      .ok (activatedBinding numerals activationEpoch initial initial) := by
  have reserved : activationReserve initial initial = .ok initial := by
    unfold activationReserve
    rw [if_neg (by omega), if_neg (by omega), if_neg (by omega)]
    split <;> rfl
  simp only [bind, lt_irrefl, if_false, if_true]
  rw [reserved]
  rfl

/-- A reserve bound at the activation epoch is paid out exactly, without an
error at any epoch. -/
theorem releases_of_bind {activationEpoch remaining headroom : Int} {binding : Binding}
    (bound : bind numerals (.securityCurve activationEpoch) activationEpoch
      remaining headroom none none none none = .ok binding) (epochs : Nat) :
    ∃ left paid reward,
      runEpochs activationEpoch binding epochs = .ok (left, paid) ∧
      curveReward activationEpoch (activationEpoch + epochs) left binding.initial = .ok reward ∧
      0 ≤ reward ∧ reward ≤ left ∧
      paid.sum = cumulative binding.initial epochs ∧
      (durationEpochs ≤ epochs →
        paid.sum = binding.initial ∧ left = 0 ∧ reward = 0) := by
  obtain ⟨initial, reserved, rfl⟩ := bind_activation numerals bound
  have nonneg := initial_nonneg_of_activationReserve reserved
  let release := curve nonneg
  obtain ⟨paid, ran, total⟩ := @runEpochs_eq activationEpoch
    (activatedBinding numerals activationEpoch headroom initial) nonneg rfl
    epochs
  refine ⟨release.left epochs, paid, release.payment epochs, ran,
    curveReward_eq nonneg activationEpoch epochs,
    release.payment_nonneg epochs, release.payment_le_left epochs, total, ?_⟩
  intro ended
  have last : release.last ≤ epochs := by
    change durationEpochs.toNat ≤ epochs
    omega
  exact ⟨total.trans (release.issued_last epochs last),
    release.left_of_last_le last, release.payment_of_last_le last⟩

def decimalNumerals : Numerals where
  intOfString := String.toInt?
  stringOfInt := toString
  zOfString := String.toInt?
  zToString := toString

/-- The first two epochs of a reserve of one million units. -/
theorem releases_millionUnits :
    ∃ left paid reward,
      runEpochs 5 (activatedBinding decimalNumerals 5 1000000 1000000) 2 = .ok (left, paid) ∧
      curveReward 5 (5 + (2 : Nat)) left 1000000 = .ok reward ∧
      0 ≤ reward ∧ reward ≤ left ∧
      paid.sum = cumulative 1000000 (2 : Nat) ∧
      (durationEpochs ≤ (2 : Nat) →
        paid.sum = 1000000 ∧ left = 0 ∧ reward = 0) :=
  releases_of_bind decimalNumerals (bind_of_nonneg _ (by decide) 5) 2

end EmissionSchedule
end LiteNode
