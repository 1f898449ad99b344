import LiteNode.Data.Results
import Mathlib.Data.Nat.Size
import Mathlib.Data.Nat.Sqrt
import Mathlib.Algebra.Group.Action.Defs
import Mathlib.Algebra.Order.BigOperators.Group.List
import Mathlib.Algebra.Order.Ring.Int
import Mathlib.Tactic.Linarith

/-!
# Root mean square norm

A slice of fixed-point numbers is scaled by the root of the mean of its squares.
Squares are summed in 128 bits and the root is taken by Newton's iteration, from
a guess with half the digits. Quotients are rounded half away from zero.
-/

namespace LiteNode
namespace Tensor

/-- A number of 128 bits, unless it overflows. -/
def u128 (value : Nat) : Option Nat := if value < 2 ^ 128 then some value else none

/-- The loop of the iteration. A sum that overflows has no value, nor has a
quotient by zero. -/
def newton (value current : Nat) : Option Nat :=
  if current = 0 then none
  else
    match u128 (current + value / current) with
    | none => none
    | some sum => if sum / 2 < current then newton value (sum / 2) else some current
termination_by current

def integerSqrt (value : Nat) : Option Nat :=
  if value < 2 then some value
  else u128 (1 <<< ((value.size + 1) / 2)) >>= newton value

def checked (value : Nat) : Except String Nat :=
  if value < 2 ^ 128 then .ok value else .error "rmsnorm overflow"

def checkedI64 (value : Int) : Except String Int64 :=
  if -2 ^ 63 ≤ value ∧ value < 2 ^ 63 then .ok (.ofInt value)
  else .error "fixed point overflow"

def roundedDiv (numerator denominator : Int) : Except String Int :=
  if denominator ≤ 0 then .error "fixed point denominator"
  else
    let quotient := (numerator.natAbs + denominator.toNat / 2) / denominator.toNat
    if quotient < 2 ^ 127 then .ok (if numerator < 0 then -quotient else quotient)
    else .error "fixed point overflow"

def rmsEpsilonQ48 : Nat := (1 <<< 48 + 50000) / 100000

def rmsDivisor (values gamma : List Int64) : Except String Nat :=
  if values = [] ∨ values.length ≠ gamma.length then .error "invalid rmsnorm tensor shape"
  else do
    let squares ← values.foldlM (fun sum value => do
      checked (sum + (← checked (value.toInt.natAbs * value.toInt.natAbs)))) 0
    let radicand ← checked (squares / values.length + rmsEpsilonQ48)
    match integerSqrt radicand with
    -- the source ends here without a result
    | none => .error "overflow"
    | some rms => if rms = 0 ∨ 2 ^ 127 ≤ rms then .error "invalid rmsnorm divisor" else .ok rms

def scaled (rms : Nat) (value gain : Int64) : Except String Int64 :=
  roundedDiv (value.toInt * gain.toInt) rms >>= checkedI64

def rmsnorm (values gamma : List Int64) : Except String (List Int64) := do
  let rms ← rmsDivisor values gamma
  (values.zip gamma).mapM fun pair => scaled rms pair.1 pair.2

/-- The cells of an allocated slice, if there are as many as asked for. -/
def cells (output : List Int64) (count : Nat) : Except String (List Int64) :=
  if output.length ≠ count then .error "tensor output shape differs" else .ok output

/-- Cells that are written one after another. -/
def fill (rms : Nat) : List (Int64 × Int64) → List Int64 → Except String (List Int64)
  | pair :: pairs, _ :: out => do
    let first ← scaled rms pair.1 pair.2
    .ok (first :: (← fill rms pairs out))
  | _, out => .ok out

def rmsnormWith {ε : Type} (ofText : String → ε) (values gamma : List Int64)
    (alloc : Nat → Except ε (List Int64)) : Except ε (List Int64) := do
  let rms ← (rmsDivisor values gamma).mapError ofText
  let output ← alloc values.length
  let out ← (cells output values.length).mapError ofText
  (fill rms (values.zip gamma) out).mapError ofText

/-- Newton's iteration from above the root ends at the root. -/
theorem newton_eq {value current : Nat} (positive : 0 < value) (small : current ≤ 2 ^ 64)
    (above : value.sqrt ≤ current) : newton value current = some value.sqrt := by
  induction current using Nat.strong_induction_on with
  | h current ih =>
    have root := Nat.sqrt_pos.mpr positive
    have square := Nat.sqrt_le value
    have square' := Nat.sqrt_le_add value
    have least : value.sqrt ≤ (current + value / current) / 2 := by
      have quotient : 2 * value.sqrt - current ≤ value / current := by
        apply (Nat.le_div_iff_mul_le (by omega)).mpr
        rcases Nat.le_total (2 * value.sqrt) current with le | le
        · simp [Nat.sub_eq_zero_of_le le]
        · zify [le] at square ⊢
          nlinarith [sq_nonneg ((value.sqrt : Int) - current)]
      omega
    have most : value / current ≤ current + 2 := by
      apply Nat.div_le_of_le_mul
      nlinarith
    rw [newton, if_neg (by omega), u128, if_pos (by omega)]
    dsimp only
    split
    · next lower => exact ih _ lower (by omega) least
    · next stops =>
      have most : current ≤ value / current := by omega
      rw [Nat.le_div_iff_mul_le (by omega)] at most
      exact congrArg some (le_antisymm (Nat.le_sqrt.mpr most) above)

theorem integerSqrt_eq {value : Nat} (fits : value < 2 ^ 128) :
    integerSqrt value = some value.sqrt := by
  unfold integerSqrt
  split
  · next tiny =>
    obtain rfl | rfl : value = 0 ∨ value = 1 := by omega
    · rfl
    · simp
  · next large =>
    have digits : (value.size + 1) / 2 ≤ 64 := by
      have := Nat.size_le.mpr fits
      omega
    have small := Nat.pow_le_pow_right (n := 2) (by omega) digits
    rw [Nat.one_shiftLeft, u128, if_pos (by omega)]
    apply newton_eq (by omega) small
    apply le_of_lt
    rw [Nat.sqrt_lt', ← pow_mul]
    exact value.lt_size_self.trans_le (Nat.pow_le_pow_right (by omega) (by omega))

/-- The quotient of two integers, rounded half away from zero. -/
structure Rounds (numerator : Int) (divisor : Nat) (quotient : Int) : Prop where
  low : (2 * |quotient| - 1) * divisor ≤ 2 * |numerator|
  high : 2 * |numerator| < (2 * |quotient| + 1) * divisor
  sign : 0 ≤ numerator * quotient

/-- The product of a value and its gain is divided and rounded. -/
def RoundsPair (divisor : Nat) (pair : Int64 × Int64) (quotient : Int64) : Prop :=
  Rounds (pair.1.toInt * pair.2.toInt) divisor quotient.toInt

theorem rounds_iff {numerator quotient : Int} {divisor : Nat} (positive : 0 < divisor) :
    Rounds numerator divisor quotient ↔
      (if numerator < 0 then -(((numerator.natAbs + divisor / 2) / divisor : Nat) : Int)
      else ((numerator.natAbs + divisor / 2) / divisor : Nat)) = quotient := by
  have magnitude : (numerator.natAbs + divisor / 2) / divisor = quotient.natAbs ↔
      (2 * |quotient| - 1) * divisor ≤ 2 * |numerator| ∧
        2 * |numerator| < (2 * |quotient| + 1) * divisor := by
    rw [Nat.div_eq_iff positive, Int.abs_eq_natAbs, Int.abs_eq_natAbs, sub_mul, add_mul,
      one_mul, mul_assoc, ← Nat.cast_mul]
    omega
  constructor
  · rintro ⟨low, high, sign⟩
    rw [magnitude.mpr ⟨low, high⟩]
    split
    · next negative =>
      have := nonpos_of_mul_nonneg_right sign negative
      omega
    · next natural =>
      rcases (not_lt.mp natural).eq_or_lt with rfl | above
      · have none := magnitude.mpr ⟨low, high⟩
        rw [Int.natAbs_zero, Nat.zero_add, Nat.div_div_eq_div_mul,
          Nat.div_eq_of_lt (by omega)] at none
        omega
      · have := nonneg_of_mul_nonneg_right sign above
        omega
  · intro same
    obtain ⟨low, high⟩ := magnitude.mp (by
      rw [← same]
      split <;> simp only [Int.natAbs_neg, Int.natAbs_natCast])
    refine ⟨low, high, ?_⟩
    rw [← same]
    split
    · exact mul_nonneg_of_nonpos_of_nonpos (by omega) (by omega)
    · exact mul_nonneg (by omega) (by omega)

variable {rms : Nat} {values gamma out : List Int64}

theorem natAbs_toInt_le (value : Int64) : value.toInt.natAbs ≤ 2 ^ 63 := by
  have least := value.le_toInt
  have most := value.toInt_lt
  omega

theorem scaled_eq_ok {value gain quotient : Int64} (positive : 0 < rms) :
    scaled rms value gain = .ok quotient ↔ RoundsPair rms (value, gain) quotient := by
  have product := Nat.mul_le_mul (natAbs_toInt_le value) (natAbs_toInt_le gain)
  have below : ((value.toInt * gain.toInt).natAbs + rms / 2) / rms < 2 ^ 127 := by
    rw [Nat.div_lt_iff_lt_mul positive, Int.natAbs_mul]
    omega
  rw [RoundsPair, rounds_iff positive, scaled, roundedDiv, if_neg (by omega), Int.toNat_natCast,
    if_pos below, ok_bind, checkedI64]
  generalize (if value.toInt * gain.toInt < 0 then _ else _ : Int) = result
  split
  · next fits =>
    rw [Except.ok.injEq, ← Int64.toInt_inj, Int64.toInt_ofInt_of_le fits.1 fits.2]
  · next unfit =>
    refine iff_of_false (by simp) ?_
    rintro rfl
    exact unfit ⟨quotient.le_toInt, quotient.toInt_lt⟩

def squareSum (values : List Int64) : Nat :=
  (values.map fun value => value.toInt.natAbs * value.toInt.natAbs).sum

def rootOf (values : List Int64) : Nat := (squareSum values / values.length + rmsEpsilonQ48).sqrt

/-- Whether values can be normed, as long as their quotients fit. -/
structure Normable (values gamma : List Int64) : Prop where
  nonempty : values ≠ []
  same : values.length = gamma.length
  fits : squareSum values < 2 ^ 128

theorem rootOf_pos (values : List Int64) : 0 < rootOf values := by
  apply Nat.sqrt_pos.mpr
  exact Nat.add_pos_right _ (by decide)

theorem foldlM_squares (sum : Nat) (fits : sum < 2 ^ 128) :
    values.foldlM (fun sum value => do
      checked (sum + (← checked (value.toInt.natAbs * value.toInt.natAbs)))) sum =
    checked (sum + squareSum values) := by
  induction values generalizing sum with
  | nil => exact (if_pos fits).symm
  | cons value rest ih =>
    have square := Nat.mul_le_mul (natAbs_toInt_le value) (natAbs_toInt_le value)
    simp only [squareSum, List.map_cons, List.sum_cons, ← add_assoc] at ih ⊢
    rw [List.foldlM_cons, checked, if_pos (by omega), ok_bind, checked]
    split
    · next within => exact ih _ within
    · rw [checked, if_neg (by omega)]
      rfl

theorem rmsDivisor_eq_ok : rmsDivisor values gamma = .ok rms ↔
    Normable values gamma ∧ rootOf values = rms := by
  have mean : squareSum values / values.length ≤ 2 ^ 126 := by
    apply Nat.div_le_of_le_mul
    apply (List.sum_le_card_nsmul _ (2 ^ 126) _).trans_eq (by rw [List.length_map, smul_eq_mul])
    intro square listed
    obtain ⟨value, -, rfl⟩ := List.mem_map.mp listed
    exact (Nat.mul_le_mul (natAbs_toInt_le value) (natAbs_toInt_le value)).trans_eq rfl
  have epsilon : rmsEpsilonQ48 = 2814749767 := by decide
  have most : rootOf values < 2 ^ 127 := by
    apply (Nat.sqrt_le_self _).trans_lt
    omega
  have root : integerSqrt (squareSum values / values.length + rmsEpsilonQ48) =
      some (rootOf values) := integerSqrt_eq (by omega)
  unfold rmsDivisor
  by_cases shape : values = [] ∨ values.length ≠ gamma.length
  · rw [if_pos shape]
    refine iff_of_false (by simp) ?_
    exact fun both => shape.elim both.1.nonempty (absurd both.1.same)
  · obtain ⟨nonempty, same⟩ := not_or.mp shape
    rw [if_neg shape, foldlM_squares 0 (by omega), zero_add, checked]
    split
    · next fits =>
      rw [ok_bind, checked, if_pos (by omega), ok_bind, root]
      dsimp only
      rw [if_neg (not_or.mpr ⟨(rootOf_pos values).ne', not_le.mpr most⟩), Except.ok.injEq]
      exact (and_iff_right ⟨nonempty, not_not.mp same, fits⟩).symm
    · next beyond =>
      exact iff_of_false (by simp) fun both => beyond both.1.fits

theorem mapM_scaled {pairs : List (Int64 × Int64)} (positive : 0 < rms) :
    (pairs.mapM fun pair => scaled rms pair.1 pair.2) = .ok out ↔
      List.Forall₂ (RoundsPair rms) pairs out := by
  induction pairs generalizing out with
  | nil =>
    rw [List.forall₂_nil_left_iff]
    constructor
    · rintro ⟨⟩
      rfl
    · rintro rfl
      rfl
  | cons pair pairs ih =>
    rw [List.mapM_cons, List.forall₂_cons_left_iff]
    constructor
    · intro done
      obtain ⟨first, here, done⟩ := bind_eq_ok done
      obtain ⟨rest, later, done⟩ := bind_eq_ok done
      cases done
      exact ⟨first, rest, (scaled_eq_ok positive).mp here, ih.mp later, rfl⟩
    · rintro ⟨first, rest, here, later, rfl⟩
      rw [(scaled_eq_ok positive).mpr here, ih.mpr later]
      rfl

theorem fill_eq {pairs : List (Int64 × Int64)} {cells : List Int64}
    (same : cells.length = pairs.length) :
    fill rms pairs cells = pairs.mapM fun pair => scaled rms pair.1 pair.2 := by
  induction pairs generalizing cells with
  | nil =>
    rw [List.eq_nil_of_length_eq_zero same]
    rfl
  | cons pair rest ih =>
    cases cells with
    | nil => cases same
    | cons cell cells =>
      rw [fill, ih (Nat.succ.inj same), List.mapM_cons]
      rfl

theorem rmsnorm_eq_ok : rmsnorm values gamma = .ok out ↔
    Normable values gamma ∧ List.Forall₂ (RoundsPair (rootOf values)) (values.zip gamma) out := by
  constructor
  · intro done
    obtain ⟨rms, root, done⟩ := bind_eq_ok done
    obtain ⟨normable, rfl⟩ := rmsDivisor_eq_ok.mp root
    exact ⟨normable, (mapM_scaled (rootOf_pos values)).mp done⟩
  · rintro ⟨normable, quotients⟩
    rw [rmsnorm, rmsDivisor_eq_ok.mpr ⟨normable, rfl⟩, ok_bind]
    exact (mapM_scaled (rootOf_pos values)).mpr quotients

theorem exists_forall₂_iff {R : α → β → Prop} {items : List α} :
    (∃ others, List.Forall₂ R items others) ↔ ∀ item ∈ items, ∃ other, R item other := by
  induction items with
  | nil => simp
  | cons item items ih => simp [List.forall₂_cons_left_iff, ← ih]

theorem rmsnormWith_eq {ε : Type} {ofText : String → ε} {cells : List Int64}
    (same : cells.length = values.length) :
    rmsnormWith ofText values gamma (fun _ => .ok cells) =
      (rmsnorm values gamma).mapError ofText := by
  unfold rmsnormWith rmsnorm
  cases divisor : rmsDivisor values gamma with
  | error error => rfl
  | ok rms =>
    obtain ⟨normable, -⟩ := rmsDivisor_eq_ok.mp divisor
    have filled := @fill_eq rms (values.zip gamma) cells
      (by rw [List.length_zip, ← normable.same, min_self, same])
    rw [Except.mapError, ok_bind, ok_bind, ok_bind, ← filled, Tensor.cells,
      if_neg (not_not.mpr same)]
    rfl

/-- The root is the greatest whose square is within the value. A norm succeeds
when the slices have values, as many in each, the squares fit 128 bits and every
rounded quotient fits 64; it is then those quotients. Writing the norm to an
allocated slice gives the same. -/
theorem rmsnorm_exact :
    (∀ value < 2 ^ 128, ∃ root, integerSqrt value = some root ∧
      root * root ≤ value ∧ value < (root + 1) * (root + 1)) ∧
    ∀ values gamma : List Int64,
      (∀ out, rmsnorm values gamma = .ok out ↔ Normable values gamma ∧
        List.Forall₂ (RoundsPair (rootOf values)) (values.zip gamma) out) ∧
      ((∃ out, rmsnorm values gamma = .ok out) ↔ Normable values gamma ∧
        ∀ pair ∈ values.zip gamma, ∃ quotient, RoundsPair (rootOf values) pair quotient) ∧
      ∀ {ε : Type} (ofText : String → ε)
        (alloc : (count : Nat) → {cells : List Int64 // cells.length = count}),
        rmsnormWith ofText values gamma (fun count => .ok (alloc count).val) =
          (rmsnorm values gamma).mapError ofText := by
  refine ⟨?_, fun values gamma => ⟨fun out => rmsnorm_eq_ok, ?_, ?_⟩⟩
  · intro value fits
    exact ⟨_, integerSqrt_eq fits, Nat.sqrt_le value, Nat.lt_succ_sqrt value⟩
  · simp only [rmsnorm_eq_ok, exists_and_left, exists_forall₂_iff]
  · intro ε ofText alloc
    exact rmsnormWith_eq (alloc values.length).property

end Tensor
end LiteNode
