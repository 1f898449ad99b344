import LiteNode.Data.Results
import Mathlib.Algebra.Order.Ring.Int
import Mathlib.Tactic.Ring

/-!
# The fee market

The price of a unit of work follows the work of the blocks: it rises after a
block above the target, falls after one below it and stays within a band. A
sender reserves the price of the work it may cause, is charged for the work
that was done and gets the rest back.
-/

namespace LiteNode
namespace FeePolicy

/-- A market, which is only built from sound bounds. -/
structure Market where
  target : Int
  capacity : Int
  speed : Int
  floor : Int
  ceiling : Int
  target_pos : 0 < target
  target_le : target ≤ capacity
  speed_pos : 0 < speed
  floor_pos : 0 < floor
  floor_le : floor ≤ ceiling

/-- A reserve holds the price of its work. -/
structure Reserve where
  price : Int
  work : Int
  held : Int
  price_pos : 0 < price
  work_nonneg : 0 ≤ work
  held_eq : held = price * work

structure Payment where
  charged : Int
  refund : Int
  deriving DecidableEq

def market (target capacity speed floor ceiling : Int) : Except String Market :=
  if bad : target ≤ 0 ∨ capacity < target ∨ speed ≤ 0 ∨ floor ≤ 0 ∨ ceiling < floor then
    .error "invalid fee policy"
  else
    .ok {
      target, capacity, speed, floor, ceiling
      target_pos := by omega
      target_le := by omega
      speed_pos := by omega
      floor_pos := by omega
      floor_le := by omega }

/-- How much a price moves after a block. -/
def change (market : Market) (price used : Int) : Int :=
  (price * |used - market.target|).tdiv (market.target * market.speed)

/-- The price before it is held within the band. -/
def moved (market : Market) (price used : Int) : Int :=
  if 0 < used - market.target then price + max 1 (change market price used)
  else price - change market price used

def Market.clamp (market : Market) (price : Int) : Int :=
  min market.ceiling (max market.floor price)

def advance (market : Market) (price used : Int) : Except String Int :=
  if price < market.floor ∨ market.ceiling < price then .error "invalid unit price"
  else if used < 0 ∨ market.capacity < used then .error "invalid work total"
  else .ok (market.clamp (moved market price used))

/-- The price after some blocks. -/
def advanceAll (market : Market) (price : Int) : List Int → Except String Int
  | [] => .ok price
  | used :: rest => do
    let price ← advance market price used
    advanceAll market price rest

def reserve (price work cap : Int) : Except String Reserve :=
  if bad : price ≤ 0 ∨ work < 0 ∨ cap < 0 then .error "invalid fee offer"
  else if cap < price * work then .error "fee cap exceeded"
  else
    .ok {
      price, work
      held := price * work
      price_pos := by omega
      work_nonneg := by omega
      held_eq := rfl }

def settle (reserve : Reserve) (used : Int) : Except String Payment :=
  if used < 0 ∨ reserve.work < used then .error "execution work exceeded"
  else
    let charged := reserve.price * used
    .ok { charged, refund := reserve.held - charged }

section Steps

variable {market : Market}

/-- A price within the band of the market. -/
def Market.Admits (market : Market) (price : Int) : Prop :=
  market.floor ≤ price ∧ price ≤ market.ceiling

/-- The work that a block can hold. -/
def Market.Holds (market : Market) (used : Int) : Prop := 0 ≤ used ∧ used ≤ market.capacity

theorem admits_clamp (price : Int) : market.Admits (market.clamp price) := by
  have ordered := market.floor_le
  unfold Market.Admits Market.clamp
  omega

variable {price price' used : Int}

theorem clamp_of_admits (admitted : market.Admits price) : market.clamp price = price := by
  obtain ⟨least, most⟩ := admitted
  unfold Market.clamp
  omega

theorem clamp_mono (le : price ≤ price') : market.clamp price ≤ market.clamp price' := by
  unfold Market.clamp
  omega

/-- Within the band and the capacity a step never fails. -/
theorem advance_eq_ok (admitted : market.Admits price) (holds : market.Holds used) :
    advance market price used = .ok (market.clamp (moved market price used)) := by
  unfold advance
  rw [if_neg (by have := admitted.1; have := admitted.2; omega),
    if_neg (by have := holds.1; have := holds.2; omega)]

theorem divisor_pos (market : Market) : 0 < market.target * market.speed :=
  mul_pos market.target_pos market.speed_pos

theorem change_eq_ediv (nonneg : 0 ≤ price) (used : Int) : change market price used =
      price * |used - market.target| / (market.target * market.speed) :=
  Int.tdiv_eq_ediv_of_nonneg (mul_nonneg nonneg (abs_nonneg _))

theorem change_nonneg (nonneg : 0 ≤ price) (used : Int) : 0 ≤ change market price used := by
  rw [change_eq_ediv nonneg]
  exact Int.ediv_nonneg (mul_nonneg nonneg (abs_nonneg _)) (divisor_pos market).le

theorem change_mono {used' : Int} (nonneg : 0 ≤ price) (le : price ≤ price')
    (far : |used - market.target| ≤ |used' - market.target|) :
    change market price used ≤ change market price' used' := by
  rw [change_eq_ediv nonneg, change_eq_ediv (nonneg.trans le)]
  exact Int.ediv_le_ediv (divisor_pos market) (mul_le_mul le far (abs_nonneg _) (nonneg.trans le))

/-- Below the target the price falls by at most its own rise: the constructor
keeps the factor of the fall at one or less. -/
theorem change_le_change_add (nonneg : 0 ≤ price) (le : price ≤ price')
    (least : 0 ≤ used) (below : used ≤ market.target) :
    change market price' used ≤ change market price used + (price' - price) := by
  have divisor := divisor_pos market
  rw [change_eq_ediv nonneg, change_eq_ediv (nonneg.trans le),
    ← Int.add_mul_ediv_right _ _ divisor.ne']
  apply Int.ediv_le_ediv divisor
  have distance : |used - market.target| ≤ market.target * market.speed := by
    rw [abs_of_nonpos (by omega)]
    have := le_mul_of_one_le_right market.target_pos.le
      (show 1 ≤ market.speed from market.speed_pos)
    omega
  calc price' * |used - market.target|
      = price * |used - market.target| + (price' - price) * |used - market.target| := by ring
    _ ≤ price * |used - market.target| + (price' - price) * (market.target * market.speed) :=
        Int.add_le_add_left (mul_le_mul_of_nonneg_left distance (sub_nonneg.mpr le)) _

theorem moved_mono_price (nonneg : 0 ≤ price) (le : price ≤ price')
    (least : 0 ≤ used) : moved market price used ≤ moved market price' used := by
  unfold moved
  split
  · have rises : change market price used ≤ change market price' used :=
      change_mono nonneg le le_rfl
    omega
  · next below =>
    have falls := @change_le_change_add market _ _ _ nonneg le least (by omega)
    omega

theorem moved_mono_used {used' : Int} (nonneg : 0 ≤ price) (le : used ≤ used') :
    moved market price used ≤ moved market price used' := by
  unfold moved
  split
  · next above =>
    have far : |used - market.target| ≤ |used' - market.target| := by
      rw [abs_of_pos above, abs_of_pos (by omega)]
      omega
    have rises : change market price used ≤ change market price used' :=
      change_mono nonneg le_rfl far
    rw [if_pos (by omega)]
    omega
  · next below =>
    have falls := @change_nonneg market _ nonneg used
    split
    · omega
    · have far : |used' - market.target| ≤ |used - market.target| := by
        rw [abs_of_nonpos (by omega), abs_of_nonpos (by omega)]
        omega
      have less : change market price used' ≤ change market price used :=
        change_mono nonneg le_rfl far
      omega

theorem moved_target (price : Int) : moved market price market.target = price := by
  simp [moved, change]

theorem lt_moved (above : market.target < used) : price < moved market price used := by
  unfold moved
  rw [if_pos (by omega)]
  omega

theorem moved_le (nonneg : 0 ≤ price) (below : used < market.target) :
    moved market price used ≤ price := by
  have falls := @change_nonneg market _ nonneg used
  unfold moved
  rw [if_neg (by omega)]
  omega

/-- Any number of blocks leaves the price within the band. -/
theorem advanceAll_admits {usages : List Int} (admitted : market.Admits price)
    (holds : ∀ used ∈ usages, market.Holds used) :
    ∃ last, advanceAll market price usages = .ok last ∧ market.Admits last := by
  induction usages generalizing price with
  | nil => exact ⟨price, rfl, admitted⟩
  | cons used rest ih =>
    obtain ⟨held, later⟩ := List.forall_mem_cons.mp holds
    rw [advanceAll, advance_eq_ok admitted held, ok_bind]
    exact ih (admits_clamp _) later

end Steps

/-- How a market moves its price: it stays within the band, follows the price
and the work monotonically, and moves towards the side of the target on which
the block is. -/
structure Steady (market : Market) : Prop where
  stays : ∀ price usages, market.Admits price → (∀ used ∈ usages, market.Holds used) →
    ∃ last, advanceAll market price usages = .ok last ∧ market.Admits last
  monotonePrice : ∀ price price' used next next', price ≤ price' →
    advance market price used = .ok next → advance market price' used = .ok next' → next ≤ next'
  monotoneUsage : ∀ price used used' next next', used ≤ used' →
    advance market price used = .ok next → advance market price used' = .ok next' → next ≤ next'
  unmoved : ∀ price, market.Admits price → advance market price market.target = .ok price
  raises : ∀ price used next, market.target < used →
    price < market.ceiling → advance market price used = .ok next → price < next
  lowers : ∀ price used next, used < market.target →
    advance market price used = .ok next → next ≤ price

/-- What a reserve is settled to. -/
def Settles (reserve : Reserve) (used : Int) : Prop :=
  ∃ payment, settle reserve used = .ok payment ∧ payment.charged + payment.refund = reserve.held ∧
    0 ≤ payment.charged ∧ 0 ≤ payment.refund

theorem of_advance_eq_ok {market : Market} {price used next : Int}
    (stepped : advance market price used = .ok next) :
    market.Admits price ∧ market.Holds used ∧
      next = market.clamp (moved market price used) := by
  unfold advance at stepped
  rw [ite_error_eq_ok_iff, ite_error_eq_ok_iff] at stepped
  obtain ⟨inBand, fits, result⟩ := stepped
  cases result
  unfold Market.Admits Market.Holds
  omega

theorem steady (market : Market) : Steady market where
  stays _ _ admitted holds := advanceAll_admits admitted holds
  monotonePrice price price' used next next' le stepped stepped' := by
    obtain ⟨admitted, holds, rfl⟩ := of_advance_eq_ok stepped
    obtain ⟨-, -, rfl⟩ := of_advance_eq_ok stepped'
    have positive := market.floor_pos.trans_le admitted.1
    exact clamp_mono (moved_mono_price positive.le le holds.1)
  monotoneUsage price used used' next next' le stepped stepped' := by
    obtain ⟨admitted, -, rfl⟩ := of_advance_eq_ok stepped
    obtain ⟨-, -, rfl⟩ := of_advance_eq_ok stepped'
    have positive := market.floor_pos.trans_le admitted.1
    exact clamp_mono (moved_mono_used positive.le le)
  unmoved price admitted := by
    rw [advance_eq_ok admitted ⟨market.target_pos.le, market.target_le⟩,
      moved_target, clamp_of_admits admitted]
  raises price used next above below stepped := by
    obtain ⟨admitted, -, rfl⟩ := of_advance_eq_ok stepped
    have rises := @lt_moved _ price _ above
    have least := admitted.1
    unfold Market.clamp
    omega
  lowers price used next below stepped := by
    obtain ⟨admitted, -, rfl⟩ := of_advance_eq_ok stepped
    have positive := market.floor_pos.trans_le admitted.1
    have falls := moved_le positive.le below
    have least := admitted.1
    unfold Market.clamp
    omega

theorem settles_of_le {reserve : Reserve} {used : Int} (nonneg : 0 ≤ used)
    (within : used ≤ reserve.work) : Settles reserve used := by
  have charged := mul_le_mul_of_nonneg_left within reserve.price_pos.le
  refine ⟨⟨reserve.price * used, reserve.held - reserve.price * used⟩, ?_, ?_, ?_, ?_⟩
  · unfold settle
    rw [if_neg (by omega)]
  · dsimp only
    ring
  · exact mul_nonneg reserve.price_pos.le nonneg
  · dsimp only
    rw [reserve.held_eq]
    exact sub_nonneg.mpr charged

/-- Every market that is built is steady, and every reserve that is accepted
pays for the work it was made for. -/
theorem market_steady_and_settles :
    (∀ target capacity speed floor ceiling built,
      market target capacity speed floor ceiling = .ok built →
      built.target = target ∧ built.capacity = capacity ∧
      built.floor = floor ∧ built.ceiling = ceiling ∧ Steady built) ∧
    ∀ price work cap accepted, reserve price work cap = .ok accepted →
      ∀ used, 0 ≤ used → used ≤ work → Settles accepted used := by
  constructor
  · intro target capacity speed floor ceiling built made
    unfold market at made
    split at made
    · cases made
    · cases made
      exact ⟨rfl, rfl, rfl, rfl, steady _⟩
  · intro price work cap accepted made used nonneg within
    unfold reserve at made
    split at made
    · cases made
    · rw [ite_error_eq_ok_iff] at made
      obtain ⟨-, result⟩ := made
      cases result
      exact settles_of_le nonneg within

theorem market_steady_and_settles_tenUnits :
    (∃ built, market 10 20 8 5 100 = .ok built ∧ Steady built) ∧
    ∃ accepted, reserve 2 5 10 = .ok accepted ∧ Settles accepted 3 :=
  ⟨⟨_, rfl, (market_steady_and_settles.1 10 20 8 5 100 _ rfl).2.2.2.2⟩,
    _, rfl, market_steady_and_settles.2 2 5 10 _ rfl 3 (by decide) (by decide)⟩

/-- Work below zero is refused, although it is at most what was reserved. -/
theorem settle_negative :
    ∃ accepted, reserve 2 5 10 = .ok accepted ∧ (-1 : Int) ≤ 5 ∧
      ¬ Settles accepted (-1) := by
  refine ⟨⟨2, 5, 10, by decide, by decide, rfl⟩, rfl, by decide, ?_⟩
  rintro ⟨payment, settled, -⟩
  simp [settle] at settled

end FeePolicy
end LiteNode
