import LiteNode.Vm.Effort
import Mathlib.Algebra.Order.Monoid.Prod

/-!
# Charging a byte budget

What some requests cost together does not depend on their order, and charging
them at once is charging them one after the other. The limits that a plan tests
after each request are those of the whole, since no request costs less than
nothing.
-/

namespace LiteNode
namespace Vm
namespace ByteWork

/-- Effort, bytes written and bytes allocated. -/
abbrev Weight := Int × Int × Int

variable {limits : Limits}

def price (limits : Limits) (request : Request) : Option Weight :=
  (amount limits request).map fun (bytes, added, created) =>
    (cdiv bytes limits.unitBytes, added, created)

/-- What some requests cost together. -/
def weigh (limits : Limits) : List Request → Option Weight
  | [] => some 0
  | request :: rest =>
    (price limits request).bind fun first => (weigh limits rest).map (first + ·)

variable {weight : Weight}

theorem price_nonneg {request : Request}
    (priced : price limits request = some weight) : 0 ≤ weight := by
  obtain ⟨⟨bytes, added, created⟩, charged, rfl⟩ := Option.map_eq_some_iff.mp priced
  have nonneg : 0 ≤ bytes ∧ 0 ≤ added ∧ 0 ≤ created := by
    cases request <;>
    · simp only [amount] at charged
      split at charged
      · cases charged
      · cases charged
        omega
  exact ⟨cdiv_nonneg nonneg.1 limits.unit_pos, nonneg.2⟩

theorem weigh_nonneg {requests : List Request}
    (weighed : weigh limits requests = some weight) : 0 ≤ weight := by
  induction requests generalizing weight with
  | nil =>
    cases weighed
    exact le_rfl
  | cons request rest ih =>
    obtain ⟨first, priced, weighed⟩ := Option.bind_eq_some_iff.mp weighed
    obtain ⟨others, later, rfl⟩ := Option.map_eq_some_iff.mp weighed
    exact add_nonneg (price_nonneg priced) (ih later)

/-- The order of the requests does not matter. -/
theorem weigh_eq_of_perm {requests requests' : List Request} (perm : requests.Perm requests') :
    weigh limits requests = weigh limits requests' := by
  induction perm with
  | nil => rfl
  | cons request _ ih => rw [weigh, weigh, ih]
  | swap first second rest =>
    simp only [weigh]
    cases price limits first with
    | none => cases price limits second <;> rfl
    | some left =>
      cases price limits second with
      | none => rfl
      | some right => cases weigh limits rest <;> simp [add_left_comm]
  | trans _ _ first second => exact first.trans second

/-- A budget within its limits. -/
structure Admits (limits : Limits) (remaining available used limit : Int) : Prop where
  remaining_nonneg : 0 ≤ remaining
  remaining_le : remaining ≤ limits.writeBytes
  available_nonneg : 0 ≤ available
  available_le : available ≤ limits.allocBytes
  used_nonneg : 0 ≤ used
  used_le : used ≤ limit

/-- What is left of a budget after a base and a weight, if they fit. -/
def take (limit base : Int) (left : Int × Int × Int) (weight : Weight) : Option (Int × Int × Int) :=
  if limit - left.1 < base + weight.1 ∨ left.2.1 < weight.2.1 ∨ left.2.2 < weight.2.2 then none
  else some (left.1 + (base + weight.1), left.2.1 - weight.2.1, left.2.2 - weight.2.2)

variable {remaining available used limit base : Int}

theorem Admits.take {effort left free : Int}
    (admitted : Admits limits remaining available used limit)
    (nonneg : 0 ≤ base) (weights : 0 ≤ weight)
    (taken : take limit base (used, remaining, available) weight = some (effort, left, free)) :
    Admits limits left free effort limit ∧ used ≤ effort ∧ left ≤ remaining ∧ free ≤ available := by
  obtain ⟨h₁, h₂, h₃, h₄, h₅, h₆⟩ := admitted
  obtain ⟨w₁, w₂, w₃⟩ := weights
  dsimp only [Prod.fst_zero, Prod.snd_zero] at w₁ w₂ w₃
  unfold ByteWork.take at taken
  dsimp only at taken
  split at taken
  · cases taken
  · cases taken
    exact ⟨by constructor <;> omega, by omega, by omega, by omega⟩

/-- Taking one weight after another is taking both. -/
theorem take_bind_take (left : Int × Int × Int) (first : Weight) {second : Weight}
    (nonneg : 0 ≤ second) :
    ((take limit base left first).bind fun left => take limit 0 left second) =
      take limit base left (first + second) := by
  obtain ⟨w₁, w₂, w₃⟩ := nonneg
  dsimp only [Prod.fst_zero, Prod.snd_zero] at w₁ w₂ w₃
  simp only [take, Prod.fst_add, Prod.snd_add]
  split
  · rw [if_pos (by omega)]
    rfl
  · simp only [Option.bind_some]
    split
    · rw [if_pos (by omega)]
    · rw [if_neg (by omega)]
      simp only [Option.some.injEq, Prod.mk.injEq]
      omega

/-- Testing the limits after each request tests them for the whole. -/
theorem sum_eq (left remaining available effort written allocated : Int) (requests : List Request) :
    sum limits left remaining available effort written allocated requests =
      (weigh limits requests).bind fun weight =>
        if left < effort + weight.1 ∨ remaining < written + weight.2.1 ∨
            available < allocated + weight.2.2 then none
        else
          some (effort + weight.1, written + weight.2.1, allocated + weight.2.2) := by
  induction requests generalizing effort written allocated with
  | nil => simp [sum, weigh]
  | cons request rest ih =>
    rw [sum, weigh, price]
    cases charged : amount limits request with
    | none => rfl
    | some parts =>
      simp only [Option.map_some, Option.bind_some, ih]
      cases weighed : weigh limits rest with
      | none => simp
      | some others =>
        obtain ⟨w₁, w₂, w₃⟩ := weigh_nonneg weighed
        dsimp only [Prod.fst_zero, Prod.snd_zero] at w₁ w₂ w₃
        simp only [Option.bind_some, Option.map_some, Prod.fst_add, Prod.snd_add, add_assoc]
        split
        · rw [if_pos (by omega)]
        · rfl

theorem plan_eq_take (requests : List Request)
    (admitted : Admits limits remaining available used limit) (nonneg : 0 ≤ base) :
    plan limits remaining available used limit base requests =
      (weigh limits requests).bind (take limit base (used, remaining, available)) := by
  obtain ⟨h₁, h₂, h₃, h₄, h₅, h₆⟩ := admitted
  rw [plan, if_neg (by omega), sum_eq]
  cases weigh limits requests with
  | none => rfl
  | some total =>
    simp only [Option.bind_some, take, zero_add]
    split <;> rfl

theorem plan_eq_none (requests : List Request)
    (refused : ¬ (Admits limits remaining available used limit ∧ 0 ≤ base)) :
    plan limits remaining available used limit base requests = none := by
  rw [plan, if_pos]
  by_contra within
  exact refused ⟨by constructor <;> omega, by omega⟩

/-- Charge requests one at a time. -/
def chargeEach (limits : Limits) (limit : Int) :
    Int × Int × Int → List Request → Option (Int × Int × Int)
  | left, [] => some left
  | (used, remaining, available), request :: rest =>
    (plan limits remaining available used limit 0 [request]).bind fun left =>
      chargeEach limits limit left rest

/-- Charge a base and then each request. -/
def planEach (limits : Limits) (remaining available used limit base : Int)
    (requests : List Request) : Option (Int × Int × Int) :=
  (plan limits remaining available used limit base []).bind fun left =>
    chargeEach limits limit left requests

/-- Charging one at a time takes the weight of all, after what was taken
before. -/
theorem take_bind_chargeEach {first : Weight} (requests : List Request)
    (admitted : Admits limits remaining available used limit)
    (nonneg : 0 ≤ base) (weights : 0 ≤ first) :
    ((take limit base (used, remaining, available) first).bind fun left =>
        chargeEach limits limit left requests) =
      (weigh limits requests).bind fun weight =>
        take limit base (used, remaining, available) (first + weight) := by
  induction requests generalizing first with
  | nil => simp [chargeEach, weigh]
  | cons request rest ih =>
    have stepped : ∀ left, take limit base (used, remaining, available) first = some left →
        chargeEach limits limit left (request :: rest) =
          (price limits request).bind fun weight =>
            (take limit 0 left weight).bind fun left => chargeEach limits limit left rest := by
      rintro ⟨effort, kept, free⟩ taken
      have next := (admitted.take nonneg weights taken).1
      rw [chargeEach, plan_eq_take _ next le_rfl, weigh, weigh]
      cases price limits request <;> simp
    rw [weigh]
    cases priced : price limits request with
    | none =>
      cases taken : take limit base (used, remaining, available) first with
      | none => rfl
      | some left =>
        rw [Option.bind_some, stepped left taken, priced]
        rfl
    | some weight =>
      have later := ih (add_nonneg weights (price_nonneg priced))
      rw [← take_bind_take _ _ (price_nonneg priced)] at later
      simp only [Option.bind_some, Option.bind_map, Function.comp_def, ← add_assoc]
      rw [← later]
      cases taken : take limit base (used, remaining, available) first with
      | none => rfl
      | some left =>
        rw [Option.bind_some, stepped left taken, priced, Option.bind_some, Option.bind_some]

theorem planEach_eq_plan (limits : Limits) (remaining available used limit base : Int)
    (requests : List Request) :
    planEach limits remaining available used limit base requests =
      plan limits remaining available used limit base requests := by
  unfold planEach
  by_cases within : Admits limits remaining available used limit ∧ 0 ≤ base
  · obtain ⟨admitted, nonneg⟩ := within
    rw [plan_eq_take _ admitted nonneg, plan_eq_take _ admitted nonneg, weigh,
      Option.bind_some, take_bind_chargeEach _ admitted nonneg le_rfl]
    simp only [zero_add]
  · rw [plan_eq_none _ within, plan_eq_none _ within]
    rfl

/-- What taking a quote from a budget returns and leaves. -/
theorem run_take (quote : Budget → Option (α × Budget)) (budget : Budget) :
    (Charging.take quote).run.run budget =
      match quote budget with
      | none => (none, budget)
      | some (a, left) => (some a, left) := by
  have read : (Charging.take quote).run.run budget =
      (OptionT.run (match quote budget with
        | none => failure
        | some (a, left) => do
          set left
          return a : Charging α)).run budget := rfl
  rw [read]
  cases quote budget <;> rfl

/-- The order of requests and whether they are charged at once do not matter; a
charge stays within what was there, and one that fails takes nothing. -/
theorem charging_compositional (limits : Limits) (remaining available used limit base : Int)
    (requests : List Request) :
    (∀ requests', requests.Perm requests' →
      plan limits remaining available used limit base requests' =
        plan limits remaining available used limit base requests) ∧
    (∀ left,
      plan limits remaining available used limit base requests = some left ↔
        planEach limits remaining available used limit base requests = some left) ∧
    (∀ effort left free,
      plan limits remaining available used limit base requests = some (effort, left, free) →
      (used ≤ effort ∧ effort ≤ limit) ∧ (0 ≤ left ∧ left ≤ remaining) ∧
        0 ≤ free ∧ free ≤ available) ∧
    ∀ budget after,
      (Charging.take (charge · used limit base requests)).run.run budget =
        (none, after) → after = budget := by
  refine ⟨?_, ?_, ?_, ?_⟩
  · intro requests' perm
    by_cases within : Admits limits remaining available used limit ∧ 0 ≤ base
    · rw [plan_eq_take _ within.1 within.2, plan_eq_take _ within.1 within.2,
        weigh_eq_of_perm perm]
    · rw [plan_eq_none _ within, plan_eq_none _ within]
  · intro left
    rw [planEach_eq_plan]
  · intro effort left free planned
    have within : Admits limits remaining available used limit ∧ 0 ≤ base := by
      by_contra refused
      rw [plan_eq_none _ refused] at planned
      cases planned
    obtain ⟨admitted, nonneg⟩ := within
    rw [plan_eq_take _ admitted nonneg] at planned
    obtain ⟨weight, weighed, taken⟩ := Option.bind_eq_some_iff.mp planned
    obtain ⟨next, rises, less, fewer⟩ := admitted.take nonneg (weigh_nonneg weighed) taken
    exact ⟨⟨rises, next.used_le⟩, ⟨next.remaining_nonneg, less⟩, next.available_nonneg, fewer⟩
  · intro budget after failed
    rw [run_take] at failed
    split at failed
    · cases failed
      rfl
    · cases failed

end ByteWork
end Vm
end LiteNode
