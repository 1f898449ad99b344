import LiteNode.Vm.Value

/-!
# Effort

What instructions are charged: costs in native integers, the work of integer
arithmetic by the size of its operands, and the budget of bytes that a call
and its sub-calls share. No charge lowers the effort or passes the limit.
-/

namespace LiteNode
namespace Vm
namespace Cost

def intOfNonnegative (value : Int) : Option Int :=
  if value < 0 ∨ maxInt < value then none else some value

def add (left right : Int) : Option Int :=
  if left < 0 ∨ right < 0 then none else intOfNonnegative (left + right)

def product (values : List Int) : Option Int :=
  if values.any fun value => value < 0 then none
  else intOfNonnegative (values.foldl (· * ·) 1)

def scaledProduct (values : List Int) (divisor : Int) : Option Int :=
  if divisor ≤ 0 ∨ values.any fun value => value < 0 then none
  else intOfNonnegative ((values.foldl (· * ·) 1).tdiv divisor)

def charge (used cost limit : Int) : Option Int :=
  if used < 0 ∨ cost < 0 ∨ limit < 0 ∨ limit < used ∨ limit - used < cost then none
  else some (used + cost)

def chargeZ (used cost limit : Int) : Option Int :=
  if used < 0 ∨ limit < 0 ∨ limit < used ∨ cost < 0 then none
  else if limit - used < cost then none
  else (intOfNonnegative cost).map fun cost => used + cost

/-- A charge never lowers the effort or passes the limit. -/
theorem charge_bounds {used cost limit effort : Int}
    (charged : charge used cost limit = some effort) : used ≤ effort ∧ effort ≤ limit := by
  rw [charge] at charged
  split at charged
  · cases charged
  · cases charged
    omega

/-- A charge of an integer is that integer. -/
theorem chargeZ_eq {used cost limit effort : Int}
    (charged : chargeZ used cost limit = some effort) :
    effort = used + cost ∧ 0 ≤ cost ∧ effort ≤ limit := by
  rw [chargeZ] at charged
  split at charged
  · cases charged
  · split at charged
    · cases charged
    · obtain ⟨amount, read, rfl⟩ := Option.map_eq_some_iff.mp charged
      rw [intOfNonnegative] at read
      split at read
      · cases read
      · cases read
        omega

end Cost

namespace IntWork

inductive Op
  | add | sub | mul | div | mod | neg | abs
  deriving DecidableEq

inductive Mode
  | prior | active
  deriving DecidableEq

def itemCap : Int := 1000000

def bits (value : Int) : Int := max 1 (numbits value)

def cells (value : Int) : Int := 1 + (bits value - 1).tdiv 64

def variableCost (op : Op) (left right : Int) : Int :=
  match op with
  | .add | .sub => max (cells left) (cells right)
  | .mul | .div | .mod => cells left * cells right
  | .neg | .abs => cells left

def cost (base : Int) (mode : Mode) (op : Op) (left right : Int) : Int :=
  match mode with
  | .prior => base
  | .active => base + variableCost op left right

end IntWork

/-! ## Byte budgets -/

/-- An effort that is not lower than another one and within the limit. -/
structure Rise (limit used : Int) where
  effort : Int
  rises : used ≤ effort
  fits : used ≤ limit → effort ≤ limit

namespace Rise

def same (limit used : Int) : Rise limit used := ⟨used, le_rfl, id⟩

def andThen {limit used : Int} (rise : Rise limit used)
    (next : Rise limit rise.effort) : Rise limit used where
  effort := next.effort
  rises := rise.rises.trans next.rises
  fits within := next.fits (rise.fits within)

end Rise

namespace ByteWork

/-- Limits of a budget; bytes are paid by units of at least one byte. -/
structure Limits where
  keyBytes : Int
  valueBytes : Int
  copyBytes : Int
  writeBytes : Int
  allocBytes : Int
  unitBytes : Int
  unit_pos : 0 < unitBytes

inductive Request
  | write (key value : Int)
  | erase (key : Int)
  | copy (left right : Int)
  | allocate (size : Int)
  | scan (size : Int)

structure Budget where
  limits : Limits
  remaining : Int
  available : Int
  eventLeft : Int
  eventCount : Int

structure Decoding where
  maxBytes : Int
  requests : List Request

def maxStringLength : Int := 144115188075855863

/-- Division of a number that is not negative, rounded up. -/
def cdiv (value divisor : Int) : Int := -((-value).fdiv divisor)

def parsing (length cells : Int) : Option (Int × List Request) :=
  if length < 0 ∨ cells < 0 then none
  else
    let base := cells * 2
    let memory := cells * 96 + length * 2
    if fitsInt base && fitsInt memory then some (base, [.scan length, .allocate memory])
    else none

def encodedSize (length : Int) : Option Int :=
  if length < 0 then none
  else
    let size := cdiv length 3 * 4
    if maxStringLength < size then none else some size

def cellBytes (count bits : Int) : Option Int :=
  if count < 0 ∨ bits < 0 then none
  else
    let size := count * (80 + cdiv bits 8)
    if fitsInt size then some size else none

def decoding (length cells bits : Int) (cached : Bool) : Option Decoding :=
  if length < 0 then none
  else
    match cellBytes cells bits with
    | none => none
    | some memory =>
      let capacity := cdiv length 4 * 3
      let copies := if cached then 0 else capacity * 2
      let allocated := memory + copies
      if maxStringLength < capacity ∨ !fitsInt allocated then none
      else
        let requests := [Request.allocate allocated]
        some ⟨capacity, if cached then requests else .scan length :: requests⟩

def textLimit (budget : Budget) : Int :=
  max budget.limits.keyBytes (max budget.limits.valueBytes budget.limits.copyBytes)

/-- Bytes paid for, written and allocated by a request. -/
def amount (limits : Limits) : Request → Option (Int × Int × Int)
  | .write key value =>
    if key ≤ 0 ∨ value < 0 ∨ limits.keyBytes < key ∨ limits.valueBytes < value then none
    else some (key + value, key + value, 0)
  | .erase key => if key < 0 then none else some (key, key, 0)
  | .copy left right =>
    if left < 0 ∨ right < 0 ∨ limits.copyBytes < left + right then none
    else some (left + right, 0, left + right)
  | .allocate size => if size < 0 then none else some (size, 0, size)
  | .scan size => if size < 0 then none else some (size, 0, 0)

/-- Sum up requests within what is left. -/
def sum (limits : Limits) (left remaining available : Int) (effort written allocated : Int) :
    List Request → Option (Int × Int × Int)
  | [] =>
    if left < effort ∨ remaining < written ∨ available < allocated then none
    else some (effort, written, allocated)
  | request :: rest =>
    match amount limits request with
    | none => none
    | some (bytes, added, created) =>
      let effort := effort + cdiv bytes limits.unitBytes
      let written := written + added
      let allocated := allocated + created
      if left < effort ∨ remaining < written ∨ available < allocated then none
      else sum limits left remaining available effort written allocated rest

def plan (limits : Limits) (remaining available used limit base : Int) (requests : List Request) :
    Option (Int × Int × Int) :=
  if remaining < 0 ∨ limits.writeBytes < remaining ∨ available < 0 ∨
      limits.allocBytes < available ∨ used < 0 ∨ limit < used ∨ base < 0 then
    none
  else
    (sum limits (limit - used) remaining available base 0 0 requests).map
      fun (effort, written, allocated) =>
        (used + effort, remaining - written, available - allocated)

variable {limits : Limits}

/-- Nothing is paid for a negative number of bytes. -/
theorem amount_nonneg {request : Request} {bytes added created : Int}
    (charged : amount limits request = some (bytes, added, created)) : 0 ≤ bytes := by
  cases request with
  | write key value | erase key | allocate size | scan size | copy left right =>
    simp only [amount] at charged
    split at charged
    · cases charged
    · cases charged
      omega

theorem cdiv_nonneg {value divisor : Int} (nonneg : 0 ≤ value) (positive : 0 < divisor) :
    0 ≤ cdiv value divisor := by
  rw [cdiv, Int.fdiv_eq_ediv_of_nonneg _ positive.le]
  have := Int.ediv_le_ediv positive (neg_nonpos.mpr nonneg)
  rw [Int.zero_ediv] at this
  omega

theorem sum_bounds {left remaining available effort written allocated : Int}
    {requests : List Request} {total wrote created : Int}
    (summed : sum limits left remaining available effort written allocated
      requests = some (total, wrote, created)) :
    effort ≤ total ∧ total ≤ left := by
  induction requests generalizing effort written allocated with
  | nil =>
    rw [sum] at summed
    split at summed
    · cases summed
    · cases summed
      omega
  | cons request rest ih =>
    rw [sum] at summed
    split at summed
    · cases summed
    · next bytes added made charged =>
      have paid := cdiv_nonneg (amount_nonneg charged) limits.unit_pos
      simp only at summed
      split at summed
      · cases summed
      · have := ih summed
        omega

/-- A plan never lowers the effort or passes the limit. -/
theorem plan_bounds {remaining available used limit base : Int}
    {requests : List Request} {effort left free : Int}
    (planned : plan limits remaining available used limit base requests =
      some (effort, left, free)) :
    used ≤ effort ∧ effort ≤ limit := by
  rw [plan] at planned
  split at planned
  · cases planned
  · obtain ⟨⟨total, wrote, created⟩, summed, same⟩ := Option.map_eq_some_iff.mp planned
    have := sum_bounds summed
    cases same
    omega

def charge (budget : Budget) (used limit base : Int)
    (requests : List Request) : Option (Rise limit used × Budget) :=
  match planned : plan budget.limits budget.remaining budget.available used
      limit base requests with
  | none => none
  | some (effort, remaining, available) =>
    some (⟨effort, (plan_bounds planned).1, fun _ => (plan_bounds planned).2⟩,
      { budget with remaining, available })

def output (budget : Budget) (used limit size : Int) : Option (Rise limit used × Budget) :=
  if size < 0 ∨ budget.eventLeft < size then none
  else
    (charge budget used limit 0 [.allocate size]).map fun (rise, budget) =>
      (rise, { budget with eventLeft := budget.eventLeft - size })

def emit (budget : Budget) (used limit size : Int) : Option (Rise limit used × Budget) :=
  if size < 0 ∨ budget.eventCount = 0 then none
  else
    let size := if budget.eventCount = 256 ∧ size < maxInt then size + 1 else size
    (output budget used limit size).map fun (rise, budget) =>
      (rise, { budget with eventCount := budget.eventCount - 1 })

/-- Size of a byte in a quoted text. -/
def quotedWidth (byte : UInt8) : Int :=
  if [34, 92, 8, 12, 10, 13, 9].contains byte then 2
  else if byte < 32 ∨ byte = 127 then 6
  else 1

def textSize (limit : Int) (value : Bytes) : Option Int :=
  if limit < 2 ∨ limit - 2 < value.length then none
  else
    value.foldlM (fun size byte =>
      if limit - size < quotedWidth byte then none
      else some (size + quotedWidth byte)) 2

/-- Take a quoted text from what is left. -/
def quoted (left : Int) (value : Bytes) : Option Int :=
  (textSize left value).bind fun size => if left < size then none else some (left - size)

def eventFrame : Int :=
  "\x7b\"program\":,\"contract\":,\"depth\":,\"event\":,\"values\":[]\x7d".length

def eventSize (limit : Int) (address : Bytes) (depth : Int) (name : Bytes)
    (values : List Bytes) : Option Int :=
  if limit < 0 then none
  else
    let take (left size : Int) : Option Int := if left < size then none else some (left - size)
    do
      let left ← take limit eventFrame
      let left ← quoted left address
      let left ← quoted left address
      let left ← take left (intToString depth).length
      let left ← quoted left name
      let (left, _) ← values.foldlM (fun (left, index) value => do
        let left ← if 0 < index then take left 1 else some left
        let left ← quoted left value
        return (left, index + 1)) (left, (0 : Nat))
      return limit - left

end ByteWork

structure EventRecord where
  contract : Bytes
  depth : Int
  event : Bytes
  values : List Value
  deriving DecidableEq

/-- Work on a budget, which may be refused after some of it was done. -/
abbrev Charging := OptionT (StateM ByteWork.Budget)

namespace Charging

variable (limit : Int)

/-- Take a quote from the budget. -/
def take (quote : ByteWork.Budget → Option (α × ByteWork.Budget)) : Charging α := do
  match quote (← get) with
  | none => failure
  | some (a, budget) =>
    set budget
    return a

def valueWork (used : Int) (value : Value) : Charging (Rise limit used × Bytes) := do
  match value with
  | .vInt z | .vU64 z | .vU128 z | .vU256 z =>
    let size : Int := numbits z / 3 + 2
    if (← get).eventLeft < size then failure
    else
      let rise ← take (ByteWork.charge · used limit 0 [.allocate size])
      return (rise, value.toString)
  | _ => return (.same limit used, value.toString)

def outputSize (value : Value) (left : Int) (text : Bytes) : Option Int :=
  (ByteWork.textSize left text).bind fun size =>
    match value with
    | .vBytes _ | .vBytes32 _ =>
      (ByteWork.encodedSize text.length).map fun encoded => max size (encoded + 2)
    | _ => some size

def outputWork (value : Value) (used : Int) : Charging (Rise limit used) := do
  let left := (← get).eventLeft - 16
  let (rise, text) ← valueWork limit used value
  match outputSize value left text with
  | none => failure
  | some size =>
    let next ← take (ByteWork.output · rise.effort limit (size + 16))
    return rise.andThen next

def eventValues (used : Int) : List Value → Charging (Rise limit used × List Bytes)
  | [] => return (.same limit used, [])
  | value :: rest => do
    let (rise, text) ← valueWork limit used value
    let (next, texts) ← eventValues rise.effort rest
    return (rise.andThen next, text :: texts)

def eventWork (record : EventRecord) (used : Int) : Charging (Rise limit used) := do
  let left := (← get).eventLeft
  let (rise, values) ← eventValues limit used record.values
  match ByteWork.eventSize (left - 1) record.contract record.depth record.event values with
  | none => failure
  | some size =>
    let next ← take (ByteWork.emit · rise.effort limit (size + 1))
    return rise.andThen next

end Charging
end Vm
end LiteNode
