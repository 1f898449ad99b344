import LiteNode.Vm.Stored

/-!
# Instructions on vectors

Vectors are spans of cells of memory: of integers, of fixed-point numbers or
of the bits of floating point numbers. Each instruction checks its spans, is
charged for its size and reserves the memory it works in.
-/

namespace LiteNode
namespace Vm

open ByteWork (Request)

/-- Arrays of some shape, or a number of times the same arrays. -/
inductive VectorPart
  | array (shape : List Int)
  | times (count : Int) (parts : List VectorPart)

def maxArrayLength : Int := 18014398509481983

mutual

def VectorPart.words : VectorPart → Option Int
  | .array shape =>
    (Cost.product shape).bind fun cells =>
      if maxArrayLength < cells then none
      else some (if cells = 0 then 0 else cells + 1)
  | .times count parts =>
    if count < 0 then none
    else (VectorPart.totalWords parts).map fun size => count * size

def VectorPart.totalWords : List VectorPart → Option Int
  | [] => some 0
  | part :: rest =>
    (VectorPart.words part).bind fun size => (VectorPart.totalWords rest).map fun sum => size + sum

end

def vectorBytes (parts : List VectorPart) : Option Int :=
  (VectorPart.totalWords parts).bind fun size =>
    if fitsInt (8 * size) then some (8 * size) else none

def arrays (count length : Int) : List VectorPart := [.times count [.array [length]]]

def matmulSpace (m k n : Int) : List VectorPart := [.array [m, k], .array [k, n], .array [m, n]]

def q16MatmulSpace (m k n : Int) : List VectorPart :=
  [.times 2 [.array [m, k], .array [k, n]], .array [m, n]]

def ropeSpace (n : Int) : List VectorPart := [.times 3 [.array [n]], .array [n / 2]]

def attentionSpace (tokens heads keys width : Int) : List VectorPart :=
  [.times 2 [.array [heads, width]], .times 4 [.array [tokens, keys, width]],
    .times heads [.times tokens [.array [width]], .times 4 [.array [tokens]], .array [width],
      .times width [.array [tokens]]],
    .times 2 [.array [heads]], .array [heads, width]]

namespace FixedQ16

def scale : Int := 65536

def truncMul (a b : Int) : Int := a * b / 65536

def inRange (value : Int) : Bool := |value| ≤ 2 ^ 63 - 1

/-- Shift right by some bits and round to the nearest. -/
def roundBits (bits : Nat) (value : Int) : Int :=
  let half : Int := 2 ^ (bits - 1)
  if 0 ≤ value then (value + half) / 2 ^ bits
  else -((-value + half) / 2 ^ bits)

def round16 (value : Int) : Int := roundBits 16 value

def makeRound (bits : Int) : Option (Int → Int) :=
  if bits ≤ 0 ∨ 62 < bits then none else some (roundBits bits.toNat)

def scaleFloor (value total : Int) : Option Int :=
  if value < 0 ∨ total ≤ 0 then none
  else some ((value * scale).tdiv total)

def dot (left right : List Int) : Int := (left.zipWith truncMul right).sum

def map2Checked (f : Int → Int → Int) (left right : List Int) : Option (List Int) :=
  if left.length ≠ right.length ∨ !left.all inRange ∨ !right.all inRange then none
  else
    let result := left.zipWith f right
    if result.all inRange then some result else none

def elementwiseMul := map2Checked truncMul

def residualAdd := map2Checked (· + ·)

end FixedQ16

/-- First place of the largest of some numbers. -/
def argmax [LT α] [DecidableLT α] : List α → Nat
  | [] => 0
  | first :: rest =>
    (rest.foldl (fun (best, value, index) next =>
      if value < next then (index, next, index + 1)
      else (best, value, index + 1)) (0, first, 1)).1

section Vectors

variable (env : Env) {scope : Scope}

def test (condition : Bool) : Exec env scope Bool := return condition

/-- Revert unless all checks pass. -/
def require (checks : List (Exec env scope Bool)) (body : Exec env scope Bool) :
    Exec env scope Bool := do
  if ← allOf checks then body else revert

def validMemSpan (addr n : Int) : Bool := 0 ≤ addr ∧ 0 < n ∧ n ≤ 131072 ∧ addr ≤ maxInt - n

def reserveVectors (parts : List VectorPart) : Exec env scope Bool := do
  if ← bounded then
    match vectorBytes parts with
    | none => return false
    | some size => chargeBytes env 0 0 [.allocate size]
  else return true

/-- Charge requests whose cost fits together with a later charge. -/
def reserveBytes (base : Int) (requests : List Request) : Exec env scope Bool := do
  if ← fits env base requests then chargeBytes env 0 0 requests
  else return false

def readNumber (value : Value) : Exec env scope Int := do
  match value with
  | .vString text =>
    if ← bounded then
      match ByteWork.parsing text.length 1 with
      | none => raise
      | some (base, requests) =>
        if ← chargeBytes env base 0 requests then return toZ env (.vString text)
        else raise
    else return toZ env (.vString text)
  | value => return toZ env value

/-- The number in a cell, which is zero before the cell is written. -/
def cellNumber (cell : Int) : Exec env scope Int := do
  match ← findCell cell with
  | some value => readNumber env value
  | none => return 0

def cellPair (left right : Int) (index : Nat) : Exec env scope (Int × Int) := do
  let first ← cellNumber env (left + index)
  let second ← cellNumber env (right + index)
  return (first, second)

/-- A list of what is computed at each index. -/
def collect (f : Nat → Exec env scope α) : Nat → Nat → Exec env scope (List α)
  | 0, _ => return []
  | count + 1, index => do
    let item ← f index
    return item :: (← collect f count (index + 1))

/-- Do something at each index. -/
def forEach (f : Nat → Exec env scope Unit) : Nat → Nat → Exec env scope Unit
  | 0, _ => return ()
  | count + 1, index => do
    f index
    forEach f count (index + 1)

/-- The fixed-point numbers of a span, if all of its cells hold one. -/
def readQ16 (addr n : Int) : Exec env scope (Option (List Int)) := do
  if validMemSpan addr n then
    let values ← collect env (fun index => do
      match ← findCell (addr + index) with
      | none => return some 0
      | some value =>
        if value.isNumeric && FixedQ16.inRange (toZ env value) then return some (toZ env value)
        else return none) n.toNat 0
    return values.mapM id
  else return none

def writeQ16 (addr : Int) (values : List Int) : Exec env scope Bool := do
  growCells addr (values.map .vInt)
  return true

def writeResult (addr : Int) : Option (List Int) → Exec env scope Bool
  | some result => writeQ16 env addr result
  | none => revert

def readSpans : List (Int × Int) → Exec env scope (Option (List (List Int)))
  | [] => return some []
  | (addr, n) :: rest => do
    match ← readQ16 env addr n with
    | none => return none
    | some values => return (← readSpans rest).map (values :: ·)

/-- Work on spans of fixed-point numbers. -/
def onSpans (spans : List (Int × Int)) (charge : Exec env scope Bool) (parts : List VectorPart)
    (finish : List (List Int) → Exec env scope Bool) : Exec env scope Bool :=
  require env [test env (spans.all fun (addr, n) => validMemSpan addr n),
      charge, reserveVectors env parts] do
    match ← readSpans env spans with
    | some values => finish values
    | none => revert

inductive IntValues
  | live
  | fixed (values : List (Int × Int))

def sumWork (op : IntWork.Op) (operands : Nat → Exec env scope (Int × Int)) (cap : Int) :
    Nat → Nat → Int → Exec env scope (Option (List (Int × Int)))
  | 0, _, total => do
    if ← addZEffort env total then return some [] else return none
  | count + 1, index, total => do
    let (first, second) ← operands index
    let total := total + IntWork.variableCost op first second
    if cap < total then return none
    else
      let rest ← sumWork op operands cap count (index + 1) total
      return rest.map ((first, second) :: ·)

def prepareIntWork (op : IntWork.Op) (count : Int) (operands : Nat → Exec env scope (Int × Int)) :
    Exec env scope (Option IntValues) := do
  match env.intMode with
  | .prior => return some .live
  | .active =>
    let left := env.effortLimit - (← read).effortUsed
    if count < 0 ∨ IntWork.itemCap < count ∨ left < 0 ∨ left < count then return none
    else if ← reserveVectors env (arrays 1 count) then
      return (← sumWork env op operands left count.toNat 0 0).map .fixed
    else return none

def intValues (op : IntWork.Op) (values : IntValues) (index : Nat)
    (current : Nat → Exec env scope (Int × Int)) :
    Exec env scope (Int × Int) := do
  match values with
  | .fixed saved =>
    match saved[index]? with
    | some pair => return pair
    | none => raise
  | .live =>
    let (first, second) ← current index
    if ← bounded then
      if ← addZEffort env (IntWork.variableCost op first second) then return (first, second)
      else raise
    else return (first, second)

def sameIntCost (op : IntWork.Op) (count first second : Int) : Exec env scope (Option Int) := do
  let left := env.effortLimit - (← read).effortUsed
  let unlimited := env.intMode = .prior && !(← bounded)
  if unlimited then return some 0
  else if count < 0 ∨ IntWork.itemCap < count ∨ left < 0 ∨ left < count then return none
  else return some (count * IntWork.variableCost op first second)

def chargeSameIntWork (op : IntWork.Op) (count first second : Int) : Exec env scope Bool := do
  match ← sameIntCost env op count first second with
  | none => return false
  | some cost => addZEffort env cost

def loadIntCost (base count scale : Int) : Exec env scope (Option Int) := do
  match ← sameIntCost env .mul count 0 scale with
  | none => return none
  | some work => return if fitsInt (base + work) then some (base + work) else none

def reserveCells (count bits : Int) (cost : Exec env scope (Option Int)) :
    Exec env scope Bool := do
  if ← bounded then
    match ByteWork.cellBytes count bits, ← cost with
    | some size, some base => reserveBytes env base [.allocate size]
    | _, _ => return false
  else return true

def reserveDecode (input : Bytes) (count bits : Int) (cached : Bool)
    (cost : Int → Exec env scope (Option Int)) : Exec env scope Bool := do
  if ← bounded then
    match ByteWork.decoding input.length count bits cached with
    | none => return false
    | some plan =>
      match ← cost plan.maxBytes with
      | none => return false
      | some base => reserveBytes env base plan.requests
  else return true

def sumProducts (values : IntValues) (operands : Nat → Exec env scope (Int × Int)) :
    Nat → Nat → Int → Exec env scope Int
  | 0, _, acc => return acc
  | count + 1, index, acc => do
    let (left, right) ← intValues env .mul values index operands
    sumProducts values operands count (index + 1) (acc + left * right)

def matmul (rdAddr rsLhs rsRhs rsM rsK rsN : Reg) : Exec env scope Bool := do
  let dst ← getInt env rdAddr
  let lhs ← getInt env rsLhs
  let rhs ← getInt env rsRhs
  let m ← getInt env rsM
  let k ← getInt env rsK
  let n ← getInt env rsN
  require env [
      test env (0 < m && 0 < k && 0 < n && m ≤ 32768 && k ≤ 32768 && n ≤ 32768),
      memorySpan true dst [m, n], memorySpan false lhs [m, k],
      memorySpan false rhs [k, n], memorySpan false 0 [m, n, k],
      addDynProduct env [m, n, k] 1024] do
    let rowSize := n.toNat * k.toNat
    let operands (index : Nat) : Exec env scope (Int × Int) := do
      let row := index / rowSize
      let offset := index % rowSize
      let column := offset / k.toNat
      let inner := offset % k.toNat
      let first ← cellNumber env (lhs + row * k + inner)
      let second ← cellNumber env (rhs + inner * n + column)
      return (first, second)
    match ← prepareIntWork env .mul (m * rowSize) operands with
    | none => revert
    | some values =>
      forEach env (fun cell => do
        let start := cell / n.toNat * rowSize + cell % n.toNat * k.toNat
        let acc ← sumProducts env values operands k.toNat start 0
        growCell (dst + cell) (.vInt acc)) (m.toNat * n.toNat) 0
      return true

def vecdot (rd rsA rsB rsN : Reg) : Exec env scope Bool := do
  let a ← getInt env rsA
  let b ← getInt env rsB
  let n ← getInt env rsN
  require env [test env (0 < n && n ≤ 131072), memorySpan false a [n],
      memorySpan false b [n], addDynEffort env (n / 16)] do
    let operands := cellPair env a b
    match ← prepareIntWork env .mul n operands with
    | none => revert
    | some values => put rd (.vInt (← sumProducts env values operands n.toNat 0 0))

/-- Work on two vectors of integers, cell by cell. -/
def pairwise (op : IntWork.Op) (f : Int → Int → Int) (cost : Int → Int)
    (rsDst rsSrc rsN : Reg) : Exec env scope Bool := do
  let dst ← getInt env rsDst
  let src ← getInt env rsSrc
  let n ← getInt env rsN
  require env [test env (0 < n && n ≤ 1048576), memorySpan false dst [n],
      memorySpan false src [n], addDynEffort env (cost n)] do
    let operands := cellPair env dst src
    match ← prepareIntWork env op n operands with
    | none => revert
    | some values =>
      forEach env (fun index => do
        let (first, second) ← intValues env op values index operands
        storeCell (dst + index) (.vInt (f first second))) n.toNat 0
      return true

def reluInplace (rsAddr rsN : Reg) : Exec env scope Bool := do
  let addr ← getInt env rsAddr
  let n ← getInt env rsN
  require env [test env (0 < n && n ≤ 1048576), memorySpan false addr [n],
      addDynEffort env (n / 4)] do
    forEach env (fun index => do
      match ← findCell (addr + index) with
      | none => return ()
      | some value =>
        if (← readNumber env value) < 0 then storeCell (addr + index) (.vInt 0)
        else return ()) n.toNat 0
    return true

def shiftRoundInplace (rsAddr rsN rsBits : Reg) : Exec env scope Bool := do
  let addr ← getInt env rsAddr
  let n ← getInt env rsN
  let bits ← getInt env rsBits
  require env [test env (0 < n && n ≤ 1048576 && 0 < bits && bits ≤ 62),
      memorySpan false addr [n], addDynEffort env (n / 4)] do
    match FixedQ16.makeRound bits with
    | none => revert
    | some round =>
      forEach env (fun index => do
        let v ← cellNumber env (addr + index)
        storeCell (addr + index) (.vInt (round v))) n.toNat 0
      return true

def signedByte (byte : UInt8) : Int := if 128 ≤ byte.toNat then byte.toNat - 256 else byte.toNat

def decodeSpan (dst off count : Int) : Exec env scope Bool := do
  return !(← bounded) || (0 ≤ dst && dst ≤ memoryMax && count ≤ memoryMax - dst && 0 ≤ off)

def decodeRange (off count size : Int) : Exec env scope Bool := do
  if ← bounded then return 0 ≤ off && off ≤ size && count ≤ size - off
  else return 0 ≤ off && off + count ≤ size

def signedSpan (raw : Bytes) (off n : Int) : List Int :=
  ((raw.drop off.toNat).take n.toNat).map signedByte

/-- Store a span of bytes as numbers of a scale. -/
def loadScaled (dst : Int) (raw : Bytes) (off n scale cost : Int) : Exec env scope Bool :=
  require env [addDynEffort env cost, chargeSameIntWork env .mul n 0 scale] do
    storeCells dst ((signedSpan raw off n).map fun byte => .vInt (byte * scale))
    return true

def loadInt8BytesToMem (rsDst rsSrc rsOff rsN rsScale : Reg) : Exec env scope Bool := do
  let dst ← getInt env rsDst
  let raw := (← getr rsSrc).toString
  let off ← getInt env rsOff
  let n ← getInt env rsN
  let scale ← getZ env rsScale
  require env [test env (0 < n && n ≤ 1048576), memorySpan false dst [n],
      decodeRange env off n raw.length,
      reserveCells env n (numbits scale + 8) (loadIntCost env (n / 2) n scale)] do
    loadScaled env dst raw off n scale (n / 2)

def loadInt8B64ToMem (rsDst rsSrc rsOff rsN rsScale : Reg) : Exec env scope Bool := do
  let dst ← getInt env rsDst
  let text := (← getr rsSrc).toString
  let off ← getInt env rsOff
  let n ← getInt env rsN
  let scale ← getZ env rsScale
  require env [test env (0 < n && n ≤ 1048576), decodeSpan env dst off n,
      reserveDecode env text n (numbits scale + 8) false
        fun size => loadIntCost env (n + size / 4) n scale] do
    match env.decode64 text with
    | none => revert
    | some raw =>
      if ← decodeRange env off n raw.length then
        loadScaled env dst raw off n scale (n + raw.length / 4)
      else revert

def loadInt8Q16 (rsDst rsSrc rsOff rsN rsScale : Reg) : Exec env scope Bool := do
  let some dst ← readInt env rsDst | revert
  let some off ← readInt env rsOff | revert
  let some n ← readInt env rsN | revert
  if 0 < n ∧ n ≤ 1048576 ∧ validMemSpan dst n then
    let text := (← getr rsSrc).toString
    let scale ← getZ env rsScale
    require env [test env (FixedQ16.inRange scale), decodeSpan env dst off n,
        reserveDecode env text n 128 false fun size => return some (n + size / 4)] do
      match env.decode64 text with
      | none => revert
      | some raw =>
        if off < 0 ∨ raw.length < off ∨ raw.length - off < n then revert
        else if ← addDynEffort env (n + raw.length / 4) then
          let values := (signedSpan raw off n).map (· * scale)
          if values.all FixedQ16.inRange then writeQ16 env dst values
          else revert
        else revert
  else revert

def vecdotQ16 (rd rsA rsB rsN : Reg) : Exec env scope Bool := do
  let some a ← readInt env rsA | revert
  let some b ← readInt env rsB | revert
  let some n ← readInt env rsN | revert
  onSpans env [(a, n), (b, n)] (addDynEffort env (n / 16)) (arrays 5 n)
    fun values =>
      match values with
      | [left, right] =>
        let value := FixedQ16.dot left right
        if FixedQ16.inRange value then put rd (.vInt value) else revert
      | _ => revert

def expQ16 (rd rsX : Reg) : Exec env scope Bool := do
  let x ← getZ env rsX
  require env [addDynEffort env 8] do
    put rd (.vInt (env.kernels.exp x))

/-- Shares of a whole; what rounding leaves goes to the largest one. -/
def softmax (values : List Int) : Option (List Int) := do
  let maxValue := values.foldl max (values.headD 0)
  let exps := values.map fun value => env.kernels.exp (value - maxValue)
  let total := exps.sum
  if total ≤ 0 then none
  else
    let result ← exps.mapM (FixedQ16.scaleFloor · total)
    let result := result.modify (argmax exps) (· + (FixedQ16.scale - result.sum))
    if result.all FixedQ16.inRange then some result else none

/-- An instruction on one or more spans of one length, whose result replaces
the first one. -/
def inplaceQ16 (spans : List Reg) (rsN : Reg) (charge : Int → Exec env scope Bool) (space : Int)
    (kernel : List (List Int) → Option (List Int)) : Exec env scope Bool := do
  let addrs ← spans.mapM (readInt env)
  let some n ← readInt env rsN | revert
  match addrs.mapM id with
  | some (addr :: rest) =>
    onSpans env ((addr :: rest).map (·, n)) (charge n) (arrays space n)
      fun values => writeResult env addr (kernel values)
  | _ => revert

def softmaxQ16Inplace (rsAddr rsN : Reg) : Exec env scope Bool :=
  inplaceQ16 env [rsAddr] rsN (fun n => addDynProduct env [n, 8] 1) 5
    fun values =>
      match values with
      | [values] => softmax env values
      | _ => none

def layernormQ16Inplace (rsAddr rsN rsGamma rsBeta : Reg) : Exec env scope Bool :=
  inplaceQ16 env [rsAddr, rsGamma, rsBeta] rsN
    (fun n => addDynProduct env [n, 4] 1) 7 fun values =>
      match values with
      | [values, gamma, beta] => env.kernels.layer env.math values gamma beta
      | _ => none

def rmsnormQ16Inplace (rsAddr rsN rsGamma : Reg) : Exec env scope Bool :=
  inplaceQ16 env [rsAddr, rsGamma] rsN
    (fun n => addDynProduct env [n, 3] 1) 5 fun values =>
      match values with
      | [values, gamma] => env.kernels.rms env.math values gamma
      | _ => none

def siluQ16Inplace (rsAddr rsN : Reg) : Exec env scope Bool :=
  inplaceQ16 env [rsAddr] rsN (fun n => addDynProduct env [n, 2] 1) 4
    fun values =>
      match values with
      | [values] => values.mapM env.kernels.silu
      | _ => none

def elemwiseMulQ16 (rsDst rsSrc rsN : Reg) : Exec env scope Bool :=
  inplaceQ16 env [rsDst, rsSrc] rsN (fun n => addDynEffort env (n / 2)) 5
    fun values =>
      match values with
      | [left, right] => FixedQ16.elementwiseMul left right
      | _ => none

def residualAddQ16 (rsDst rsSrc rsN : Reg) : Exec env scope Bool :=
  inplaceQ16 env [rsDst, rsSrc] rsN (fun n => addDynEffort env (n / 4)) 5
    fun values =>
      match values with
      | [left, right] => FixedQ16.residualAdd left right
      | _ => none

def matmulQ16 (rdAddr rsLhs rsRhs rsM rsK rsN : Reg) : Exec env scope Bool := do
  let some dst ← readInt env rdAddr | revert
  let some lhs ← readInt env rsLhs | revert
  let some rhs ← readInt env rsRhs | revert
  let some m ← readInt env rsM | revert
  let some k ← readInt env rsK | revert
  let some n ← readInt env rsN | revert
  if 0 < m ∧ 0 < k ∧ 0 < n ∧ m ≤ 32768 ∧ k ≤ 32768 ∧ n ≤ 32768 ∧ validMemSpan dst (m * n) then
    onSpans env [(lhs, m * k), (rhs, k * n)] (addDynProduct env [m, n, k] 1024)
      (q16MatmulSpace m k n) fun values =>
        match values with
        | [left, right] =>
          let result := (List.range (m * n).toNat).map fun cell =>
            FixedQ16.round16 ((List.range k.toNat).map fun i =>
              left.getD (cell / n.toNat * k.toNat + i) 0 *
                right.getD (i * n.toNat + cell % n.toNat) 0).sum
          if result.all FixedQ16.inRange then writeQ16 env dst result
          else revert
        | _ => revert
  else revert

def appendVecQ16 (rsDst rsPos rsSrc rsN : Reg) : Exec env scope Bool := do
  let some dst ← readInt env rsDst | revert
  let some pos ← readInt env rsPos | revert
  let some src ← readInt env rsSrc | revert
  let some n ← readInt env rsN | revert
  if 0 ≤ pos ∧ pos ≤ memoryMax ∧ validMemSpan src n then
    let target := dst + pos * n
    if maxInt / n < pos then revert
    else if ← memoryOffset dst pos n then
      if target < dst ∨ !validMemSpan target n then revert
      else
        onSpans env [(src, n)] (addDynEffort env n) (arrays 2 n) fun values =>
          match values with
          | [values] => writeQ16 env target values
          | _ => revert
    else revert
  else revert

def argmaxQ16 (rd rsAddr rsN : Reg) : Exec env scope Bool := do
  let some addr ← readInt env rsAddr | revert
  let some n ← readInt env rsN | revert
  onSpans env [(addr, n)] (addDynEffort env (n / 2)) (arrays 2 n)
    fun values =>
      match values with
      | [values] => put rd (.vInt (argmax values))
      | _ => revert

def ropeApplyQ16 (rsAddr rsNDim rsPos rsBase : Reg) : Exec env scope Bool := do
  let some addr ← readInt env rsAddr | revert
  let some n ← readInt env rsNDim | revert
  let some pos ← readInt env rsPos | revert
  if 0 ≤ pos ∧ 0 < n ∧ n % 2 = 0 then
    let base ← getZ env rsBase
    onSpans env [(addr, n)] (addDynProduct env [n, 4] 1) (ropeSpace n)
      fun values =>
        match values with
        | [values] => writeResult env addr (env.kernels.rope values base pos)
        | _ => revert
  else revert

def attentionSizes (total queryHeads keyHeads headDim : Int) : Bool :=
  0 < total && total ≤ 8192 && 0 < queryHeads && queryHeads ≤ 256 &&
    0 < keyHeads && keyHeads ≤ 256 && 0 < headDim && headDim ≤ 1024 &&
    queryHeads % keyHeads = 0

def attentionKvQ16 (rsQ rsK rsV rsCtx rsT rsQHeads rsKvHeads rsHeadDim : Reg) :
    Exec env scope Bool := do
  let some q ← readInt env rsQ | revert
  let some k ← readInt env rsK | revert
  let some v ← readInt env rsV | revert
  let some ctx ← readInt env rsCtx | revert
  let some total ← readInt env rsT | revert
  let some queryHeads ← readInt env rsQHeads | revert
  let some keyHeads ← readInt env rsKvHeads | revert
  let some headDim ← readInt env rsHeadDim | revert
  let querySize := queryHeads * headDim
  let keySize := total * keyHeads * headDim
  if attentionSizes total queryHeads keyHeads headDim &&
      validMemSpan ctx querySize then
    onSpans env [(q, querySize), (k, keySize), (v, keySize)]
      (addDynProduct env [queryHeads, total, headDim, 4] 1)
      (attentionSpace total queryHeads keyHeads headDim) fun values =>
        match values with
        | [query, key, value] =>
          writeResult env ctx (env.kernels.attention query key value total
            queryHeads keyHeads headDim)
        | _ => revert
  else revert

end Vectors
end Vm
end LiteNode
