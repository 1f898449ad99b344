import LiteNode.Vm.Vectors

/-!
# Instructions on floating point numbers

Numbers are read from cells either as the bits of a floating point number or
as fixed-point numbers that are worked on as floating point ones.
-/

namespace LiteNode
namespace Vm

/-- The number whose bits an integer holds. -/
def zToFp64 (z : Int) : Float :=
  if fitsInt64 z then Float.ofBits (UInt64.ofNat (z % 2 ^ 64).toNat) else 0

def fp64ToZ (f : Float) : Int :=
  let bits : Int := f.toBits.toNat
  if 2 ^ 63 ≤ bits then bits - 2 ^ 64 else bits

def floatIsInteger (f : Float) : Bool := f.isFinite && f.floor == f

/-- Below every number. -/
def negInfinity : Float := -1 / 0

def qOne : Float := 65536

section Floats

variable (env : Env) {scope : Scope}

/-- Round to the nearest integer, away from zero. -/
def roundFloatToInt (f : Float) : Int :=
  if f.isNaN || floatIsInteger f then env.kernels.intOfFloat f
  else if 0 ≤ f then env.kernels.intOfFloat (f + 0.5)
  else -env.kernels.intOfFloat (-f + 0.5)

variable {env}

def memGetFp64 (cell : Int) : Exec env scope Float := do
  match ← findCell cell with
  | some (.vInt z) => return zToFp64 z
  | _ => return 0

def memSetFp64 (cell : Int) (f : Float) : Exec env scope Unit := storeCell cell (.vInt (fp64ToZ f))

variable (env)

/-- A cell as a native integer; it is zero where it does not fit. -/
def memGetInt (cell : Int) : Exec env scope Int := do
  let z ← cellNumber env cell
  return if fitsInt z then z else 0

/-- A cell as a fixed-point number. -/
def memGetF (cell : Int) : Exec env scope Float := return Float.ofInt (← memGetInt env cell) / qOne

/-- Store a number as a fixed-point one. -/
def memSetF (cell : Int) (f : Float) : Exec env scope Unit :=
  storeCell cell (.vInt (roundFloatToInt env (f * qOne)))

def sumFloats (values : List Float) : Float := values.foldl (· + ·) 0

def expLut (rd rsX : Reg) : Exec env scope Bool := do
  let x ← getZ env rsX
  let xi := if fitsInt x then x else 0
  let xi := max (-8 * 65536) (min (8 * 65536) xi)
  let e := (Float.ofInt xi / qOne).exp
  put rd (.vInt (roundFloatToInt env (e * qOne)))

def softmaxInplace (rsAddr rsN : Reg) : Exec env scope Bool := do
  let addr ← getInt env rsAddr
  let n ← getInt env rsN
  require env [test env (0 < n && n ≤ 131072), memorySpan false addr [n],
      addDynProduct env [n, 8] 1, reserveVectors env (arrays 2 n)] do
    let arr ← collect env (fun i => memGetInt env (addr + i)) n.toNat 0
    let maxV := arr.foldl max (arr.headD 0)
    let exps := arr.map fun v => (Float.ofInt (wrapInt (v - maxV)) / qOne).exp
    let sum := sumFloats exps
    if sum ≤ 0 then revert
    else
      forEach env (fun i => memSetF env (addr + i) (exps.getD i 0 / sum)) n.toNat 0
      return true

def layernormInplace (rsAddr rsN rsGamma rsBeta : Reg) : Exec env scope Bool := do
  let addr ← getInt env rsAddr
  let n ← getInt env rsN
  let gamma ← getInt env rsGamma
  let beta ← getInt env rsBeta
  require env [test env (0 < n && n ≤ 131072), memorySpan false addr [n],
      memorySpan false gamma [n], memorySpan false beta [n],
      addDynProduct env [n, 4] 1, reserveVectors env (arrays 1 n)] do
    let arr ← collect env (fun i => memGetF env (addr + i)) n.toNat 0
    let mean := sumFloats arr / Float.ofInt n
    let var := sumFloats (arr.map fun v => (v - mean).pow 2) / Float.ofInt n
    let invStd := 1 / (var + 1e-5).sqrt
    forEach env (fun i => do
      let g ← memGetF env (gamma + i)
      let b ← memGetF env (beta + i)
      memSetF env (addr + i) (g * ((arr.getD i 0 - mean) * invStd) + b))
      n.toNat 0
    return true

def rmsnormInplace (rsAddr rsN rsGamma : Reg) : Exec env scope Bool := do
  let addr ← getInt env rsAddr
  let n ← getInt env rsN
  let gamma ← getInt env rsGamma
  require env [test env (0 < n && n ≤ 131072), memorySpan false addr [n],
      memorySpan false gamma [n], addDynProduct env [n, 3] 1, reserveVectors env (arrays 1 n)] do
    let arr ← collect env (fun i => memGetF env (addr + i)) n.toNat 0
    let meanSq := sumFloats (arr.map fun v => v * v) / Float.ofInt n
    let invRms := 1 / (meanSq + 1e-6).sqrt
    forEach env (fun i => do
      let g ← memGetF env (gamma + i)
      memSetF env (addr + i) (g * arr.getD i 0 * invRms)) n.toNat 0
    return true

def siluInplace (rsAddr rsN : Reg) : Exec env scope Bool := do
  let addr ← getInt env rsAddr
  let n ← getInt env rsN
  require env [test env (0 < n && n ≤ 131072), memorySpan false addr [n],
      addDynProduct env [n, 2] 1] do
    forEach env (fun i => do
      match ← findCell (addr + i) with
      | none => return ()
      | some value =>
        let z ← readNumber env value
        if fitsInt z then
          let x := Float.ofInt z / qOne
          memSetF env (addr + i) (x * (1 / (1 + (-x).exp)))
        else return ()) n.toNat 0
    return true

/-- Turn the pairs of a vector; its halves are the two sides of the pairs. -/
def rotate (get : Int → Exec env scope Float) (store : Int → Float → Exec env scope Unit)
    (addr n pos : Int) (base : Float) : Exec env scope Bool := do
  let half := n / 2
  forEach env (fun i => do
    let expTerm := 2 * Float.ofNat i / Float.ofInt n
    let angle := Float.ofInt pos * (1 / base.pow expTerm)
    let xRe ← get (addr + i)
    let xIm ← get (addr + i + half)
    store (addr + i) (xRe * angle.cos - xIm * angle.sin)
    store (addr + i + half) (xRe * angle.sin + xIm * angle.cos)) half.toNat 0
  return true

/-- Checks of a rotation, which is charged by its width. -/
def rotationOk (addr n pos width : Int) : List (Exec env scope Bool) :=
  [test env (0 < n && n ≤ 131072 && n % 2 = 0), test env (0 ≤ pos),
    memorySpan false addr [n], addDynProduct env [n, width] 1]

def ropeApply (rsAddr rsNDim rsPos rsBase : Reg) : Exec env scope Bool := do
  let addr ← getInt env rsAddr
  let n ← getInt env rsNDim
  let pos ← getInt env rsPos
  let baseQ ← getZ env rsBase
  require env (rotationOk env addr n pos 4) do
    let base := if fitsInt baseQ then Float.ofInt baseQ / qOne else 10000
    rotate env (memGetF env) (memSetF env) addr n pos base

def ropeApplyFp (rsAddr rsNDim rsPos rsBase : Reg) : Exec env scope Bool := do
  let addr ← getInt env rsAddr
  let n ← getInt env rsNDim
  let pos ← getInt env rsPos
  let base ← getZ env rsBase
  require env (rotationOk env addr n pos 8) do
    rotate env memGetFp64 memSetFp64 addr n pos (zToFp64 base)

def getFp64s (addr : Int) (count : Nat) : Exec env scope (List Float) :=
  collect env (fun i => memGetFp64 (addr + i)) count 0

def matmulFp (rdAddr rsLhs rsRhs rsM rsK rsN : Reg) : Exec env scope Bool := do
  let dst ← getInt env rdAddr
  let lhs ← getInt env rsLhs
  let rhs ← getInt env rsRhs
  let m ← getInt env rsM
  let k ← getInt env rsK
  let n ← getInt env rsN
  require env [
      test env (0 < m && 0 < k && 0 < n && m ≤ 32768 && k ≤ 32768 && n ≤ 32768),
      memorySpan true dst [m, n], memorySpan false lhs [m, k],
      memorySpan false rhs [k, n], addDynProduct env [m, n, k] 512,
      reserveVectors env (matmulSpace m k n)] do
    let left ← getFp64s env lhs (m * k).toNat
    let right ← getFp64s env rhs (k * n).toNat
    let result := (List.range (m * n).toNat).map fun cell =>
      sumFloats ((List.range k.toNat).map fun i =>
        left.getD (cell / n.toNat * k.toNat + i) 0 *
          right.getD (i * n.toNat + cell % n.toNat) 0)
    forEach env (fun i => memSetFp64 (dst + i) (result.getD i 0)) (m * n).toNat 0
    return true

def rmsnormFp (rsAddr rsN rsGamma : Reg) : Exec env scope Bool := do
  let addr ← getInt env rsAddr
  let n ← getInt env rsN
  let gamma ← getInt env rsGamma
  require env [test env (0 < n && n ≤ 131072), memorySpan false addr [n],
      memorySpan false gamma [n], addDynProduct env [n, 4] 1, reserveVectors env (arrays 1 n)] do
    let arr ← getFp64s env addr n.toNat
    let meanSq := sumFloats (arr.map fun v => v * v) / Float.ofInt n
    let invRms := 1 / (meanSq + 1e-5).sqrt
    forEach env (fun i => do
      let g ← memGetFp64 (gamma + i)
      memSetFp64 (addr + i) (g * arr.getD i 0 * invRms)) n.toNat 0
    return true

def siluFp (rsAddr rsN : Reg) : Exec env scope Bool := do
  let addr ← getInt env rsAddr
  let n ← getInt env rsN
  require env [test env (0 < n && n ≤ 131072), memorySpan false addr [n],
      addDynProduct env [n, 3] 1] do
    forEach env (fun i => do
      let x ← memGetFp64 (addr + i)
      memSetFp64 (addr + i) (x * (1 / (1 + (-x).exp)))) n.toNat 0
    return true

/-- Work on two vectors, cell by cell. -/
def pairwiseFp (f : Float → Float → Float) (cost : Int → Int)
    (rsDst rsSrc rsN : Reg) : Exec env scope Bool := do
  let dst ← getInt env rsDst
  let src ← getInt env rsSrc
  let n ← getInt env rsN
  require env [test env (0 < n && n ≤ 1048576), memorySpan false dst [n],
      memorySpan false src [n], addDynEffort env (cost n)] do
    forEach env (fun i => do
      let a ← memGetFp64 (dst + i)
      let b ← memGetFp64 (src + i)
      memSetFp64 (dst + i) (f a b)) n.toNat 0
    return true

/-- The bytes of a text in base64, which are kept once they were decoded. -/
def cachedDecode (text key : Bytes) : Exec env scope (Option Bytes) := do
  match (← read).decodedChunkCache.find? key with
  | some raw => return some raw
  | none =>
    match env.decode64 text with
    | none => return none
    | some raw =>
      update fun st => { st with decodedChunkCache := st.decodedChunkCache.replace key raw }
      return some raw

def loadInt8Fp (rsDst rsSrc rsOff rsN rsScale : Reg) : Exec env scope Bool := do
  let dst ← getInt env rsDst
  let text := (← getr rsSrc).toString
  let off ← getInt env rsOff
  let n ← getInt env rsN
  let scale := zToFp64 (← getZ env rsScale)
  require env [test env (0 < n && n ≤ 1048576), decodeSpan env dst off n,
      chargeBytes env 0 0 [.scan text.length, .allocate 32]] do
    -- the key holds the text itself, beside its hash
    let cached := ((← read).decodedChunkCache.find? text).isSome
    let cost (size : Int) : Int := if cached then n / 2 else n + size / 4
    if ← reserveDecode env text n 64 cached fun size => return some (cost size)
    then
      match ← cachedDecode env text text with
      | none => revert
      | some raw =>
        if off < 0 ∨ raw.length < off ∨ raw.length - off < n then revert
        else if ← addDynEffort env (cost raw.length) then
          let bytes := signedSpan raw off n
          forEach env (fun i =>
            memSetFp64 (dst + i) (Float.ofInt (bytes.getD i 0) * scale))
            n.toNat 0
          return true
        else revert
    else revert

def vecdotFp (rd rsA rsB rsN : Reg) : Exec env scope Bool := do
  let a ← getInt env rsA
  let b ← getInt env rsB
  let n ← getInt env rsN
  require env [test env (0 < n && n ≤ 1048576), memorySpan false a [n],
      memorySpan false b [n], addDynEffort env (n / 8), reserveVectors env (arrays 2 n)] do
    let left ← getFp64s env a n.toNat
    let right ← getFp64s env b n.toNat
    put rd (.vInt (fp64ToZ (sumFloats (left.zipWith (· * ·) right))))

/-- Shares of one head of an attention. -/
def headScores (scores : List Float) : List Float :=
  let maxScore := scores.foldl (fun best score => if best < score then score else best) negInfinity
  let exps := scores.map fun score => (score - maxScore).exp
  let invSum := 1 / sumFloats exps
  exps.map (· * invSum)

def attentionHead (q k v ctx kvDim headDim : Int) (total kvHead qHead : Nat) :
    Exec env scope Unit := do
  let invSqrtD := 1 / (Float.ofInt headDim).sqrt
  let qOff := qHead * headDim
  let scores ← collect env (fun t => do
    let kOff := t * kvDim + kvHead * headDim
    let products ← collect env (fun d => do
      let qv ← memGetFp64 (q + qOff + d)
      let kv ← memGetFp64 (k + kOff + d)
      return qv * kv) headDim.toNat 0
    return sumFloats products * invSqrtD) total 0
  let scores := headScores scores
  forEach env (fun d => do
    let products ← collect env (fun t => do
      let value ← memGetFp64 (v + (t * kvDim + kvHead * headDim + d))
      return scores.getD t 0 * value) total 0
    memSetFp64 (ctx + qOff + d) (sumFloats products)) headDim.toNat 0

def attentionKvFp (rsQ rsK rsV rsCtx rsT rsQHeads rsKvHeads rsHeadDim : Reg) :
    Exec env scope Bool := do
  let q ← getInt env rsQ
  let k ← getInt env rsK
  let v ← getInt env rsV
  let ctx ← getInt env rsCtx
  let total ← getInt env rsT
  let qHeads ← getInt env rsQHeads
  let kvHeads ← getInt env rsKvHeads
  let headDim ← getInt env rsHeadDim
  require env [test env (attentionSizes total qHeads kvHeads headDim),
      memorySpan false q [qHeads, headDim], memorySpan false k [total, kvHeads, headDim],
      memorySpan false v [total, kvHeads, headDim], memorySpan false ctx [qHeads, headDim],
      addDynProduct env [qHeads, total, headDim, 4] 1, reserveVectors env (arrays 1 total)] do
    let group := (qHeads / kvHeads).toNat
    forEach env (fun qHead =>
      attentionHead env q k v ctx (kvHeads * headDim) headDim total.toNat
        (qHead / group) qHead) qHeads.toNat 0
    return true

def appendVecFp (rsDst rsPos rsSrc rsN : Reg) : Exec env scope Bool := do
  let dst ← getInt env rsDst
  let pos ← getInt env rsPos
  let src ← getInt env rsSrc
  let n ← getInt env rsN
  require env [
      test env (0 < n && n ≤ 1048576 && 0 ≤ pos && pos ≤ memoryMax),
      memorySpan false src [n], memoryOffset dst pos n, addDynEffort env n] do
    forEach env (fun i => do
      let v ← memGetFp64 (src + i)
      memSetFp64 (dst + pos * n + i) v) n.toNat 0
    return true

def argmaxFp (rd rsAddr rsN : Reg) : Exec env scope Bool := do
  let addr ← getInt env rsAddr
  let n ← getInt env rsN
  require env [test env (0 < n && n ≤ 1048576), memorySpan false addr [n],
      addDynEffort env (n / 2)] do
    let values ← getFp64s env addr n.toNat
    -- the first number only counts where it is above the lowest one
    put rd (.vInt ((argmax (negInfinity :: values) - 1 : Nat)))

end Floats
end Vm
end LiteNode
