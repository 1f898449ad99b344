import LiteNode.Vm.Operands

/-!
# Instructions on registers and memory

Arithmetic, comparisons, texts, hashes, cells of memory and what the program
is told of its context.
-/

namespace LiteNode
namespace Vm

open ByteWork (Request)

namespace TextWork

/-- Shorten what is matched until the byte of the text goes on with it. There
is no result where an index is out of bounds or the rounds do not suffice. -/
def fallback (pattern : Bytes) (links : List Nat) (text : Bytes) (index : Nat) :
    Nat → Nat → Option Nat
  | 0, _ => none
  | rounds + 1, matched => do
    if 0 < matched then
      if (← text[index]?) ≠ (← pattern[matched]?) then
        fallback pattern links text index rounds (← links[matched - 1]?)
      else return matched
    else return matched

/-- What both loops do with one byte. -/
def advance (rounds : Nat) (pattern : Bytes) (links : List Nat) (text : Bytes)
    (index matched : Nat) : Option Nat := do
  let matched ← fallback pattern links text index rounds matched
  if (← text[index]?) = (← pattern[matched]?) then return matched + 1
  else return matched

/-- Enter one link into the table. -/
def link (rounds : Nat) (pattern : Bytes) (table : List Nat × Nat) (index : Nat) :
    Option (List Nat × Nat) := do
  let matched ← advance rounds pattern table.1 pattern index table.2
  if index < table.1.length then return (table.1.set index matched, matched)
  else none

def matchFrom (rounds : Nat) (pattern : Bytes) (links : List Nat) (text : Bytes) :
    Nat → Nat → Nat → Option (Nat × Nat)
  | 0, _, _ => none
  | steps + 1, index, matched => do
    if index < text.length ∧ matched < pattern.length then
      matchFrom rounds pattern links text steps (index + 1)
        (← advance rounds pattern links text index matched)
    else return (index, matched)

/-- The place that the budgeted search finds, each loop within some rounds. -/
def find (rounds : Nat) (text pattern : Bytes) : Option Int := do
  if pattern.length = 0 then return 0
  else if text.length < pattern.length then return -1
  else
    let table ← (List.range' 1 (pattern.length - 1)).foldlM (link rounds pattern)
      (List.replicate pattern.length 0, 0)
    let (index, matched) ← matchFrom rounds pattern table.1 text rounds 0 0
    return if matched = pattern.length then (index : Int) - pattern.length else -1

/-- The place that the unbudgeted search finds. -/
def scan (text pattern : Bytes) : Int :=
  (List.range (text.length - pattern.length + 1)).foldl
    (fun found i => if found = -1 ∧ (text.drop i).take pattern.length = pattern then i else found)
    (-1)

end TextWork

section Plain

variable (env : Env) {scope : Scope}

/-- An operation on two integers. -/
def arith (f : Int → Int → Int) (rd rs1 rs2 : Reg) : Exec env scope Bool := do
  put rd (.vInt (f (← getZ env rs1) (← getZ env rs2)))

/-- An operation that has no result at a zero divisor. -/
def divide (f : Int → Int → Int) (rd rs1 rs2 : Reg) : Exec env scope Bool := do
  let d ← getZ env rs2
  if d = 0 then revert else put rd (.vInt (f (← getZ env rs1) d))

def unary (f : Int → Int) (rd rs : Reg) : Exec env scope Bool := do
  put rd (.vInt (f (← getZ env rs)))

/-- The last 64 bits of an integer. -/
def mask64 (z : Int) : Nat := (z % 2 ^ 64).toNat

def bitwise (f : Nat → Nat → Nat) (rd ra rb : Reg) : Exec env scope Bool := do
  put rd (.vInt (f (mask64 (← getZ env ra)) (mask64 (← getZ env rb))))

def shift (f : Nat → Nat → Nat) (rd ra rb : Reg) : Exec env scope Bool := do
  let a := mask64 (← getZ env ra)
  let n ← getInt env rb
  if n < 0 ∨ 63 < n then put rd (.vInt 0)
  else put rd (.vInt (f a n.toNat))

def shiftLeft (a n : Nat) : Nat := a * 2 ^ n % 2 ^ 64

def shiftRight (a n : Nat) : Nat := a / 2 ^ n

def isOpaque (value : Value) : Bool := isCipher value || isPubKey value

/-- Whether two values are the same; ciphers and keys are compared by
identity, and never equal other values. -/
def sameValue (a b : Value) : Bool :=
  match a, b with
  | .vCipher a, .vCipher b => a = b
  | .vPubKey a, .vPubKey b => a = b
  | a, b => if isOpaque a || isOpaque b then false else a.toString = b.toString

def eqValues (rd rs1 rs2 : Reg) : Exec env scope Bool := do
  put rd (.vBool (sameValue (← getr rs1) (← getr rs2)))

def neqValues (rd rs1 rs2 : Reg) : Exec env scope Bool := do
  put rd (.vBool !(sameValue (← getr rs1) (← getr rs2)))

def compareValues (test : Int → Int → Bool) (rd rs1 rs2 : Reg) : Exec env scope Bool := do
  let a ← getr rs1
  let b ← getr rs2
  put rd (.vBool (!(isOpaque a || isOpaque b) && test (toZ env a) (toZ env b)))

variable {env}

/-- Whether a span of cells can be addressed, as a byte budget demands. -/
def memorySpan (sized : Bool) (base : Int) (factors : List Int) : Exec env scope Bool := do
  if ← bounded then
    match Cost.product factors with
    | none => return false
    | some count =>
      return 0 ≤ base && 0 ≤ count &&
        (if sized then base ≤ maxInt - count
        else count = 0 || base ≤ maxInt - (count - 1))
  else return true

def memoryOffset (base index width : Int) : Exec env scope Bool := do
  if ← bounded then
    match Cost.product [index, width] with
    | none => return false
    | some shift =>
      return !(width ≤ 0 || maxInt - shift < base) &&
        (0 ≤ base + shift && base + shift ≤ maxInt - (width - 1))
  else return true

variable (env)

/-- Load a cell, which in strict mode was written before. -/
def loadCell (rd : Reg) (idx : Int) : Exec env scope Bool := do
  match ← findCell idx with
  | some value => put rd value
  | none => if env.strictValues then revert else put rd (.vInt 0)

def mload (rd : Reg) (idx : Int) : Exec env scope Bool := do
  if ← memorySpan false idx [1] then loadCell env rd idx else revert

def mstore (idx : Int) (rs : Reg) : Exec env scope Bool := do
  if ← memorySpan true idx [1] then
    growCell idx (← getr rs)
    return true
  else revert

def mloadr (rd rsIdx : Reg) : Exec env scope Bool := do
  let idx ← getInt env rsIdx
  if idx < 0 ∨ memoryMax < idx then revert else loadCell env rd idx

def mstorer (rsIdx rsVal : Reg) : Exec env scope Bool := do
  let idx ← getInt env rsIdx
  if idx < 0 ∨ memoryMax < idx then revert
  else
    growCell idx (← getr rsVal)
    return true

def splitOnByte (byte : UInt8) (text : Bytes) : List Bytes :=
  text.foldr (fun b parts =>
    if b = byte then [] :: parts
    else
      match parts with
      | part :: rest => (b :: part) :: rest
      | [] => [[b]]) [[]]

/-- The parts of a text that are not blank, without blanks around them. -/
def intParts (text : Bytes) : List Bytes := ((splitOnByte 44 text).map env.trim).filter (· ≠ [])

/-- Store the numbers of some parts, from a cell on. -/
def parseParts (base : Int) (count : Nat) : List Bytes → Exec env scope (Option Nat)
  | [] => return some count
  | part :: rest => do
    let idx := base + count
    if memoryMax < idx then return none
    else
      let strict := env.strictValues && (env.zOfString part).isNone
      if !strict then storeCell idx (.vInt ((env.zOfString part).getD 0))
      update fun st => { st with memorySize := max st.memorySize (idx + 1) }
      if ← addDynEffort env 2 then
        if strict then return none else parseParts base (count + 1) rest
      else return none

/-- Cost of scanning a text and of reading some of it as numbers. -/
def quoteParts (text : Bytes) (count chars : Int) : Option (Int × List Request) :=
  (ByteWork.parsing chars count).map fun (base, requests) => (base, .scan text.length :: requests)

/-- Count the parts while their cost fits and there is room for them. -/
def countParts (text : Bytes) (capacity : Int) (count chars : Int) :
    List Bytes → Exec env scope (Option (Int × Int))
  | [] => return some (count, chars)
  | part :: rest => do
    if capacity ≤ count ∨ maxInt - part.length < chars then return none
    else
      match quoteParts text (count + 1) (chars + part.length) with
      | none => return none
      | some (base, requests) =>
        if ← fits env base requests then
          countParts text capacity (count + 1) (chars + part.length) rest
        else return none

/-- The numbers of the parts; in strict mode all of them are numbers. -/
def readParts (parts : List Bytes) : Option (List Int) :=
  if env.strictValues then parts.mapM env.zOfString
  else some (parts.map fun part => (env.zOfString part).getD 0)

def parseIntegers (text : Bytes) (base : Int) : Exec env scope (Option (List Int)) := do
  let parts := intParts env text
  if ← chargeBytes env 0 0 [.scan text.length] then
    match quoteParts text 0 0 with
    | none => return none
    | some (cost, requests) =>
      if ← fits env cost requests then
        match ← countParts env text (memoryMax - base + 1) 0 0 parts with
        | none => return none
        | some (count, chars) =>
          match quoteParts text count chars with
          | none => return none
          | some (cost, requests) =>
            if ← chargeBytes env cost 0 requests then return readParts env parts
            else return none
      else return none
  else return none

variable {env}

/-- Write values to cells that follow each other. -/
def storeCells (base : Int) : List Value → Exec env scope Unit
  | [] => return ()
  | value :: rest => do
    storeCell base value
    storeCells (base + 1) rest

def growCells (base : Int) : List Value → Exec env scope Unit
  | [] => return ()
  | value :: rest => do
    growCell base value
    growCells (base + 1) rest

variable (env)

def parseInts (rdCount rsString rsBase : Reg) : Exec env scope Bool := do
  let text := (← getr rsString).toString
  let number ← getZ env rsBase
  if ← bounded then
    if !fitsInt number || number < 0 || memoryMax < number then revert
    else
      match ← parseIntegers env text number with
      | none => revert
      | some values =>
        growCells number (values.map .vInt)
        put rdCount (.vInt values.length)
  else
    let base ← toInt number
    if base < 0 ∨ memoryMax < base then revert
    else
      match ← parseParts env base 0 (intParts env text) with
      | none => revert
      | some count => put rdCount (.vInt count)

def isHex (text : Bytes) : Bool :=
  text ≠ [] && text.all fun c => (48 ≤ c && c ≤ 57) || (97 ≤ c && c ≤ 102) || (65 ≤ c && c ≤ 70)

def ofText (test : Bytes → Bool) (rd rs : Reg) : Exec env scope Bool := do
  put rd (.vBool (test (← getr rs).toString))

def statePathKey (rd rs : Reg) : Exec env scope Bool := do
  match env.pathKeyOfStateRef (← getr rs).toString with
  | some key => put rd (.vString key)
  | none => revert

def assertAddr (rs : Reg) : Exec env scope Bool := do
  if isValidAddr (← getr rs).toString then return true
  else revertWithReason env (Bytes.ofAscii "invalid address")

/-- What comes of bytes is bytes where the program asks for it. -/
def textResult (typed : Bool) (text : Bytes) : Value :=
  if env.byteResult = .typedBytes && typed then .vBytes text else .vString text

def isBytes : Value → Bool
  | .vBytes _ => true
  | _ => false

def substr (rd rs rstart rlen : Reg) : Exec env scope Bool := do
  let source ← getr rs
  let text := source.toString
  let size : Int := text.length
  if ← addDynEffort env (size / 256) then
    let start ← getInt env rstart
    let len ← getInt env rlen
    let actual := if start < 0 ∨ size < start ∨ len < 0 then 0 else min len (size - start)
    if ← chargeBytes env 0 0 [.copy actual 0] then
      put rd (textResult env (isBytes source) ((text.drop start.toNat).take actual.toNat))
    else revert
  else revert

def indexof (rd rs rsearch : Reg) : Exec env scope Bool := do
  let text := (← getr rs).toString
  let pattern := (← getr rsearch).toString
  if ← addDynProduct env [text.length, max pattern.length 1] 1024 then
    if pattern.length = 0 then put rd (.vInt 0)
    else if text.length < pattern.length then put rd (.vInt (-1))
    else if ← bounded then
      if ← chargeBytes env 0 0 [.allocate (pattern.length * 8)] then
        match TextWork.find (text.length + 1) text pattern with
        | some found => put rd (.vInt found)
        | none => raise
      else revert
    else put rd (.vInt (TextWork.scan text pattern))
  else revert

def digest (hash : Bytes → Bytes) (rd rs : Reg) : Exec env scope Bool := do
  let text := (← getr rs).toString
  let cost : Int := text.length / 64
  if ← chargeBytes env cost cost [.copy 64 0] then put rd (.vString (hash text))
  else revert

/-- Bytes of a known length, as they are or in base64. -/
def decodeRawOrB64Len (expected : Nat) (text : Bytes) : Option Bytes :=
  if text.length = expected then some text
  else if expected % 3 ≠ 0 ∧ ByteWork.encodedSize expected ≠ some text.length then none
  else
    match env.decode64 text with
    | some raw => if raw.length = expected then some raw else none
    | none => none

def ed25519Ok (rd rpk rmsg rsig : Reg) : Exec env scope Bool := do
  match (← getr rpk).toBytes, (← getr rmsg).toBytes, (← getr rsig).toBytes with
  | some key, some message, some signature =>
    if ← addDynEffort env (message.length / 64) then
      let ok :=
        match decodeRawOrB64Len env 32 key, decodeRawOrB64Len env 64 signature with
        | some key, some signature => env.verifyEd25519 message signature key
        | _, _ => false
      put rd (.vBool ok)
    else revert
  | _, _, _ => revert

def concat (rd rs1 rs2 : Reg) : Exec env scope Bool := do
  let left ← getr rs1
  let right ← getr rs2
  let first := left.toString
  let second := right.toString
  if ← chargeBytes env 0 0 [.copy first.length second.length] then
    put rd (textResult env (isBytes left && isBytes right) (first ++ second))
  else revert

def strlen (rd rs : Reg) : Exec env scope Bool := do put rd (.vInt (← getr rs).toString.length)

def maxBlob : Nat := 10485760

def fstore (rdHash rsData : Reg) : Exec env .blob Bool := do
  if ← viewGuard env then
    let data := (← getr rsData).toString
    if maxBlob < data.length then
      Chained.change (fun st => { st with reverted := true }) (.overlong rfl)
      return false
    else
      let hash := env.sha256 data
      if ← bounded then
        if ← chargeBytes env 0 0
            [.write 64 data.length, .copy 64 0] then
          update fun st => { st with blobs := st.blobs.replace hash data }
          put rdHash (.vString hash)
        else revert
      else
        update fun st => { st with blobs := st.blobs.replace hash data }
        if ← addDynEffort env (data.length / 1024) then put rdHash (.vString hash)
        else revert
  else return false

def fload (rdData rsHash : Reg) : Exec env scope Bool := do
  match (← read).blobs.find? (← getr rsHash).toString with
  | some data =>
    if ← addDynEffort env (data.length / 1024) then put rdData (.vString data)
    else revert
  | none => put rdData (.vString [])

/-- Continue at another address. -/
abbrev goto (addr : Int) : Exec env scope Unit := update fun st => { st with pc := addr }

def jif (rs : Reg) (addr : Int) : Exec env scope Bool := do
  if (← getr rs).toBool then goto env addr
  return true

/-- Return from a call, or end the program. -/
def stop : Exec env scope Bool := do
  let st ← read
  match st.returnStack with
  | [] => return false
  | frame :: rest =>
    let result ← getr 0
    update fun st => { st with regs := frame.saved }
    setr frame.dest result
    update fun st => { st with returnStack := rest, pc := frame.retPc }
    return true

def callInt (rd : Reg) (label : Int) : Exec env scope Bool := do
  let st ← read
  if 8 ≤ st.returnStack.length then revert
  else
    update fun st => { st with returnStack := ⟨st.pc, rd, st.regs⟩ :: st.returnStack, pc := label }
    return true

def balance (rd rs : Reg) : Exec env scope Bool := do
  match ← getr rs with
  | .vAddr addr | .vString addr => put rd (.vInt (env.getBalance (← read) addr))
  | _ => put rd (.vInt 0)

def assert (rs : Reg) : Exec env scope Bool := do
  if (← getr rs).toBool then return true else revert

def emit (event : Bytes) (regs : List Reg) : Exec env scope Bool := do
  if 256 ≤ (← read).logs.length then revert
  else
    let values ← regs.mapM getr
    if ← appendEvent env
        { contract := env.address, depth := env.callDepth, event, values } then
      return true
    else revert

def capCheck (kind : Int) (reg : Reg) : Exec env scope Bool := do
  match ← getr reg with
  | .vCap cap =>
    if capValue kind (.vCap cap) && env.capLive cap then return true
    else revert
  | _ => revert

def transfer (rd ra rv : Reg) : Exec env scope Bool := do
  if ← viewGuard env then
    let toAddr := (← getr ra).toString
    if !isValidAddr toAddr then put rd (.vBool false)
    else
      let amount ← getZ env rv
      if amount < 0 then put rd (.vBool false)
      else if amount = 0 then put rd (.vBool true)
      else
        let ok ← answered (env.doTransfer (← read) env.address toAddr amount)
        put rd (.vBool ok)
  else return false

end Plain
end Vm
end LiteNode
