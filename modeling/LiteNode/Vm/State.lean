import LiteNode.Data.Chained
import LiteNode.Data.Ordered
import LiteNode.Vm.Effort
import LiteNode.Vm.Instr

/-!
# The state of the virtual machine

What a run changes, what it is given, and the steps every instruction is made
of. Computations change the state and may stop early: by an exception that a
run catches, by one that it lets pass, or to wait for a worker.
-/

namespace LiteNode
namespace Vm

def stateRefKeySuffix : Bytes := Bytes.ofAscii ":state_ref"

def memberPrefix (objectRef : Bytes) : Bytes :=
  Bytes.ofAscii "object_member:" ++ objectRef ++ Bytes.ofAscii ":"

def memberRefOfKey (objectRef rawKey : Bytes) : Option Bytes :=
  let pref := memberPrefix objectRef
  if pref.isPrefixOf rawKey && stateRefKeySuffix.isSuffixOf rawKey then
    let memberLen := rawKey.length - pref.length - stateRefKeySuffix.length
    if 0 < memberLen then some ((rawKey.drop pref.length).take memberLen)
    else none
  else none

def isMemberKey (rawKey : Bytes) : Bool :=
  (Bytes.ofAscii "object_member:").isPrefixOf rawKey && stateRefKeySuffix.isSuffixOf rawKey

def storedKeys (storage : Table Bytes Bytes) : List Bytes := storage.toList.map Prod.fst

def memberKeys (storage : Table Bytes Bytes) : List Bytes :=
  sortUniq ((storedKeys storage).filter isMemberKey)

/-- First place in a part of a sorted list that is not below a target. -/
def lowerBoundIn (values : List Bytes) (target : Bytes) (low high : Nat) : Nat :=
  if low < high then
    let middle := low + (high - low) / 2
    if values.getD middle [] < target then lowerBoundIn values target (middle + 1) high
    else lowerBoundIn values target low middle
  else low
termination_by high - low

def lowerBound (values : List Bytes) (target : Bytes) : Nat :=
  lowerBoundIn values target 0 values.length

/-- The members of an object among sorted keys. -/
def memberRefs (keys : List Bytes) (objectRef : Bytes) : List Bytes :=
  let pref := memberPrefix objectRef
  ((keys.drop (lowerBound keys pref)).takeWhile
    fun rawKey => pref.isPrefixOf rawKey).filterMap (memberRefOfKey objectRef)

/-- The members of an object, looked up in storage without an index. -/
def memberRefsOfStorage (storage : Table Bytes Bytes) (objectRef : Bytes) : List Bytes :=
  sortUniq ((storedKeys storage).filterMap (memberRefOfKey objectRef))

def stateRefKey (objectRef memberRef : Bytes) : Bytes :=
  memberPrefix objectRef ++ memberRef ++ stateRefKeySuffix

inductive UndoEntry
  | undoMarker (id : Int)
  | undoWrite (key : Bytes) (old : Option Bytes)
  | undoClose (cap : Cap)
  deriving DecidableEq

structure MemberIndex where
  keys : List Bytes
  refs : Table Bytes (List Bytes)

/-- Return address, destination register and saved registers of a call. -/
structure Frame where
  retPc : Int
  dest : Reg
  saved : Vector Value 64

structure State where
  regs : Vector Value 64
  memory : Table Int Value
  memorySize : Int
  storage : Table Bytes Bytes
  memberIndex : Option MemberIndex
  effortUsed : Int
  reverted : Bool
  outputReady : Bool
  pc : Int
  logs : List EventRecord
  undoStack : List UndoEntry
  undoId : Int
  returnStack : List Frame
  blobs : Table Bytes Bytes
  decodedChunkCache : Table Bytes Bytes
  closes : List Cap
  /-- Bytes left, which sub-calls share. -/
  budget : Option ByteWork.Budget
  /-- Memory spent on keys and ciphers, where it is limited. -/
  fheMemory : Option Int

inductive ProofKind
  | zero | range
  | claim (commitment : Bytes)
  deriving DecidableEq

inductive FheRequest
  | loadKey (raw : Bytes) | readKey (raw : Bytes) | writeKey (key : Nat)
  | readCipher (strict cap : Bool) (raw : Bytes) | writeCipher (cipher : Nat)
  | add (key left right : Nat) | sub (key left right : Nat)
  | mul (math work : Bool) (key left right : Nat) (seed : Bytes)
  | scale (math : Bool) (key cipher : Nat) (amount : Int)
  | divide (key cipher : Nat) (amount : Int)
  | addInt (math : Bool) (key cipher : Nat) (amount : Int)
  | subInt (math : Bool) (key cipher : Nat) (amount : Int)
  | commit (key cipher : Nat)
  | pack (kind : ProofKind) (key cipher : Nat) (proof : Bytes)
  deriving DecidableEq

inductive ProofRequest
  | packed (raw : Bytes)
  | groth16 (key proof inputs : Bytes)
  deriving DecidableEq

inductive FheValue
  | key (key : Nat) | cipher (cipher : Nat) | text (text : Bytes)
  | check (request : ProofRequest) | verified (ok : Bool)
  deriving DecidableEq

inductive Resource
  | memory | stack | host
  deriving DecidableEq

inductive FheError
  | invalid
  | resource (resource : Resource)
  deriving DecidableEq

inductive FheVerification
  | verified | rejected | unavailable
  deriving DecidableEq

/-- What an instruction waits for. -/
inductive Suspension
  | proofWait (rd : Reg) (request : ProofRequest)
  | fheWait (rd : Reg) (reason : Option Bytes) (request : FheRequest)
  | callWait (rd : Reg) (target methodName : Bytes) (args : List Value)
  | spawnWait (rd : Reg) (code : Bytes) (nonce : Int) (params : List Value)

inductive Crash
  /-- Overflow, invalid argument, failure, not found, division by zero. -/
  | caught
  /-- Any other exception. -/
  | fatal

/-- How a run ends early. -/
inductive Halt
  | caught
  | fatal
  | suspend (request : Suspension)

/-- What an instruction may change. -/
inductive Scope
  | plain | blob | closing | erasing | storing | marking | waiting | calling
  deriving DecidableEq

/-- Whether an instruction may wait for a worker. -/
def Scope.waits : Scope → Bool
  | .waiting | .calling => true
  | _ => false

/-- How a computation stops early; only some instructions wait. -/
inductive Stop (scope : Scope)
  | caught
  | fatal
  | suspend (waits : scope.waits = true) (request : Suspension)

def Stop.halt : Stop scope → Halt
  | .caught => .caught
  | .fatal => .fatal
  | .suspend _ request => .suspend request

structure Subcall where
  returnValue : Value
  effortUsed : Int
  events : List EventRecord

structure Spawned where
  spawnedAddr : Bytes
  effortUsed : Int
  events : List EventRecord

/-- What a sub-call may share with its caller. -/
structure Shared where
  storage : Table Bytes Bytes
  budget : Option ByteWork.Budget
  fheMemory : Option Int

structure CallScope where
  depth : Int
  limit : Option Int

inductive ByteResult
  | stringBytes | typedBytes
  deriving DecidableEq

inductive FheKey
  | keyBytes (raw : Bytes)
  | keyValue (key : Nat)

inductive FheCapability
  | loadPk | cipherArithmetic | verifyZero | verifyRange | verifyBound
  | commit | pedersen | cipherSerde | pubkeySerde
  deriving DecidableEq

inductive ViewOp
  | copy | join | product

inductive ObjectWrite
  | set (key value : Bytes)
  | del (key : Bytes)

/-- Numeric code on fixed-point numbers, and on floating point numbers that
may be out of the range of integers. -/
structure Kernels where
  exp : Int → Int
  silu : Int → Option Int
  layer : Bool → List Int → List Int → List Int → Option (List Int)
  rms : Bool → List Int → List Int → Option (List Int)
  rope : List Int → Int → Int → Option (List Int)
  attention : List Int → List Int → List Int → Int → Int → Int → Int → Option (List Int)
  intOfFloat : Float → Int

/-- Code outside the machine that works on ciphers, keys and proofs. -/
structure Fhe where
  eval : State → FheRequest → Except FheError FheValue
  direct : State → FheRequest → Except FheError FheValue
  keyEffort : FheRequest → Option Int
  keyWriteEffort : Bool → Nat → Option Int
  keyReadEffort : Bool → Bytes → Option Int
  keyMemory : Nat → Int
  keyDecodeMemory : Bytes → Option Int
  cipherDecodeMemory : Bytes → Int
  memoryLimit : Int
  viewPlan : ViewOp → Int → Nat → Nat → Option Nat → Option (Int × Int)
  slotsMatch : Nat → Nat → Bool
  cipherAllowed : Nat → Bool
  zeroProof : Bytes → Option Bytes
  rangeProof : Bytes → Option Bytes
  commitment : Bytes → Option Bytes
  laneFree : State → Bool
  verifyProof : State → ProofRequest → FheVerification
  groth16 : Bytes → Bytes → Bytes → Bool
  pedersenCommit : Int → Bytes → Option Bytes
  pedersenAdd : Bytes → Bytes → Option Bytes
  pedersenSub : Bytes → Bytes → Option Bytes
  pedersenIdentity : Option Bytes
  maxProofBytes : Nat

/-- The program's account and context, and the code outside the machine. What
others answer may depend on the state in which they are asked: effort rises
with each instruction, so no two questions are asked in the same state. -/
structure Env where
  effortLimit : Int
  caller : Bytes
  origin : Bytes
  address : Bytes
  value : Int
  intMode : IntWork.Mode
  byteResult : ByteResult
  callDepth : Int
  isView : Bool
  strictValues : Bool
  storageKinds : Table Bytes StorageKind
  pointOps : Bool
  math : Bool
  objectCost : Bool
  fheWork : Bool
  proofExec : Bool
  currentEpoch : Int
  epochTimeMs : Int
  treeHash : Bytes
  nodeId : Bytes
  txHash : Bytes
  getBalance : State → Bytes → Int
  doTransfer : State → Bytes → Bytes → Int → Except Crash Bool
  callContract : State → Bytes → Bytes → Bytes → List Value → CallScope →
    Except Crash (Except String Subcall) × Shared
  deployContract : State → Bytes → Bytes → Int → CallScope → List Value →
    Except Crash (Except String Spawned) × Shared
  getFhePubkey : State → Bytes → Option FheKey
  allowFheCapability : FheCapability → Bool
  capLive : Cap → Bool
  zOfString : Bytes → Option Int
  intOfString : Bytes → Option Int
  trim : Bytes → Bytes
  sha256 : Bytes → Bytes
  sha256Raw : Bytes → Bytes
  keccak256 : Bytes → Bytes
  decode64 : Bytes → Option Bytes
  encode64 : Bytes → Bytes
  verifyEd25519 : Bytes → Bytes → Bytes → Bool
  pathKeyOfStateRef : Bytes → Option Bytes
  normalizeStateRef : Bytes → Option Bytes
  applyObject : List Bytes → Int → Table Bytes Bytes → List Bytes →
    Except String (List ObjectWrite × Int)
  kernels : Kernels
  fhe : Fhe

/-- Nothing changed of what is stored, of what undoes it and of the ending. -/
structure SameBooks (before after : State) : Prop where
  storage : after.storage = before.storage
  memberIndex : after.memberIndex = before.memberIndex
  undoStack : after.undoStack = before.undoStack
  undoId : after.undoId = before.undoId
  closes : after.closes = before.closes
  reverted : after.reverted = before.reverted

/-- An index holds the members that storage has. -/
structure MemberIndex.Of (index : MemberIndex) (storage : Table Bytes Bytes) : Prop where
  keys : index.keys = memberKeys storage
  refs : ∀ objectRef members, index.refs.find? objectRef = some members →
    members = memberRefs index.keys objectRef

def State.replaced (st : State) (key value : Bytes) : State :=
  { st with memberIndex := none, storage := st.storage.replace key value }

def State.removed (st : State) (key : Bytes) : State :=
  { st with memberIndex := none, storage := st.storage.remove key }

def State.undoable (st : State) (key : Bytes) : State :=
  { st with undoStack := .undoWrite key (st.storage.find? key) :: st.undoStack }

def State.refused (st : State) : State := { st with closes := [], reverted := true }

def State.closing (st : State) (cap : Cap) : State :=
  { st with closes := cap :: st.closes, undoStack := .undoClose cap :: st.undoStack }

def State.checkpoint (st : State) : State :=
  { st with undoId := st.undoId + 1, undoStack := .undoMarker (st.undoId + 1) :: st.undoStack }

/-- Undo what was noted since the last marker. -/
def State.restore (st : State) : List UndoEntry → State
  | [] => { st with undoStack := [] }
  | .undoMarker _ :: rest => { st with undoStack := rest }
  | .undoWrite key (some value) :: rest => (st.replaced key value).restore rest
  | .undoWrite key none :: rest => (st.removed key).restore rest
  | .undoClose cap :: rest => State.restore { st with closes := st.closes.erase cap } rest

def State.rollback (st : State) : State := st.restore st.undoStack

def hasMarker : List UndoEntry → Bool
  | [] => false
  | .undoMarker _ :: _ => true
  | .undoWrite _ _ :: rest | .undoClose _ :: rest => hasMarker rest

/-- Forget the last marker; what was noted since is kept for another one. -/
def discard (pointOps : Bool) (undo : List UndoEntry) : List UndoEntry → List UndoEntry
  | [] => []
  | .undoMarker _ :: rest => if pointOps && hasMarker rest then undo.reverseAux rest else rest
  | .undoWrite key old :: rest => discard pointOps (.undoWrite key old :: undo) rest
  | .undoClose cap :: rest => discard pointOps (.undoClose cap :: undo) rest

def State.commit (st : State) (pointOps : Bool) : State :=
  { st with undoStack := discard pointOps [] st.undoStack }

/-- What an instruction may do to the state at a time. -/
inductive Change (env : Env) (scope : Scope) : State → State → Prop
  | work {st next : State} (same : SameBooks st next) (rises : st.effortUsed ≤ next.effortUsed)
      (fits : st.effortUsed ≤ env.effortLimit →
        next.effortUsed ≤ env.effortLimit) : Change env scope st next
  | index {st : State} (index : MemberIndex)
      (kept : (∀ old, st.memberIndex = some old → old.Of st.storage) → index.Of st.storage) :
      Change env scope st { st with memberIndex := some index }
  | refused (st : State) : Change env scope st st.refused
  /-- Too large a blob; what was closed stays so. -/
  | overlong (allowed : scope = .blob) (st : State) :
      Change env scope st { st with reverted := true }
  | write (allowed : scope = .storing) (st : State) (key value : Bytes) :
      Change env scope st ((st.undoable key).replaced key value)
  | erase (allowed : scope = .storing ∨ scope = .erasing) (st : State) (key : Bytes) :
      Change env scope st ((st.undoable key).removed key)
  | close (allowed : scope = .closing) (st : State) (cap : Cap) :
      Change env scope st (st.closing cap)
  | checkpoint (allowed : scope = .marking) (st : State) : Change env scope st st.checkpoint
  | rollback (allowed : scope = .marking) (st : State) : Change env scope st st.rollback
  | commit (allowed : scope = .marking) (st : State) : Change env scope st (st.commit env.pointOps)
  /-- The count of programs that were made. -/
  | nonce (allowed : scope = .calling) (st : State) (key value : Bytes) :
      Change env scope st (st.replaced key value)
  /-- What a sub-call left of what it shares. -/
  | shared (allowed : scope = .calling) (st : State) (left : Shared) :
      Change env scope st
        { st with storage := left.storage, budget := left.budget, fheMemory := left.fheMemory }

/-- A computation that makes changes of one kind. -/
abbrev Exec (env : Env) (scope : Scope) := Chained (Change env scope) (Stop scope)

def callDepthMax : Int := 8

def maxStorageValueLen : Nat := 4194304

def memoryMax : Int := 16777216

section Primitives

variable {env : Env} {scope : Scope}

/-- Change what is not kept in the books. -/
def update (f : State → State) (same : ∀ st, SameBooks st (f st) := by
      intro st; constructor <;> rfl)
    (effort : ∀ st, (f st).effortUsed = st.effortUsed := by
      intro st; rfl) : Exec env scope Unit :=
  .change f fun st => .work (same st) (effort st).ge fun within => (effort st).trans_le within

def raise : Exec env scope α := throw .caught

/-- What others answer, or the exception that they raise. -/
def answered : Except Crash α → Exec env scope α
  | .ok answer => return answer
  | .error .caught => raise
  | .error .fatal => throw .fatal

/-- Outside of the registers the program is stopped. -/
def getr (r : Reg) : Exec env scope Value := do
  let st ← read
  if 0 ≤ r then
    match st.regs[r.toNat]? with
    | some v => return v
    | none => raise
  else raise

def setr (r : Reg) (v : Value) : Exec env scope Unit := do
  if h : 0 ≤ r ∧ r.toNat < 64 then update fun st => { st with regs := st.regs.set r.toNat v h.2 }
  else raise

/-- Set a register and go on. -/
def put (r : Reg) (v : Value) : Exec env scope Bool := do
  setr r v
  return true

def revert : Exec env scope Bool := do
  Chained.change State.refused .refused
  return false

/-- Do something else when an exception is raised. -/
def rescue (work other : Exec env scope Bool) : Exec env scope Bool :=
  tryCatch work fun stop =>
    match stop with
    | .caught => other
    | stop => throw stop

/-- A native integer, or an overflow. -/
def toInt (z : Int) : Exec env scope Int := if fitsInt z then return z else raise

def toInt64 (z : Int) : Exec env scope Int := if fitsInt64 z then return z else raise

def findCell (cell : Int) : Exec env scope (Option Value) := return (← read).memory.find? cell

def storeCell (cell : Int) (v : Value) : Exec env scope Unit :=
  update fun st => { st with memory := st.memory.replace cell v }

/-- Write a cell and extend the memory to it. -/
def growCell (cell : Int) (v : Value) : Exec env scope Unit :=
  update fun st =>
    { st with memory := st.memory.replace cell v, memorySize := max st.memorySize (cell + 1) }

def bounded : Exec env scope Bool := return (← read).budget.isSome

def appendLogs (events : List EventRecord) : Exec env scope Unit :=
  update fun st => { st with logs := events.reverseAux st.logs }

/-- Write a key and note what it held. -/
def writeKey (key value : Bytes) : Exec env .storing Unit :=
  .change (fun st => (st.undoable key).replaced key value) fun st => .write rfl st key value

def eraseKey (key : Bytes) (allowed : scope = .storing ∨ scope = .erasing) : Exec env scope Unit :=
  .change (fun st => (st.undoable key).removed key) fun st => .erase allowed st key

end Primitives

section Steps

variable (env : Env) {scope : Scope}

def toZ (v : Value) : Int := v.toZ env.zOfString

def getZ (r : Reg) : Exec env scope Int := return toZ env (← getr r)

def getInt (r : Reg) : Exec env scope Int := do toInt (← getZ env r)

def readInt (r : Reg) : Exec env scope (Option Int) := do
  let z ← getZ env r
  return if fitsInt z then some z else none

/-- Charge an effort, if it does not pass the limit. -/
def charging (quote : State → Option Int) (bounds : ∀ st effort, quote st = some effort →
      st.effortUsed ≤ effort ∧ effort ≤ env.effortLimit) :
    Exec env scope Bool :=
  .changing
    (fun st =>
      match quote st with
      | none => (false, st)
      | some effort => (true, { st with effortUsed := effort }))
    (by
      intro st
      split
      · exact .work (by constructor <;> rfl) le_rfl id
      · next effort quoted =>
        exact .work (by constructor <;> rfl) (bounds st effort quoted).1
          fun _ => (bounds st effort quoted).2)

def addDynEffort (cost : Int) : Exec env scope Bool :=
  charging env (fun st => Cost.charge st.effortUsed cost env.effortLimit)
    fun _ _ => Cost.charge_bounds

def addZEffort (cost : Int) : Exec env scope Bool :=
  charging env (fun st => Cost.chargeZ st.effortUsed cost env.effortLimit)
    fun _ _ charged => by
      have := Cost.chargeZ_eq charged
      omega

/-- Do work on the budget, where there is one, and charge its effort. -/
def settle (work : (used : Int) → Charging (Rise env.effortLimit used)) : Exec env scope Bool :=
  .changing
    (fun st =>
      match st.budget with
      | none => (true, st)
      | some budget =>
        match (work st.effortUsed).run.run budget with
        | (none, budget) => (false, { st with budget := some budget })
        | (some rise, budget) =>
          (true, { st with effortUsed := rise.effort, budget := some budget }))
    (by
      intro st
      split
      · exact .work (by constructor <;> rfl) le_rfl id
      · split
        · exact .work (by constructor <;> rfl) le_rfl id
        · next rise budget _ =>
          exact .work (by constructor <;> rfl) rise.rises rise.fits)

def chargeBytes (base prior : Int) (requests : List ByteWork.Request) : Exec env scope Bool := do
  if ← bounded then
    settle env fun used => Charging.take (ByteWork.charge · used env.effortLimit base requests)
  else addDynEffort env prior

def addDynProduct (factors : List Int) (divisor : Int) : Exec env scope Bool := do
  match Cost.scaledProduct factors divisor with
  | none => return false
  | some cost => addDynEffort env cost

def appendEvent (event : EventRecord) : Exec env scope Bool := do
  if ← settle env (Charging.eventWork env.effortLimit event) then
    appendLogs [event]
    return true
  else return false

def requireEvent (reason : Bytes) : EventRecord where
  contract := env.address
  depth := env.callDepth
  event := Bytes.ofAscii "Require"
  values := [.vString reason]

def revertWithReason (reason : Bytes) : Exec env scope Bool := do
  let _ ← appendEvent env (requireEvent env reason)
  revert

def viewGuard : Exec env scope Bool := do
  if env.isView then revertWithReason env (Bytes.ofAscii "write in view context")
  else return true

/-- The index of members, made anew when there is none. -/
def State.memberIndexOf (st : State) (objectRef : Bytes) : List Bytes × MemberIndex :=
  let index := st.memberIndex.getD ⟨memberKeys st.storage, ∅⟩
  match index.refs.find? objectRef with
  | some members => (members, index)
  | none =>
    let members := memberRefs index.keys objectRef
    (members, { index with refs := index.refs.replace objectRef members })

theorem State.memberIndexOf_spec (st : State) (objectRef : Bytes)
    (kept : ∀ old, st.memberIndex = some old → old.Of st.storage) :
    (st.memberIndexOf objectRef).1 = memberRefs (memberKeys st.storage) objectRef ∧
      (st.memberIndexOf objectRef).2.Of st.storage := by
  have found : (st.memberIndex.getD ⟨memberKeys st.storage, ∅⟩).Of st.storage := by
    cases held : st.memberIndex with
    | none => exact ⟨rfl, fun objectRef members none => by simp at none⟩
    | some old => exact kept old held
  simp only [State.memberIndexOf]
  generalize st.memberIndex.getD ⟨memberKeys st.storage, ∅⟩ = index at found ⊢
  split
  · next members held =>
    refine ⟨?_, found⟩
    rw [found.refs objectRef members held, found.keys]
  · refine ⟨by rw [found.keys], found.keys, ?_⟩
    intro other members held
    rw [Table.find?_replace_eq_ite] at held
    split at held
    · next same =>
      cases held
      rw [same]
    · exact found.refs other members held

/-- The members of an object; they are looked up once for each storage. -/
def objectMembers (objectRef : Bytes) : Exec env scope (List Bytes) :=
  .changing
    (fun st =>
      let (members, index) := st.memberIndexOf objectRef
      (members, { st with memberIndex := some index }))
    fun st => .index _ fun kept => (st.memberIndexOf_spec objectRef kept).2

end Steps
end Vm
end LiteNode
