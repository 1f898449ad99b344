import LiteNode.Data.JsonText
import LiteNode.Vm.Bounds

/-!
# Calls of programs

A program is loaded with its labels resolved, entered at its dispatcher with
the method and its parameters in memory, and run to its end. The receipt of a
call never shows more effort than the call was given.
-/

namespace LiteNode
namespace Vm

/-- Where a label is; the last one of a name counts. -/
def labelAt (program : Program) (label : Int) : Option Nat :=
  (program.toList.zipIdx.reverse.find? fun op =>
    match op.1 with
    | .jdest addr => addr == label
    | _ => false).map Prod.snd

/-- Jump to positions instead of labels. -/
def fixJumps (program : Program) : Program :=
  program.map fun op =>
    match op with
    | .jif r addr =>
      match labelAt program addr with
      | some pos => .jif r pos
      | none => op
    | .jmp addr =>
      match labelAt program addr with
      | some pos => .jmp pos
      | none => op
    | .callInt rd addr =>
      match labelAt program addr with
      | some pos => .callInt rd pos
      | none => op
    | op => op

def findDispatcher (program : Program) : Option Nat :=
  program.findIdx? fun op =>
    match op with
    | .jdest label => label == 100
    | _ => false

/-- Number of cells of parameters that are loaded from here on. -/
def countParams : List Instr → Nat
  | .mload _ idx :: rest => if 1001 ≤ idx then countParams rest + 1 else 0
  | _ => 0

/-- Find a method from here on and count its parameters. -/
def scanArity (program : Program) (methodName : Bytes) : List Instr → Option Nat
  | [] => none
  | .ldi _ (.vString name) :: rest =>
    if name = methodName then
      match rest with
      | .eq .. :: .jif _ target :: _ =>
        if 0 < target ∧ target < program.size then
          some (countParams (program.toList.drop (target.toNat + 1)))
        else scanArity program methodName rest
      | _ :: _ :: _ => scanArity program methodName rest
      | _ => none
    else scanArity program methodName rest
  | .revert :: _ | .stop :: _ => none
  | _ :: rest => scanArity program methodName rest

def extractMethodArity (program : Program) (methodName : Bytes) : Option Nat :=
  match findDispatcher program with
  | none => none
  | some entry => scanArity program methodName (program.toList.drop (entry + 1))

def scanTarget (methodName : Bytes) : List Instr → Option Int
  | [] => none
  | .ldi _ (.vString name) :: rest =>
    if name = methodName then
      match rest with
      | .eq .. :: .jif _ target :: _ => some target
      | rest => scanTarget methodName rest
    else scanTarget methodName rest
  | .revert :: _ | .stop :: _ => none
  | _ :: rest => scanTarget methodName rest

def extractMethodTarget (program : Program) (methodName : Bytes) : Option Int :=
  match findDispatcher program with
  | none => none
  | some entry => scanTarget methodName (program.toList.drop (entry + 1))

/-- A worker that does nothing. -/
def idleFhe : Fhe where
  eval _ _ := .error .invalid
  direct _ _ := .error .invalid
  keyEffort _ := none
  keyWriteEffort _ _ := none
  keyReadEffort _ _ := none
  keyMemory _ := 0
  keyDecodeMemory _ := none
  cipherDecodeMemory _ := 0
  memoryLimit := 0
  viewPlan _ _ _ _ _ := none
  slotsMatch _ _ := false
  cipherAllowed _ := false
  zeroProof _ := none
  rangeProof _ := none
  commitment _ := none
  laneFree _ := true
  verifyProof _ _ := .rejected
  groth16 _ _ _ := false
  pedersenCommit _ _ := none
  pedersenAdd _ _ := none
  pedersenSub _ _ := none
  pedersenIdentity := none
  maxProofBytes := 0

/-- The context of a program that is called without one, on an address. -/
def defaultCtx (effortLimit : Int) (address : Bytes) : Env where
  effortLimit
  caller := address
  origin := address
  address
  value := 0
  intMode := .prior
  byteResult := .stringBytes
  callDepth := 0
  isView := false
  strictValues := false
  storageKinds := ∅
  pointOps := false
  math := false
  objectCost := false
  fheWork := false
  proofExec := false
  currentEpoch := 0
  epochTimeMs := 0
  treeHash := List.replicate 64 48
  nodeId := Bytes.ofAscii "node_001"
  txHash := List.replicate 64 48
  getBalance _ _ := 0
  doTransfer _ _ _ _ := .ok false
  callContract st _ _ _ _ _ :=
    (.ok (.error "not implemented"), ⟨st.storage, st.budget, st.fheMemory⟩)
  deployContract st _ _ _ _ _ :=
    (.ok (.error "not implemented"), ⟨st.storage, st.budget, st.fheMemory⟩)
  getFhePubkey _ _ := none
  allowFheCapability _ := true
  capLive _ := false
  zOfString := readDecimal
  intOfString := readDecimal
  trim := id
  sha256 := id
  sha256Raw := id
  keccak256 := id
  decode64 := some
  encode64 := id
  verifyEd25519 _ _ _ := false
  pathKeyOfStateRef _ := none
  normalizeStateRef _ := none
  applyObject _ _ _ _ := .error "not implemented"
  kernels :=
    { exp := id
      silu := some
      layer := fun _ _ _ _ => none
      rms := fun _ _ _ => none
      rope := fun _ _ _ => none
      attention := fun _ _ _ _ _ _ _ => none
      intOfFloat := fun _ => 0 }
  fhe := idleFhe

def createState (storage : Table Bytes Bytes)
    (budget : Option ByteWork.Budget) (fheMemory : Option Int) : State where
  regs := Vector.replicate 64 (.vInt 0)
  memory := ∅
  memorySize := 0
  storage
  memberIndex := none
  effortUsed := 0
  reverted := false
  outputReady := false
  pc := 0
  logs := []
  undoStack := []
  undoId := 0
  returnStack := []
  blobs := ∅
  decodedChunkCache := ∅
  closes := []
  budget
  fheMemory

/-- Leave the method and its parameters in memory. -/
def setupCallState (st : State) (methodName : Bytes) (params : List Value) : State :=
  let named := (st.memory.replace 999 (.vString (Bytes.ofAscii "call"))).replace
    1000 (.vString methodName)
  let stored := params.zipIdx.foldl
    (fun memory param => memory.replace (1001 + (param.2 : Int)) param.1) named
  { st with memory := stored }

structure Receipt where
  success : Bool
  returnValue : Option Value
  effortUsed : Int
  events : List EventRecord
  error : Option Bytes
  storageWrites : Nat

def countStorageWrites (st : State) : Nat :=
  st.undoStack.countP fun entry =>
    match entry with
    | .undoWrite .. => true
    | _ => false

def runFixedFromDispatcher (env : Env) (async : Bool) (fixed : Program)
    (st : State) : Outcome Receipt :=
  let entered :=
    match findDispatcher fixed with
    | some entry => { st with pc := entry }
    | none => st
  match runToEnd env async fixed entered with
  | (.error halt, st) => (.error halt, st)
  | (.ok success, st) =>
    let ok := success && !st.reverted
    (.ok
      { success := ok
        returnValue := if ok then some (st.regs.get 0) else none
        effortUsed := st.effortUsed
        events := st.logs.reverse
        error := if ok then none else some (Bytes.ofAscii "execution reverted")
        storageWrites := countStorageWrites st }, st)

theorem runFixedFromDispatcher_effortUsed
    {env : Env} {async : Bool} {fixed : Program} {st last : State} {receipt : Receipt}
    (ended : runFixedFromDispatcher env async fixed st = (.ok receipt, last)) :
    st.effortUsed ≤ receipt.effortUsed ∧
      (st.effortUsed ≤ env.effortLimit → receipt.effortUsed ≤ env.effortLimit) := by
  simp only [runFixedFromDispatcher] at ended
  have entering : ∀ entry : Option Nat, (match entry with
        | some entry => { st with pc := (entry : Int) }
        | none => st).effortUsed = st.effortUsed := by
    intro entry
    cases entry <;> rfl
  have steady := @runToEnd_steady env async fixed
    (match findDispatcher fixed with
      | some entry => { st with pc := (entry : Int) }
      | none => st)
  split at ended
  · cases ended
  · next success after run =>
    rw [run, Steady, entering] at steady
    cases ended
    exact steady

/-- What the analysis of a program says of its values. -/
structure Profile where
  strictValues : Bool
  storageKinds : Table Bytes StorageKind
  runtimeParams : Int → List Json → Except Bytes (List Value)

structure Loaded where
  code : Program
  profile : Profile

/-- The node that programs are called on; its worlds hold the journals. -/
structure Host (W : Type) where
  proofExec : Bool
  snapshotEffort : W → Int
  loadLoaded : W → Bytes → Option Loaded
  checkoutStorage : W → Bytes → Table Bytes Bytes
  ctx : W → Env
  byteWork : W → Option ByteWork.Budget
  fheMemory : W → Option Int
  /-- What a run leaves, undone if it failed. -/
  settled : W → Bytes → Outcome Receipt → W

variable {W : Type} (host : Host W)

def failedCall (effort : Int) (error : Bytes) : Receipt where
  success := false
  returnValue := none
  effortUsed := effort
  events := []
  error := some error
  storageWrites := 0

def callEnv (ctx : Env) (depth limit : Int) (profile : Profile)
    (address caller : Bytes) (value : Int) : Env :=
  { ctx with
    effortLimit := limit, callDepth := depth, caller, origin := caller,
    address, value, strictValues := profile.strictValues,
    storageKinds := profile.storageKinds, isView := false, byteResult := .stringBytes }

/-- Run a method that was found with its parameters. -/
def runCall (w : W) (depth limit spent : Int) (loaded : Loaded)
    (fixed : Program) (programAddr methodName : Bytes) (values : List Value)
    (caller : Bytes) (value : Int) : Except Halt Receipt × W :=
  let st := setupCallState
    (createState (host.checkoutStorage w programAddr) (host.byteWork w)
      (host.fheMemory w)) methodName values
  let outcome := runFixedFromDispatcher
    (callEnv (host.ctx w) depth limit loaded.profile programAddr caller value)
    false fixed st
  (outcome.1.map fun receipt =>
      { receipt with effortUsed := receipt.effortUsed + spent },
    host.settled w programAddr outcome)

/-- Find a method and read its parameters. -/
def enterMethod (w : W) (depth limit spent : Int) (loaded : Loaded)
    (fixed : Program) (programAddr methodName : Bytes) (params : List Json)
    (caller : Bytes) (value : Int) : Except Halt Receipt × W :=
  match extractMethodTarget fixed methodName with
  | none => (.ok (failedCall 0 (Bytes.ofAscii "method not found")), w)
  | some target =>
    match loaded.profile.runtimeParams target params with
    | .error error => (.ok (failedCall 0 error), w)
    | .ok values =>
      runCall host w depth limit spent loaded fixed programAddr methodName values caller value

def arityError (methodName : Bytes) (arity given : Nat) : Bytes :=
  Bytes.ofAscii "arity mismatch: " ++ methodName ++ Bytes.ofAscii " expects " ++
    intToString arity ++ Bytes.ofAscii " args, got " ++ intToString given

def executeCall (w : W) (depth limit : Int) (programAddr methodName : Bytes)
    (params : List Json) (caller : Bytes) (value : Int) : Except Halt Receipt × W :=
  let work := if host.proofExec then host.snapshotEffort w else 0
  match Cost.chargeZ 0 work (if host.proofExec then limit else maxInt) with
  | none => (.ok (failedCall limit (Bytes.ofAscii "call journal effort exceeds limit")), w)
  | some spent =>
    match host.loadLoaded w programAddr with
    | none => (.ok (failedCall 0 (Bytes.ofAscii "bytecode not found")), w)
    | some loaded =>
      let fixed := fixJumps loaded.code
      match extractMethodArity fixed methodName with
      | some arity =>
        if arity ≠ params.length then
          (.ok (failedCall 0 (arityError methodName arity params.length)), w)
        else
          enterMethod host w depth (limit - spent) spent loaded fixed
            programAddr methodName params caller value
      | none =>
        enterMethod host w depth (limit - spent) spent loaded fixed
          programAddr methodName params caller value

/-- A receipt shows no less than nothing and no more than a limit. -/
def Receipt.Within (limit : Int) (receipt : Receipt) : Prop :=
  0 ≤ receipt.effortUsed ∧ receipt.effortUsed ≤ limit

theorem failedCall_within {effort limit : Int} {error : Bytes} {w later : W}
    {receipt : Receipt} (nonneg : 0 ≤ effort) (le : effort ≤ limit)
    (failed : ((.ok (failedCall effort error), w) : Except Halt Receipt × W) =
      (.ok receipt, later)) : receipt.Within limit := by
  cases failed
  exact ⟨nonneg, le⟩

theorem runCall_within {w later : W} {depth limit spent value : Int} {loaded : Loaded}
    {fixed : Program} {programAddr methodName caller : Bytes}
    {values : List Value} {receipt : Receipt} (nonneg : 0 ≤ limit) (unspent : 0 ≤ spent)
    (called : runCall host w depth limit spent loaded fixed programAddr
      methodName values caller value = (.ok receipt, later)) :
    receipt.Within (limit + spent) := by
  simp only [runCall, Prod.mk.injEq] at called
  obtain ⟨called, -⟩ := called
  rcases ended : runFixedFromDispatcher
      (callEnv (host.ctx w) depth limit loaded.profile programAddr caller value)
      false fixed
      (setupCallState (createState (host.checkoutStorage w programAddr)
        (host.byteWork w) (host.fheMemory w)) methodName values)
    with ⟨halt | result, last⟩
  · rw [ended] at called
    cases called
  · rw [ended] at called
    cases called
    have bounds := runFixedFromDispatcher_effortUsed ended
    have started : (setupCallState
        (createState (host.checkoutStorage w programAddr) (host.byteWork w)
          (host.fheMemory w)) methodName values).effortUsed = 0 := rfl
    have given : (callEnv (host.ctx w) depth limit loaded.profile programAddr
        caller value).effortLimit = limit := rfl
    rw [started, given] at bounds
    have := bounds.2 nonneg
    constructor
    · exact add_nonneg bounds.1 unspent
    · exact add_le_add_left this spent

theorem enterMethod_within {w later : W} {depth limit spent value : Int} {loaded : Loaded}
    {fixed : Program} {programAddr methodName caller : Bytes}
    {params : List Json} {receipt : Receipt} (nonneg : 0 ≤ limit) (unspent : 0 ≤ spent)
    (called : enterMethod host w depth limit spent loaded fixed programAddr
      methodName params caller value = (.ok receipt, later)) :
    receipt.Within (limit + spent) := by
  have positive : 0 ≤ limit + spent := add_nonneg nonneg unspent
  rw [enterMethod] at called
  split at called
  · exact failedCall_within le_rfl positive called
  · split at called
    · exact failedCall_within le_rfl positive called
    · exact runCall_within host nonneg unspent called

/-- A receipt shows no more effort than the call was given. -/
theorem executeCall_within {w later : W} {depth limit value : Int}
    {programAddr methodName caller : Bytes} {params : List Json}
    {receipt : Receipt} (nonneg : 0 ≤ limit)
    (called : executeCall host w depth limit programAddr methodName params
      caller value = (.ok receipt, later)) : receipt.Within limit := by
  simp only [executeCall] at called
  split at called
  · exact failedCall_within nonneg le_rfl called
  · next spent charged =>
    obtain ⟨isWork, unspent, within⟩ := Cost.chargeZ_eq charged
    -- without proofs a call spends nothing before it runs
    have affordable : spent ≤ limit := by
      split at within
      · exact within
      · next prior =>
        rw [if_neg prior] at isWork
        omega
    have entered : ∀ {loaded : Loaded} {fixed : Program},
        enterMethod host w depth (limit - spent) spent loaded fixed
            programAddr methodName params caller value =
          (.ok receipt, later) → receipt.Within limit := by
      intro loaded fixed entering
      have := enterMethod_within host (by omega) (by omega) entering
      rwa [Int.sub_add_cancel] at this
    split at called
    · exact failedCall_within le_rfl nonneg called
    · split at called
      · split at called
        · exact failedCall_within le_rfl nonneg called
        · exact entered called
      · exact entered called

end Vm
end LiteNode
