import LiteNode.Vm.Contract
import LiteNode.Vm.ValueJournal

/-!
# Several calls in one transaction

The calls of a transaction run one after another on the effort that is left,
up to the first one that fails. The efforts of their receipts add up to no more
than the limit.
-/

namespace LiteNode
namespace Vm
namespace MultiExec

structure Call where
  target : Bytes
  methodName : Bytes
  params : List Json
  amount : Int

structure Step where
  index : Nat
  call : Call
  remainingEffort : Int
  valueEffect : CallPlan.ValueEffect

inductive Plan
  | multiExecReady (remainingEffort : Int) (valueEffect : CallPlan.ValueEffect)
  | multiExecEffortExhausted
  | multiExecInsufficientValue

def planMultiExecStep (fromAddr : Bytes) (call : Call)
    (effortUsed effortLimit balance : Int) : Plan :=
  if effortLimit ≤ effortUsed then .multiExecEffortExhausted
  else
    match CallPlan.valueEffect fromAddr call.target call.amount balance with
    | .valueReject => .multiExecInsufficientValue
    | effect => .multiExecReady (max 1 (effortLimit - effortUsed)) effect

/-- A step that is ready has what is left of the effort. -/
theorem planMultiExecStep_ready {fromAddr : Bytes} {call : Call}
    {effortUsed effortLimit balance remaining : Int} {effect : CallPlan.ValueEffect}
    (planned : planMultiExecStep fromAddr call effortUsed effortLimit balance =
      .multiExecReady remaining effect) :
    0 < remaining ∧ remaining = effortLimit - effortUsed := by
  rw [planMultiExecStep] at planned
  split at planned
  · cases planned
  · split at planned
    · cases planned
    · cases planned
      omega

structure CallReport where
  index : Nat
  program : Bytes
  method : Bytes
  amount : Int
  success : Bool
  effort : Int
  error : Option Bytes
  return' : Option Bytes

structure Trace where
  effort : Int
  calls : List CallReport
  events : List EventRecord

def emptyTrace : Trace where
  effort := 0
  calls := []
  events := []

def addTrace (trace : Trace) (index : Nat) (call : Call) (receipt : Receipt) : Trace where
  effort := trace.effort + receipt.effortUsed
  calls := trace.calls ++
    [{ index, program := call.target, method := call.methodName,
       amount := call.amount, success := receipt.success,
       effort := receipt.effortUsed, error := receipt.error,
       return' := receipt.returnValue.map Value.toString }]
  events := trace.events ++ receipt.events

/-- The reason that the first failed requirement gave. -/
def revertReason : List EventRecord → Option Bytes
  | [] => none
  | event :: rest =>
    if event.event = Bytes.ofAscii "Require" then
      match event.values with
      | v :: _ => some v.toString
      | [] => revertReason rest
    else revertReason rest

def executionRevertMessage (events : List EventRecord) (error : Option Bytes) : Bytes :=
  match revertReason events with
  | some reason => Bytes.ofAscii "execution reverted [" ++ reason ++ Bytes.ofAscii "]"
  | none => error.getD (Bytes.ofAscii "execution reverted")

def stepError (index : Nat) (receipt : Receipt) : Option Bytes :=
  if receipt.success then none
  else
    some (Bytes.ofAscii "call " ++ intToString index ++ Bytes.ofAscii " failed: " ++
      executionRevertMessage receipt.events receipt.error)

structure Result where
  trace : Trace
  outcome : Except Bytes Unit

section Runs

variable {W : Type} (fromAddr : Bytes) (effortLimit : Int)
  (balance : W → Bytes → Int) (exec : Step → W → Except Halt Receipt × W)

/-- Make the calls that remain. -/
def go (index : Nat) (trace : Trace) (w : W) : List Call → Except Halt Result × W
  | [] => (.ok ⟨trace, .ok ()⟩, w)
  | call :: remainder =>
    match planMultiExecStep fromAddr call trace.effort effortLimit (balance w fromAddr) with
    | .multiExecEffortExhausted => (.ok ⟨trace, .error (Bytes.ofAscii "effort limit exceeded")⟩, w)
    | .multiExecInsufficientValue =>
      (.ok ⟨trace, .error (Bytes.ofAscii "insufficient balance for program value")⟩, w)
    | .multiExecReady remainingEffort valueEffect =>
      match exec ⟨index, call, remainingEffort, valueEffect⟩ w with
      | (.error halt, w) => (.error halt, w)
      | (.ok receipt, w) =>
        let trace := addTrace trace index call receipt
        match stepError index receipt with
        | none => go (index + 1) trace w remainder
        | some err => (.ok ⟨trace, .error err⟩, w)

def runWith (calls : List Call) (w : W) : Except Halt Result × W :=
  go fromAddr effortLimit balance exec 0 emptyTrace w calls

/-- The efforts of the receipts, which a trace adds up. -/
def Trace.Sums (limit : Int) (trace : Trace) : Prop :=
  trace.effort = (trace.calls.map CallReport.effort).sum ∧ trace.effort ≤ limit

theorem Trace.Sums.add {limit : Int} {trace : Trace} {index : Nat}
    {call : Call} {receipt : Receipt} (sums : trace.Sums limit)
    (within : receipt.effortUsed ≤ limit - trace.effort) :
    (addTrace trace index call receipt).Sums limit := by
  constructor
  · rw [addTrace, List.map_append, List.sum_append, ← sums.1]
    simp
  · simp only [addTrace]
    omega

variable {fromAddr effortLimit balance exec}

/-- Receipts that stay within what their step is given add up to no more than
the limit. -/
theorem go_sums (bounded : ∀ step w receipt later, 0 < step.remainingEffort →
      exec step w = (.ok receipt, later) → receipt.Within step.remainingEffort)
    (calls : List Call) (index : Nat) (trace : Trace) (w later : W)
    (result : Result) (sums : trace.Sums effortLimit)
    (ended : go fromAddr effortLimit balance exec index trace w calls =
      (.ok result, later)) : result.trace.Sums effortLimit := by
  induction calls generalizing index trace w with
  | nil =>
    cases ended
    exact sums
  | cons call remainder ih =>
    rw [go] at ended
    split at ended
    · cases ended
      exact sums
    · cases ended
      exact sums
    · next remaining effect planned =>
      obtain ⟨positive, rfl⟩ := planMultiExecStep_ready planned
      split at ended
      · cases ended
      · next receipt after executed =>
        have added := @Trace.Sums.add _ _ index call _ sums (bounded _ _ _ _ positive executed).2
        split at ended
        · exact ih _ _ _ added ended
        · cases ended
          exact added

theorem runWith_sums (bounded : ∀ step w receipt later, 0 < step.remainingEffort →
      exec step w = (.ok receipt, later) → receipt.Within step.remainingEffort)
    (nonneg : 0 ≤ effortLimit) {calls : List Call} {w later : W} {result : Result}
    (ended : runWith fromAddr effortLimit balance exec calls w =
      (.ok result, later)) : result.trace.Sums effortLimit :=
  go_sums bounded calls 0 emptyTrace w later result ⟨rfl, nonneg⟩ ended

end Runs

/-- Move the value of a step and call its program. -/
def execStep {W : Type} (host : Host W)
    (applyValue : CallPlan.ValueEffect → W → W) (fromAddr : Bytes)
    (step : Step) (w : W) : Except Halt Receipt × W :=
  executeCall host (applyValue step.valueEffect w) 0 step.remainingEffort
    step.call.target step.call.methodName step.call.params fromAddr
    step.call.amount

end MultiExec

/-- Every run ends after no more instructions than there is effort left, and
one more; its effort does not fall and stays within the limit, whatever others
answer and however it ends. So the receipts of several calls add up to no more
than their limit. -/
theorem effort_bounds_runs :
    (∀ (env : Env) (async : Bool) (program : Program) (st : State),
      0 ≤ st.effortUsed → st.effortUsed ≤ env.effortLimit →
      (∃ outcome,
        (∀ fuel : Nat, env.effortLimit - st.effortUsed + 1 ≤ fuel →
          run env async program fuel st = some outcome) ∧
        st.effortUsed ≤ outcome.2.effortUsed ∧
        outcome.2.effortUsed ≤ env.effortLimit) ∧
      ∀ earlier later, Reaches env async program st earlier →
        Reaches env async program earlier later →
        earlier.effortUsed ≤ later.effortUsed ∧ later.effortUsed ≤ env.effortLimit) ∧
    ∀ (W : Type) (host : Host W) (balance : W → Bytes → Int)
      (applyValue : CallPlan.ValueEffect → W → W) (fromAddr : Bytes)
      (effortLimit : Int) (calls : List MultiExec.Call) (w later : W)
      (result : MultiExec.Result), 0 ≤ effortLimit →
      MultiExec.runWith fromAddr effortLimit balance
          (MultiExec.execStep host applyValue fromAddr) calls w =
        (.ok result, later) →
      result.trace.effort = (result.trace.calls.map MultiExec.CallReport.effort).sum ∧
        result.trace.effort ≤ effortLimit := by
  constructor
  · intro env async program st nonneg within
    constructor
    · obtain ⟨outcome, ended, steady⟩ := @run_ends _ async program _ st le_rfl
      refine ⟨outcome, ?_, steady.1, steady.2 within⟩
      intro fuel enough
      exact run_more (by omega) ended
    · intro earlier later reached further
      exact ⟨further.steady.1, further.steady.2 (reached.steady.2 within)⟩
  · intro W host balance applyValue fromAddr effortLimit calls w later result nonneg ended
    apply MultiExec.runWith_sums _ nonneg ended
    intro step before receipt after positive called
    exact executeCall_within host (le_of_lt positive) called

/-- A node without programs, on which calls cost more than they are given. -/
def emptyHost : Host Unit where
  proofExec := true
  snapshotEffort _ := 7
  loadLoaded _ _ := none
  checkoutStorage _ _ := ∅
  ctx _ := defaultCtx 0 []
  byteWork _ := none
  fheMemory _ := none
  settled _ _ _ := ()

/-- A loop that would never stop, and a call on a node without programs. -/
theorem effort_bounds_runs_loop :
    (∃ outcome,
      run (defaultCtx 10 []) false #[.jmp 0] 11 (createState ∅ none none) =
          some outcome ∧ outcome.2.effortUsed ≤ 10) ∧
      ∃ result later,
        MultiExec.runWith [] 5 (fun _ _ => 0)
            (MultiExec.execStep emptyHost (fun _ w => w) [])
            [⟨[], [], [], 0⟩] () = (.ok result, later) ∧
          result.trace.effort ≤ 5 := by
  constructor
  · obtain ⟨⟨outcome, ended, -, within⟩, -⟩ :=
      effort_bounds_runs.1 (defaultCtx 10 []) false #[.jmp 0]
        (createState ∅ none none) le_rfl (by decide)
    exact ⟨outcome, ended 11 le_rfl, within⟩
  · obtain ⟨result, later, ended⟩ : ∃ result later,
        MultiExec.runWith [] 5 (fun _ _ => 0)
            (MultiExec.execStep emptyHost (fun _ w => w) [])
            [⟨[], [], [], 0⟩] () = (.ok result, later) := ⟨_, _, rfl⟩
    have sums := effort_bounds_runs.2 Unit emptyHost (fun _ _ => 0)
      (fun _ w => w) [] 5 _ () later result (by decide) ended
    exact ⟨result, later, ended, sums.2⟩

end Vm
end LiteNode
