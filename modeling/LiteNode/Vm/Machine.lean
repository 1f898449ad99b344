import LiteNode.Vm.Execute

/-!
# Runs

A program is run to its end at once, step by step, or step by step with
workers that answer what an instruction waits for.
-/

namespace LiteNode
namespace Vm

abbrev Program := Array Instr

/-- What came of a computation and the state it ended in. -/
abbrev Outcome (α : Type) := Except Halt α × State

/-- What comes of a computation. -/
def outcome {env : Env} {scope : Scope} (x : Exec env scope α) (st : State) : Outcome α :=
  match x.run st with
  | (.ok a, st) => (.ok a, st)
  | (.error stop, st) => (.error stop.halt, st)

theorem outcome_snd {env : Env} {scope : Scope} (x : Exec env scope α)
    (st : State) : (outcome x st).2 = (x.run st).2 := by
  rw [outcome]
  split
  all_goals next ended => rw [ended]

theorem outcome_eq_ok {env : Env} {scope : Scope} {x : Exec env scope α} {st next : State} {a : α} :
    outcome x st = (.ok a, next) ↔ x.run st = (.ok a, next) := by
  rw [outcome]
  split
  · next ended =>
    rw [ended]
    constructor <;> rintro ⟨⟩ <;> rfl
  · next ended =>
    rw [ended]
    constructor <;> rintro ⟨⟩

section Runs

variable (env : Env)

def fetch (program : Program) (pc : Int) : Option Instr :=
  if 0 ≤ pc then program[pc.toNat]? else none

/-- Execute the next instruction; after a failed one the program is at its
end. -/
def cycle (async : Bool) (program : Program) (st : State) : Outcome Unit :=
  match fetch program st.pc with
  | none => (.error .caught, st)
  | some op =>
    match outcome (execOne env async op) { st with pc := st.pc + 1 } with
    | (.ok true, st) => (.ok (), st)
    | (.ok false, st) => (.ok (), { st with pc := program.size })
    | (.error halt, st) => (.error halt, st)

/-- Charge the output of a program that ended. -/
def finishOutput : Exec env .plain Bool := do
  let st ← read
  if st.reverted then return false
  else if st.outputReady then return true
  else if ← settle env
      (Charging.outputWork env.effortLimit (← getr 0)) then
    update fun st => { st with outputReady := true }
    return true
  else revert

/-- Exceptions that a run catches refuse it. -/
def absorb : Outcome Bool → Outcome Bool
  | (.error .caught, st) => (.ok false, st.refused)
  | outcome => outcome

def going (program : Program) (st : State) : Bool := st.pc < program.size && !st.reverted

/-- Execute instructions while the program goes on, at most a number. -/
def runLoop (async : Bool) (program : Program) : Nat → State → Option (Outcome Unit)
  | 0, st => if going program st then none else some (.ok (), st)
  | fuel + 1, st =>
    if going program st then
      match cycle env async program st with
      | (.ok _, st) => runLoop async program fuel st
      | (.error halt, st) => some (.error halt, st)
    else some (.ok (), st)

/-- Run a program; without a result it did not end in a number of
instructions. -/
def run (async : Bool) (program : Program) (fuel : Nat) (st : State) : Option (Outcome Bool) :=
  (runLoop env async program fuel st).map fun looped =>
    match looped with
    | (.ok _, st) => absorb (outcome (finishOutput env) st)
    | (.error halt, st) => absorb (.error halt, st)

inductive Progress
  | running | finished | refused
  deriving DecidableEq

/-- End a program that is at its end. -/
def conclude (st : State) : Outcome Progress :=
  match outcome (finishOutput env) st with
  | (.ok true, st) => (.ok .finished, st)
  | (.ok false, st) => (.ok .refused, st)
  | (.error .caught, st) => (.ok .refused, st.refused)
  | (.error halt, st) => (.error halt, st)

def step (async : Bool) (program : Program) (st : State) : Outcome Progress :=
  if st.reverted then (.ok .refused, st)
  else if st.pc < 0 then (.ok .refused, st.refused)
  else if program.size ≤ st.pc then conclude env st
  else
    match cycle env async program st with
    | (.ok _, st) =>
      if st.reverted then (.ok .refused, st)
      else if program.size ≤ st.pc then conclude env st
      else (.ok .running, st)
    | (.error .caught, st) => (.ok .refused, st.refused)
    | (.error halt, st) => (.error halt, st)

/-- Step until the program is not running any more. -/
def stepLoop (async : Bool) (program : Program) : Nat → State → Option (Outcome Bool)
  | 0, _ => none
  | fuel + 1, st =>
    match step env async program st with
    | (.ok .finished, st) => some (.ok true, st)
    | (.ok .refused, st) => some (.ok false, st)
    | (.ok .running, st) => stepLoop async program fuel st
    | (.error halt, st) => some (.error halt, st)

/-- What workers answer in a state. -/
structure Workers where
  call : State → Bytes → Bytes → Bytes → List Value → CallScope →
    Except Crash (Except String Subcall) × Shared
  deploy : State → Bytes → Bytes → Int → CallScope → List Value →
    Except Crash (Except String Spawned) × Shared
  fhe : State → FheRequest → Except FheError FheValue
  verify : State → ProofRequest → Except FheError FheValue

variable (workers : Workers)

/-- Go on with the answer about a proof. -/
def resumeProof (rd : Reg) (request : ProofRequest) : Exec env .calling Bool := do
  match workers.verify (← read) request with
  | .ok (.verified true) => finishFheVerification env rd .verified
  | .ok (.verified false) => finishFheVerification env rd .rejected
  | .error (.resource _) => finishFheVerification env rd .unavailable
  | .ok _ | .error .invalid => throw .fatal

/-- Go on with the answer of a worker. -/
def resume : Suspension → Exec env .calling Bool
  | .proofWait rd request => resumeProof env workers rd request
  | .fheWait rd reason request => do
    match workers.fhe (← read) request with
    | .ok (.check request) => resumeProof env workers rd request
    | answer => finishFhe env rd reason answer
  | .callWait rd target methodName args => do
    let st ← read
    let (answer, left) := workers.call st env.address target methodName args (childScope env st)
    share left
    match ← answered answer with
    | .ok sub => finishCall env rd sub.effortUsed sub.events sub.returnValue
    | .error _ => revert
  | .spawnWait rd code nonce params => do
    let st ← read
    let (answer, left) := workers.deploy st env.address code nonce (childScope env st) params
    share left
    let failed : Exec env .calling Bool := do
      setSpawnNonce nonce
      revert
    match ← answered answer with
    | .ok spawned =>
      if ← addDynEffort env spawned.effortUsed then
        appendLogs spawned.events
        put rd (.vAddr spawned.spawnedAddr)
      else failed
    | .error _ => failed

/-- Quota of steps between two pauses. -/
abbrev Quota := Nat

/-- Run with workers: a number of steps at most, with pauses after a quota of
them that is set anew by each pause and each answer. A run that fails is
refused. -/
def asyncLoop (program : Program) (full : Quota) : Nat → Quota → State → Option (Outcome Bool)
  | 0, _, _ => none
  | fuel + 1, quota, st =>
    match step env true program st with
    | (.ok .finished, st) => some (.ok true, st)
    | (.ok .refused, st) => some (.ok false, st)
    | (.ok .running, st) =>
      if 0 < quota then asyncLoop program full fuel (quota - 1) st
      else asyncLoop program full fuel full st
    | (.error (.suspend request), st) =>
      match outcome (resume env workers request) st with
      | (.ok true, st) => asyncLoop program full fuel full st
      | (.ok false, st) => some (.ok false, st)
      | (.error halt, st) => some (.error halt, st.refused)
    | (.error halt, st) => some (.error halt, st.refused)

def runAsync (program : Program) (full : Quota) (fuel : Nat) (st : State) : Option (Outcome Bool) :=
  asyncLoop env workers program full fuel full st

end Runs
end Vm
end LiteNode
