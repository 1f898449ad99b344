import LiteNode.Vm.Checks
import LiteNode.Vm.Machine

/-!
# Instructions that wait

An instruction that waits for a worker does, once it is answered, what it would
have done at once: as long as the answer lets the program go on, or the program
is at its end anyway.
-/

namespace LiteNode
namespace Vm

variable {env : Env} {scope : Scope}

/-- Without waiting, both ways to execute an instruction are the same. -/
theorem perform_eq {op : Instr} (prompt : op.scope.waits = false) :
    perform env true op = perform env false op := by
  cases op with
  | fheLoadPk | fheAdd | fheSub | fheMul | fheScale | fheDivConst | fheAddConst
  | fheSubConst | fheVerifyZero | fheVerifyRange | fheVerifyBound
  | groth16VerifyBn254 | fheCommit | fheSer | fheDeser | fheSerPk | fheDeserPk
  | xcall | spawn | spawn2 => cases prompt
  | _ => rfl

/-- It does not end waiting. -/
def Outcome.NotWaiting (result : Outcome α) : Prop :=
  ∀ request, result.1 ≠ .error (.suspend request)

theorem outcome_notWaiting {x : Exec env scope α} (prompt : Prompt x)
    (st : State) : Outcome.NotWaiting (outcome x st) := by
  intro request
  have never := prompt st
  rw [outcome]
  split
  · rintro ⟨⟩
  · next stop after ended =>
    rw [ended] at never
    cases stop with
    | caught | fatal => rintro ⟨⟩
    | suspend waits other => exact absurd rfl (never waits other)

theorem prompt_of_scope (x : Exec env scope α) (prompt : scope.waits = false) : Prompt x := by
  intro st waits
  rw [prompt] at waits
  cases waits

/-- The kind of value that answers a request. -/
def FheRequest.accepts : FheRequest → FheValue → Bool
  | .loadKey _, .key _ | .readKey _, .key _ => true
  | .readCipher .., .cipher _ | .add .., .cipher _ | .sub .., .cipher _
  | .mul .., .cipher _ | .scale .., .cipher _ | .divide .., .cipher _
  | .addInt .., .cipher _ | .subInt .., .cipher _ => true
  | .writeKey _, .text _ | .writeCipher _, .text _ | .commit .., .text _ => true
  | .pack .., .check _ => true
  | _, _ => false

/-- What the answer of a worker says about a proof. -/
def fheVerification : Except FheError FheValue → Option FheVerification
  | .ok (.verified true) => some .verified
  | .ok (.verified false) => some .rejected
  | .error (.resource _) => some .unavailable
  | _ => none

/-- The workers answer what is answered at once. -/
structure Workers.Agree (workers : Workers) (env : Env) : Prop where
  call : workers.call = env.callContract
  deploy : workers.deploy = env.deployContract
  fhe : workers.fhe = env.fhe.eval
  verify : ∀ st request, fheVerification (workers.verify st request) =
    some (env.fhe.verifyProof st request)
  accepts : ∀ st request value, env.fhe.eval st request = .ok value → request.accepts value = true

def validReg (r : Reg) : Bool := 0 ≤ r ∧ r.toNat < 64

/-- The verdict on a proof lets the program go on, unless the program is at its
end or stopped by another exception. -/
def VerdictFits (env : Env) (program : Program) (st : State) (rd : Reg) : FheVerification → Prop
  | .verified | .rejected => validReg rd = true
  | .unavailable => (env.isView = false ∧ stateProofEnabled env = true) ∨ st.pc = program.size

/-- The answer to what a program waits for lets it go on, unless it is at its
end or stopped by another exception. -/
def AnswerFits (env : Env) (program : Program) (st : State) : Suspension → Prop
  | .callWait rd target methodName args =>
    match (env.callContract st env.address target methodName args (childScope env st)).1 with
    | .ok (.ok sub) =>
      if (Cost.charge st.effortUsed sub.effortUsed env.effortLimit).isSome
      then validReg rd = true else st.pc = program.size
    | .ok (.error _) => st.pc = program.size
    | .error crash => crash = .fatal
  | .spawnWait rd code nonce params =>
    match (env.deployContract st env.address code nonce (childScope env st) params).1 with
    | .ok (.ok spawned) =>
      (Cost.charge st.effortUsed spawned.effortUsed env.effortLimit).isSome ∧ validReg rd = true
    | .ok (.error _) => st.pc = program.size
    | .error crash => crash = .fatal
  | .proofWait rd request => VerdictFits env program st rd (env.fhe.verifyProof st request)
  | .fheWait rd _ (.pack kind key cipher proof) =>
    match env.fhe.eval st (.pack kind key cipher proof) with
    | .ok (.check request) => VerdictFits env program st rd (env.fhe.verifyProof st request)
    | .error (.resource .host) => env.isView = false
    | _ => True
  | .fheWait rd _ request =>
    match env.fhe.eval st request with
    | .ok _ => validReg rd = true
    | .error .invalid => st.pc = program.size
    | .error (.resource _) => True

/-- What comes of an answer and what would have come at once. -/
inductive Resumed (program : Program) : Outcome Bool → Outcome Bool → Prop
  | goesOn (st : State) : Resumed program (.ok true, st) (.ok true, st)
  | ends (st : State) (atEnd : st.pc = program.size) (refused : st.reverted = true) :
      Resumed program (.ok false, st) (.ok false, st)
  | caught (st : State) : Resumed program (.ok false, st.refused) (.error .caught, st)
  | fatal (st : State) : Resumed program (.error .fatal, st) (.error .fatal, st)

/-- What comes of an instruction that may wait, and of the same at once. -/
inductive Mirrored (env : Env) (workers : Workers) (program : Program) :
    Outcome Bool → Outcome Bool → Prop
  | same (result : Outcome Bool) (prompt : result.NotWaiting) :
      Mirrored env workers program result result
  | waited (request : Suspension) (asked : State) (atOnce : Outcome Bool)
      (prompt : atOnce.NotWaiting)
      (resumed : AnswerFits env program asked request →
        Resumed program (outcome (resume env workers request) asked) atOnce) :
      Mirrored env workers program (.error (.suspend request), asked) atOnce

/-- A computation that may wait mirrors the same one at once. -/
def Mirrors (workers : Workers) (program : Program) (x y : Exec env scope Bool) : Prop :=
  ∀ st, Mirrored env workers program (outcome x st) (outcome y st)

theorem outcome_bind (x : Exec env scope α) (f : α → Exec env scope β) (st : State) :
    outcome (x >>= f) st =
      match outcome x st with
      | (.ok a, after) => outcome (f a) after
      | (.error halt, after) => (.error halt, after) := by
  rw [outcome, outcome, Chained.run_bind]
  rcases x.run st with ⟨stop | a, after⟩ <;> rfl

namespace Mirrors

variable {workers : Workers} {program : Program}

theorem of_prompt {x : Exec env scope Bool} (prompt : Prompt x) : Mirrors workers program x x :=
  fun st => .same _ (outcome_notWaiting prompt st)

theorem bind {x : Exec env scope α} {f g : α → Exec env scope Bool}
    (prompt : Prompt x) (mirrors : ∀ a, Mirrors workers program (f a) (g a)) :
    Mirrors workers program (x >>= f) (x >>= g) := by
  intro st
  have never := outcome_notWaiting prompt st
  rw [outcome_bind, outcome_bind]
  rcases ended : outcome x st with ⟨halt | a, after⟩
  · refine .same _ ?_
    rw [ended] at never
    rintro request ⟨⟩
    exact never request rfl
  · exact mirrors a after

theorem ite {condition : Prop} [Decidable condition]
    {x y z w : Exec env scope Bool} (first : Mirrors workers program x z)
    (second : Mirrors workers program y w) :
    Mirrors workers program (if condition then x else y) (if condition then z else w) := by
  split
  · exact first
  · exact second

theorem ifM {check : Exec env scope Bool} {x y z w : Exec env scope Bool}
    (prompt : Prompt check) (first : Mirrors workers program x z)
    (second : Mirrors workers program y w) :
    Mirrors workers program (do if ← check then x else y) (do if ← check then z else w) :=
  bind prompt fun _ => first.ite second

end Mirrors

theorem appendLogs_prompt (events : List EventRecord) :
    Prompt (appendLogs events : Exec env scope Unit) := by
  rintro st waits request ⟨⟩

theorem revert_prompt : Prompt (revert : Exec env scope Bool) :=
  (Prompt.change _ _).bind fun _ => .pure _

theorem setr_prompt (r : Reg) (v : Value) : Prompt (setr r v : Exec env scope Unit) := by
  rw [setr]
  split
  · exact .change _ _
  · exact .raise

theorem put_prompt (r : Reg) (v : Value) : Prompt (put r v : Exec env scope Bool) :=
  (setr_prompt r v).bind fun _ => .pure _

theorem revertWithReason_prompt (reason : Bytes) :
    Prompt (revertWithReason env reason : Exec env scope Bool) := by
  refine Prompt.bind ?_ fun _ => revert_prompt
  exact (settle_quiet _).prompt.ifM ((appendLogs_prompt _).bind fun _ => .pure _) (.pure _)

theorem viewGuard_prompt : Prompt (viewGuard env : Exec env scope Bool) :=
  (revertWithReason_prompt _).ite (.pure _)

theorem finishFheVerification_prompt (rd : Reg) (verification : FheVerification) :
    Prompt (finishFheVerification env rd verification : Exec env scope Bool) := by
  cases verification with
  | verified | rejected => exact put_prompt _ _
  | unavailable => exact Prompt.fatal.ite (revertWithReason_prompt _)

theorem finishFhe_prompt (rd : Reg) (reason : Option Bytes) (answer : Except FheError FheValue) :
    Prompt (finishFhe env rd reason answer : Exec env scope Bool) := by
  rcases answer with (_ | resource) | value
  · cases reason with
    | none => exact revert_prompt
    | some reason => exact revertWithReason_prompt reason
  · exact .fatal
  · cases value with
    | key | cipher | text => exact put_prompt _ _
    | check | verified => exact .fatal

theorem finishCall_prompt (rd : Reg) (effort : Int) (events : List EventRecord) (value : Value) :
    Prompt (finishCall env rd effort events value : Exec env scope Bool) :=
  (addDynEffort_quiet effort).prompt.ifM
    ((appendLogs_prompt events).bind fun _ => put_prompt rd value)
    revert_prompt

theorem outcome_pure (a : α) (st : State) :
    outcome (pure a : Exec env scope α) st = (.ok a, st) := rfl

theorem outcome_read (f : State → Exec env scope α) (st : State) :
    outcome (read >>= f) st = outcome (f st) st := rfl

/-- A value is put into a register, whatever else an instruction may do. -/
theorem outcome_put {r : Reg} (valid : validReg r = true) (v : Value) (st : State) :
    ∃ next, ∀ scope, outcome (put r v : Exec env scope Bool) st = (.ok true, next) := by
  have inRegs : 0 ≤ r ∧ r.toNat < 64 := by simpa [validReg] using valid
  refine ⟨{ st with regs := st.regs.set r.toNat v inRegs.2 }, fun scope => ?_⟩
  rw [put, setr, dif_pos inRegs]
  rfl

theorem appendEvent_run (event : EventRecord) (st : State) :
    ∃ appended next, next.pc = st.pc ∧ ∀ scope,
      outcome (appendEvent env event : Exec env scope Bool) st = (.ok appended, next) := by
  rcases settled : (settle env (Charging.eventWork env.effortLimit event) :
    Exec env .plain Bool).run st with ⟨stop | charged, after⟩
  · cases settled
  · have spent := (@settle_quiet env .plain (Charging.eventWork env.effortLimit event)).spent st
    rw [settled] at spent
    have settledIn : ∀ scope, outcome (settle env
        (Charging.eventWork env.effortLimit event) : Exec env scope Bool) st =
        (.ok charged, after) := by
      intro scope
      rw [← outcome_eq_ok.mpr settled]
      rfl
    have kept : after.pc = st.pc := spent.pc
    cases charged with
    | false =>
      refine ⟨false, after, kept, fun scope => ?_⟩
      rw [appendEvent, outcome_bind, settledIn]
      rfl
    | true =>
      refine ⟨true, { after with logs := [event].reverseAux after.logs }, kept, fun scope => ?_⟩
      rw [appendEvent, outcome_bind, settledIn]
      rfl

/-- A program is refused for a reason, whatever else an instruction may do. -/
theorem outcome_revertWithReason (reason : Bytes) (st : State) :
    ∃ next, next.pc = st.pc ∧ next.reverted = true ∧ ∀ scope,
      outcome (revertWithReason env reason : Exec env scope Bool) st = (.ok false, next) := by
  obtain ⟨appended, next, kept, ran⟩ := @appendEvent_run env (requireEvent env reason) st
  refine ⟨next.refused, kept, rfl, fun scope => ?_⟩
  rw [revertWithReason, outcome_bind, ran]
  rfl

theorem outcome_addDynEffort (cost : Int) (st : State) :
    outcome (addDynEffort env cost : Exec env scope Bool) st =
      match Cost.charge st.effortUsed cost env.effortLimit with
      | none => (.ok false, st)
      | some effort => (.ok true, { st with effortUsed := effort }) := by
  rw [outcome, addDynEffort, charging, Chained.run_changing]
  rcases Cost.charge st.effortUsed cost env.effortLimit with _ | effort <;> rfl

/-- What a sub-call returned is taken over if its effort can be charged. -/
theorem outcome_finishCall {rd : Reg} {effort : Int}
    (events : List EventRecord) (value : Value) (st : State) :
    outcome (finishCall env rd effort events value : Exec env scope Bool) st =
      match Cost.charge st.effortUsed effort env.effortLimit with
      | none => (.ok false, st.refused)
      | some charged =>
        outcome (put rd value : Exec env scope Bool)
          { st with effortUsed := charged, logs := events.reverseAux st.logs } := by
  rw [finishCall, outcome_bind, outcome_addDynEffort]
  rcases Cost.charge st.effortUsed effort env.effortLimit with _ | charged
  · rfl
  · rfl

theorem keyAllowed_prompt (source : FheKey) :
    Prompt (keyAllowed env source : Exec env scope Bool) := by
  cases source with
  | keyValue key => exact (reserveFhe_quiet _).prompt
  | keyBytes raw =>
    refine Prompt.read.bind fun st => Prompt.ite ?_ (.pure _)
    rw [reserveSize.eq_def]
    split
    · exact .pure _
    · exact (reserveFhe_quiet _).prompt

theorem chargeFheKey_prompt (source : FheKey) :
    Prompt (chargeFheKey env source : Exec env scope Bool) := by
  rw [chargeFheKey.eq_def]
  refine Prompt.ite (.pure _) ?_
  dsimp only
  split
  · exact .pure _
  · exact (addDynEffort_quiet _).prompt

theorem require_mirrors {workers : Workers} {program : Program}
    {checks : List (Exec env .waiting Bool)} {x y : Exec env .waiting Bool}
    (prompt : ∀ check ∈ checks, Prompt check) (mirrors : Mirrors workers program x y) :
    Mirrors workers program (require env checks x) (require env checks y) := by
  refine Mirrors.ifM ?_ mirrors (.of_prompt revert_prompt)
  induction checks with
  | nil => exact .pure _
  | cons check rest ih =>
    exact (prompt check List.mem_cons_self).ifM
      (ih fun other present => prompt other (List.mem_cons_of_mem _ present)) (.pure _)

section Resuming

variable {workers : Workers} (agree : workers.Agree env) (program : Program)

include agree

/-- A verdict that came later is the one that would have come at once. -/
theorem resumeProof_resumed {rd : Reg} {request : ProofRequest} {st : State}
    (fits : VerdictFits env program st rd (env.fhe.verifyProof st request)) :
    Resumed program (outcome (resumeProof env workers rd request) st)
      (outcome (finishFheVerification env rd
        (env.fhe.verifyProof st request) : Exec env .waiting Bool) st) := by
  have verdict := agree.verify st request
  have asked : outcome (resumeProof env workers rd request) st =
      outcome (finishFheVerification env rd
        (env.fhe.verifyProof st request) : Exec env .calling Bool) st := by
    rw [resumeProof, outcome_read]
    generalize workers.verify st request = answer at verdict
    generalize env.fhe.verifyProof st request = verification at verdict
    revert verdict
    rw [fheVerification.eq_def]
    split <;> rintro ⟨⟩ <;> rfl
  rw [asked]
  generalize env.fhe.verifyProof st request = verification at fits
  cases verification with
  | verified =>
    obtain ⟨next, ran⟩ := @outcome_put env rd fits (.vBool true) st
    rw [finishFheVerification, finishFheVerification, ran, ran]
    exact .goesOn next
  | rejected =>
    obtain ⟨next, ran⟩ := @outcome_put env rd fits (.vBool false) st
    rw [finishFheVerification, finishFheVerification, ran, ran]
    exact .goesOn next
  | unavailable =>
    obtain ⟨next, kept, refused, ran⟩ := @outcome_revertWithReason env
      (Bytes.ofAscii "fhe verifier unavailable") st
    rw [finishFheVerification, finishFheVerification]
    by_cases stops : (!env.isView && stateProofEnabled env) = true
    · rw [if_pos stops, if_pos stops]
      exact .fatal st
    · rw [if_neg stops, if_neg stops, ran, ran]
      rcases fits with ⟨noView, enabled⟩ | atEnd
      · simp [noView, enabled] at stops
      · exact .ends next (kept.trans atEnd) refused

/-- An answer on ciphers that came later is the one that would have come at
once. -/
theorem finishFhe_resumed {rd : Reg} {reason : Option Bytes} {request : FheRequest} {st : State}
    (noPack : ∀ kind key cipher proof, request ≠ .pack kind key cipher proof)
    (fits : AnswerFits env program st (.fheWait rd reason request)) :
    Resumed program
      (outcome (resume env workers (.fheWait rd reason request)) st)
      (outcome (finishFhe env rd reason (env.fhe.eval st request) :
        Exec env .waiting Bool) st) := by
  have accepts := agree.accepts st request
  have resumed : outcome (resume env workers (.fheWait rd reason request)) st =
      outcome (finishFhe env rd reason (env.fhe.eval st request) : Exec env .calling Bool) st := by
    rw [resume, outcome_read, agree.fhe]
    rcases answer : env.fhe.eval st request with error | value
    · rfl
    · have accepted := accepts value answer
      cases value with
      | check proof =>
        cases request with
        | pack kind key cipher proof => exact absurd rfl (noPack _ _ _ _)
        | _ => cases accepted
      | _ => rfl
  rw [resumed]
  have suits : match env.fhe.eval st request with
      | .ok _ => validReg rd = true
      | .error .invalid => st.pc = program.size
      | .error (.resource _) => True := by
    cases request with
    | pack kind key cipher proof => exact absurd rfl (noPack _ _ _ _)
    | _ => exact fits
  rcases answer : env.fhe.eval st request with (_ | resource) | value
  · rw [answer] at suits
    cases reason with
    | none => exact .ends st.refused suits rfl
    | some reason =>
      obtain ⟨next, kept, refused, ran⟩ := @outcome_revertWithReason env reason st
      rw [finishFhe, finishFhe, ran, ran]
      exact .ends next (kept.trans suits) refused
  · exact .fatal st
  · rw [answer] at suits
    have put : ∀ v : Value, Resumed program
        (outcome (Vm.put rd v : Exec env .calling Bool) st)
        (outcome (Vm.put rd v : Exec env .waiting Bool) st) := by
      intro v
      obtain ⟨next, ran⟩ := @outcome_put env rd suits v st
      rw [ran, ran]
      exact .goesOn next
    cases value with
    | key | cipher | text => exact put _
    | check | verified => exact .fatal st

/-- The encoding of a proof that came later is the one that would have come at
once. -/
theorem packProof_resumed {rd : Reg} {kind : ProofKind} {key cipher : Nat}
    {proof : Bytes} {st : State} (allowed : proofsAllowed env = true)
    (fits : AnswerFits env program st (.fheWait rd none (.pack kind key cipher proof))) :
    Resumed program
      (outcome (resume env workers (.fheWait rd none (.pack kind key cipher proof))) st)
      (outcome (packProof env false rd kind key cipher proof >>=
        finishFheVerification env rd) st) := by
  have accepts := agree.accepts st (.pack kind key cipher proof)
  have enabled : env.isView = false → stateProofEnabled env = true := by
    intro noView
    simpa [proofsAllowed, noView] using allowed
  rw [resume, outcome_read, agree.fhe, packProof, outcome_bind]
  simp only [Bool.false_eq_true, if_false]
  rw [AnswerFits] at fits
  rcases answer : env.fhe.eval st (.pack kind key cipher proof) with
    (_ | resource) | value
  · rw [outcome_read, answer]
    exact .caught st
  · rw [answer] at fits
    rw [outcome_read, answer]
    cases resource with
    | memory | stack => exact .fatal st
    | host =>
      have stops : (!env.isView && stateProofEnabled env) = true := by
        rw [fits, enabled fits]
        rfl
      have fatal : outcome (finishFheVerification env rd .unavailable :
          Exec env .waiting Bool) st = (.error .fatal, st) := by
        rw [finishFheVerification, if_pos stops]
        rfl
      rw [outcome_pure]
      dsimp only
      rw [fatal]
      exact .fatal st
  · have accepted := accepts value answer
    cases value with
    | check request =>
      rw [answer] at fits
      rw [outcome_read, answer]
      exact resumeProof_resumed agree program fits
    | _ => cases accepted

theorem evalFhe_mirrors (rd : Reg) (request : FheRequest) (reason : Option Bytes)
    (noPack : ∀ kind key cipher proof, request ≠ .pack kind key cipher proof) :
    Mirrors workers program (evalFhe env true rd request reason)
      (evalFhe env false rd request reason) := by
  have charged : Prompt (if (env.proofExec || env.isView) = true then
      chargeRequest env request else return true : Exec env .waiting Bool) := by
    refine Prompt.ite ?_ (.pure _)
    rw [chargeRequest]
    split
    · exact .pure _
    · exact (addDynEffort_quiet _).prompt
  refine Mirrors.ifM charged ?_ (.of_prompt revert_prompt)
  refine Mirrors.ite ?_ ?_
  · exact .of_prompt (Prompt.read.bind fun _ => finishFhe_prompt _ _ _)
  · intro st
    refine .waited _ st _ (outcome_notWaiting (x := do
      finishFhe env rd reason (env.fhe.eval (← read) request))
      (Prompt.read.bind fun _ => finishFhe_prompt _ _ _) st) ?_
    exact finishFhe_resumed agree program noPack

theorem packProof_mirrors (rd : Reg) (kind : ProofKind) (key cipher : Nat)
    (proof : Bytes) (allowed : proofsAllowed env = true) :
    Mirrors workers program
      (packProof env true rd kind key cipher proof >>= finishFheVerification env rd)
      (packProof env false rd kind key cipher proof >>= finishFheVerification env rd) := by
  intro st
  refine .waited _ st _ (outcome_notWaiting ?_ st) (packProof_resumed agree program allowed)
  refine Prompt.bind ?_ fun _ => finishFheVerification_prompt _ _
  refine Prompt.read.bind fun st => ?_
  split
  · exact Prompt.read.bind fun _ => .pure _
  · exact .raise
  · exact .fatal
  · exact .fatal
  · exact .pure _
  · exact .pure _

theorem verifyProof_mirrors (rd : Reg) (request : ProofRequest) :
    Mirrors workers program
      (verifyProof env true rd request >>= finishFheVerification env rd)
      (verifyProof env false rd request >>= finishFheVerification env rd) := by
  intro st
  refine .waited _ st _ (outcome_notWaiting ?_ st) (resumeProof_resumed agree program)
  exact (Prompt.read.bind fun _ => .pure _).bind fun _ => finishFheVerification_prompt _ _

omit agree in
theorem onCiphers_mirrors (rpk ra rb : Reg) {x y : Nat → Nat → Nat → Exec env .waiting Bool}
    (mirrors : ∀ pk a b, Mirrors workers program (x pk a b) (y pk a b)) :
    Mirrors workers program (onCiphers env rpk ra rb x) (onCiphers env rpk ra rb y) := by
  refine Mirrors.ite ?_ (.of_prompt revert_prompt)
  refine Mirrors.bind (getr_quiet rpk).prompt fun key =>
    Mirrors.bind (getr_quiet ra).prompt fun a => Mirrors.bind (getr_quiet rb).prompt fun b => ?_
  split
  · exact mirrors _ _ _
  · exact .of_prompt revert_prompt

omit agree in
theorem onCipher_mirrors (rpk rct : Reg) {x y : Nat → Nat → Exec env .waiting Bool}
    (mirrors : ∀ pk ct, Mirrors workers program (x pk ct) (y pk ct)) :
    Mirrors workers program (onCipher env rpk rct x) (onCipher env rpk rct y) := by
  refine Mirrors.ite ?_ (.of_prompt revert_prompt)
  refine Mirrors.bind (getr_quiet rpk).prompt fun key =>
    Mirrors.bind (getr_quiet rct).prompt fun ct => ?_
  split
  · exact mirrors _ _
  · exact .of_prompt revert_prompt

theorem fheLoadPk_mirrors (rd rs : Reg) :
    Mirrors workers program (fheLoadPk env true rd rs) (fheLoadPk env false rd rs) := by
  have refused : ∀ reason, Mirrors workers program
      (revertWithReason env reason : Exec env .waiting Bool)
      (revertWithReason env reason) :=
    fun reason => .of_prompt (revertWithReason_prompt reason)
  refine Mirrors.ite ?_ (refused _)
  refine Mirrors.bind (getr_quiet rs).prompt fun v => Mirrors.bind .read fun st => ?_
  split
  · exact refused _
  · next source _ =>
    refine Mirrors.ifM (chargeFheKey_prompt source) ?_ (.of_prompt revert_prompt)
    refine Mirrors.ifM (keyAllowed_prompt source) ?_ (refused _)
    split
    · exact .of_prompt (put_prompt _ _)
    · exact evalFhe_mirrors agree program _ _ _ (by rintro _ _ _ _ ⟨⟩)

theorem fheMul_mirrors (rd rpk ra rb : Reg) :
    Mirrors workers program (fheMul env true rd rpk ra rb) (fheMul env false rd rpk ra rb) := by
  refine onCiphers_mirrors program rpk ra rb fun pk a b => ?_
  refine Mirrors.ite ?_ (.of_prompt revert_prompt)
  exact Mirrors.bind (Prompt.read.bind fun _ => .pure _) fun seed =>
    evalFhe_mirrors agree program _ _ _ (by rintro _ _ _ _ ⟨⟩)

theorem fheConst_mirrors (rd rpk rct rconst : Reg) (request : Nat → Nat → Int → FheRequest)
    (noPack : ∀ pk ct amount kind key cipher proof,
      request pk ct amount ≠ .pack kind key cipher proof) :
    Mirrors workers program (fheConst env true rd rpk rct rconst request)
      (fheConst env false rd rpk rct rconst request) := by
  refine onCipher_mirrors program rpk rct fun pk ct => ?_
  refine Mirrors.bind (getZ_quiet rconst).prompt fun value =>
    Mirrors.bind ?_ fun amount => evalFhe_mirrors agree program _ _ _ (noPack pk ct amount)
  rw [toInt64]
  split
  · exact .pure _
  · exact .raise

theorem fheDivConst_mirrors (rd rpk rct rdivisor : Reg) :
    Mirrors workers program (fheDivConst env true rd rpk rct rdivisor)
      (fheDivConst env false rd rpk rct rdivisor) := by
  refine onCipher_mirrors program rpk rct fun pk ct => ?_
  refine Mirrors.bind (getZ_quiet rdivisor).prompt fun divisor => ?_
  exact Mirrors.ite (.of_prompt (revertWithReason_prompt _))
    (evalFhe_mirrors agree program _ _ _ (by rintro _ _ _ _ ⟨⟩))

theorem fheCommit_mirrors (rd rpk rct : Reg) :
    Mirrors workers program (fheCommit env true rd rpk rct) (fheCommit env false rd rpk rct) := by
  refine Mirrors.ite ?_ (.of_prompt revert_prompt)
  refine Mirrors.bind (getr_quiet rpk).prompt fun key =>
    Mirrors.bind (getr_quiet rct).prompt fun ct => ?_
  split
  · exact evalFhe_mirrors agree program _ _ _ (by rintro _ _ _ _ ⟨⟩)
  · exact .of_prompt revert_prompt

theorem fheSer_mirrors (rd rct : Reg) :
    Mirrors workers program (fheSer env true rd rct) (fheSer env false rd rct) := by
  refine Mirrors.ite ?_ (.of_prompt revert_prompt)
  refine Mirrors.bind (getr_quiet rct).prompt fun ct => ?_
  split
  · exact evalFhe_mirrors agree program _ _ _ (by rintro _ _ _ _ ⟨⟩)
  · exact .of_prompt revert_prompt

theorem fheDeser_mirrors (rd rbytes : Reg) :
    Mirrors workers program (fheDeser env true rd rbytes) (fheDeser env false rd rbytes) := by
  refine Mirrors.ite ?_ (.of_prompt revert_prompt)
  refine Mirrors.bind (getr_quiet rbytes).prompt fun v => ?_
  split
  · exact .of_prompt revert_prompt
  · refine require_mirrors ?_ (evalFhe_mirrors agree program _ _ _ (by rintro _ _ _ _ ⟨⟩))
    intro check present
    simp only [List.mem_cons, List.not_mem_nil, or_false] at present
    rcases present with rfl | rfl | rfl
    · exact (addDynEffort_quiet _).prompt
    · exact .pure _
    · exact (reserveFhe_quiet _).prompt

theorem fheSerPk_mirrors (rd rpk : Reg) :
    Mirrors workers program (fheSerPk env true rd rpk) (fheSerPk env false rd rpk) := by
  refine Mirrors.ite ?_ (.of_prompt revert_prompt)
  refine Mirrors.bind (getr_quiet rpk).prompt fun v => ?_
  split
  · exact .of_prompt revert_prompt
  · refine require_mirrors ?_ (evalFhe_mirrors agree program _ _ _ (by rintro _ _ _ _ ⟨⟩))
    intro check present
    simp only [List.mem_cons, List.not_mem_nil, or_false] at present
    rcases present with rfl | rfl
    · exact chargeFheKey_prompt _
    · exact (reserveFhe_quiet _).prompt

theorem fheDeserPk_mirrors (rd rbytes : Reg) :
    Mirrors workers program (fheDeserPk env true rd rbytes) (fheDeserPk env false rd rbytes) := by
  refine Mirrors.ite ?_ (.of_prompt revert_prompt)
  refine Mirrors.bind (getr_quiet rbytes).prompt fun v => ?_
  split
  · exact .of_prompt revert_prompt
  · refine require_mirrors ?_ ?_
    · intro check present
      simp only [List.mem_cons, List.not_mem_nil, or_false] at present
      rcases present with rfl | rfl
      · exact (addDynEffort_quiet _).prompt
      · exact .pure _
    · split
      · exact .of_prompt revert_prompt
      · refine require_mirrors ?_ (evalFhe_mirrors agree program _ _ _ (by rintro _ _ _ _ ⟨⟩))
        intro check present
        simp only [List.mem_cons, List.not_mem_nil, or_false] at present
        rcases present with rfl | rfl
        · exact (addDynEffort_quiet _).prompt
        · exact keyAllowed_prompt _

omit agree in
/-- A verdict is asked for while no other proof is verified. -/
theorem withVerifierLane_mirrors {x y : Exec env .waiting FheVerification}
    {finish : FheVerification → Exec env .waiting Bool}
    (prompt : ∀ verification, Prompt (finish verification))
    (mirrors : Mirrors workers program (x >>= finish) (y >>= finish)) :
    Mirrors workers program (withVerifierLane env x >>= finish)
      (withVerifierLane env y >>= finish) := by
  intro st
  have lane : ∀ z : Exec env .waiting FheVerification,
      outcome (withVerifierLane env z >>= finish) st =
        if env.fhe.laneFree st then outcome (z >>= finish) st
        else outcome (finish .unavailable) st := by
    intro z
    rw [outcome_bind, withVerifierLane, outcome_read]
    by_cases free : env.fhe.laneFree st = true
    · rw [if_pos free, if_pos free, outcome_bind]
    · rw [if_neg free, if_neg free]
      rfl
  rw [lane, lane]
  split
  · exact mirrors st
  · exact .same _ (outcome_notWaiting (prompt _) st)

theorem laneProof_mirrors (rd : Reg) (pk ct : Nat) (prepared : Option (ProofKind × Bytes))
    (allowed : proofsAllowed env = true) :
    Mirrors workers program
      (withVerifierLane env
          (match prepared with
          | none => return .rejected
          | some (kind, proof) => packProof env true rd kind pk ct proof) >>=
        finishFheVerification env rd)
      (withVerifierLane env
          (match prepared with
          | none => return .rejected
          | some (kind, proof) => packProof env false rd kind pk ct proof) >>=
        finishFheVerification env rd) := by
  apply withVerifierLane_mirrors program
  · exact finishFheVerification_prompt rd
  · rcases prepared with _ | ⟨kind, proof⟩
    · exact .of_prompt ((Prompt.pure _).bind fun _ => finishFheVerification_prompt _ _)
    · exact packProof_mirrors agree program rd kind pk ct proof allowed

theorem verifyCommitted_mirrors (rd rpk rct rproof : Reg) (commitBytes : Option Bytes)
    (prepare : Bytes → Bytes → Option (ProofKind × Bytes)) (allowed : proofsAllowed env = true) :
    Mirrors workers program
      (verifyCommitted env true rd rpk rct rproof commitBytes prepare)
      (verifyCommitted env false rd rpk rct rproof commitBytes prepare) := by
  refine Mirrors.bind (getr_quiet rpk).prompt fun key =>
    Mirrors.bind (getr_quiet rct).prompt fun cipher =>
      Mirrors.bind (getr_quiet rproof).prompt fun proof => ?_
  split
  · refine Mirrors.ite (.of_prompt revert_prompt) ?_
    refine Mirrors.ite (.of_prompt (put_prompt _ _)) ?_
    exact laneProof_mirrors agree program _ _ _ (prepare _ _) allowed
  · exact .of_prompt revert_prompt

theorem verifyCipher_mirrors (capability : FheCapability)
    (rd rpk rct rproof : Reg) (rcommit : Option Reg)
    (prepare : Bytes → Bytes → Option (ProofKind × Bytes)) :
    Mirrors workers program
      (verifyCipher env true capability rd rpk rct rproof rcommit prepare)
      (verifyCipher env false capability rd rpk rct rproof rcommit prepare) := by
  rw [verifyCipher.eq_def, verifyCipher.eq_def]
  split
  · next admitted =>
    have allowed : proofsAllowed env = true := by
      rw [Bool.and_eq_true] at admitted
      exact admitted.2
    cases rcommit with
    | none => exact verifyCommitted_mirrors agree program _ _ _ _ _ _ allowed
    | some reg =>
      exact Mirrors.bind (getr_quiet reg).prompt fun v =>
        verifyCommitted_mirrors agree program _ _ _ _ _ _ allowed
  · exact .of_prompt revert_prompt

theorem groth16_mirrors (rd rvk rproof rinputs : Reg) :
    Mirrors workers program
      (groth16VerifyBn254 env true rd rvk rproof rinputs)
      (groth16VerifyBn254 env false rd rvk rproof rinputs) := by
  have answered : ∀ v, Mirrors workers program (put rd v : Exec env .waiting Bool) (put rd v) :=
    fun v => .of_prompt (put_prompt rd v)
  refine Mirrors.ite ?_ (.of_prompt revert_prompt)
  refine Mirrors.bind (getr_quiet rvk).prompt fun key =>
    Mirrors.bind (getr_quiet rproof).prompt fun proof =>
      Mirrors.bind (getr_quiet rinputs).prompt fun inputs => ?_
  split
  · refine Mirrors.ite (answered _) ?_
    split
    · exact answered _
    · refine Mirrors.ite (answered _) ?_
      refine Mirrors.ifM (addDynEffort_quiet _).prompt ?_ (answered _)
      refine Mirrors.ite ?_ (answered _)
      exact verifyProof_mirrors agree program _ _
  · exact .of_prompt revert_prompt

omit agree in
theorem mapM_prompt (f : α → Exec env scope β) (prompt : ∀ a, Prompt (f a))
    (items : List α) : Prompt (items.mapM f) := by
  have loop : ∀ done, Prompt (List.mapM.loop f items done) := by
    induction items with
    | nil => exact fun done => .pure _
    | cons item rest ih => exact fun done => (prompt item).bind fun b => ih _
  exact loop []

/-- Taking over what a sub-call left changes neither the effort nor the place
in the program. -/
def State.shared (st : State) (left : Shared) : State :=
  { st with storage := left.storage, budget := left.budget, fheMemory := left.fheMemory }

omit agree in
theorem put_resumed {rd : Reg} (valid : validReg rd = true) (v : Value) (st : State) :
    Resumed program (outcome (put rd v : Exec env .calling Bool) st)
      (outcome (put rd v : Exec env .calling Bool) st) := by
  obtain ⟨next, ran⟩ := @outcome_put env rd valid v st
  rw [ran]
  exact .goesOn next

omit agree in
/-- What is done with the answer of a call. -/
theorem finishCall_resumed {rd : Reg} {sub : Subcall} {st : State}
    (fits : if (Cost.charge st.effortUsed sub.effortUsed
        env.effortLimit).isSome then validReg rd = true
      else st.pc = program.size) :
    Resumed program
      (outcome (finishCall env rd sub.effortUsed sub.events sub.returnValue :
        Exec env .calling Bool) st)
      (outcome (finishCall env rd sub.effortUsed sub.events sub.returnValue :
        Exec env .calling Bool) st) := by
  rw [outcome_finishCall]
  rcases charging : Cost.charge st.effortUsed sub.effortUsed env.effortLimit
    with _ | charged
  · rw [charging] at fits
    exact .ends st.refused fits rfl
  · rw [charging] at fits
    exact put_resumed program fits _ _

theorem xcall_resumed {rd : Reg} {target methodName : Bytes} {args : List Value} {st : State}
    (fits : AnswerFits env program st (.callWait rd target methodName args)) :
    Resumed program
      (outcome (resume env workers (.callWait rd target methodName args)) st)
      (outcome (do
        let st ← read
        let (answer, left) := env.callContract st env.address target methodName
          args (childScope env st)
        share left
        match ← answered answer with
        | .ok sub => finishCall env rd sub.effortUsed sub.events sub.returnValue
        | .error _ => revert : Exec env .calling Bool) st) := by
  rw [resume, agree.call]
  rw [AnswerFits] at fits
  refine (congrArg₂ (Resumed program) (outcome_read _ st) (outcome_read _ st)).mpr ?_
  generalize env.callContract st env.address target methodName args
    (childScope env st) = answer at fits
  rcases answer with ⟨(_ | _) | (_ | sub), left⟩
  · cases fits
  · exact .fatal (st.shared left)
  · exact .ends (st.shared left).refused fits rfl
  · exact @finishCall_resumed env program rd sub (st.shared left) fits

theorem xcall_mirrors (rd rt rm ra : Reg) (nargs : Int) :
    Mirrors workers program (xcall env true rd rt rm ra nargs)
      (xcall env false rd rt rm ra nargs) := by
  refine Mirrors.ite (.of_prompt revert_prompt) ?_
  refine Mirrors.ite (.of_prompt revert_prompt) ?_
  refine Mirrors.bind (getr_quiet rt).prompt fun target =>
    Mirrors.bind (getr_quiet rm).prompt fun methodName =>
      Mirrors.bind (mapM_prompt _ (fun r => (getr_quiet r).prompt) _) fun args => ?_
  intro st
  refine .waited _ st _ (outcome_notWaiting ?_ st) (xcall_resumed agree program)
  refine Prompt.read.bind fun st => (Prompt.change _ _).bind fun _ =>
    (Prompt.answered _).bind fun answer => ?_
  split
  · exact finishCall_prompt _ _ _ _
  · exact revert_prompt

theorem spawn_resumed {rd : Reg} {code : Bytes} {nonce : Int} {params : List Value} {st : State}
    (fits : AnswerFits env program st (.spawnWait rd code nonce params)) :
    Resumed program
      (outcome (resume env workers (.spawnWait rd code nonce params)) st)
      (outcome (do
        let st ← read
        let (answer, left) := env.deployContract st env.address code nonce
          (childScope env st) params
        share left
        match ← answered answer with
        | .ok spawned =>
          finishCall env rd spawned.effortUsed spawned.events (.vAddr spawned.spawnedAddr)
        | .error _ =>
          setSpawnNonce nonce
          revert : Exec env .calling Bool) st) := by
  rw [resume, agree.deploy]
  rw [AnswerFits] at fits
  refine (congrArg₂ (Resumed program) (outcome_read _ st) (outcome_read _ st)).mpr ?_
  generalize env.deployContract st env.address code nonce (childScope env st)
    params = answer at fits
  rcases answer with ⟨(_ | _) | (_ | spawned), left⟩
  · cases fits
  · exact .fatal (st.shared left)
  · exact .ends ((st.shared left).replaced spawnNonceKey (intToString nonce)).refused fits rfl
  · obtain ⟨charges, valid⟩ := fits
    obtain ⟨charged, charging⟩ := Option.isSome_iff_exists.mp charges
    have charging : Cost.charge (st.shared left).effortUsed
        spawned.effortUsed env.effortLimit = some charged := charging
    obtain ⟨next, ran⟩ := @outcome_put env rd valid
      (.vAddr spawned.spawnedAddr)
      { st.shared left with effortUsed := charged, logs := spawned.events.reverseAux st.logs }
    have atOnce : outcome (finishCall env rd spawned.effortUsed spawned.events
        (.vAddr spawned.spawnedAddr) : Exec env .calling Bool)
        (st.shared left) = (.ok true, next) := by
      rw [outcome_finishCall, charging]
      exact ran _
    have later : outcome (do
        if ← addDynEffort env spawned.effortUsed then
          appendLogs spawned.events
          put rd (.vAddr spawned.spawnedAddr)
        else do
          setSpawnNonce nonce
          revert : Exec env .calling Bool) (st.shared left) =
        (.ok true, next) := by
      rw [outcome_bind, outcome_addDynEffort, charging]
      exact ran _
    have resumed := @Resumed.goesOn program next
    rw [← atOnce] at resumed
    nth_rewrite 1 [atOnce] at resumed
    rw [← later] at resumed
    exact resumed

theorem spawnCode_mirrors (rd : Reg) (code : Bytes) (params : List Value) :
    Mirrors workers program (spawnCode env true rd code params)
      (spawnCode env false rd code params) := by
  have refused : Mirrors workers program
      (revert : Exec env .calling Bool) revert := .of_prompt revert_prompt
  refine Mirrors.bind .read fun st => ?_
  refine Mirrors.ifM (chargeBytes_quiet _ _ _).prompt ?_ refused
  refine Mirrors.bind (.change _ _) fun _ => ?_
  refine Mirrors.ifM (addDynEffort_quiet _).prompt ?_ refused
  intro st
  refine .waited _ st _ (outcome_notWaiting ?_ st) (spawn_resumed agree program)
  refine Prompt.read.bind fun st => (Prompt.change _ _).bind fun _ =>
    (Prompt.answered _).bind fun answer => ?_
  split
  · exact finishCall_prompt _ _ _ _
  · exact (Prompt.change _ _).bind fun _ => revert_prompt

omit agree in
theorem spawnInput_prompt (input : Bytes) :
    Prompt (spawnInput env input : Exec env scope (Option Bytes)) := by
  refine (Prompt.pure _).ite (Prompt.ifM ?_ ?_ (.pure _))
  · rw [reserveDecode.eq_def]
    refine Prompt.ifM bounded_quiet.prompt ?_ (.pure _)
    split
    · exact .pure _
    · refine (Prompt.pure _).bind fun cost => ?_
      split
      · exact .pure _
      · rw [reserveBytes]
        exact (fits_quiet _ _).prompt.ifM (chargeBytes_quiet _ _ _).prompt (.pure _)
  · split
    · exact .pure _
    · exact bounded_quiet.prompt.ifM (.pure _) (.pure _)

theorem spawn2_mirrors (rd rs base : Reg) (nargs : Int) :
    Mirrors workers program (spawn2 env true rd rs base nargs)
      (spawn2 env false rd rs base nargs) := by
  have refused : Mirrors workers program
      (revert : Exec env .calling Bool) revert := .of_prompt revert_prompt
  refine Mirrors.ite refused ?_
  refine Mirrors.ifM viewGuard_prompt ?_ (.of_prompt (.pure _))
  refine Mirrors.ite refused ?_
  refine Mirrors.bind (getr_quiet rs).prompt fun source =>
    Mirrors.bind (spawnInput_prompt _) fun input => ?_
  split
  · exact refused
  · refine Mirrors.ite refused ?_
    exact Mirrors.bind (mapM_prompt _ (fun r => (getr_quiet r).prompt) _)
      fun params => spawnCode_mirrors agree program rd _ params

/-- An instruction that may wait does, once it is answered, what it does at
once. -/
theorem perform_mirrors (op : Instr) :
    Mirrors workers program (perform env true op) (perform env false op) := by
  by_cases prompt : op.scope.waits = false
  · rw [perform_eq prompt]
    exact .of_prompt (prompt_of_scope _ prompt)
  · cases op with
    | fheLoadPk rd rs => exact fheLoadPk_mirrors agree program rd rs
    | fheAdd rd rpk ra rb | fheSub rd rpk ra rb =>
      exact onCiphers_mirrors program rpk ra rb fun pk a b =>
        evalFhe_mirrors agree program _ _ _ (by rintro _ _ _ _ ⟨⟩)
    | fheMul rd rpk ra rb => exact fheMul_mirrors agree program rd rpk ra rb
    | fheScale | fheAddConst | fheSubConst =>
      exact fheConst_mirrors agree program _ _ _ _ _ (by rintro _ _ _ _ _ _ _ ⟨⟩)
    | fheDivConst rd rpk rct rdivisor =>
      exact fheDivConst_mirrors agree program rd rpk rct rdivisor
    | fheVerifyZero | fheVerifyRange | fheVerifyBound =>
      exact verifyCipher_mirrors agree program _ _ _ _ _ _ _
    | groth16VerifyBn254 rd rvk rproof rinputs =>
      exact groth16_mirrors agree program rd rvk rproof rinputs
    | fheCommit rd rpk rct => exact fheCommit_mirrors agree program rd rpk rct
    | fheSer rd rct => exact fheSer_mirrors agree program rd rct
    | fheDeser rd rbytes => exact fheDeser_mirrors agree program rd rbytes
    | fheSerPk rd rpk => exact fheSerPk_mirrors agree program rd rpk
    | fheDeserPk rd rbytes => exact fheDeserPk_mirrors agree program rd rbytes
    | xcall rd rt rm ra nargs => exact xcall_mirrors agree program rd rt rm ra nargs
    | spawn rd rs => exact spawn2_mirrors agree program rd rs 0 0
    | spawn2 rd rs base nargs => exact spawn2_mirrors agree program rd rs base nargs
    | _ => exact absurd rfl prompt

theorem execOne_mirrors (op : Instr) :
    Mirrors workers program (execOne env true op) (execOne env false op) := by
  rw [execOne_eq, execOne_eq]
  exact Mirrors.ifM (admission_quiet op).prompt (perform_mirrors agree program op)
    (.of_prompt revert_prompt)

end Resuming
end Vm
end LiteNode
