import LiteNode.Vm.Waiting
import LiteNode.Vm.Contract

/-!
# Runs with workers

A run at once, a run by steps and a run with workers end the same way, as long
as every answer that the run waits for lets the program go on.
-/

namespace LiteNode
namespace Vm

variable {env : Env} {async : Bool} {program : Program}

/-- What a run makes of the end of its loop. -/
def finishRun (env : Env) : Outcome Unit → Outcome Bool
  | (.ok _, st) => absorb (outcome (finishOutput env) st)
  | (.error halt, st) => absorb (.error halt, st)

theorem run_eq (fuel : Nat) (st : State) :
    run env async program fuel st = (runLoop env async program fuel st).map (finishRun env) := rfl

/-- A run with workers refuses what it ends with an exception. -/
def Outcome.refusing : Outcome Bool → Outcome Bool
  | (.error halt, st) => (.error halt, st.refused)
  | (.ok flag, st) => (.ok flag, st)

/-- What a step ends with. -/
inductive Ends : Outcome Progress → Outcome Bool → Prop
  | finished (st : State) : Ends (.ok .finished, st) (.ok true, st)
  | refused (st : State) : Ends (.ok .refused, st) (.ok false, st)
  | fatal (st : State) : Ends (.error .fatal, st) (.error .fatal, st)

theorem conclude_ends (st : State) : Ends (conclude env st) (finishRun env (.ok (), st)) := by
  have prompt := outcome_notWaiting (prompt_of_scope (finishOutput env) rfl) st
  rw [conclude, finishRun]
  generalize outcome (finishOutput env) st = ended at prompt
  rcases ended with ⟨halt | (_ | _), last⟩
  · cases halt with
    | caught => exact .refused _
    | fatal => exact .fatal last
    | suspend request => exact absurd rfl (prompt request)
  · exact .refused last
  · exact .finished last

variable {st : State}

theorem finishOutput_of_reverted (reverted : st.reverted = true) :
    outcome (finishOutput env) st = (.ok false, st) := by
  rw [finishOutput, outcome_read, if_pos reverted]
  rfl

theorem conclude_of_reverted (reverted : st.reverted = true) :
    conclude env st = (.ok .refused, st) := by
  rw [conclude, finishOutput_of_reverted reverted]

theorem finishRun_of_reverted (reverted : st.reverted = true) :
    finishRun env (.ok (), st) = (.ok false, st) := by
  rw [finishRun, finishOutput_of_reverted reverted]
  rfl

theorem step_of_stopped (stopped : ¬ going program st) :
    step env async program st = conclude env st := by
  rw [step]
  by_cases reverted : st.reverted = true
  · rw [if_pos reverted, conclude_of_reverted reverted]
  · have atEnd : (program.size : Int) ≤ st.pc := by simpa [going, reverted] using stopped
    rw [if_neg reverted, if_neg (by omega), if_pos atEnd]

/-- Outside of the program no instruction is found. -/
theorem step_outside (further : going program st) (outside : st.pc < 0) :
    step env async program st = (.ok .refused, st.refused) ∧
      cycle env async program st = (.error .caught, st) := by
  have live : st.reverted = false := by simpa using (Bool.and_eq_true_iff.mp further).2
  constructor
  · rw [step, live, if_neg Bool.false_ne_true, if_pos outside]
  · rw [cycle, fetch, if_neg (by omega)]

/-- What a step makes of one instruction. -/
def afterCycle (env : Env) (program : Program) : Outcome Unit → Outcome Progress
  | (.ok _, st) => if going program st then (.ok .running, st) else conclude env st
  | (.error .caught, st) => (.ok .refused, st.refused)
  | (.error halt, st) => (.error halt, st)

theorem step_inside (further : going program st) (inside : 0 ≤ st.pc) : step env async program st =
      afterCycle env program (cycle env async program st) := by
  obtain ⟨within, live⟩ := Bool.and_eq_true_iff.mp further
  have within : st.pc < program.size := by simpa using within
  have live : st.reverted = false := by simpa using live
  rw [step, live, if_neg Bool.false_ne_true, if_neg (by omega), if_neg (by omega)]
  rcases cycle env async program st with ⟨halt | _, next⟩
  · cases halt <;> rfl
  · dsimp only [afterCycle]
    by_cases reverted : next.reverted = true
    · have stopped : ¬ going program next := by simp [going, reverted]
      rw [if_pos reverted, if_neg stopped, conclude_of_reverted reverted]
    · by_cases atEnd : (program.size : Int) ≤ next.pc
      · have stopped : ¬ going program next := by simp [going, atEnd]
        rw [if_neg reverted, if_pos atEnd, if_neg stopped]
      · have goesOn : going program next := by
          simp [going, reverted]
          omega
        rw [if_neg reverted, if_neg atEnd, if_pos goesOn]

/-- What a cycle ends with makes a step end the same way. -/
theorem afterCycle_ends {ended : Outcome Unit} (prompt : ended.NotWaiting)
    (stops : ∀ st, ended = (.ok (), st) → ¬ going program st) :
    Ends (afterCycle env program ended) (finishRun env ended) := by
  rcases ended with ⟨halt | _, st⟩
  · cases halt with
    | caught => exact .refused _
    | fatal => exact .fatal st
    | suspend request => exact absurd rfl (prompt request)
  · rw [afterCycle, if_neg (stops st rfl)]
    exact conclude_ends st

theorem stepLoop_of_ends {ended : Outcome Bool}
    (ends : Ends (step env async program st) ended) (fuel : Nat) :
    stepLoop env async program (fuel + 1) st = some ended := by
  rw [stepLoop]
  generalize step env async program st = stepped at ends
  cases ends <;> rfl

theorem asyncLoop_of_ends {workers : Workers}
    {ended : Outcome Bool} (ends : Ends (step env true program st) ended)
    (full : Quota) (fuel : Nat) (quota : Quota) :
    asyncLoop env workers program full (fuel + 1) quota st = some ended.refusing := by
  rw [asyncLoop]
  generalize step env true program st = stepped at ends
  cases ends <;> rfl

/-- What a cycle makes of its instruction. -/
def afterInstr (program : Program) : Outcome Bool → Outcome Unit
  | (.ok true, st) => (.ok (), st)
  | (.ok false, st) => (.ok (), { st with pc := program.size })
  | (.error halt, st) => (.error halt, st)

theorem cycle_some {op : Instr} (fetched : fetch program st.pc = some op) :
    cycle env async program st =
      afterInstr program (outcome (execOne env async op) { st with pc := st.pc + 1 }) := by
  rw [cycle, fetched]
  rfl

theorem afterInstr_notWaiting {result : Outcome Bool} (prompt : result.NotWaiting) :
    (afterInstr program result).NotWaiting := by
  rcases result with ⟨halt | (_ | _), st⟩
  · rintro request ⟨⟩
    exact prompt request rfl
  · rintro request ⟨⟩
  · rintro request ⟨⟩

/-- Inside of the program an instruction is found. -/
theorem fetch_inside (further : going program st)
    (inside : 0 ≤ st.pc) : ∃ op, fetch program st.pc = some op := by
  have within : st.pc < program.size := by simpa using (Bool.and_eq_true_iff.mp further).1
  rw [fetch, if_pos inside]
  exact ⟨_, Array.getElem?_eq_getElem (by omega)⟩

/-- Go on by one instruction without an exception. -/
def Advances (env : Env) (program : Program) (st next : State) : Prop :=
  going program st ∧ cycle env false program st = (.ok (), next)

/-- Every answer that a run waits for lets the program go on. -/
def Welcomed (env : Env) (program : Program) (start : State) : Prop :=
  ∀ st asked request, Relation.ReflTransGen (Advances env program) start st → going program st →
    cycle env true program st = (.error (.suspend request), asked) →
    AnswerFits env program asked request

theorem Welcomed.next {next : State} (welcomed : Welcomed env program st)
    (advances : Advances env program st next) : Welcomed env program next :=
  fun later asked request reached => welcomed later asked request (reached.head advances)

section Agreeing

variable {workers : Workers} (agree : workers.Agree env)

include agree

variable {st : State} {fuel : Nat} {looped : Outcome Unit}

theorem cycle_notWaiting (inside : 0 ≤ st.pc) (further : going program st) :
    (cycle env false program st).NotWaiting := by
  obtain ⟨op, fetched⟩ := fetch_inside further inside
  rw [cycle_some fetched]
  apply afterInstr_notWaiting
  have mirrored := execOne_mirrors agree program op { st with pc := st.pc + 1 }
  generalize outcome (execOne env true op) _ = asked at mirrored
  cases mirrored with
  | same _ prompt => exact prompt
  | waited _ _ _ prompt _ => exact prompt

/-- A step of a run that ends: either the run ends there, or it goes on. -/
theorem runLoop_step (ran : runLoop env false program fuel st = some looped) :
    Ends (step env false program st) (finishRun env looped) ∨
      ∃ less next, less < fuel ∧ Advances env program st next ∧
        step env false program st = (.ok .running, next) ∧
        runLoop env false program less next = some looped := by
  by_cases further : going program st
  · obtain ⟨less, rfl⟩ : ∃ n, fuel = n + 1 := by
      cases fuel with
      | zero =>
        rw [runLoop_zero further] at ran
        cases ran
      | succ less => exact ⟨less, rfl⟩
    rw [runLoop_succ further] at ran
    by_cases inside : 0 ≤ st.pc
    · have prompt := cycle_notWaiting agree inside further
      rw [step_inside further inside]
      rcases cycled : cycle env false program st with ⟨halt | _, next⟩
      · rw [cycled] at ran prompt
        cases ran
        exact .inl (afterCycle_ends prompt (by rintro _ ⟨⟩))
      · rw [cycled] at ran prompt
        have ran : runLoop env false program less next = some looped := ran
        by_cases goesOn : going program next
        · exact .inr ⟨less, next, Nat.lt_succ_self less, ⟨further, cycled⟩, if_pos goesOn, ran⟩
        · rw [runLoop_stopped goesOn] at ran
          cases ran
          exact .inl (afterCycle_ends prompt (by rintro _ ⟨⟩; exact goesOn))
    · obtain ⟨stepped, cycled⟩ := @step_outside env false program st further (by omega)
      rw [cycled] at ran
      cases ran
      rw [stepped]
      exact .inl (.refused _)
  · rw [runLoop_stopped further] at ran
    cases ran
    rw [step_of_stopped further]
    exact .inl (conclude_ends st)

/-- A run by steps ends as a run at once. -/
theorem stepLoop_agreed (ran : runLoop env false program fuel st = some looped) {more : Nat}
    (enough : fuel < more) : stepLoop env false program more st = some (finishRun env looped) := by
  induction more generalizing fuel st with
  | zero => omega
  | succ more ih =>
    rcases runLoop_step agree ran with
      ended | ⟨less, next, fewer, -, stepped, goesOn⟩
    · exact stepLoop_of_ends ended more
    · rw [stepLoop, stepped]
      exact ih goesOn (by omega)

/-- A step with workers is a step at once, or it waits. -/
theorem step_mirrored (st : State) :
    step env true program st = step env false program st ∨
      ∃ request asked atOnce, going program st ∧
        cycle env true program st = (.error (.suspend request), asked) ∧
        step env true program st = (.error (.suspend request), asked) ∧
        cycle env false program st = afterInstr program atOnce ∧
        (AnswerFits env program asked request →
          Resumed program (outcome (resume env workers request) asked) atOnce) := by
  by_cases further : going program st
  · by_cases inside : 0 ≤ st.pc
    · obtain ⟨op, fetched⟩ := fetch_inside further inside
      have mirrored := execOne_mirrors agree program op { st with pc := st.pc + 1 }
      have waiting := @cycle_some env true _ _ _ fetched
      have atOnce := @cycle_some env false _ _ _ fetched
      rw [step_inside further inside, step_inside further inside]
      generalize outcome (execOne env true op) { st with pc := st.pc + 1 } =
        first at mirrored waiting
      generalize outcome (execOne env false op) { st with pc := st.pc + 1 } =
        second at mirrored atOnce
      cases mirrored with
      | same => exact .inl (by rw [waiting, atOnce])
      | waited request asked _ _ resumed =>
        refine .inr ⟨request, asked, second, further, waiting, ?_, atOnce, resumed⟩
        rw [waiting]
        rfl
    · exact .inl ((step_outside further (by omega)).1.trans
        (step_outside further (by omega)).1.symm)
  · rw [step_of_stopped further, step_of_stopped further]
    exact .inl rfl

/-- A run with workers ends as a run at once. -/
theorem asyncLoop_agreed (full : Quota) (welcomed : Welcomed env program st)
    (ran : runLoop env false program fuel st = some looped) {more : Nat}
    (enough : fuel < more) (quota : Quota) :
    asyncLoop env workers program full more quota st = some (finishRun env looped).refusing := by
  induction more generalizing fuel st quota with
  | zero => omega
  | succ more ih =>
    rcases step_mirrored agree st with
      same | ⟨request, asked, atOnce, further, cycled, stepped, mirrored, resumed⟩
    · rcases runLoop_step agree ran with
        ended | ⟨less, next, fewer, advances, running, goesOn⟩
      · exact asyncLoop_of_ends (same ▸ ended) full more quota
      · have later := ih (welcomed.next advances) goesOn (by omega)
        rw [asyncLoop, same, running]
        dsimp only
        split
        · exact later _
        · exact later _
    · obtain ⟨less, rfl⟩ : ∃ n, fuel = n + 1 := by
        cases fuel with
        | zero =>
          rw [runLoop_zero further] at ran
          cases ran
        | succ less => exact ⟨less, rfl⟩
      have fits := resumed (welcomed st asked request .refl further cycled)
      rw [runLoop_succ further, mirrored] at ran
      rw [asyncLoop, stepped]
      dsimp only
      generalize outcome (resume env workers request) asked = answered at fits
      cases fits with
      | goesOn next => exact ih (welcomed.next ⟨further, mirrored⟩) ran (by omega) full
      | ends next atEnd refused =>
        have stopped : ¬ going program next := by simp [going, refused]
        have same : { next with pc := (program.size : Int) } = next := by rw [← atEnd]
        have ran : runLoop env false program less
            { next with pc := (program.size : Int) } = some looped := ran
        rw [same, runLoop_stopped stopped] at ran
        cases ran
        rw [finishRun_of_reverted refused]
        rfl
      | caught | fatal =>
        cases ran
        rfl

end Agreeing

/-- Run at once, by steps or with workers, a program ends the same way. -/
def RunsAgree (env : Env) (workers : Workers) (program : Program) (start : State) : Prop :=
  ∃ fuel ended, ∀ more, fuel ≤ more →
    run env false program more start = some ended ∧
      stepLoop env false program more start = some ended ∧
      ∀ full, runAsync env workers program full more start = some ended.refusing

/-- Runs agree as long as every answer that the run waits for lets the program
go on. -/
theorem runs_agree {workers : Workers} (agree : workers.Agree env)
    {start : State} (welcomed : Welcomed env program start) :
    RunsAgree env workers program start := by
  obtain ⟨looped, ran, -⟩ := @runLoop_ends env false program _ start le_rfl
  refine ⟨(env.effortLimit - start.effortUsed).toNat + 2,
    finishRun env looped, fun more enough => ⟨?_, ?_, fun full => ?_⟩⟩
  · rw [run_eq, runLoop_more (by omega) ran]
    rfl
  · exact stepLoop_agreed agree ran (by omega)
  · exact asyncLoop_agreed agree full welcomed ran (by omega) full

/-- A worker's answer about a proof. -/
def verdict : FheVerification → Except FheError FheValue
  | .verified => .ok (.verified true)
  | .rejected => .ok (.verified false)
  | .unavailable => .error (.resource .host)

/-- Workers that answer as at once. -/
def promptWorkers (env : Env) : Workers where
  call := env.callContract
  deploy := env.deployContract
  fhe := env.fhe.eval
  verify st request := verdict (env.fhe.verifyProof st request)

theorem promptWorkers_agree (accepts : ∀ st request value,
      env.fhe.eval st request = .ok value → request.accepts value = true) :
    (promptWorkers env).Agree env where
  call := rfl
  deploy := rfl
  fhe := rfl
  verify st request := by
    have answered : ∀ verification, fheVerification (verdict verification) = some verification := by
      intro verification
      cases verification <;> rfl
    exact answered _
  accepts

/-- Where every call returns nothing and costs ten. -/
def callingCtx : Env :=
  { defaultCtx 100000 [] with
    callContract := fun st _ _ _ _ _ =>
      (.ok (.ok ⟨.vInt 0, 10, []⟩), ⟨st.storage, st.budget, st.fheMemory⟩) }

def singleCall : Program := #[.xcall 0 0 0 0 0]

theorem runs_agree_call :
    RunsAgree callingCtx (promptWorkers callingCtx) singleCall (createState ∅ none none) := by
  apply runs_agree
  · exact promptWorkers_agree (by rintro st request value ⟨⟩)
  · intro st asked request reached further waits
    rcases reached.cases_head with rfl | ⟨next, ⟨-, called⟩, reached⟩
    · cases waits
      exact (rfl : validReg 0 = true)
    · cases called
      rcases reached.cases_head with rfl | ⟨next, ⟨goesOn, -⟩, -⟩
      · cases further
      · cases goesOn

def failingCall : Program := #[.xcall 0 0 0 0 0, .nop]

/-- After a failed call a run at once is at the end of the program, and a run
with workers is not. -/
theorem not_runs_agree :
    ¬ ∀ (env : Env) (workers : Workers) (program : Program) (start : State),
      workers.Agree env → start.reverted = false →
      RunsAgree env workers program start := by
  intro agree
  let env := defaultCtx 100000 []
  obtain ⟨fuel, ended, same⟩ := agree env (promptWorkers env) failingCall
    (createState ∅ none none)
    (promptWorkers_agree (by rintro st request value ⟨⟩)) rfl
  obtain ⟨atOnce, -, waiting⟩ := same (fuel + 2) (by omega)
  have first : (run env false failingCall (fuel + 2)
      (createState ∅ none none)).map (fun ended => ended.2.pc) = some 2 := rfl
  have second : (runAsync env (promptWorkers env) failingCall 0 (fuel + 2)
      (createState ∅ none none)).map (fun ended => ended.2.pc) = some 1 := rfl
  rw [atOnce] at first
  rw [waiting] at second
  rcases ended with ⟨halt | flag, last⟩
  · cases first.symm.trans second
  · cases first.symm.trans second

end Vm
end LiteNode
