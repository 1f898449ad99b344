import LiteNode.Vm.Machine

/-!
# Effort bounds every run

No change lowers the effort or takes it past the limit, and an instruction
after which the program goes on has raised it. So a run ends, after no more
instructions than there is effort left.
-/

namespace LiteNode
namespace Vm

/-- The effort did not fall and, if it was within the limit, still is. -/
def Steady (limit : Int) (before after : State) : Prop :=
  before.effortUsed ≤ after.effortUsed ∧ (before.effortUsed ≤ limit → after.effortUsed ≤ limit)

namespace Steady

variable {limit : Int} {first second third : State}

theorem of_eq (same : second.effortUsed = first.effortUsed) : Steady limit first second :=
  ⟨same.ge, same.trans_le⟩

theorem refl (st : State) : Steady limit st st := of_eq rfl

theorem trans (before : Steady limit first second)
    (after : Steady limit second third) : Steady limit first third :=
  ⟨before.1.trans after.1, fun within => after.2 (before.2 within)⟩

instance : Std.Refl (Steady limit) := ⟨refl⟩

instance : IsTrans State (Steady limit) := ⟨fun _ _ _ => trans⟩

end Steady

theorem State.restore_effortUsed (st : State) (undo : List UndoEntry) :
    (st.restore undo).effortUsed = st.effortUsed := by
  induction undo generalizing st with
  | nil => rfl
  | cons entry rest ih =>
    rcases entry with _ | ⟨key, _ | value⟩ | cap
    · rfl
    · exact ih _
    · exact ih _
    · exact ih _

variable {env : Env} {scope : Scope}

variable {st next : State} {op : Instr} {work : Int}

theorem Change.steady (changed : Change env scope st next) : Steady env.effortLimit st next := by
  cases changed with
  | work same rises fits => exact ⟨rises, fits⟩
  | rollback => exact Steady.of_eq (st.restore_effortUsed _)
  | _ => exact Steady.of_eq rfl

theorem steady_run (x : Exec env scope α) (st : State) : Steady env.effortLimit st (x.run st).2 :=
  x.relates (Steady env.effortLimit) (fun _ _ => Change.steady) st

/-- Whatever a computation ended in, the effort is steady. -/
theorem steady_of_run {x : Exec env scope α}
    {result : Except (Stop scope) α} (ended : x.run st = (result, next)) :
    Steady env.effortLimit st next := by
  have := steady_run x st
  rwa [ended] at this

theorem IntWork.variableCost_nonneg (op : IntWork.Op) (left right : Int) :
    0 ≤ IntWork.variableCost op left right := by
  have cells_nonneg : ∀ value, 0 ≤ IntWork.cells value := by
    intro value
    have : 0 ≤ (IntWork.bits value - 1).tdiv 64 := by
      apply Int.tdiv_nonneg _ (by decide)
      have := le_max_left 1 (numbits value : Int)
      rw [IntWork.bits]
      omega
    rw [IntWork.cells]
    omega
  cases op with
  | add | sub => exact le_max_of_le_left (cells_nonneg left)
  | mul | div | mod => exact mul_nonneg (cells_nonneg left) (cells_nonneg right)
  | neg | abs => exact cells_nonneg left

theorem IntWork.le_cost (base : Int) (mode : IntWork.Mode) (op : IntWork.Op)
    (left right : Int) : base ≤ IntWork.cost base mode op left right := by
  cases mode with
  | prior => exact le_rfl
  | active =>
    have := IntWork.variableCost_nonneg op left right
    rw [IntWork.cost]
    omega

theorem le_binaryEffort {kind : IntWork.Op} {left right : Reg}
    (ended : (binaryEffort env op kind left right : Exec env scope Int).run st =
      (.ok work, next)) : op.effortCost ≤ work := by
  obtain ⟨mode, first, -, ended⟩ := Chained.run_bind_ok ended
  obtain ⟨a, second, -, ended⟩ := Chained.run_bind_ok ended
  obtain ⟨b, third, -, ended⟩ := Chained.run_bind_ok ended
  cases ended
  exact IntWork.le_cost _ _ _ _ _

theorem le_unaryEffort {kind : IntWork.Op} {source : Reg}
    (ended : (unaryEffort env op kind source : Exec env scope Int).run st =
      (.ok work, next)) : op.effortCost ≤ work := by
  obtain ⟨mode, first, -, ended⟩ := Chained.run_bind_ok ended
  obtain ⟨a, second, -, ended⟩ := Chained.run_bind_ok ended
  cases ended
  exact IntWork.le_cost _ _ _ _ _

/-- The effort of an instruction is at least what it costs. -/
theorem le_opEffort (ended : (opEffort env op : Exec env scope Int).run st =
      (.ok work, next)) : op.effortCost ≤ work := by
  rw [opEffort.eq_def] at ended
  split at ended
  case h_6 | h_7 => exact le_unaryEffort ended
  case h_8 =>
    cases ended
    exact le_rfl
  all_goals exact le_binaryEffort ended

theorem addZEffort_ok (charged : (addZEffort env work : Exec env scope Bool).run st =
      (.ok true, next)) :
    next.effortUsed = st.effortUsed + work ∧ next.effortUsed ≤ env.effortLimit := by
  simp only [addZEffort, charging, Chained.run_changing] at charged
  split at charged
  · cases charged
  · next effort quoted =>
    cases charged
    have := Cost.chargeZ_eq quoted
    exact ⟨this.1, this.2.2⟩

/-- An instruction after which the program goes on was charged. -/
theorem execOne_charged {async : Bool} (ended : (execOne env async op).run st = (.ok true, next)) :
    st.effortUsed + 1 ≤ next.effortUsed ∧ next.effortUsed ≤ env.effortLimit := by
  obtain ⟨reserved, first, reserving, ended⟩ := Chained.run_bind_ok ended
  have refuse : ∀ {s : State}, (revert : Exec env op.scope Bool).run s ≠ (.ok true, next) := by
    intro s same
    cases same
  split at ended
  · obtain ⟨strict, second, checking, ended⟩ := Chained.run_bind_ok ended
    obtain ⟨work, third, working, ended⟩ := Chained.run_bind_ok ended
    obtain ⟨charged, fourth, charging, ended⟩ := Chained.run_bind_ok ended
    have enough : op.effortCost ≤ work := by
      rw [chargedEffort] at working
      split at working
      · exact le_opEffort working
      · cases working
        exact le_rfl
    have before := (steady_of_run reserving).1.trans
      ((steady_of_run checking).1.trans (steady_of_run working).1)
    have positive := op.effortCost_pos
    have rest := steady_of_run ended
    split at ended
    · next isCharged =>
      rw [isCharged] at charging
      obtain ⟨raised, within⟩ := addZEffort_ok charging
      refine ⟨?_, rest.2 within⟩
      have := rest.1
      omega
    · exact absurd ended refuse
  · exact absurd ended refuse

variable {async : Bool} {program : Program}

theorem cycle_steady (st : State) : Steady env.effortLimit st (cycle env async program st).2 := by
  rw [cycle]
  split
  · exact Steady.refl st
  · next op _ =>
    have executed := steady_run (execOne env async op) { st with pc := st.pc + 1 }
    rw [← outcome_snd] at executed
    split
    all_goals
      next ended =>
      rw [ended] at executed
      exact executed

/-- After an instruction from which the program goes on there is less effort
left. -/
theorem cycle_charged (ended : cycle env async program st = (.ok (), next))
    (further : going program next) :
    st.effortUsed + 1 ≤ next.effortUsed ∧ next.effortUsed ≤ env.effortLimit := by
  rw [cycle] at ended
  split at ended
  · cases ended
  · next op _ =>
    split at ended
    · next after executed =>
      cases ended
      have := execOne_charged (outcome_eq_ok.mp executed)
      exact this
    · -- the program is at its end
      cases ended
      simp [going] at further
    · cases ended

theorem runLoop_stopped (stopped : ¬ going program st) (fuel : Nat) :
    runLoop env async program fuel st = some (.ok (), st) := by
  cases fuel with
  | zero | succ => rw [runLoop, if_neg stopped]

theorem runLoop_zero (further : going program st) : runLoop env async program 0 st = none := by
  rw [runLoop, if_pos further]

theorem runLoop_succ (further : going program st) (fuel : Nat) :
    runLoop env async program (fuel + 1) st =
      match cycle env async program st with
      | (.ok _, st) => runLoop env async program fuel st
      | (.error halt, st) => some (.error halt, st) :=
  if_pos further

/-- A loop ends after no more instructions than there is effort left, and one
more. -/
theorem runLoop_ends (fuel : Nat) (st : State)
    (enough : (env.effortLimit - st.effortUsed).toNat + 1 ≤ fuel) :
    ∃ outcome, runLoop env async program fuel st = some outcome ∧
      Steady env.effortLimit st outcome.2 := by
  induction fuel generalizing st with
  | zero => omega
  | succ fuel ih =>
    by_cases further : going program st
    · rw [runLoop_succ further]
      have stepped := @cycle_steady env async program st
      rcases ended : cycle env async program st with ⟨halt | _, next⟩
      · rw [ended] at stepped
        exact ⟨_, rfl, stepped⟩
      · rw [ended] at stepped
        by_cases goesOn : going program next
        · have := cycle_charged ended goesOn
          obtain ⟨outcome, looped, later⟩ := ih next (by omega)
          exact ⟨outcome, looped, stepped.trans later⟩
        · exact ⟨_, runLoop_stopped goesOn fuel, stepped⟩
    · exact ⟨_, runLoop_stopped further _, Steady.refl st⟩

theorem absorb_effortUsed (outcome : Outcome Bool) :
    (absorb outcome).2.effortUsed = outcome.2.effortUsed := by
  rw [absorb.eq_def]
  split <;> rfl

theorem Steady.absorb {outcome : Outcome Bool} {limit : Int} (steady : Steady limit st outcome.2) :
    Steady limit st (absorb outcome).2 :=
  steady.trans (Steady.of_eq (absorb_effortUsed outcome))

/-- A run ends after no more instructions than there is effort left, and one
more; its effort does not fall and stays within the limit. -/
theorem run_ends (fuel : Nat) (st : State)
    (enough : (env.effortLimit - st.effortUsed).toNat + 1 ≤ fuel) :
    ∃ outcome, run env async program fuel st = some outcome ∧
      Steady env.effortLimit st outcome.2 := by
  obtain ⟨⟨halt | _, last⟩, looped, steady⟩ := @runLoop_ends env async program fuel st enough
  · rw [run, looped]
    exact ⟨_, rfl, steady.absorb⟩
  · rw [run, looped]
    have finished := steady_run (finishOutput env) last
    rw [← outcome_snd] at finished
    exact ⟨_, rfl, (steady.trans finished).absorb⟩

/-- More fuel changes nothing once a loop ended. -/
theorem runLoop_more {fuel more : Nat} {outcome : Outcome Unit} (le : fuel ≤ more)
    (ended : runLoop env async program fuel st = some outcome) :
    runLoop env async program more st = some outcome := by
  induction fuel generalizing more st with
  | zero =>
    by_cases further : going program st
    · rw [runLoop_zero further] at ended
      cases ended
    · rw [runLoop_stopped further] at ended ⊢
      exact ended
  | succ fuel ih =>
    obtain ⟨more, rfl⟩ : ∃ n, more = n + 1 := ⟨more - 1, by omega⟩
    by_cases further : going program st
    · rw [runLoop_succ further] at ended ⊢
      rcases stepped : cycle env async program st with ⟨halt | _, next⟩
      · rw [stepped] at ended
        exact ended
      · rw [stepped] at ended
        exact ih (by omega) ended
    · rw [runLoop_stopped further] at ended ⊢
      exact ended

theorem run_more {fuel more : Nat} {outcome : Outcome Bool}
    (le : fuel ≤ more) (ended : run env async program fuel st = some outcome) :
    run env async program more st = some outcome := by
  obtain ⟨looped, loop, rfl⟩ := Option.map_eq_some_iff.mp ended
  rw [run, runLoop_more le loop]
  rfl

/-- Go on by one instruction. -/
def Cycled (env : Env) (async : Bool) (program : Program) (st next : State) : Prop :=
  going program st ∧ (cycle env async program st).2 = next

/-- The states that a run goes through. -/
abbrev Reaches (env : Env) (async : Bool) (program : Program) : State → State → Prop :=
  Relation.ReflTransGen (Cycled env async program)

theorem Reaches.steady (reached : Reaches env async program st next) :
    Steady env.effortLimit st next := by
  induction reached with
  | refl => exact Steady.refl st
  | tail _ step before =>
    obtain ⟨-, rfl⟩ := step
    exact before.trans (cycle_steady _)

def runToEnd (env : Env) (async : Bool) (program : Program) (st : State) : Outcome Bool :=
  (run env async program ((env.effortLimit - st.effortUsed).toNat + 1) st).get
    (by
      obtain ⟨outcome, ended, -⟩ := @run_ends env async program _ st le_rfl
      rw [ended]
      rfl)

theorem runToEnd_steady (st : State) :
    Steady env.effortLimit st (runToEnd env async program st).2 := by
  obtain ⟨outcome, ended, steady⟩ := @run_ends env async program _ st le_rfl
  rw [runToEnd, Option.get_of_eq_some _ ended]
  exact steady

end Vm
end LiteNode
