import LiteNode.Aml.Soundness

/-!
# Runs of checked terms

A term that is checked is run on inputs that are accepted. The run ends with a
value of the type that was inferred, within the resources and along the flow, or
stops in arithmetic. Where a comparison is counted for less work than it can be,
the run may also be refused for its work.
-/

/-! ## Accepted inputs -/

namespace LiteNode
namespace Aml

mutual

def Value.caps : Value → Caps
  | .unit | .bool _ | .int _ | .bytes _ | .enc _ _ _ => []
  | .cap kind id => [(kind, id)]
  | .vec values => capsAll values
  | .pair left right => left.caps ++ right.caps
  | .inl value | .inr value => value.caps

def capsAll : List Value → Caps
  | [] => []
  | value :: rest => value.caps ++ capsAll rest

end

@[simp] theorem capsAll_append (first second : List Value) :
    capsAll (first ++ second) = capsAll first ++ capsAll second := by
  induction first with
  | nil => rfl
  | cons value rest ih => rw [List.cons_append, capsAll, capsAll, ih, List.append_assoc]

/-! ## Inputs -/

/-- What is known when a value was accepted. -/
structure Accepted (typ : Typ) (value : Value) (before after : Nat × Caps) : Prop where
  typed : Aml.typed typ value = true
  caps : after.2.Perm (value.caps ++ before.2)
  distinct : before.2.Nodup → after.2.Nodup

variable {bind : Bind}

theorem accepted_elements {depth : Nat} {elem : Typ} (each : ∀ {value before after},
      inputFrom bind depth before elem value = .ok after →
        Accepted elem value before after) {values : List Value} {before after : Nat × Caps}
    (accepted : values.foldlM (fun state value =>
      inputFrom bind depth state elem value) before = .ok after) :
    (∀ item ∈ values, typed elem item = true) ∧ after.2.Perm (capsAll values ++ before.2) ∧
      (before.2.Nodup → after.2.Nodup) := by
  induction values generalizing before with
  | nil =>
    cases accepted
    exact ⟨by simp, .refl _, id⟩
  | cons item values ih =>
    rw [List.foldlM_cons] at accepted
    obtain ⟨between, first, rest⟩ := bind_eq_ok accepted
    have here := each first
    obtain ⟨others, caps, distinct⟩ := ih rest
    refine ⟨List.forall_mem_cons.mpr ⟨here.typed, others⟩, ?_,
      fun start => distinct (here.distinct start)⟩
    rw [capsAll, List.append_assoc]
    refine caps.trans (((here.caps.append_left _)).trans ?_)
    rw [← List.append_assoc, ← List.append_assoc]
    exact List.perm_append_comm.append_right _

theorem expect_eq_ok {passed : Bool} {result : Unit}
    (expected : expect bind passed = .ok result) : passed = true := by
  unfold expect at expected
  split at expected
  · assumption
  · cases expected

theorem accepted_of_inputFrom {typ : Typ} {depth : Nat} {value : Value} {before after : Nat × Caps}
    (accepted : inputFrom bind depth before typ value = .ok after) :
    Accepted typ value before after := by
  induction typ generalizing depth value before after with
  | unit | bool | int =>
    unfold inputFrom at accepted
    obtain ⟨_, -, rest⟩ := bind_eq_ok accepted
    cases value <;> cases rest
    exact ⟨rfl, .refl _, id⟩
  | num sign bits =>
    unfold inputFrom at accepted
    obtain ⟨_, -, rest⟩ := bind_eq_ok accepted
    cases value <;> first | cases rest | skip
    obtain ⟨_, admitted, rest⟩ := bind_eq_ok rest
    cases rest
    exact ⟨expect_eq_ok admitted, .refl _, id⟩
  | bytes len =>
    unfold inputFrom at accepted
    obtain ⟨_, -, rest⟩ := bind_eq_ok accepted
    cases value <;> first | cases rest | skip
    obtain ⟨_, size, rest⟩ := bind_eq_ok rest
    cases rest
    obtain ⟨rfl, -⟩ := CNat.ofInt_eq_some (of_decide_eq_true (expect_eq_ok size))
    exact ⟨by simp [typed], .refl _, id⟩
  | vec len elem ih =>
    unfold inputFrom at accepted
    obtain ⟨_, -, rest⟩ := bind_eq_ok accepted
    cases value <;> first | cases rest | skip
    obtain ⟨_, size, elements⟩ := bind_eq_ok rest
    obtain ⟨rfl, -⟩ := CNat.ofInt_eq_some (of_decide_eq_true (expect_eq_ok size))
    obtain ⟨each, caps, distinct⟩ := accepted_elements ih elements
    exact ⟨typed_vec_iff.mpr ⟨_, rfl, rfl, each⟩, caps, distinct⟩
  | seq cap elem ih =>
    unfold inputFrom at accepted
    obtain ⟨_, -, rest⟩ := bind_eq_ok accepted
    cases value with
    | pair first second =>
      cases first with
      | int len =>
        cases second with
        | vec values =>
          dsimp only at rest
          split at rest
          · next empty filled =>
            obtain ⟨_, sizes, rest⟩ := bind_eq_ok rest
            obtain ⟨_, behind, rest⟩ := bind_eq_ok rest
            have sizes := expect_eq_ok sizes
            simp only [Bool.and_eq_true, decide_eq_true_eq] at sizes
            obtain ⟨each, caps, distinct⟩ := accepted_elements ih rest
            exact ⟨typed_seq_iff.mpr ⟨_, _, empty, rfl, sizes.1.1,
              sizes.1.2, sizes.2, filled, each, expect_eq_ok behind⟩, caps, distinct⟩
          · cases rest
        | _ => cases rest
      | _ => cases rest
    | _ => cases rest
  | cap kind =>
    unfold inputFrom at accepted
    obtain ⟨_, -, rest⟩ := bind_eq_ok accepted
    cases value <;> first | cases rest | skip
    obtain ⟨_, named, added⟩ := bind_eq_ok rest
    obtain ⟨same, valid⟩ := Bool.and_eq_true_iff.mp (expect_eq_ok named)
    obtain rfl := of_decide_eq_true same
    split at added
    · cases added
    · next fresh =>
      cases added
      exact ⟨by simp [typed, valid], .refl _, fun distinct => List.nodup_cons.mpr ⟨fresh, distinct⟩⟩
  | enc key rem =>
    unfold inputFrom at accepted
    obtain ⟨_, -, rest⟩ := bind_eq_ok accepted
    cases value <;> first | cases rest | skip
    obtain ⟨_, named, rest⟩ := bind_eq_ok rest
    cases rest
    exact ⟨expect_eq_ok named, .refl _, id⟩
  | pair left right left_ih right_ih =>
    unfold inputFrom at accepted
    obtain ⟨_, -, rest⟩ := bind_eq_ok accepted
    cases value <;> first | cases rest | skip
    obtain ⟨between, first, second⟩ := bind_eq_ok rest
    have here := left_ih first
    have there := right_ih second
    refine ⟨by rw [typed, here.typed, there.typed]; rfl, ?_,
      fun start => there.distinct (here.distinct start)⟩
    rw [Value.caps, List.append_assoc]
    refine there.caps.trans ((here.caps.append_left _).trans ?_)
    rw [← List.append_assoc, ← List.append_assoc]
    exact List.perm_append_comm.append_right _
  | sum left right left_ih right_ih =>
    unfold inputFrom at accepted
    obtain ⟨_, -, rest⟩ := bind_eq_ok accepted
    cases value <;> first | cases rest | skip
    · have here := left_ih rest
      exact ⟨here.typed, here.caps, here.distinct⟩
    · have here := right_ih rest
      exact ⟨here.typed, here.caps, here.distinct⟩

def inputCaps (inputs : List (Bind × Value)) : Caps := inputs.flatMap fun input => input.2.caps

/-- Inputs that are accepted fit the scope that their binders open, and no
capability occurs in them twice. -/
theorem inputs_accepted {inputs : List (Bind × Value)} {ids : List Int}
    {caps : Caps} {env env' : Scope} {values values' : Env} (fits : Fits env values)
    (opened : openAll env (inputs.map Prod.fst) = .ok env')
    (accepted : inputEnv values caps ids inputs = .ok values') (distinct : caps.Nodup) :
    Fits env' values' ∧ (inputCaps inputs ++ caps).Nodup := by
  induction inputs generalizing env values caps ids with
  | nil =>
    cases opened
    cases accepted
    exact ⟨fits, distinct⟩
  | cons input inputs ih =>
    obtain ⟨bind, value⟩ := input
    rw [List.map_cons, openAll] at opened
    obtain ⟨between, first, opened⟩ := bind_eq_ok opened
    rw [inputEnv] at accepted
    obtain ⟨-, accepted⟩ := ite_error_eq_ok_iff.mp accepted
    obtain ⟨caps', here, accepted⟩ := bind_eq_ok accepted
    obtain ⟨⟨nodes, caps''⟩, read, rfl⟩ := map_eq_ok here
    have passed := accepted_of_inputFrom read
    have inner : Fits between (bindEnv bind value values) := by
      refine ⟨?_, fits.matched.opened first passed.typed⟩
      exact formed_opened first fits.formed
    obtain ⟨fits', apart⟩ := ih inner opened accepted (passed.distinct distinct)
    refine ⟨fits', ?_⟩
    refine (List.Perm.nodup_iff ?_).mpr apart
    refine .trans ?_ (passed.caps.symm.append_left _)
    rw [inputCaps, List.flatMap_cons, List.append_assoc]
    rw [← List.append_assoc, ← List.append_assoc]
    exact List.perm_append_comm.append_right _

/-- What a run returns is as it was inferred. -/
structure Sound (info : Info) (out : Out) : Prop where
  typed : Aml.typed info.typ out.value = true
  steps : out.steps ≤ info.res.steps
  work : out.work ≤ info.res.work
  path : Path info.flow out.actions

/-- A run returns what was inferred, or stops in arithmetic. -/
def Soundly (info : Info) : Except RunError Out → Prop
  | .ok out => Sound info out
  | .error reason => Arithmetic reason

variable {inputs : List (Bind × Value)} {term : Term} {info : Info} {values : Env}

/-- What a check tells of a term. -/
theorem checkIn_cases {binders : List Bind} (checked : checkIn binders term = .ok info) :
    binders.length ≤ localLimits.inputs ∧ ∃ env env',
      openAll [] binders = .ok env ∧ Infers env term info env' ∧ pending env' = none := by
  obtain ⟨_, few, rest⟩ := bind_eq_ok checked
  obtain ⟨_, -, rest⟩ := bind_eq_ok rest
  obtain ⟨env, opened, rest⟩ := bind_eq_ok rest
  obtain ⟨⟨info', env'⟩, inferred, rest⟩ := bind_eq_ok rest
  dsimp only at rest
  split at rest
  · next used =>
    cases rest
    exact ⟨of_decide_eq_true (check_eq_ok few), env, env', opened, infers_of_infer inferred, used⟩
  · cases rest

/-- The inputs of a checked term fit its scope, without a capability twice. -/
theorem checked_fits (checked : checkIn (inputs.map Prod.fst) term = .ok info)
    (accepted : inputEnv [] [] [] inputs = .ok values) :
    ∃ env env', openAll [] (inputs.map Prod.fst) = .ok env ∧
      Infers env term info env' ∧ pending env' = none ∧ Fits env values ∧
      (inputCaps inputs).Nodup := by
  obtain ⟨-, env, env', opened, inferred, used⟩ := checkIn_cases checked
  have start : Fits [] [] := ⟨by simp [FormedScope, binds], .nil⟩
  obtain ⟨fits, distinct⟩ := inputs_accepted start opened accepted List.nodup_nil
  rw [List.append_nil] at distinct
  exact ⟨env, env', opened, inferred, used, fits, distinct⟩

/-- The value of a run with what it took, once the limits are checked. -/
def finish (info : Info) (outcome : Done × Int) : Except RunError Out :=
  let plan := outcome.1.trace.map Action.atom
  if info.res.steps < outcome.1.steps then .error (.cost info.res.steps outcome.1.steps)
  else if info.res.work < outcome.1.work then .error (.work info.res.work outcome.1.work)
  else if (Limit.used outcome.1.steps outcome.1.work).le info.res = false then
    .error (.work info.res.work outcome.1.work)
  else if ¬ plan.toFinset ⊆ info.eff then .error (.effects info.eff plan.toFinset)
  else .ok {
    value := outcome.1.value
    plan := plan
    actions := outcome.1.trace
    steps := outcome.1.steps
    work := outcome.1.work
    row := info.eff
    limit := info.res.steps
    workLimit := info.res.work
    intWork := outcome.2 }

/-- A run evaluates the term in the environment of its inputs. -/
theorem runIn_eq {fuel : Int} (checked : checkIn (inputs.map Prod.fst) term = .ok info)
    (accepted : inputEnv [] [] [] inputs = .ok values) (enough : info.res.steps ≤ fuel) :
    runIn fuel inputs term = (eval values term).run 0 >>= finish info := by
  obtain ⟨few, -⟩ := checkIn_cases checked
  obtain ⟨env, env', -, inferred, -, fits, -⟩ := checked_fits checked accepted
  have natural := (inferred.sane fits.formed).nonneg.steps
  rw [List.length_map] at few
  unfold runIn inputBinds
  rw [if_pos few, ok_bind, checked]
  dsimp only
  rw [if_neg (by omega), accepted, ok_bind]
  rfl

/-- A value that meets what was inferred passes unless its work does not. -/
theorem finish_meets {counted : Prop} {outcome : Done × Int}
    (meets : Meets counted info outcome.1) (nonneg : info.res.Nonneg) :
    (outcome.1.work ≤ info.res.work → ∃ out, finish info outcome = .ok out ∧
      out.value = outcome.1.value ∧ out.actions = outcome.1.trace ∧ Sound info out) ∧
      (info.res.work < outcome.1.work →
        finish info outcome = .error (.work info.res.work outcome.1.work)) := by
  have steps := meets.steps
  have depth := nonneg.depth
  unfold finish
  rw [if_neg (by omega)]
  constructor
  · intro within
    have inside : (Limit.used outcome.1.steps outcome.1.work).le info.res = true := by
      simp [Limit.le, Limit.used, steps, depth, within]
    have row : (outcome.1.trace.map Action.atom).toFinset ⊆ info.eff := by
      intro atom listed
      obtain ⟨action, taken, rfl⟩ := List.mem_map.mp (List.mem_toFinset.mp listed)
      exact meets.row action taken
    rw [if_neg (by omega), inside, if_neg (by decide), if_neg (not_not.mpr row)]
    exact ⟨_, rfl, rfl, rfl, meets.typed, steps, within, meets.path⟩
  · intro beyond
    rw [if_pos beyond]

/-- Every run of a checked term on accepted inputs, with fuel for the steps that
were inferred, is sound if its comparisons are counted for what they can be.
Whatever they are counted for, the only other end is a refusal of the work. -/
theorem runIn_sound {fuel : Int} (checked : checkIn (inputs.map Prod.fst) term = .ok info)
    (accepted : inputEnv [] [] [] inputs = .ok values) (enough : info.res.steps ≤ fuel) :
    (Counted term.compared → Soundly info (runIn fuel inputs term)) ∧
      (Soundly info (runIn fuel inputs term) ∨ ∃ limit actual,
        limit < actual ∧ runIn fuel inputs term = .error (.work limit actual)) := by
  obtain ⟨env, env', -, inferred, -, fits, -⟩ := checked_fits checked accepted
  have nonneg := (inferred.sane fits.formed).nonneg
  have safe := @Infers.safe (Counted term.compared) _ _ _ _ _ inferred fits id
  rw [runIn_eq checked accepted enough]
  cases ran : (eval values term).run 0 with
  | error reason =>
    have stopped : Arithmetic reason := safe.of_error ran
    exact ⟨fun _ => stopped, .inl stopped⟩
  | ok outcome =>
    have meets := safe.of_ok ran
    obtain ⟨passes, refused⟩ := finish_meets meets nonneg
    have sound : outcome.1.work ≤ info.res.work →
        Soundly info (finish info outcome) := by
      intro within
      obtain ⟨out, done, -, -, holds⟩ := passes within
      rw [done]
      exact holds
    rw [ok_bind]
    refine ⟨fun condition => sound (meets.work condition), ?_⟩
    by_cases within : outcome.1.work ≤ info.res.work
    · exact .inl (sound within)
    · have beyond := Int.not_le.mp within
      exact .inr ⟨_, _, beyond, refused beyond⟩

namespace Compare

def input : Bind × Value := (⟨0, .many, .int⟩, .int 3)

def isThree : Term := .eq .int (.var 0) (.int 3)

def inferred : Info where
  typ := .bool
  eff := ∅
  res := ⟨3, 0, 4⟩
  flow := .pure

end Compare

open Compare in
theorem runIn_sound_isThree : ∃ out,
    runIn 3 [input] isThree = .ok out ∧ out.value = .bool true ∧
      out.steps ≤ 3 ∧ out.work ≤ 4 ∧ out.actions = [] := by
  have checked : checkIn ([input].map Prod.fst) isThree = .ok inferred := by decide +kernel
  have accepted : inputEnv [] [] [] [input] = .ok [(0, .int 3)] := by rfl
  have sound := (@runIn_sound _ _ _ _ 3 checked accepted le_rfl).1 (by decide +kernel)
  obtain ⟨out, ran, value⟩ : ∃ out, runIn 3 [input] isThree = .ok out ∧
      out.value = .bool true :=
    ⟨_, rfl, rfl⟩
  rw [ran] at sound
  exact ⟨out, ran, value, sound.steps, sound.work, sound.path.eq_nil⟩

/-- Two empty sequences are compared: the run is refused for its work. -/
theorem runIn_refuses_sequences :
    checkIn [] (.eq (.seq 0 .int) (.seq 0 .int []) (.seq 0 .int [])) =
        .ok ⟨.bool, ∅, ⟨5, 0, 6⟩, .pure⟩ ∧
      ¬ Soundly ⟨.bool, ∅, ⟨5, 0, 6⟩, .pure⟩ (runIn maxCost []
        (.eq (.seq 0 .int) (.seq 0 .int []) (.seq 0 .int []))) := by
  have refused : runIn maxCost []
      (.eq (.seq 0 .int) (.seq 0 .int []) (.seq 0 .int [])) = .error (.work 6 7) := by
    rfl
  refine ⟨by decide +kernel, ?_⟩
  rw [refused]
  exact id

end Aml
end LiteNode
