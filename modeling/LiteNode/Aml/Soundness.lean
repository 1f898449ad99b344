import LiteNode.Aml.Safety

/-!
# Soundness of the checker

Every term that is derived by the rules is safe in an environment of values of
the types in its scope.
-/

namespace LiteNode
namespace Aml

/-- A scope is of well-formed types, and the values are of these. -/
structure Fits (env : Scope) (values : Env) : Prop where
  formed : FormedScope env
  matched : Matches (binds env) values

namespace Fits

variable {env bodyEnv usedEnv env' : Scope} {values : Env} {bind : Bind}

theorem of_binds (fits : Fits env values) (same : binds env' = binds env) : Fits env' values :=
  ⟨fits.formed.of_binds same, same ▸ fits.matched⟩

/-- A binder is opened for a value of its type. -/
theorem opened (fits : Fits env values) {value : Value}
    (binder : Scoped bind env bodyEnv usedEnv env') (holds : typed bind.typ value = true) :
    Fits bodyEnv (bindEnv bind value values) :=
  ⟨binder.formed fits.formed, fits.matched.opened binder.opened holds⟩

/-- A binder without a value leaves the environment as it is. -/
theorem erased (fits : Fits env values) (mul : bind.mul = .zero)
    (binder : Scoped bind env bodyEnv usedEnv env') : Fits bodyEnv values := by
  obtain ⟨-, -, -, how⟩ := open_cases binder.opened
  rcases how with ⟨-, rfl⟩ | ⟨bound, -⟩
  · exact fits
  · exact absurd mul bound

end Fits

theorem ends_lookup {env env' : Scope} {values : Env} {id : Int} {typ : Typ}
    (fits : Fits env values) (used : use id env = .ok (typ, env')) :
    Ends Arithmetic (lookup id values) fun value => typed typ value = true := by
  obtain ⟨value, found, holds⟩ := fits.matched.lookup used
  unfold lookup
  rw [found]
  exact .pure holds

/-- A value that is not erased is bound like any other. -/
theorem eval_bound {bind : Bind} (mul : bind.mul ≠ .zero) (env : Env) (value body : Term) :
    eval env (.let' bind value body) = do
      let value ← eval env value
      let body ← eval (bindEnv bind value.value env) body
      return value.seq body body.value := by
  rw [eval]
  unfold bindEnv
  cases shape : bind.mul with
  | zero => exact absurd shape mul
  | one => rfl
  | many => rfl

/-! ## Derivations -/

variable {counted : Prop}

mutual

/-- A derived term is safe where its scope fits. -/
theorem Infers.safe {term : Term} {env env' : Scope} {info : Info}
    {values : Env} : Infers env term info env' → Fits env values →
      (counted → Counted term.compared) → Ends Arithmetic (eval values term) (Meets counted info)
  | .unit, _, _ | .bool, _, _ | .int, _, _ => by
    rw [eval]
    exact .pure (.leaf rfl)
  | .narrow _ admitted, _, _ => by
    rw [eval, if_pos admitted]
    exact .pure (.leaf admitted)
  | .bytes size, _, _ => by
    obtain ⟨rfl, small⟩ := CNat.ofInt_eq_some size
    rw [eval]
    refine (ends_hostLen small).bind fun len same => .pure ?_
    refine ⟨by simp [item, typed], ?_, fun _ => ?_, .pure, by simp⟩
    all_goals
      simp only [item, Limit.succ, Limit.add, Limit.one, Limit.make]
      omega
  | .vec _ size elements, fits, cond => by
    obtain ⟨rfl, -⟩ := CNat.ofInt_eq_some size
    rw [eval]
    refine (elements.safe fits cond).bind fun outcome meets => .pure ?_
    have shape := typed_vec_iff.mpr ⟨outcome.1, rfl, congrArg Nat.cast meets.size.symm, meets.typed⟩
    exact ⟨shape, meets.steps, meets.work, meets.path, meets.row⟩
  | @Infers.seq _ _ cap _ _ _ _ _ valid size padding elements, fits, cond => by
    obtain ⟨rfl, -⟩ := CNat.ofInt_eq_some size
    obtain ⟨rfl, small, -⟩ := CNat.sub_eq_some padding
    have natural := CNat.nonneg small
    obtain ⟨-, plain, formed⟩ := Typ.formed_of_valid valid
    obtain ⟨empty, filled, holds⟩ := typed_zero formed plain
    rw [eval, if_neg (by omega)]
    refine (elements.safe fits cond).bind fun outcome meets => ?_
    rw [filled]
    have shape := @typed_seq_padded cap _ _ _ _ meets.typed filled holds natural
      (by rw [meets.size]; omega)
    rw [meets.size] at shape
    refine .pure ⟨shape, ?_, ?_, meets.path, meets.row⟩
    · have steps := meets.steps
      simp only [Limit.add, Limit.make]
      omega
    · intro condition
      have work := meets.work condition
      simp only [Limit.add, Limit.make]
      omega
  | .var used, fits, _ => by
    rw [eval]
    exact (ends_lookup fits used).bind fun value holds => .pure (.leaf holds)
  | .erased mul checked _ pure binder rest, fits, cond => by
    have quiet := (checked.sane fits.formed).quiet pure
    rw [eval, mul]
    refine (rest.safe (fits.erased mul binder)
      fun c => (cond c).right).bind fun done meets => .pure ?_
    have whole := meets.next meets.typed
    refine ⟨whole.typed, whole.steps, whole.work, ?_, whole.row⟩
    rw [quiet]
    exact Path.flowSeq .pure meets.path
  | .bound mul first typ binder rest, fits, cond => by
    rw [eval_bound mul]
    refine (first.safe fits fun c => (cond c).left).bind fun value before => ?_
    have inner := (fits.of_binds first.binds).opened binder (typ ▸ before.typed)
    refine (rest.safe inner fun c => (cond c).right).bind fun done after => .pure ?_
    exact before.seq after after.typed
  | .if' first test accepted refused typ, fits, cond => by
    rw [eval]
    refine (first.safe fits fun c => (cond c).left).bind fun guard before => ?_
    have inner := fits.of_binds first.binds
    obtain ⟨flag, shape⟩ := typed_bool (test ▸ before.typed)
    rw [shape]
    cases flag with
    | true =>
      refine (accepted.safe inner fun c => (cond c).right.left).bind fun done taken => .pure ?_
      exact before.joinLeft taken
    | false =>
      refine (refused.safe inner fun c => (cond c).right.right).bind fun done taken => .pure ?_
      exact before.joinRight taken typ
  | .pair first second, fits, cond => by
    rw [eval]
    refine (first.safe fits fun c => (cond c).left).bind fun left before => ?_
    refine (second.safe (fits.of_binds first.binds)
      fun c => (cond c).right).bind fun right after => .pure ?_
    apply before.seq after
    rw [typed, before.typed, after.typed]
    rfl
  | .unpair first typ outer inner rest, fits, cond => by
    rw [eval]
    refine (first.safe fits fun c => (cond c).left).bind fun pair before => ?_
    obtain ⟨left, right, shape, holds, holds'⟩ := typed_pair (typ ▸ before.typed)
    rw [shape]
    have reached := ((fits.of_binds first.binds).opened outer holds).opened inner holds'
    refine (rest.safe reached fun c => (cond c).right).bind fun done after => .pure ?_
    exact before.seq after after.typed
  | .fst first typ _, fits, cond => by
    rw [eval]
    refine (first.safe fits cond).bind fun pair meets => ?_
    obtain ⟨left, right, shape, holds, -⟩ := typed_pair (typ ▸ meets.typed)
    rw [shape]
    exact .pure (meets.next holds)
  | .snd first typ _, fits, cond => by
    rw [eval]
    refine (first.safe fits cond).bind fun pair meets => ?_
    obtain ⟨left, right, shape, -, holds⟩ := typed_pair (typ ▸ meets.typed)
    rw [shape]
    exact .pure (meets.next holds)
  | .inl _ first, fits, cond | .inr _ first, fits, cond => by
    rw [eval]
    refine (first.safe fits cond).bind fun value meets => .pure ?_
    exact meets.next meets.typed
  | .case first sum leftBinder accepted rightBinder refused typ, fits, cond => by
    rw [eval]
    refine (first.safe fits fun c => (cond c).left).bind fun value before => ?_
    have inner := fits.of_binds first.binds
    rcases typed_sum (sum ▸ before.typed) with
      ⟨payload, shape, holds⟩ | ⟨payload, shape, holds⟩
    · rw [shape]
      refine (accepted.safe (inner.opened leftBinder holds)
        fun c => (cond c).right.left).bind fun done taken => .pure ?_
      exact before.joinLeft taken
    · rw [shape]
      refine (refused.safe (inner.opened rightBinder holds)
        fun c => (cond c).right.right).bind fun done taken => .pure ?_
      exact before.joinRight taken typ
  | @Infers.act _ _ atom _ info first, fits, cond => by
    rw [eval]
    refine (first.safe fits cond).bind fun body meets => .pure ?_
    have whole := meets.next meets.typed
    have admitted : Site.Admits ⟨atom, info.typ, .direct⟩
        ⟨atom, body.value, .direct⟩ := ⟨rfl, meets.typed, trivial⟩
    refine ⟨whole.typed, whole.steps, whole.work, ?_, ?_⟩
    · exact (Path.action admitted).flowSeq meets.path
    · intro action listed
      rcases List.mem_cons.mp listed with rfl | listed
      · exact Finset.mem_insert_self _ _
      · exact Finset.mem_insert_of_mem (meets.row action listed)
  | .arith first leftInt second rightInt, fits, cond => by
    rw [eval]
    refine (first.safe fits fun c => (cond c).left).bind fun left before => ?_
    refine (second.safe (fits.of_binds first.binds)
      fun c => (cond c).right).bind fun right after => ?_
    obtain ⟨number, shape⟩ := typed_int (leftInt ▸ before.typed)
    obtain ⟨number', shape'⟩ := typed_int (rightInt ▸ after.typed)
    rw [shape, shape']
    refine (ends_integer Arith.rejects).bind fun result _ => .pure ?_
    exact before.seq after rfl
  | .signs first int, fits, cond => by
    rw [eval]
    refine (first.safe fits cond).bind fun value meets => ?_
    obtain ⟨number, shape⟩ := typed_int (int ▸ meets.typed)
    rw [shape]
    refine (ends_integer Signs.rejects).bind fun result _ => .pure ?_
    have whole := @Meets.next _ _ _ .int (.int result) meets rfl
    exact ⟨int ▸ whole.typed, whole.steps, whole.work, whole.path, whole.row⟩
  | .fit _ first int, fits, cond => by
    rw [eval]
    refine (first.safe fits cond).bind fun value meets => ?_
    obtain ⟨number, shape⟩ := typed_int (int ▸ meets.typed)
    rw [shape]
    refine .pure ⟨?_, ?_, ?_, meets.path, meets.row⟩
    · dsimp only
      split
      · next admitted => exact admitted
      · rfl
    · have steps := meets.steps
      simp only [Limit.add, Limit.used]
      omega
    · intro condition
      have work := meets.work condition
      simp only [Limit.add, Limit.used]
      omega
  | .wide first num, fits, cond => by
    rw [eval]
    refine (first.safe fits cond).bind fun value meets => ?_
    obtain ⟨number, shape, -⟩ := typed_num (num ▸ meets.typed)
    rw [shape]
    exact .pure (meets.next rfl)
  | .length first seq, fits, cond => by
    rw [eval]
    refine (first.safe fits cond).bind fun value meets => ?_
    obtain ⟨used, values, empty, shape, size, natural, below, -⟩ :=
      typed_seq_iff.mp (seq ▸ meets.typed)
    rw [shape]
    dsimp only
    rw [if_pos ⟨natural, by omega⟩]
    exact .pure (meets.next rfl)
  | .eq first second _ leftTyp rightTyp _, fits, cond => by
    rw [eval]
    refine (first.safe fits fun c => (cond c).tail.left).bind fun left before => ?_
    refine (second.safe (fits.of_binds first.binds)
      fun c => (cond c).tail.right).bind fun right after => ?_
    refine (ends_equalCharge _ _).bind fun _ _ => .pure ?_
    have whole := @Meets.seq _ _ _ _ _ .bool
      (.bool (left.value.equal right.value)) before after rfl
    refine ⟨whole.typed, ?_, ?_, whole.path, whole.row⟩
    · have steps := whole.steps
      simp only [Limit.add, Limit.effort]
      omega
    · intro condition
      have work := whole.work condition
      have here := cond condition _ List.mem_cons_self
      have most := valueWork_le (leftTyp ▸ before.typed)
      have most' := valueWork_le (rightTyp ▸ after.typed)
      simp only [Limit.add, Limit.effort]
      omega
  | .cmp first leftInt second rightInt, fits, cond => by
    rw [eval]
    refine (first.safe fits fun c => (cond c).left).bind fun left before => ?_
    refine (second.safe (fits.of_binds first.binds)
      fun c => (cond c).right).bind fun right after => ?_
    obtain ⟨number, shape⟩ := typed_int (leftInt ▸ before.typed)
    obtain ⟨number', shape'⟩ := typed_int (rightInt ▸ after.typed)
    rw [shape, shape']
    refine (ends_charge _).bind fun _ _ => .pure ?_
    exact before.seq after rfl
  | .cat first second leftTyp rightTyp size, fits, cond => by
    rw [eval]
    refine (first.safe fits fun c => (cond c).left).bind fun left before => ?_
    refine (second.safe (fits.of_binds first.binds)
      fun c => (cond c).right).bind fun right after => ?_
    obtain ⟨raw, shape, rfl⟩ := typed_bytes (leftTyp ▸ before.typed)
    obtain ⟨raw', shape', rfl⟩ := typed_bytes (rightTyp ▸ after.typed)
    obtain ⟨rfl, small⟩ := CNat.add_eq_some size
    have whole : ((raw ++ raw').length : Int) = raw.length + raw'.length := by
      rw [List.length_append]
      exact Int.natCast_add _ _
    rw [shape, shape']
    rw [← whole] at small ⊢
    refine (ends_hostLen small).bind fun len same => .pure ?_
    rw [same]
    exact before.copySeq after (by simp [typed])
  | .take first bytes inside, fits, cond => by
    rw [eval]
    refine (first.safe fits cond).bind fun value meets => ?_
    obtain ⟨raw, shape, rfl⟩ := typed_bytes (bytes ▸ meets.typed)
    obtain ⟨small, whole, below⟩ := CNat.le_iff.mp inside
    have natural := CNat.nonneg small
    rw [shape]
    refine (ends_hostLen whole).bind fun total same => ?_
    rw [same, if_pos inside]
    refine .pure (meets.copyOne ?_)
    simp only [typed, List.length_take, decide_eq_true_eq]
    omega
  | .drop first bytes inside, fits, cond => by
    rw [eval]
    refine (first.safe fits cond).bind fun value meets => ?_
    obtain ⟨raw, shape, rfl⟩ := typed_bytes (bytes ▸ meets.typed)
    obtain ⟨rest, small, cut⟩ := CNat.sub_eq_some inside
    have natural := CNat.nonneg small
    have natural' := CNat.nonneg cut
    rw [shape]
    refine (ends_hostLen (CNat.valid_of_sub inside)).bind fun total same => ?_
    rw [same, inside]
    refine .pure (meets.copyOne ?_)
    simp only [typed, List.length_take, List.length_drop, decide_eq_true_eq]
    omega
  | .vcat first second leftTyp rightTyp size, fits, cond => by
    rw [eval]
    refine (first.safe fits fun c => (cond c).left).bind fun left before => ?_
    refine (second.safe (fits.of_binds first.binds)
      fun c => (cond c).right).bind fun right after => ?_
    obtain ⟨items, shape, rfl, each⟩ := typed_vec_iff.mp (leftTyp ▸ before.typed)
    obtain ⟨items', shape', rfl, each'⟩ := typed_vec_iff.mp (rightTyp ▸ after.typed)
    obtain ⟨rfl, small⟩ := CNat.add_eq_some size
    have whole : ((items ++ items').length : Int) = items.length + items'.length := by
      rw [List.length_append]
      exact Int.natCast_add _ _
    rw [shape, shape']
    rw [← whole] at small ⊢
    refine (ends_hostLen small).bind fun len same => .pure ?_
    rw [same]
    refine before.copySeq after (typed_vec_iff.mpr ⟨_, rfl, rfl, ?_⟩)
    intro item listed
    rcases List.mem_append.mp listed with listed | listed
    · exact each item listed
    · exact each' item listed
  | .at' first vec inside _, fits, cond => by
    rw [eval]
    refine (first.safe fits cond).bind fun value meets => ?_
    obtain ⟨items, shape, rfl, each⟩ := typed_vec_iff.mp (vec ▸ meets.typed)
    obtain ⟨small, whole, below⟩ := CNat.lt_iff.mp inside
    have natural := CNat.nonneg small
    rw [shape]
    refine (ends_hostLen whole).bind fun total same => ?_
    rw [same, List.getElem?_eq_getElem (by omega)]
    dsimp only
    rw [if_pos inside]
    exact .pure (meets.next (each _ (List.getElem_mem _)))
  | .uncons first vec inside, fits, cond => by
    rw [eval]
    refine (first.safe fits cond).bind fun value meets => ?_
    obtain ⟨items, shape, rfl, each⟩ := typed_vec_iff.mp (vec ▸ meets.typed)
    obtain ⟨rfl, small, -⟩ := CNat.sub_eq_some inside
    have natural := CNat.nonneg small
    rw [shape]
    cases items with
    | nil => simp at natural
    | cons item items =>
      obtain ⟨here, others⟩ := List.forall_mem_cons.mp each
      have size : (((item :: items).length : Nat) : Int) - 1 = items.length := by
        rw [List.length_cons]
        omega
      rw [size] at small ⊢
      refine (ends_hostLen small).bind fun len same => .pure ?_
      rw [same]
      apply meets.copyOne
      rw [typed, here, typed_vec_iff.mpr ⟨_, rfl, rfl, others⟩]
      rfl
  | @Infers.vfold _ _ _ _ _ _ _ _ _ item state body _ _ bodyInfo _ first turns
        second seedTyp outer inner rest bodyTyp, fits, cond => by
      rw [eval]
      refine (first.safe fits fun c => (cond c).left).bind fun vector before => ?_
      have reached := fits.of_binds first.binds
      refine (second.safe reached fun c => (cond c).right.left).bind fun seed start => ?_
      have scope := reached.of_binds second.binds
      have nonneg := (rest.sane (inner.formed (outer.formed scope.formed))).nonneg
      have turn : ∀ element value, typed item.typ element = true →
          typed state.typ value = true → Ends Arithmetic
            (eval (bindEnv state value (bindEnv item element values)) body)
            (Meets counted bodyInfo) := by
        intro element value elementHolds valueHolds
        exact rest.safe ((scope.opened outer elementHolds).opened inner
          valueHolds) fun c => (cond c).right.right
      have holds : typed state.typ (vector.seq seed seed.value).value = true :=
        seedTyp ▸ start.typed
      rcases turns with typ | typ
      · obtain ⟨items, shape, rfl, each⟩ := typed_vec_iff.mp (typ ▸ before.typed)
        rw [shape]
        exact (ends_evalFold bodyTyp turn each holds).mono fun done turned =>
          before.fold start le_rfl nonneg seedTyp turned
      · obtain ⟨used, items, empty, shape, size, natural, below, -, each, -⟩ :=
          typed_seq_iff.mp (typ ▸ before.typed)
        rw [shape]
        dsimp only
        rw [if_pos ⟨natural, by omega⟩]
        refine (ends_evalFold bodyTyp turn
          (fun item listed => each item (List.mem_of_mem_take listed))
          holds).mono fun done turned => ?_
        apply before.fold start _ nonneg seedTyp turned
        rw [List.length_take]
        omega
  | @Infers.step _ _ _ _ _ _ info kind first second held, fits, cond => by
    rw [eval]
    refine (first.safe fits fun c => (cond c).left).bind fun cap before => ?_
    refine (second.safe (fits.of_binds first.binds)
      fun c => (cond c).right).bind fun value after => ?_
    obtain ⟨id, shape, valid⟩ := typed_cap (held ▸ before.typed)
    rw [shape]
    have both : typed (.pair (.cap kind) info.typ) (.pair (.cap kind id) value.value) = true := by
      simp [typed, valid, after.typed]
    have whole := before.seq after both
    refine .pure ⟨whole.typed, whole.steps, whole.work, ?_, ?_⟩
    · exact whole.path.flowSeq (.action ⟨rfl, after.typed, rfl⟩)
    · intro action listed
      rcases List.mem_append.mp listed with listed | listed
      · exact Finset.mem_insert_of_mem (whole.row action listed)
      · rw [List.mem_singleton.mp listed]
        exact Finset.mem_insert_self _ _
  | .close first held, fits, cond => by
    rw [eval]
    refine (first.safe fits cond).bind fun cap meets => ?_
    obtain ⟨id, shape, -⟩ := typed_cap (held ▸ meets.typed)
    rw [shape]
    have whole := @Meets.next _ _ _ .unit .unit meets rfl
    refine .pure ⟨rfl, whole.steps, whole.work, ?_, ?_⟩
    · exact meets.path.flowSeq (.action ⟨rfl, rfl, rfl⟩)
    · intro action listed
      rcases List.mem_append.mp listed with listed | listed
      · exact Finset.mem_insert_of_mem (meets.row action listed)
      · rw [List.mem_singleton.mp listed]
        exact Finset.mem_insert_self _ _

theorem InfersVec.safe {terms : List Term} {elem : Typ} {env env' : Scope}
    {parts : Parts} {values : Env} :
    InfersVec elem env terms parts env' → Fits env values →
      (counted → Counted (comparedAll terms)) →
      Ends Arithmetic (evalVec values terms) (MeetsVec counted elem terms.length parts)
  | .nil, _, _ => by
    rw [evalVec]
    exact .pure ⟨by simp, rfl, le_rfl, fun _ => le_rfl, .pure, by simp [done]⟩
  | .cons first typ others, fits, cond => by
    rw [evalVec]
    refine (first.safe fits fun c => (cond c).left).bind fun value before => ?_
    refine (others.safe (fits.of_binds first.binds)
      fun c => (cond c).right).bind fun outcome after => .pure ?_
    refine ⟨List.forall_mem_cons.mpr ⟨typ ▸ before.typed, after.typed⟩,
      congrArg Nat.succ after.size, ?_, ?_, before.path.flowSeq after.path, ?_⟩
    · have steps := before.steps
      have steps' := after.steps
      simp only [Done.seq, Parts.cons, Limit.succ, Limit.add, Limit.one]
      omega
    · intro condition
      have work := before.work condition
      have work' := after.work condition
      simp only [Done.seq, Parts.cons, Limit.succ, Limit.add, Limit.one]
      omega
    · intro action listed
      rcases List.mem_append.mp listed with listed | listed
      · exact Finset.mem_union_left _ (before.row action listed)
      · exact Finset.mem_union_right _ (after.row action listed)

end

end Aml
end LiteNode
