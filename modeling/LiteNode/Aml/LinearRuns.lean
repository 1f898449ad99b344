import LiteNode.Aml.Linearity
import Mathlib.Tactic.Abel

/-!
# Linear runs

A term that is derived by the rules spends the capabilities of its scope. The
capabilities that a run of a checked term holds in its value or has closed are
those of its linear inputs.
-/

namespace LiteNode
namespace Aml

/-- A value of the type that was inferred, for capabilities of the scope. -/
structure Spent (info : Info) (env env' : Scope) (values : Env) (done : Done) : Prop where
  typed : Aml.typed info.typ done.value = true
  spends : Spends (liveCaps env values) done.trace
    (liveCaps env' values + (done.value.caps : Purse))

/-- The runs of a term spend capabilities of the scope. -/
abbrev Linearly (env env' : Scope) (values : Env) (term : Term) : Prop :=
  Returns (eval values term) fun done =>
    Spends (liveCaps env values) done.trace (liveCaps env' values + (done.value.caps : Purse))

abbrev LinearlyVec (env env' : Scope) (values : Env) (terms : List Term) : Prop :=
  Returns (evalVec values terms) fun outcome =>
    Spends (liveCaps env values) outcome.2.trace
      (liveCaps env' values + (capsAll outcome.1 : Purse))

section Runs

variable {env env' : Scope} {values : Env} {term : Term} {info : Info}

theorem Infers.spent (inferred : Infers env term info env') (owns : Owns env values)
    (linear : Linearly env env' values term) :
    Returns (eval values term) (Spent info env env' values) := by
  have safe := @Infers.safe False _ _ _ _ _ inferred owns.toFits False.elim
  exact (safe.returns.and linear).mono fun done both => ⟨both.1.typed, both.2⟩

/-- A run goes on with what a derived term returned, in the scope it left. -/
theorem Infers.then {α : Type} {next : Done → Run α} {post : α → Prop}
    (inferred : Infers env term info env') (owns : Owns env values)
    (linear : Linearly env env' values term)
    (rest : ∀ done, Spent info env env' values done → Owns env' values →
      Returns (next done) post) : Returns (eval values term >>= next) post :=
  (inferred.spent owns linear).bind fun done spent =>
    rest done spent (owns.of_binds inferred.binds)

end Runs

namespace Spends

variable {held between left : Purse} {first second : List Action} {one two all : Caps}

/-- One run after another: what the first one returned is kept. -/
theorem seq (before : Spends held first (between + (one : Purse)))
    (after : Spends between second (left + (two : Purse))) (whole : (all : Purse) = one + two) :
    Spends held (first ++ second) (left + (all : Purse)) := by
  rw [whole, add_comm (one : Purse), ← add_assoc]
  exact before.append after.frame

/-- One run after another, of which the first one returned nothing to keep. -/
theorem next (before : Spends held first (between + (one : Purse)))
    (none : one = []) (after : Spends between second (left + (two : Purse))) :
    Spends held (first ++ second) (left + (two : Purse)) := by
  refine before.seq after ?_
  rw [none, Multiset.coe_nil, zero_add]

/-- A value is replaced by one with the same capabilities. -/
theorem as (before : Spends held first (left + (one : Purse)))
    (same : all = one) : Spends held first (left + (all : Purse)) :=
  same ▸ before

/-- One run after another, of which neither returned anything to keep. -/
theorem both (before : Spends held first (between + (one : Purse)))
    (none : one = []) (after : Spends between second (left + (two : Purse)))
    (none' : two = []) (none'' : all = []) : Spends held (first ++ second) (left + (all : Purse)) :=
  (before.next none after).as (none''.trans none'.symm)

/-- A value without capabilities is found without a run. -/
theorem still (none : one = []) : Spends held [] (held + (one : Purse)) := by
  apply of_eq
  rw [none, Multiset.coe_nil, add_zero]

end Spends

theorem returns_evalFold {floor held : Purse} {elem typ : Typ} {body : Value → Value → Run Done}
    (turn : ∀ item state, typed elem item = true → typed typ state = true →
      Returns (body item state) fun done => typed typ done.value = true ∧
        Spends (floor + (item.caps : Purse) + (state.caps : Purse)) done.trace
          (floor + (done.value.caps : Purse)))
    {items : List Value} (each : ∀ item ∈ items, typed elem item = true)
    {start : Done} (holds : typed typ start.value = true) (before : Spends held start.trace
      (floor + (capsAll items : Purse) + (start.value.caps : Purse))) :
    Returns (evalFold body items start) fun done =>
      Spends held done.trace (floor + (done.value.caps : Purse)) := by
  induction items generalizing start with
  | nil =>
    refine .pure ?_
    rw [capsAll, Multiset.coe_nil, add_zero] at before
    exact before
  | cons item items ih =>
    obtain ⟨here, others⟩ := List.forall_mem_cons.mp each
    rw [evalFold]
    refine (turn item start.value here holds).bind fun done result => ?_
    obtain ⟨typed, spends⟩ := result
    refine @ih others (start.seq done done.value) typed ?_
    have framed := @Spends.frame _ _ (capsAll items : Purse) _ spends
    have same : floor + (capsAll (item :: items) : Purse) + (start.value.caps : Purse) =
        floor + (item.caps : Purse) + (start.value.caps : Purse) + (capsAll items : Purse) := by
      rw [capsAll, ← Multiset.coe_add]
      abel
    rw [same] at before
    have whole := before.append framed
    rw [add_right_comm] at whole
    exact whole

/-! ## Derivations -/

mutual

/-- A derived term spends the capabilities of its scope. -/
theorem Infers.linear {term : Term} {env env' : Scope} {info : Info}
    {values : Env} : Infers env term info env' → Owns env values → Linearly env env' values term
  | .unit, _ | .bool, _ | .int, _ => by
    rw [Linearly, eval]
    exact .pure (.still rfl)
  | .narrow _ admitted, _ => by
    rw [Linearly, eval, if_pos admitted]
    exact .pure (.still rfl)
  | .bytes _, _ => by
    rw [Linearly, eval]
    exact (returns_any _).bind fun len _ => .pure (.still rfl)
  | .vec _ _ elements, owns => by
    rw [Linearly, eval]
    exact (elements.linear owns).bind fun outcome spends => .pure spends
  | @Infers.seq _ _ cap _ _ _ _ values valid size padding elements, owns => by
    obtain ⟨rfl, -⟩ := CNat.ofInt_eq_some size
    obtain ⟨rfl, small, -⟩ := CNat.sub_eq_some padding
    have natural := CNat.nonneg small
    obtain ⟨-, plain, formed⟩ := Typ.formed_of_valid valid
    obtain ⟨empty, filled, holds⟩ := typed_zero formed plain
    rw [Linearly, eval, if_neg (by omega)]
    refine (elements.linear owns).bind fun outcome spends => ?_
    rw [filled]
    have none : capsAll (List.replicate (cap - values.length).toNat empty) = [] := by
      apply capsAll_eq_nil
      intro item listed
      rw [List.eq_of_mem_replicate listed]
      exact caps_of_plain plain holds
    refine .pure (spends.as ?_)
    rw [Value.caps, Value.caps, Value.caps, List.nil_append, capsAll_append, none, List.append_nil]
  | .var used, owns => by
    rw [Linearly, eval]
    obtain ⟨value, found, -⟩ := owns.matched.lookup used
    unfold lookup
    rw [found]
    exact .pure (.of_eq (owns.live_use used found))
  | .erased mul _ _ _ binder rest, owns => by
    rw [Linearly, eval, mul]
    obtain ⟨rfl, rfl⟩ := binder.erased_eq mul rest.binds
    exact (rest.linear owns).bind fun done spends => .pure spends
  | .bound mul first typ binder rest, owns => by
    rw [Linearly, eval_bound mul]
    refine first.then owns (first.linear owns) fun value before reached => ?_
    have holds := typ ▸ before.typed
    refine (rest.linear (reached.opened binder holds)).bind fun done after => .pure ?_
    rw [binder.live_opened holds, binder.live_closed rest.binds] at after
    exact before.spends.append after
  | .if' first test accepted refused _, owns => by
    rw [Linearly, eval]
    refine first.then owns (first.linear owns) fun guard before reached => ?_
    obtain ⟨flag, shape⟩ := typed_bool (test ▸ before.typed)
    have none : guard.value.caps = [] := by
      rw [shape]
      rfl
    rw [shape]
    cases flag with
    | true =>
      refine (accepted.linear reached).bind fun done taken => .pure ?_
      exact before.spends.next none taken
    | false =>
      refine (refused.linear reached).bind fun done taken => .pure ?_
      exact before.spends.next none taken
  | .pair first second, owns => by
    rw [Linearly, eval]
    refine (first.linear owns).bind fun left before => ?_
    refine (second.linear (owns.of_binds first.binds)).bind fun right after => .pure ?_
    exact before.seq after rfl
  | .unpair first typ outer inner rest, owns => by
    rw [Linearly, eval]
    refine first.then owns (first.linear owns) fun pair before reached => ?_
    obtain ⟨left, right, shape, leftHolds, rightHolds⟩ := typed_pair (typ ▸ before.typed)
    have whole : (pair.value.caps : Purse) = left.caps + right.caps := by
      rw [shape]
      rfl
    rw [shape]
    refine (rest.linear ((reached.opened outer leftHolds).opened inner
      rightHolds)).bind fun done after => .pure ?_
    have same := inner.binds rest.binds
    rw [inner.live_opened rightHolds, outer.live_opened leftHolds,
      inner.live_closed rest.binds, outer.live_closed same, add_assoc, ← whole] at after
    exact before.spends.append after
  | .fst first typ dropped, owns => by
    rw [Linearly, eval]
    refine first.then owns (first.linear owns) fun pair before _ => ?_
    obtain ⟨left, right, shape, -, holds⟩ := typed_pair (typ ▸ before.typed)
    have none := caps_of_data dropped holds
    have kept : left.caps = pair.value.caps := by rw [shape, Value.caps, none, List.append_nil]
    rw [shape]
    exact .pure (before.spends.as kept)
  | .snd first typ dropped, owns => by
    rw [Linearly, eval]
    refine first.then owns (first.linear owns) fun pair before _ => ?_
    obtain ⟨left, right, shape, holds, -⟩ := typed_pair (typ ▸ before.typed)
    have none := caps_of_data dropped holds
    have kept : right.caps = pair.value.caps := by rw [shape, Value.caps, none, List.nil_append]
    rw [shape]
    exact .pure (before.spends.as kept)
  | .inl _ first, owns | .inr _ first, owns => by
    rw [Linearly, eval]
    exact (first.linear owns).bind fun value before => .pure (before.as rfl)
  | .case first sum leftBinder accepted rightBinder refused _, owns => by
    rw [Linearly, eval]
    refine first.then owns (first.linear owns) fun value before reached => ?_
    rcases typed_sum (sum ▸ before.typed) with
      ⟨payload, shape, holds⟩ | ⟨payload, shape, holds⟩
    · have same : payload.caps = value.value.caps := by rw [shape, Value.caps]
      rw [shape]
      refine (accepted.linear (reached.opened leftBinder holds)).bind fun done taken => .pure ?_
      rw [leftBinder.live_opened holds, leftBinder.live_closed accepted.binds] at taken
      exact (before.spends.as same).append taken
    · have same : payload.caps = value.value.caps := by rw [shape, Value.caps]
      rw [shape]
      refine (refused.linear (reached.opened rightBinder holds)).bind fun done taken => .pure ?_
      rw [rightBinder.live_opened holds, rightBinder.live_closed refused.binds] at taken
      exact (before.spends.as same).append taken
  | .act first, owns => by
    rw [Linearly, eval]
    exact (first.linear owns).bind fun body spends => .pure (.direct spends)
  | .arith first leftInt second rightInt, owns
  | .cmp first leftInt second rightInt, owns => by
    rw [Linearly, eval]
    refine first.then owns (first.linear owns) fun left before reached => ?_
    refine second.then reached (second.linear reached) fun right after _ => ?_
    have holds := leftInt ▸ before.typed
    have holds' := rightInt ▸ after.typed
    have spends := @Spends.both _ _ _ _ _ _ _ [] before.spends
      (caps_of_plain rfl holds) after.spends (caps_of_plain rfl holds') rfl
    obtain ⟨number, shape⟩ := typed_int holds
    obtain ⟨number', shape'⟩ := typed_int holds'
    rw [shape, shape']
    exact (returns_any _).bind fun _ _ => .pure spends
  | .signs first int, owns => by
    rw [Linearly, eval]
    refine first.then owns (first.linear owns) fun value before _ => ?_
    have holds := int ▸ before.typed
    have spends := @Spends.as _ _ _ _ [] before.spends (caps_of_plain rfl holds).symm
    obtain ⟨number, shape⟩ := typed_int holds
    rw [shape]
    exact (returns_any _).bind fun result _ => .pure spends
  | .fit _ first int, owns => by
    rw [Linearly, eval]
    refine first.then owns (first.linear owns) fun value before _ => ?_
    have holds := int ▸ before.typed
    have none := caps_of_plain rfl holds
    obtain ⟨number, shape⟩ := typed_int holds
    rw [shape]
    refine .pure (before.spends.as ?_)
    split
    · exact none.symm
    · exact none.symm
  | .wide first num, owns => by
    rw [Linearly, eval]
    refine first.then owns (first.linear owns) fun value before _ => ?_
    have holds := num ▸ before.typed
    have none := caps_of_plain rfl holds
    obtain ⟨number, shape, -⟩ := typed_num holds
    rw [shape]
    exact .pure (before.spends.as none.symm)
  | .length first seq, owns => by
    rw [Linearly, eval]
    refine first.then owns (first.linear owns) fun value before _ => ?_
    have holds := seq ▸ before.typed
    have formed := seq ▸ (first.sane owns.formed).formed
    have none := @caps_of_plain (.seq _ _) _ formed.2.1 holds
    obtain ⟨used, values, empty, shape, size, natural, below, -⟩ := typed_seq_iff.mp holds
    rw [shape]
    dsimp only
    rw [if_pos ⟨natural, by omega⟩]
    exact .pure (before.spends.as none.symm)
  | .eq first second valid leftTyp rightTyp equatable, owns => by
    rw [Linearly, eval]
    refine first.then owns (first.linear owns) fun left before reached => ?_
    refine second.then reached (second.linear reached) fun right after _ => ?_
    have data := kind_of_equatable equatable
    have none := caps_of_data (by simp [data]) (leftTyp ▸ before.typed)
    have none' := caps_of_data (by simp [data]) (rightTyp ▸ after.typed)
    refine (returns_any _).bind fun _ _ => .pure ?_
    exact before.spends.both none after.spends none' rfl
  | .cat first second leftTyp rightTyp _, owns => by
    rw [Linearly, eval]
    refine first.then owns (first.linear owns) fun left before reached => ?_
    refine second.then reached (second.linear reached) fun right after _ => ?_
    have holds := leftTyp ▸ before.typed
    have holds' := rightTyp ▸ after.typed
    have spends := @Spends.both _ _ _ _ _ _ _ [] before.spends
      (caps_of_plain rfl holds) after.spends (caps_of_plain rfl holds') rfl
    obtain ⟨raw, shape, -⟩ := typed_bytes holds
    obtain ⟨raw', shape', -⟩ := typed_bytes holds'
    rw [shape, shape']
    exact (returns_any _).bind fun len _ => .pure spends
  | .take first bytes _, owns | .drop first bytes _, owns => by
    rw [Linearly, eval]
    refine first.then owns (first.linear owns) fun value before _ => ?_
    have holds := bytes ▸ before.typed
    have none := caps_of_plain rfl holds
    obtain ⟨raw, shape, -⟩ := typed_bytes holds
    rw [shape]
    refine (returns_any _).bind fun total _ => ?_
    split
    · exact .pure (before.spends.as none.symm)
    · exact .throw trivial
  | .vcat first second leftTyp rightTyp _, owns => by
    rw [Linearly, eval]
    refine first.then owns (first.linear owns) fun left before reached => ?_
    refine second.then reached (second.linear reached) fun right after _ => ?_
    obtain ⟨items, shape, -⟩ := typed_vec_iff.mp (leftTyp ▸ before.typed)
    obtain ⟨items', shape', -⟩ := typed_vec_iff.mp (rightTyp ▸ after.typed)
    have whole : (Value.vec (items ++ items')).caps = left.value.caps ++ right.value.caps := by
      rw [shape, shape']
      exact capsAll_append items items'
    have spends := before.spends.seq after.spends (congrArg _ whole)
    rw [shape, shape']
    exact (returns_any _).bind fun len _ => .pure spends
  | .at' first vec _ dropped, owns => by
    rw [Linearly, eval]
    refine first.then owns (first.linear owns) fun value before _ => ?_
    obtain ⟨items, shape, -, each⟩ := typed_vec_iff.mp (vec ▸ before.typed)
    have none : ∀ item ∈ items, item.caps = [] := fun item listed =>
      caps_of_data dropped (each item listed)
    have none' : value.value.caps = [] := by
      rw [shape]
      exact capsAll_eq_nil none
    rw [shape]
    refine (returns_any _).bind fun total _ => ?_
    split
    · next element found =>
      split
      · apply Ends.pure
        refine before.spends.as ?_
        rw [none', Done.next, none element (List.mem_of_getElem? found)]
      · exact .throw trivial
    · exact .throw trivial
  | .uncons first vec _, owns => by
    rw [Linearly, eval]
    refine first.then owns (first.linear owns) fun value before _ => ?_
    obtain ⟨items, shape, -⟩ := typed_vec_iff.mp (vec ▸ before.typed)
    have same : capsAll items = value.value.caps := by rw [shape, Value.caps]
    rw [shape]
    cases items with
    | nil => exact (returns_any _).bind fun _ _ => .throw trivial
    | cons item items =>
      refine (returns_any _).bind fun len _ => .pure ?_
      exact before.spends.as same
  | @Infers.vfold _ _ seedEnv _ _ _ _ _ _ item state body _ _ _ _ first turns
        second seedTyp outer inner rest bodyTyp, owns => by
      rw [Linearly, eval]
      refine first.then owns (first.linear owns) fun vector before reached => ?_
      refine second.then reached (second.linear reached) fun seed start scope => ?_
      have turn : ∀ element value, typed item.typ element = true →
          typed state.typ value = true → Returns
            (eval (bindEnv state value (bindEnv item element values)) body)
            fun done => typed state.typ done.value = true ∧
              Spends (liveCaps seedEnv values + (element.caps : Purse) +
                (value.caps : Purse)) done.trace
                (liveCaps seedEnv values + (done.value.caps : Purse)) := by
        intro element value elementHolds valueHolds
        have under := (scope.opened outer elementHolds).opened inner valueHolds
        refine (rest.spent under (rest.linear under)).mono
          fun done spent => ⟨bodyTyp ▸ spent.typed, ?_⟩
        have spends := spent.spends
        have same := inner.binds rest.binds
        rw [inner.live_opened valueHolds, outer.live_opened elementHolds,
          inner.live_closed rest.binds, outer.live_closed same] at spends
        exact spends
      have holds : typed state.typ (vector.seq seed seed.value).value = true :=
        seedTyp ▸ start.typed
      have whole := before.spends.append
        (@Spends.frame _ _ (vector.value.caps : Purse) _ start.spends)
      rw [add_right_comm] at whole
      rcases turns with typ | typ
      · obtain ⟨items, shape, -, each⟩ := typed_vec_iff.mp (typ ▸ before.typed)
        have same : capsAll items = vector.value.caps := by rw [shape, Value.caps]
        rw [← same] at whole
        rw [shape]
        exact returns_evalFold turn each holds whole
      · have formed := typ ▸ (first.sane owns.formed).formed
        have none := @caps_of_plain (.seq _ _) _ formed.2.1 (typ ▸ before.typed)
        obtain ⟨used, items, empty, shape, size, natural, below, -, each, -⟩ :=
          typed_seq_iff.mp (typ ▸ before.typed)
        have each' : ∀ element ∈ items.take used.toNat, typed item.typ element = true :=
          fun element listed => each element (List.mem_of_mem_take listed)
        have same : capsAll (items.take used.toNat) = vector.value.caps := by
          rw [none]
          apply capsAll_eq_nil
          intro element listed
          exact caps_of_plain formed.2.1 (each' element listed)
        rw [← same] at whole
        rw [shape]
        dsimp only
        rw [if_pos ⟨natural, by omega⟩]
        exact returns_evalFold turn each' holds whole
  | .step first second held, owns => by
    rw [Linearly, eval]
    refine first.then owns (first.linear owns) fun cap before reached => ?_
    refine (second.linear reached).bind fun value after => ?_
    obtain ⟨id, shape, -⟩ := typed_cap (held ▸ before.typed)
    have spends := before.spends.seq after rfl
    rw [shape] at spends ⊢
    refine .pure (spends.append (.write ?_ .nil))
    exact Multiset.mem_add.mpr (.inr List.mem_cons_self)
  | .close first held, owns => by
    rw [Linearly, eval]
    refine first.then owns (first.linear owns) fun cap before _ => ?_
    obtain ⟨id, shape, -⟩ := typed_cap (held ▸ before.typed)
    have spends := before.spends
    rw [shape, Value.caps, Multiset.coe_singleton, add_comm, Multiset.singleton_add] at spends
    rw [shape]
    exact .pure (spends.append (.close (.still rfl)))

theorem InfersVec.linear {terms : List Term} {elem : Typ} {env env' : Scope}
    {parts : Parts} {values : Env} :
    InfersVec elem env terms parts env' → Owns env values → LinearlyVec env env' values terms
  | .nil, _ => by
    rw [LinearlyVec, evalVec]
    exact .pure (.still rfl)
  | .cons first typ others, owns => by
    rw [LinearlyVec, evalVec]
    refine (first.linear owns).bind fun value before => ?_
    refine (others.linear (owns.of_binds first.binds)).bind fun outcome after => .pure ?_
    exact before.seq after rfl

end

def linearInputs (inputs : List (Bind × Value)) : List (Bind × Value) :=
  inputs.filter fun input => input.1.mul = .one

theorem inputCaps_cons (input : Bind × Value) (inputs : List (Bind × Value)) :
    inputCaps (input :: inputs) = input.2.caps ++ inputCaps inputs :=
  List.flatMap_cons

/-- Inputs that are accepted bring their capabilities into the scope, which are
those of the linear inputs. -/
theorem inputs_live {inputs : List (Bind × Value)} {ids : List Int} {caps : Caps}
    {env env' : Scope} {values values' : Env} (owns : Owns env values)
    (opened : openAll env (inputs.map Prod.fst) = .ok env')
    (accepted : inputEnv values caps ids inputs = .ok values') :
    Owns env' values' ∧ liveCaps env' values' = liveCaps env values + (inputCaps inputs : Purse) ∧
      inputCaps (linearInputs inputs) = inputCaps inputs := by
  induction inputs generalizing env values caps ids with
  | nil =>
    cases opened
    cases accepted
    exact ⟨owns, (add_zero _).symm, rfl⟩
  | cons input inputs ih =>
    obtain ⟨bind, value⟩ := input
    rw [List.map_cons, openAll] at opened
    obtain ⟨between, first, opened⟩ := bind_eq_ok opened
    rw [inputEnv] at accepted
    obtain ⟨-, accepted⟩ := ite_error_eq_ok_iff.mp accepted
    obtain ⟨caps', here, accepted⟩ := bind_eq_ok accepted
    obtain ⟨⟨nodes, caps''⟩, read, rfl⟩ := map_eq_ok here
    have holds := (accepted_of_inputFrom read).typed
    obtain ⟨owns', live, linear⟩ := ih (owns.of_open first holds) opened accepted
    refine ⟨owns', ?_, ?_⟩
    · rw [live, Scoped.live_open first holds, inputCaps_cons, add_assoc, Multiset.coe_add]
    · obtain ⟨valid, mode, -, -⟩ := open_cases first
      rw [inputCaps_cons, ← linear, linearInputs, List.filter_cons]
      split
      · exact inputCaps_cons _ _
      · next other =>
        have data : bind.typ.kind ≠ .res := fun res => other (decide_eq_true (mode res))
        rw [caps_of_data data holds]
        rfl

/-- Where every linear variable was used, no capability is left in scope. -/
theorem liveCaps_eq_zero {env : Scope} (used : pending env = none)
    (values : Env) : liveCaps env values = 0 := by
  have dead : ∀ slot ∈ env, ¬ (slot.bind.mul = .one ∧ slot.live = true) := by
    intro slot listed live
    have none := List.find?_eq_none.mp (Option.map_eq_none_iff.mp used) slot listed
    simp [live.1, live.2] at none
  clear used
  induction env generalizing values with
  | nil => rfl
  | cons slot env ih =>
    obtain ⟨here, others⟩ := List.forall_mem_cons.mp dead
    cases values with
    | nil => rfl
    | cons entry values => rw [liveCaps, if_neg here, ih values others, add_zero]

/-- What a run did with the capabilities of its inputs. -/
structure Linear (inputs : List (Bind × Value)) (out : Out) : Prop where
  /-- No two capabilities of the inputs are the same. -/
  distinct : (inputCaps inputs).Nodup
  /-- The capabilities of linear inputs are in the value or were closed. -/
  conserved : (inputCaps (linearInputs inputs)).Perm (out.value.caps ++ closedCaps out.actions)
  /-- None of them is there twice, or was closed twice. -/
  once : (out.value.caps ++ closedCaps out.actions).Nodup
  /-- Every action that holds a capability holds one of the inputs. -/
  named : ∀ action ∈ out.actions, ∀ cap, action.holds = some cap → cap ∈ inputCaps inputs
  /-- After a capability is closed, no action holds it. -/
  ordered : ∀ before closing after cap,
    out.actions = before ++ closing :: after → closing.closes = some cap →
      ∀ later ∈ after, later.holds ≠ some cap

variable {fuel : Int} {inputs : List (Bind × Value)} {term : Term} {out : Out}

/-- A run that returns was checked, accepted its inputs and evaluated. -/
theorem runIn_cases (ran : runIn fuel inputs term = .ok out) :
    ∃ info values outcome, checkIn (inputs.map Prod.fst) term = .ok info ∧
      inputEnv [] [] [] inputs = .ok values ∧
      (eval values term).run 0 = .ok outcome ∧ out.value = outcome.1.value ∧
      out.actions = outcome.1.trace := by
  obtain ⟨binders, limited, rest⟩ := bind_eq_ok ran
  obtain rfl : inputs.map Prod.fst = binders := by
    unfold inputBinds at limited
    split at limited
    · cases limited
      rfl
    · cases limited
  split at rest
  · cases rest
  next info checked =>
  obtain ⟨-, rest⟩ := ite_error_eq_ok_iff.mp rest
  obtain ⟨values, accepted, rest⟩ := bind_eq_ok rest
  obtain ⟨outcome, evaluated, rest⟩ := bind_eq_ok rest
  refine ⟨info, values, outcome, checked, accepted, evaluated, ?_⟩
  obtain ⟨-, rest⟩ := ite_error_eq_ok_iff.mp rest
  obtain ⟨-, rest⟩ := ite_error_eq_ok_iff.mp rest
  obtain ⟨-, rest⟩ := ite_error_eq_ok_iff.mp rest
  obtain ⟨-, rest⟩ := ite_error_eq_ok_iff.mp rest
  cases rest
  exact ⟨rfl, rfl⟩

/-- Every run that returns is linear in the capabilities of its inputs. -/
theorem runIn_linear (ran : runIn fuel inputs term = .ok out) : Linear inputs out := by
  obtain ⟨info, values, outcome, checked, accepted, evaluated, value, actions⟩ := runIn_cases ran
  obtain ⟨env, env', opened, inferred, used, -, distinct⟩ := checked_fits checked accepted
  have start : Owns [] [] := ⟨⟨by simp [FormedScope, binds], .nil⟩, by simp [binds]⟩
  obtain ⟨owns, live, linear⟩ := inputs_live start opened accepted
  have spends := (inferred.linear owns).of_ok evaluated
  rw [live, liveCaps_eq_zero used, @liveCaps_eq_zero [] rfl, zero_add, zero_add,
    ← value, ← actions] at spends
  have conserved : (inputCaps inputs).Perm (out.value.caps ++ closedCaps out.actions) :=
    Multiset.coe_eq_coe.mp spends.conserves
  refine ⟨distinct, linear ▸ conserved, conserved.nodup_iff.mp distinct, ?_, ?_⟩
  · intro action taken cap names
    exact spends.mem taken names
  · intro before closing after cap whole closed
    rw [whole] at spends
    exact spends.not_after_close distinct closed

namespace Held

def input : Bind × Value := (⟨0, .one, .cap 7⟩, .cap 7 42)

def writeAndClose : Term :=
  .unpair (.step (.var 0) (.int 5)) ⟨1, .one, .cap 7⟩ ⟨2, .many, .int⟩ (.close (.var 1))

end Held

open Held in
theorem runIn_linear_writeAndClose : ∃ out,
    runIn 100 [input] writeAndClose = .ok out ∧ Linear [input] out ∧
      closedCaps out.actions = [(7, 42)] := by
  obtain ⟨out, ran, closed⟩ : ∃ out,
      runIn 100 [input] writeAndClose = .ok out ∧
        closedCaps out.actions = [(7, 42)] :=
    ⟨_, rfl, rfl⟩
  exact ⟨out, ran, runIn_linear ran, closed⟩

end Aml
end LiteNode
