import LiteNode.Aml.Typing

/-!
# Well-formed infos

What is inferred in a scope of well-formed types is itself of a well-formed
type, needs no negative resources, and has a flow only if it has effects.
-/

/-!
## Scopes in derivations

A derivation keeps the variables in scope and only uses linear ones up. What it
infers is of a well-formed type and needs no negative resources.
-/

namespace LiteNode
namespace Aml

variable {env bodyEnv usedEnv env' : Scope} {bind : Bind} {id : Int} {typ : Typ}

def binds (env : Scope) : List Bind := env.map Slot.bind

/-- What using a variable does: a linear one is live before and not after. -/
theorem use_cases (used : use id env = .ok (typ, env')) :
    ∃ before slot live after, env = before ++ slot :: after ∧
      env' = before ++ ⟨slot.bind, live⟩ :: after ∧ slot.bind.id = id ∧ slot.bind.typ = typ ∧
      (∀ other ∈ before, other.bind.id ≠ id) ∧
      (slot.bind.mul = .one ∧ slot.live = true ∧ live = false ∨
        slot.bind.mul = .many ∧ live = slot.live) := by
  induction env generalizing env' with
  | nil => cases used
  | cons slot rest ih =>
    unfold use at used
    split at used
    · next here =>
      split at used
      · cases used
      · cases used
      · next mul live =>
        cases used
        exact ⟨[], slot, false, rest, rfl, rfl, here, rfl, by simp, .inl ⟨mul, live, rfl⟩⟩
      · next mul =>
        cases used
        exact ⟨[], slot, slot.live, rest, rfl, rfl, here, rfl, by simp, .inr ⟨mul, rfl⟩⟩
    · next elsewhere =>
      obtain ⟨⟨typ', rest'⟩, found, done⟩ := bind_eq_ok used
      cases done
      obtain ⟨before, other, live, after, rfl, rfl, here, same, earlier, how⟩ := ih found
      refine ⟨slot :: before, other, live, after, rfl, rfl, here, same, ?_, how⟩
      intro peer listed
      rcases List.mem_cons.mp listed with rfl | listed
      · exact elsewhere
      · exact earlier peer listed

theorem binds_use (used : use id env = .ok (typ, env')) : binds env' = binds env := by
  obtain ⟨before, slot, live, after, rfl, rfl, -⟩ := use_cases used
  simp [binds]

/-- What opening a binder does. -/
theorem open_cases (opened : openBind bind env = .ok bodyEnv) :
    bind.typ.valid = true ∧ (bind.typ.kind = .res → bind.mul = .one) ∧
      (∀ slot ∈ env, slot.bind.id ≠ bind.id) ∧
      (bind.mul = .zero ∧ bodyEnv = env ∨ bind.mul ≠ .zero ∧ bodyEnv = ⟨bind, true⟩ :: env) := by
  unfold openBind at opened
  split at opened
  · cases opened
  split at opened
  · cases opened
  next valid =>
  split at opened
  · cases opened
  next mode =>
  split at opened
  · cases opened
  next fresh =>
  refine ⟨(Bool.not_eq_false _).mp valid, ?_, ?_, ?_⟩
  · intro res
    by_contra other
    exact mode ⟨res, other⟩
  · intro slot listed same
    exact fresh (List.any_eq_true.mpr ⟨slot, listed, decide_eq_true same⟩)
  · split at opened
    · next mul =>
      cases opened
      exact .inl ⟨mul, rfl⟩
    all_goals
      next mul =>
      cases opened
      exact .inr ⟨by simp [mul], rfl⟩

/-- A variable on top of a scope is dropped when its binder is closed. -/
theorem close_cons {live : Bool} (bound : bind.mul ≠ .zero)
    (closed : closeBind bind (⟨bind, live⟩ :: env) = .ok env') :
    env' = env ∧ (bind.mul = .one → live = false) := by
  have found : find bind.id (⟨bind, live⟩ :: env) = some ⟨bind, live⟩ := by simp [find]
  have dropped : drop bind.id (⟨bind, live⟩ :: env) = env := by simp [drop]
  unfold closeBind at closed
  rw [found, dropped] at closed
  split at closed
  · next mul => exact absurd mul bound
  · dsimp only at closed
    split at closed
    · cases closed
    · next dead =>
      cases closed
      exact ⟨rfl, fun _ => (Bool.not_eq_true _).mp dead⟩
  · next mul =>
    cases closed
    refine ⟨rfl, ?_⟩
    intro one
    rw [one] at mul
    cases mul

/-- What is in scope under a binder, and what is left after it. -/
theorem Scoped.cases (binder : Scoped bind env bodyEnv usedEnv env')
    (same : binds usedEnv = binds bodyEnv) :
    bind.mul = .zero ∧ bodyEnv = env ∧ env' = usedEnv ∨
      bind.mul ≠ .zero ∧ bodyEnv = ⟨bind, true⟩ :: env ∧
        ∃ live, usedEnv = ⟨bind, live⟩ :: env' ∧ (bind.mul = .one → live = false) := by
  obtain ⟨-, -, -, how⟩ := open_cases binder.opened
  rcases how with ⟨mul, rfl⟩ | ⟨mul, rfl⟩
  · have closed := binder.closed
    unfold closeBind at closed
    rw [mul] at closed
    cases closed
    exact .inl ⟨mul, rfl, rfl⟩
  · obtain ⟨slot, rest, rfl, rfl, tail⟩ := List.map_eq_cons_iff.mp same
    obtain ⟨rfl, dead⟩ := close_cons mul binder.closed
    exact .inr ⟨mul, rfl, slot.live, rfl, dead⟩

theorem Scoped.binds (binder : Scoped bind env bodyEnv usedEnv env')
    (same : binds usedEnv = binds bodyEnv) : binds env' = binds env := by
  rcases binder.cases same with ⟨-, rfl, rfl⟩ | ⟨-, rfl, live, rfl, -⟩
  · exact same
  · exact (List.cons.inj same).2

mutual

/-- A derivation keeps the binders of its scope. -/
theorem Infers.binds {term : Term} {env env' : Scope} {info : Info} :
    Infers env term info env' → binds env' = binds env
  | .unit | .bool | .int | .narrow .. | .bytes .. => rfl
  | .vec _ _ elements | .seq _ _ _ elements => elements.binds
  | .var used => binds_use used
  | .erased _ _ _ _ binder rest => binder.binds rest.binds
  | .bound _ first _ binder rest => (binder.binds rest.binds).trans first.binds
  | .if' first _ accepted _ _ => accepted.binds.trans first.binds
  | .unpair first _ outer inner rest => (outer.binds (inner.binds rest.binds)).trans first.binds
  | .case first _ binder accepted _ _ _ => (binder.binds accepted.binds).trans first.binds
  | .pair first second | .arith first _ second _ | .eq first second ..
  | .cmp first _ second _ | .cat first second _ _ _
  | .vcat first second _ _ _ | .step first second _ | .vfold first _ second .. =>
    second.binds.trans first.binds
  | .fst first _ _ | .snd first _ _ | .inl _ first | .inr _ first | .act first
  | .signs first _ | .fit _ first _ | .wide first _ | .length first _
  | .take first _ _ | .drop first _ _ | .at' first _ _ _ | .uncons first _ _
  | .close first _ => first.binds

theorem InfersVec.binds {values : List Term} {elem : Typ} {env env' : Scope} {parts : Parts} :
    InfersVec elem env values parts env' → Aml.binds env' = Aml.binds env
  | .nil => rfl
  | .cons first _ others => others.binds.trans first.binds

end

structure Limit.Nonneg (limit : Limit) : Prop where
  steps : 0 ≤ limit.steps
  depth : 0 ≤ limit.depth
  work : 0 ≤ limit.work

namespace Limit.Nonneg

variable {left right : Limit}

theorem one : Limit.one.Nonneg := by constructor <;> decide

theorem make {steps : Int} (natural : 0 ≤ steps) : (Limit.make steps).Nonneg :=
  ⟨natural, le_rfl, natural⟩

theorem add (first : left.Nonneg) (second : right.Nonneg) : (left.add right).Nonneg :=
  ⟨add_nonneg first.steps second.steps, add_nonneg first.depth second.depth,
    add_nonneg first.work second.work⟩

theorem succ (value : left.Nonneg) : left.succ.Nonneg := one.add value

theorem max (first : left.Nonneg) : (left.max right).Nonneg :=
  ⟨le_max_of_le_left first.steps, le_max_of_le_left first.depth, le_max_of_le_left first.work⟩

theorem scale {count : Int} (natural : 0 ≤ count) (value : left.Nonneg) :
    (left.scale count).Nonneg :=
  ⟨Int.mul_nonneg natural value.steps, Int.mul_nonneg natural value.depth,
    Int.mul_nonneg natural value.work⟩

end Limit.Nonneg

theorem CNat.nonneg {value : Int} (valid : CNat.valid value = true) : 0 ≤ value :=
  (CNat.valid_iff.mp valid).1

theorem Typ.eqWork_nonneg {typ : Typ} (formed : typ.Formed) : 0 ≤ typ.eqWork := by
  induction typ with
  | unit | bool | int | num | cap | enc => exact Int.one_nonneg
  | bytes len =>
    have natural : 0 ≤ len := CNat.nonneg formed
    dsimp only [eqWork]
    omega
  | vec len elem ih =>
    have product := Int.mul_nonneg (CNat.nonneg formed.1) (ih formed.2)
    dsimp only [eqWork]
    omega
  | seq cap elem ih =>
    have product := Int.mul_nonneg (CNat.nonneg formed.1) (ih formed.2.2)
    dsimp only [eqWork]
    omega
  | pair left right left_ih right_ih =>
    have first := left_ih formed.1
    have second := right_ih formed.2
    dsimp only [eqWork]
    omega
  | sum left right left_ih right_ih =>
    have first := left_ih formed.1
    dsimp only [eqWork]
    omega

theorem flowSeq_pure {left right : Flow} (first : left = .pure)
    (second : right = .pure) : flowSeq left right = .pure := by
  rw [first, second]
  rfl

structure Info.Sane (info : Info) : Prop where
  formed : info.typ.Formed
  nonneg : info.res.Nonneg
  quiet : info.eff = ∅ → info.flow = .pure

namespace Info.Sane

variable {typ : Typ} {len : Int} {left right guard info : Info}

theorem item {res : Limit} (formed : typ.Formed) (nonneg : res.Nonneg) : (Aml.item typ res).Sane :=
  ⟨formed, nonneg, fun _ => rfl⟩

theorem leaf (formed : typ.Formed) : (Aml.leaf typ).Sane := item formed .one

theorem next (sane : info.Sane) (formed : typ.Formed) : (info.next typ).Sane :=
  ⟨formed, sane.nonneg.succ, sane.quiet⟩

theorem quiet_union (first : left.Sane) (second : right.Sane) (silent : left.eff ∪ right.eff = ∅) :
    flowSeq left.flow right.flow = .pure := by
  obtain ⟨none, none'⟩ := Finset.union_eq_empty.mp silent
  exact flowSeq_pure (first.quiet none) (second.quiet none')

theorem seq (formed : typ.Formed) (first : left.Sane) (second : right.Sane) :
    (Aml.seq typ left right).Sane :=
  ⟨formed, (first.nonneg.add second.nonneg).succ, first.quiet_union second⟩

theorem copySeq (formed : typ.Formed) (natural : 0 ≤ len) (first : left.Sane)
    (second : right.Sane) : (Aml.copySeq typ len left right).Sane :=
  ⟨formed, (Limit.Nonneg.make natural).add (first.nonneg.add second.nonneg).succ,
    first.quiet_union second⟩

theorem copyOne (formed : typ.Formed) (natural : 0 ≤ len) (sane : info.Sane) :
    (Aml.copyOne typ len info).Sane :=
  ⟨formed, (Limit.Nonneg.make natural).add sane.nonneg.succ, sane.quiet⟩

theorem join (formed : typ.Formed) (test : guard.Sane) (first : left.Sane)
    (second : right.Sane) : (Aml.join typ guard left right).Sane := by
  refine ⟨formed, (test.nonneg.add first.nonneg.max).succ, ?_⟩
  intro silent
  obtain ⟨none, others⟩ := Finset.union_eq_empty.mp silent
  obtain ⟨yes, no⟩ := Finset.union_eq_empty.mp others
  apply flowSeq_pure (test.quiet none)
  rw [first.quiet yes, second.quiet no]
  rfl

theorem fold {vector seed body : Info} (natural : 0 ≤ len) (first : vector.Sane)
    (second : seed.Sane) (third : body.Sane) : (foldInfo len vector seed body).Sane := by
  refine ⟨second.formed, (first.nonneg.add
    (second.nonneg.add (third.nonneg.succ.scale natural))).succ, ?_⟩
  intro silent
  obtain ⟨none, others⟩ := Finset.union_eq_empty.mp silent
  obtain ⟨start, turns⟩ := Finset.union_eq_empty.mp others
  apply flowSeq_pure (first.quiet none) (flowSeq_pure (second.quiet start) _)
  rw [third.quiet turns]
  rfl

end Info.Sane

structure Parts.Sane (parts : Parts) : Prop where
  nonneg : parts.res.Nonneg
  quiet : parts.eff = ∅ → parts.flow = .pure

/-- Every binder of a scope is of a well-formed type. -/
def FormedScope (env : Scope) : Prop := ∀ bind ∈ binds env, bind.typ.Formed

theorem FormedScope.of_binds {env env' : Scope} (formed : FormedScope env)
    (same : binds env' = binds env) : FormedScope env' := by
  intro bind listed
  rw [same] at listed
  exact formed bind listed

theorem formed_opened {bind : Bind} {env bodyEnv : Scope}
    (opened : openBind bind env = .ok bodyEnv) (formed : FormedScope env) :
    FormedScope bodyEnv := by
  obtain ⟨valid, -, -, how⟩ := open_cases opened
  rcases how with ⟨-, rfl⟩ | ⟨-, rfl⟩
  · exact formed
  · intro other listed
    rcases List.mem_cons.mp listed with rfl | listed
    · exact Typ.formed_of_valid valid
    · exact formed other listed

theorem Scoped.formed {bind : Bind} {env bodyEnv usedEnv env' : Scope}
    (binder : Scoped bind env bodyEnv usedEnv env') (formed : FormedScope env) :
    FormedScope bodyEnv :=
  formed_opened binder.opened formed

theorem formed_use {id : Int} {env env' : Scope} {typ : Typ}
    (used : use id env = .ok (typ, env')) (formed : FormedScope env) : typ.Formed := by
  obtain ⟨before, slot, live, after, rfl, -, -, rfl, -⟩ := use_cases used
  exact formed slot.bind (by simp [binds])

mutual

/-- What is inferred in a well-formed scope is well formed. -/
theorem Infers.sane {term : Term} {env env' : Scope} {info : Info} :
    Infers env term info env' → FormedScope env → info.Sane
  | .unit, _ | .bool, _ | .int, _ => .leaf trivial
  | .narrow valid _, _ => .leaf (Typ.formed_of_valid valid)
  | .bytes size, _ => by
    obtain ⟨-, small⟩ := CNat.ofInt_eq_some size
    exact .item small (Limit.Nonneg.make (CNat.nonneg small)).succ
  | .vec valid size elements, formed => by
    obtain ⟨-, small⟩ := CNat.ofInt_eq_some size
    have sane := elements.sane formed
    exact ⟨⟨small, Typ.formed_of_valid valid⟩, sane.nonneg, sane.quiet⟩
  | .seq valid _ padding elements, formed => by
    obtain ⟨-, small, -⟩ := CNat.sub_eq_some padding
    have natural := CNat.nonneg small
    have sane := elements.sane formed
    exact ⟨Typ.formed_of_valid valid, sane.nonneg.add (Limit.Nonneg.make (by omega)), sane.quiet⟩
  | .var used, formed => .leaf (formed_use used formed)
  | .erased _ checked _ pure binder rest, formed => by
    have sane := rest.sane (binder.formed formed)
    have first := (checked.sane formed).quiet pure
    exact ⟨sane.formed, sane.nonneg.succ, fun silent => flowSeq_pure first (sane.quiet silent)⟩
  | .bound _ first _ binder rest, formed =>
    have sane := rest.sane (binder.formed (formed.of_binds first.binds))
    .seq sane.formed (first.sane formed) sane
  | .if' first _ accepted refused _, formed =>
    have inner := formed.of_binds first.binds
    have sane := accepted.sane inner
    .join sane.formed (first.sane formed) sane (refused.sane inner)
  | .pair first second, formed =>
    have left := first.sane formed
    have right := second.sane (formed.of_binds first.binds)
    .seq ⟨left.formed, right.formed⟩ left right
  | .unpair first _ outer inner rest, formed =>
    have sane := rest.sane (inner.formed (outer.formed (formed.of_binds first.binds)))
    .seq sane.formed (first.sane formed) sane
  | .fst first typ _, formed => by
    have sane := first.sane formed
    have parts := sane.formed
    rw [typ] at parts
    exact sane.next parts.1
  | .snd first typ _, formed => by
    have sane := first.sane formed
    have parts := sane.formed
    rw [typ] at parts
    exact sane.next parts.2
  | .inl valid first, formed =>
    have sane := first.sane formed
    sane.next ⟨sane.formed, Typ.formed_of_valid valid⟩
  | .inr valid first, formed =>
    have sane := first.sane formed
    sane.next ⟨Typ.formed_of_valid valid, sane.formed⟩
  | .case first _ leftBinder accepted rightBinder refused _, formed =>
    have inner := formed.of_binds first.binds
    have sane := accepted.sane (leftBinder.formed inner)
    .join sane.formed (first.sane formed) sane (refused.sane (rightBinder.formed inner))
  | .act first, formed => by
    have sane := first.sane formed
    refine ⟨sane.formed, sane.nonneg.succ, ?_⟩
    intro silent
    exact absurd silent (Finset.insert_ne_empty _ _)
  | .arith first _ second _, formed | .cmp first _ second _, formed =>
    .seq trivial (first.sane formed) (second.sane (formed.of_binds first.binds))
  | .signs first _, formed =>
    have sane := first.sane formed
    ⟨sane.formed, sane.nonneg.succ, sane.quiet⟩
  | .fit valid first _, formed =>
    have sane := first.sane formed
    ⟨⟨Typ.formed_of_valid valid, trivial⟩,
      sane.nonneg.add ⟨by decide, by decide, by decide⟩, sane.quiet⟩
  | .wide first _, formed | .length first _, formed => (first.sane formed).next trivial
  | .eq first second valid _ _ _, formed => by
    have sane := @Info.Sane.seq .bool _ _ trivial (first.sane formed)
      (second.sane (formed.of_binds first.binds))
    have work := Typ.eqWork_nonneg (Typ.formed_of_valid valid)
    exact ⟨sane.formed, sane.nonneg.add ⟨le_rfl, le_rfl, work⟩, sane.quiet⟩
  | .cat first second _ _ size, formed => by
    obtain ⟨-, small⟩ := CNat.add_eq_some size
    exact .copySeq small (CNat.nonneg small) (first.sane formed)
      (second.sane (formed.of_binds first.binds))
  | .take first _ inside, formed => by
    have small := (CNat.le_iff.mp inside).1
    exact .copyOne small (CNat.nonneg small) (first.sane formed)
  | .drop first _ inside, formed => by
    obtain ⟨-, small, -⟩ := CNat.sub_eq_some inside
    exact .copyOne small (CNat.nonneg small) (first.sane formed)
  | .vcat first second leftTyp _ size, formed => by
    obtain ⟨-, small⟩ := CNat.add_eq_some size
    have left := first.sane formed
    have elements := left.formed
    rw [leftTyp] at elements
    exact .copySeq ⟨small, elements.2⟩ (CNat.nonneg small) left
      (second.sane (formed.of_binds first.binds))
  | .at' first vec _ _, formed => by
    have sane := first.sane formed
    have elements := sane.formed
    rw [vec] at elements
    exact sane.next elements.2
  | .uncons first vec inside, formed => by
    obtain ⟨-, small, -⟩ := CNat.sub_eq_some inside
    have sane := first.sane formed
    have elements := sane.formed
    rw [vec] at elements
    exact .copyOne ⟨elements.2, small, elements.2⟩ (CNat.nonneg small) sane
  | .vfold first turns second _ outer inner rest _, formed => by
    have vector := first.sane formed
    have reached := formed.of_binds first.binds
    have seed := second.sane reached
    have body := rest.sane (inner.formed (outer.formed (reached.of_binds second.binds)))
    have shape := vector.formed
    rcases turns with typ | typ
    all_goals
      rw [typ] at shape
      exact .fold (CNat.nonneg shape.1) vector seed body
  | .step first second held, formed => by
    have cap := first.sane formed
    have value := second.sane (formed.of_binds first.binds)
    have kind := cap.formed
    rw [held] at kind
    refine ⟨⟨kind, value.formed⟩, (cap.nonneg.add value.nonneg).succ, ?_⟩
    intro silent
    exact absurd silent (Finset.insert_ne_empty _ _)
  | .close first _, formed => by
    refine ⟨trivial, (first.sane formed).nonneg.succ, ?_⟩
    intro silent
    exact absurd silent (Finset.insert_ne_empty _ _)

theorem InfersVec.sane {values : List Term} {elem : Typ} {env env' : Scope} {parts : Parts} :
    InfersVec elem env values parts env' → FormedScope env → parts.Sane
  | .nil, _ => ⟨.one, fun _ => rfl⟩
  | .cons first _ others, formed => by
    have value := first.sane formed
    have rest := others.sane (formed.of_binds first.binds)
    refine ⟨(value.nonneg.add rest.nonneg).succ, ?_⟩
    intro silent
    obtain ⟨none, none'⟩ := Finset.union_eq_empty.mp silent
    exact flowSeq_pure (value.quiet none) (rest.quiet none')

end

end Aml
end LiteNode
