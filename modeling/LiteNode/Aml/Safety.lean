import LiteNode.Aml.Eval
import LiteNode.Aml.ValueTyping
import LiteNode.Aml.WellFormed

/-!
# Safety of checked terms

The actions of a run are a path through the flow that was inferred: each site is
taken with its atom and a payload of its type, one side of each fork, and at
most so many turns of a loop.

A checked term runs to a value of its type within its resources, along its flow,
or stops in arithmetic. Its work is within the bound wherever the checker counts
comparisons for what they can be.
-/

namespace LiteNode
namespace Aml

/-- An action comes from where its site says. -/
def SiteOrigin.Admits : SiteOrigin → Origin → Prop
  | .direct, .direct => True
  | .held kind, .held actual _ => kind = actual
  | _, _ => False

structure Site.Admits (site : Site) (action : Action) : Prop where
  atom : action.atom = site.atom
  payload : typed site.payload action.payload = true
  origin : site.origin.Admits action.origin

inductive Path : Flow → List Action → Prop
  | pure : Path .pure []
  | action {site action} (admitted : site.Admits action) : Path (.action site) [action]
  | seq {left right first second} (before : Path left first)
      (after : Path right second) : Path (.seq left right) (first ++ second)
  | forkLeft {left right actions} (taken : Path left actions) : Path (.fork left right) actions
  | forkRight {left right actions} (taken : Path right actions) : Path (.fork left right) actions
  | loop {len body} {turns : List (List Action)} (few : (turns.length : Int) ≤ len)
      (each : ∀ turn ∈ turns, Path body turn) : Path (.loop len body) turns.flatten

namespace Path

variable {left right body : Flow} {first second : List Action} {len : Int}

theorem eq_nil (path : Path .pure first) : first = [] := by
  cases path
  rfl

theorem flowSeq (before : Path left first) (after : Path right second) :
    Path (Aml.flowSeq left right) (first ++ second) := by
  unfold Aml.flowSeq
  split
  · rw [before.eq_nil]
    exact after
  · rw [after.eq_nil, List.append_nil]
    exact before
  · exact before.seq after

theorem flowFork_left (taken : Path left first) : Path (flowFork left right) first := by
  unfold flowFork
  split
  · exact taken
  · exact taken.forkLeft

theorem flowFork_right (taken : Path right first) : Path (flowFork left right) first := by
  unfold flowFork
  split
  · exact taken
  · exact taken.forkRight

theorem flowLoop {turns : List (List Action)} (few : (turns.length : Int) ≤ len)
    (each : ∀ turn ∈ turns, Path body turn) : Path (Aml.flowLoop len body) turns.flatten := by
  unfold Aml.flowLoop
  split
  · have silent : turns.flatten = [] :=
      List.flatten_eq_nil_iff.mpr fun turn listed => (each turn listed).eq_nil
    rw [silent]
    exact .pure
  · exact .loop few each

end Path

/-- Errors that a checked term may still raise. -/
def Arithmetic : RunError → Prop
  | .arith _ _ | .divideZero | .moduloZero => True
  | _ => False

mutual

def Term.compared : Term → List Typ
  | .unit | .bool _ | .int _ | .narrow _ _ | .bytes _ | .var _ => []
  | .vec _ values | .seq _ _ values => comparedAll values
  | .eq typ left right => typ :: (left.compared ++ right.compared)
  | .let' _ first second | .pair first second | .unpair first _ _ second
  | .arith _ first second | .cmp _ first second | .cat first second
  | .vcat first second | .step first second => first.compared ++ second.compared
  | .if' first second third | .case first _ second _ third
  | .vfold first second _ _ third => first.compared ++ (second.compared ++ third.compared)
  | .fst value | .snd value | .inl value _ | .inr _ value | .act _ value
  | .signs _ value | .fit _ value | .wide value | .length value
  | .take _ value | .drop _ value | .at' _ value | .uncons value
  | .close value => value.compared

def comparedAll : List Term → List Typ
  | [] => []
  | value :: rest => value.compared ++ comparedAll rest

end

/-- Comparisons at these types are counted for the most that they can be. -/
def Counted (types : List Typ) : Prop := ∀ typ ∈ types, typ.mostWork ≤ typ.eqWork

instance (types : List Typ) : Decidable (Counted types) :=
  inferInstanceAs (Decidable (∀ typ ∈ types, typ.mostWork ≤ typ.eqWork))

theorem Counted.left {first second : List Typ}
    (counted : Counted (first ++ second)) : Counted first :=
  fun typ listed => counted typ (List.mem_append_left _ listed)

theorem Counted.right {first second : List Typ}
    (counted : Counted (first ++ second)) : Counted second :=
  fun typ listed => counted typ (List.mem_append_right _ listed)

theorem Counted.tail {typ : Typ} {types : List Typ}
    (counted : Counted (typ :: types)) : Counted types :=
  fun other listed => counted other (List.mem_cons_of_mem _ listed)

/-- The values of an environment are of the types of the binders. -/
def Matches (binders : List Bind) (values : Env) : Prop :=
  List.Forall₂
    (fun bind entry => bind.id = entry.1 ∧ typed bind.typ entry.2 = true)
    binders values

theorem Matches.lookup {env env' : Scope} {values : Env} {id : Int} {typ : Typ}
    (matched : Matches (binds env) values) (used : use id env = .ok (typ, env')) :
    ∃ value, values.lookup id = some value ∧ typed typ value = true := by
  obtain ⟨before, slot, live, after, rfl, -, here, rfl, earlier, -⟩ := use_cases used
  clear used
  induction before generalizing values with
  | nil =>
    obtain ⟨entry, rest, ⟨same, holds⟩, -, rfl⟩ := List.forall₂_cons_left_iff.mp matched
    refine ⟨entry.2, ?_, holds⟩
    rw [List.lookup_cons, ← here, same, BEq.rfl]
  | cons other before ih =>
    obtain ⟨entry, rest, ⟨same, -⟩, others, rfl⟩ := List.forall₂_cons_left_iff.mp matched
    obtain ⟨elsewhere, earlier⟩ := List.forall_mem_cons.mp earlier
    obtain ⟨value, found, holds⟩ := ih others earlier
    refine ⟨value, ?_, holds⟩
    have different : (id == entry.1) = false := by
      rw [← same]
      exact beq_eq_false_iff_ne.mpr (Ne.symm elsewhere)
    rw [List.lookup_cons, different]
    exact found

theorem Matches.opened {bind : Bind} {env bodyEnv : Scope} {values : Env}
    {value : Value} (matched : Matches (binds env) values)
    (opened : openBind bind env = .ok bodyEnv) (holds : typed bind.typ value = true) :
    Matches (binds bodyEnv) (bindEnv bind value values) := by
  obtain ⟨-, -, -, how⟩ := open_cases opened
  unfold bindEnv
  rcases how with ⟨mul, rfl⟩ | ⟨mul, rfl⟩
  · rw [mul]
    exact matched
  · have shown : Matches (bind :: binds env) ((bind.id, value) :: values) :=
      .cons ⟨rfl, holds⟩ matched
    split
    · next zero => exact absurd zero mul
    · exact shown
    · exact shown

/-- A run is within what was inferred; its work is if comparisons are counted. -/
structure Meets (counted : Prop) (info : Info) (done : Done) : Prop where
  typed : Aml.typed info.typ done.value = true
  steps : done.steps ≤ info.res.steps
  work : counted → done.work ≤ info.res.work
  path : Path info.flow done.trace
  row : ∀ action ∈ done.trace, action.atom ∈ info.eff

namespace Meets

variable {counted : Prop} {info left right guard : Info} {done first second : Done}
  {typ : Typ} {value : Value} {len : Int}

theorem leaf (holds : Aml.typed typ value = true) : Meets counted (Aml.leaf typ) (Aml.done value) :=
  ⟨holds, le_rfl, fun _ => le_rfl, .pure, by simp [Aml.done]⟩

theorem next (meets : Meets counted info done) (holds : Aml.typed typ value = true) :
    Meets counted (info.next typ) (done.next value) := by
  refine ⟨holds, ?_, ?_, meets.path, meets.row⟩
  · have steps := meets.steps
    simp only [Done.next, Info.next, Limit.succ, Limit.add, Limit.one]
    omega
  · intro condition
    have work := meets.work condition
    simp only [Done.next, Info.next, Limit.succ, Limit.add, Limit.one]
    omega

theorem row_union (before : Meets counted left first) (after : Meets counted right second) :
    ∀ action ∈ first.trace ++ second.trace, action.atom ∈ left.eff ∪ right.eff := by
  intro action listed
  rcases List.mem_append.mp listed with listed | listed
  · exact Finset.mem_union_left _ (before.row action listed)
  · exact Finset.mem_union_right _ (after.row action listed)

theorem seq (before : Meets counted left first) (after : Meets counted right second)
    (holds : Aml.typed typ value = true) :
    Meets counted (Aml.seq typ left right) (first.seq second value) := by
  refine ⟨holds, ?_, ?_, before.path.flowSeq after.path, before.row_union after⟩
  · have steps := before.steps
    have steps' := after.steps
    simp only [Done.seq, Aml.seq, Limit.succ, Limit.add, Limit.one]
    omega
  · intro condition
    have work := before.work condition
    have work' := after.work condition
    simp only [Done.seq, Aml.seq, Limit.succ, Limit.add, Limit.one]
    omega

theorem copySeq (before : Meets counted left first) (after : Meets counted right second)
    (holds : Aml.typed typ value = true) :
    Meets counted (Aml.copySeq typ len left right) (.copySeq len first second value) := by
  refine ⟨holds, ?_, ?_, before.path.flowSeq after.path, before.row_union after⟩
  · have steps := before.steps
    have steps' := after.steps
    simp only [Done.copySeq, Aml.copySeq, Limit.succ, Limit.add, Limit.one, Limit.make]
    omega
  · intro condition
    have work := before.work condition
    have work' := after.work condition
    simp only [Done.copySeq, Aml.copySeq, Limit.succ, Limit.add, Limit.one, Limit.make]
    omega

theorem copyOne (meets : Meets counted info done) (holds : Aml.typed typ value = true) :
    Meets counted (Aml.copyOne typ len info) (.copyOne len done value) := by
  refine ⟨holds, ?_, ?_, meets.path, meets.row⟩
  · have steps := meets.steps
    simp only [Done.copyOne, Aml.copyOne, Limit.succ, Limit.add, Limit.one, Limit.make]
    omega
  · intro condition
    have work := meets.work condition
    simp only [Done.copyOne, Aml.copyOne, Limit.succ, Limit.add, Limit.one, Limit.make]
    omega

/-- The first branch was taken. -/
theorem joinLeft (test : Meets counted guard first) (taken : Meets counted left second) :
    Meets counted (join left.typ guard left right) (first.seq second second.value) := by
  refine ⟨taken.typed, ?_, ?_, test.path.flowSeq taken.path.flowFork_left, ?_⟩
  · have steps := test.steps
    have steps' := taken.steps
    simp only [Done.seq, join, Limit.succ, Limit.add, Limit.one, Limit.max]
    omega
  · intro condition
    have work := test.work condition
    have work' := taken.work condition
    simp only [Done.seq, join, Limit.succ, Limit.add, Limit.one, Limit.max]
    omega
  · intro action listed
    apply Finset.union_subset_union (Finset.Subset.refl _) Finset.subset_union_left
    exact test.row_union taken action listed

/-- The second branch was taken. -/
theorem joinRight (test : Meets counted guard first)
    (taken : Meets counted right second) (same : left.typ = right.typ) :
    Meets counted (join left.typ guard left right) (first.seq second second.value) := by
  refine ⟨same ▸ taken.typed, ?_, ?_, test.path.flowSeq taken.path.flowFork_right, ?_⟩
  · have steps := test.steps
    have steps' := taken.steps
    simp only [Done.seq, join, Limit.succ, Limit.add, Limit.one, Limit.max]
    omega
  · intro condition
    have work := test.work condition
    have work' := taken.work condition
    simp only [Done.seq, join, Limit.succ, Limit.add, Limit.one, Limit.max]
    omega
  · intro action listed
    apply Finset.union_subset_union (Finset.Subset.refl _) Finset.subset_union_right
    exact test.row_union taken action listed

end Meets

section Arithmetic

variable {counted : Prop}

theorem ends_charge (cost : Int) : Ends Arithmetic (charge cost) fun _ => True := by
  intro used
  change EndsIn Arithmetic (fun _ => True)
    ((if maxCost < used + cost then throw (.arith maxCost (used + cost))
      else set (used + cost) : Run Unit).run used)
  split
  · exact trivial
  · exact trivial

theorem ends_integer {op : Vm.IntWork.Op} {reject : RunError} {left right : Int}
    (rejects : intEval op left right = none → Arithmetic reject) :
    Ends Arithmetic (integer op reject left right) fun _ => True := by
  refine (ends_charge _).bind fun _ _ => ?_
  cases result : intEval op left right with
  | some value => exact .pure trivial
  | none => exact .throw (rejects result)

theorem Arith.rejects {op : Arith} {left right : Int}
    (refused : intEval op.op left right = none) : Arithmetic op.reject := by
  cases op with
  | add | sub | mul => cases refused
  | div | mod => trivial

theorem Signs.rejects {op : Signs} {left right : Int} {holds : Prop}
    (refused : intEval op.op left right = none) : holds := by
  cases op <;> cases refused

mutual

theorem ends_equalCharge (left right : Value) :
    Ends Arithmetic (equalCharge left right) fun _ => True := by
  unfold equalCharge
  split
  · exact ends_charge _
  · split
    · exact ends_equalChargeAll _ _
    · exact .pure trivial
  · exact (ends_equalCharge _ _).bind fun _ _ => ends_equalCharge _ _
  · exact ends_equalCharge _ _
  · exact ends_equalCharge _ _
  · exact .pure trivial

theorem ends_equalChargeAll (lefts rights : List Value) :
    Ends Arithmetic (equalChargeAll lefts rights) fun _ => True := by
  unfold equalChargeAll
  split
  · exact (ends_equalCharge _ _).bind fun _ _ => ends_equalChargeAll _ _
  · exact .pure trivial

end

theorem ends_hostLen {length : Nat} (small : CNat.valid length = true) :
    Ends Arithmetic (hostLen length) fun len => len = length := by
  unfold hostLen CNat.ofInt
  rw [if_pos small]
  exact .pure rfl

end Arithmetic

/-- What the turns of a fold add to a state. -/
structure Turned (counted : Prop) (body : Info) (typ : Typ) (turns : Nat)
    (start done : Done) : Prop where
  typed : Aml.typed typ done.value = true
  steps : done.steps ≤ start.steps + turns * (body.res.steps + 1)
  work : counted → done.work ≤ start.work + turns * (body.res.work + 1)
  path : ∃ actions : List (List Action), actions.length = turns ∧
    (∀ turn ∈ actions, Path body.flow turn) ∧
    done.trace = start.trace ++ actions.flatten
  row : ∀ action ∈ done.trace, action ∈ start.trace ∨ action.atom ∈ body.eff

theorem ends_evalFold {counted : Prop} {elem typ : Typ} {info : Info}
    {body : Value → Value → Run Done} (same : info.typ = typ)
    (turn : ∀ item state, typed elem item = true → typed typ state = true →
      Ends Arithmetic (body item state) (Meets counted info))
    {items : List Value} (each : ∀ item ∈ items, typed elem item = true)
    {start : Done} (holds : typed typ start.value = true) :
    Ends Arithmetic (evalFold body items start) (Turned counted info typ items.length start) := by
  induction items generalizing start with
  | nil =>
    exact .pure ⟨holds, by simp, by simp, ⟨[], rfl, by simp, by simp⟩, fun _ listed => .inl listed⟩
  | cons item items ih =>
    obtain ⟨here, others⟩ := List.forall_mem_cons.mp each
    rw [evalFold]
    refine (turn item start.value here holds).bind fun done meets => ?_
    have after : typed typ (start.seq done done.value).value = true := same ▸ meets.typed
    refine (ih others after).mono fun last rest => ?_
    obtain ⟨actions, size, paths, trace⟩ := rest.path
    have steps := meets.steps
    have steps' := rest.steps
    have more : ∀ bound : Int, ((items.length + 1 : Nat) : Int) * bound =
        items.length * bound + bound := by
      intro bound
      push_cast
      rw [Int.add_mul, Int.one_mul]
    simp only [Done.seq] at steps' trace
    rw [List.length_cons]
    refine ⟨rest.typed, ?_, ?_, ⟨done.trace :: actions, by simp [size],
      List.forall_mem_cons.mpr ⟨meets.path, paths⟩, ?_⟩, ?_⟩
    · rw [more]
      omega
    · intro condition
      have work := meets.work condition
      have work' := rest.work condition
      simp only [Done.seq] at work'
      rw [more]
      omega
    · rw [trace, List.flatten_cons, List.append_assoc]
    · intro action listed
      rcases rest.row action listed with former | turned
      · rcases List.mem_append.mp former with former | turned
        · exact .inl former
        · exact .inr (meets.row action turned)
      · exact .inr turned

/-- A fold of as many elements as were counted, or fewer. -/
theorem Meets.fold {counted : Prop} {len : Int} {turns : Nat}
    {vector seed body : Info} {first second done : Done} {typ : Typ}
    (before : Meets counted vector first) (start : Meets counted seed second)
    (few : (turns : Int) ≤ len) (nonneg : body.res.Nonneg) (same : seed.typ = typ)
    (turned : Turned counted body typ turns (first.seq second second.value) done) :
    Meets counted (foldInfo len vector seed body) done := by
  have scaled : ∀ {bound : Int}, 0 ≤ bound → turns * (bound + 1) ≤ len * (1 + bound) := by
    intro bound natural
    rw [Int.add_comm bound]
    exact Int.mul_le_mul_of_nonneg_right few (by omega)
  obtain ⟨actions, size, paths, trace⟩ := turned.path
  refine ⟨?_, ?_, ?_, ?_, ?_⟩
  · exact same ▸ turned.typed
  · have steps := before.steps
    have steps' := start.steps
    have steps'' := turned.steps
    have product := scaled nonneg.steps
    simp only [Done.seq] at steps''
    simp only [foldInfo, Limit.succ, Limit.add, Limit.one, Limit.scale]
    omega
  · intro condition
    have work := before.work condition
    have work' := start.work condition
    have work'' := turned.work condition
    have product := scaled nonneg.work
    simp only [Done.seq] at work''
    simp only [foldInfo, Limit.succ, Limit.add, Limit.one, Limit.scale]
    omega
  · rw [trace]
    simp only [Done.seq, List.append_assoc]
    apply before.path.flowSeq
    apply start.path.flowSeq
    exact .flowLoop (by omega) paths
  · intro action listed
    simp only [foldInfo, Finset.mem_union]
    rcases turned.row action listed with former | turned
    · rcases List.mem_append.mp former with former | former
      · exact .inl (before.row action former)
      · exact .inr (.inl (start.row action former))
    · exact .inr (.inr turned)

/-- The elements of a vector are within what was inferred for them. -/
structure MeetsVec (counted : Prop) (elem : Typ) (size : Nat) (parts : Parts)
    (outcome : List Value × Done) : Prop where
  typed : ∀ item ∈ outcome.1, Aml.typed elem item = true
  size : outcome.1.length = size
  steps : outcome.2.steps ≤ parts.res.steps
  work : counted → outcome.2.work ≤ parts.res.work
  path : Path parts.flow outcome.2.trace
  row : ∀ action ∈ outcome.2.trace, action.atom ∈ parts.eff

/-- The value of a sequence is filled behind its elements. -/
theorem typed_seq_padded {cap : Int} {elem : Typ} {items : List Value}
    {empty : Value} {pad : Int} (each : ∀ item ∈ items, typed elem item = true)
    (filled : zero elem = some empty) (holds : typed elem empty = true)
    (natural : 0 ≤ pad) (size : (items.length : Int) + pad = cap) :
    typed (.seq cap elem) (.pair (.int items.length)
      (.vec (items ++ List.replicate (cap - items.length).toNat empty))) = true := by
  refine typed_seq_iff.mpr ⟨_, _, empty, rfl, ?_, by omega, by omega, filled, ?_, ?_⟩
  · rw [List.length_append, List.length_replicate]
    push_cast
    omega
  · intro item listed
    rcases List.mem_append.mp listed with listed | listed
    · exact each item listed
    · rw [List.eq_of_mem_replicate listed]
      exact holds
  · unfold padded
    rw [Int.toNat_natCast, List.drop_left]
    refine List.all_eq_true.mpr ?_
    intro item listed
    rw [List.eq_of_mem_replicate listed]
    exact Value.equal_self empty

end Aml
end LiteNode
