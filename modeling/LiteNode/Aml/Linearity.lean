import LiteNode.Aml.CheckedRuns

/-!
# Linearity of capabilities

What a list of actions does to the capabilities that are held: a write needs the
capability it names, and a close uses it up.

Only linear variables hold capabilities, and each of them is used once. A run of
a checked term neither copies nor loses a capability: what its inputs hold is in
its value or was closed.
-/

namespace LiteNode
namespace Aml

/-- Capabilities that are held, with how often. -/
abbrev Purse := Multiset (Int × Int)

/-- The actions that name a capability have it at their time, and a close spends
it. -/
inductive Spends : Purse → List Action → Purse → Prop
  | nil {held} : Spends held [] held
  | direct {held left atom payload actions} (rest : Spends held actions left) :
      Spends held (⟨atom, payload, .direct⟩ :: actions) left
  | write {held left kind id payload actions} (here : (kind, id) ∈ held)
      (rest : Spends held actions left) :
      Spends held (⟨.write kind, payload, .held kind id⟩ :: actions) left
  | close {held left kind id payload actions} (rest : Spends held actions left) :
      Spends ((kind, id) ::ₘ held) (⟨.close kind, payload, .held kind id⟩ :: actions) left

def Action.closes (action : Action) : Option (Int × Int) :=
  match action.atom, action.origin with
  | .close _, .held kind id => some (kind, id)
  | _, _ => none

/-- The capabilities that are closed, in their order. -/
def closedCaps (actions : List Action) : Caps := actions.filterMap Action.closes

theorem closedCaps_cons {action : Action} {cap : Int × Int}
    (closed : action.closes = some cap) (actions : List Action) :
    closedCaps (action :: actions) = cap :: closedCaps actions :=
  List.filterMap_cons_some closed

def Action.holds (action : Action) : Option (Int × Int) :=
  match action.origin with
  | .direct => none
  | .held kind id => some (kind, id)

namespace Spends

variable {held between left more : Purse} {actions first second : List Action}
  {action : Action} {cap : Int × Int}

/-- Nothing is spent, whatever way it is written. -/
theorem of_eq (same : held = left) : Spends held [] left := same ▸ .nil

theorem append (before : Spends held first between) (after : Spends between second left) :
    Spends held (first ++ second) left := by
  induction before with
  | nil => exact after
  | direct _ ih => exact .direct (ih after)
  | write here _ ih => exact .write here (ih after)
  | close _ ih => exact .close (ih after)

/-- Capabilities that are held besides are left. -/
theorem frame (spends : Spends held actions left) : Spends (held + more) actions (left + more) := by
  induction spends with
  | nil => exact .nil
  | direct _ ih => exact .direct ih
  | write here _ ih => exact .write (Multiset.mem_add.mpr (.inl here)) ih
  | close _ ih =>
    rw [Multiset.cons_add]
    exact .close ih

/-- What is held in the beginning is left or closed. -/
theorem conserves (spends : Spends held actions left) :
    held = left + (closedCaps actions : Purse) := by
  induction spends with
  | nil => exact (add_zero _).symm
  | direct _ ih =>
    rw [closedCaps, List.filterMap_cons_none (by simp [Action.closes])]
    exact ih
  | write here _ ih =>
    rw [closedCaps, List.filterMap_cons_none rfl]
    exact ih
  | close _ ih =>
    rw [@closedCaps_cons ⟨_, _, _⟩ _ rfl, ← Multiset.cons_coe, Multiset.add_cons]
    exact congrArg _ ih

/-- No capability comes up on the way. -/
theorem le (spends : Spends held actions left) : left ≤ held := by
  rw [spends.conserves]
  exact Multiset.le_add_right left _

/-- An action only names capabilities that were held in the beginning. -/
theorem mem (spends : Spends held actions left) (taken : action ∈ actions)
    (names : action.holds = some cap) : cap ∈ held := by
  induction spends with
  | nil => cases taken
  | direct _ ih =>
    rcases List.mem_cons.mp taken with rfl | later
    · cases names
    · exact ih later
  | write here _ ih =>
    rcases List.mem_cons.mp taken with rfl | later
    · cases names
      exact here
    · exact ih later
  | close _ ih =>
    rcases List.mem_cons.mp taken with rfl | later
    · cases names
      exact Multiset.mem_cons_self _ _
    · exact Multiset.mem_cons_of_mem (ih later)

theorem split (spends : Spends held (first ++ second) left) :
    ∃ between, Spends held first between ∧ Spends between second left := by
  induction first generalizing held with
  | nil => exact ⟨held, .nil, spends⟩
  | cons action first ih =>
    cases spends with
    | direct rest =>
      obtain ⟨between, before, after⟩ := ih rest
      exact ⟨between, .direct before, after⟩
    | write here rest =>
      obtain ⟨between, before, after⟩ := ih rest
      exact ⟨between, .write here before, after⟩
    | close rest =>
      obtain ⟨between, before, after⟩ := ih rest
      exact ⟨between, .close before, after⟩

/-- After a capability is closed, no action names it again, if it was held
once. -/
theorem not_after_close (spends : Spends held (first ++ action :: second) left)
    (distinct : held.Nodup) (closed : action.closes = some cap) :
    ∀ later ∈ second, later.holds ≠ some cap := by
  obtain ⟨between, before, after⟩ := spends.split
  have once : between.Nodup := Multiset.nodup_of_le before.le distinct
  intro later taken names
  cases after with
  | direct rest => simp [Action.closes] at closed
  | write here rest => cases closed
  | close rest =>
    cases closed
    exact (Multiset.nodup_cons.mp once).1 (rest.mem taken names)

end Spends

theorem capsAll_eq_nil {values : List Value}
    (each : ∀ item ∈ values, item.caps = []) : capsAll values = [] := by
  induction values with
  | nil => rfl
  | cons item values ih =>
    obtain ⟨here, others⟩ := List.forall_mem_cons.mp each
    rw [capsAll, here, ih others]
    rfl

variable {typ : Typ}

theorem kind_pair {left right : Typ} (data : (Typ.pair left right).kind ≠ .res) :
    left.kind ≠ .res ∧ right.kind ≠ .res := by
  unfold Typ.kind at data
  split at data
  · exact absurd rfl data
  · next first => exact ⟨first, data⟩

/-- Values of data types hold no capabilities. -/
theorem caps_of_data {value : Value} (data : typ.kind ≠ .res) (holds : typed typ value = true) :
    value.caps = [] := by
  induction typ generalizing value with
  | unit | bool | int | num | bytes | enc => cases value <;> first | rfl | cases holds
  | cap => exact absurd rfl data
  | vec len elem ih =>
    obtain ⟨values, rfl, size, each⟩ := typed_vec_iff.mp holds
    unfold Typ.kind at data
    split at data
    · next empty =>
      rw [List.length_eq_zero_iff.mp (by omega : values.length = 0)]
      rfl
    · exact capsAll_eq_nil fun item listed => ih data (each item listed)
  | seq size elem ih =>
    obtain ⟨used, values, empty, rfl, -, -, -, -, each, -⟩ := typed_seq_iff.mp holds
    exact capsAll_eq_nil fun item listed => ih data (each item listed)
  | pair left right left_ih right_ih =>
    obtain ⟨first, second, rfl, here, there⟩ := typed_pair holds
    obtain ⟨leftData, rightData⟩ := kind_pair data
    rw [Value.caps, left_ih leftData here, right_ih rightData there]
    rfl
  | sum left right left_ih right_ih =>
    obtain ⟨leftData, rightData⟩ := @kind_pair left right data
    rcases typed_sum holds with ⟨payload, rfl, here⟩ | ⟨payload, rfl, here⟩
    · rw [Value.caps]
      exact left_ih leftData here
    · rw [Value.caps]
      exact right_ih rightData here

theorem kind_of_plain (plain : typ.plain = true) : typ.kind = .data := by
  induction typ with
  | cap | enc => cases plain
  | vec len elem ih => simp [Typ.kind, ih plain]
  | seq size elem ih => exact ih plain
  | pair left right left_ih right_ih
  | sum left right left_ih right_ih =>
    obtain ⟨first, second⟩ := Bool.and_eq_true_iff.mp plain
    simp [Typ.kind, left_ih first, right_ih second]
  | _ => rfl

theorem caps_of_plain {value : Value} (plain : typ.plain = true)
    (holds : typed typ value = true) : value.caps = [] :=
  caps_of_data (by simp [kind_of_plain plain]) holds

/-- Values that can be compared are data. -/
theorem kind_of_equatable (equatable : typ.equatable = true) : typ.kind = .data := by
  induction typ with
  | unit | bool | int | num | bytes => rfl
  | cap | enc => cases equatable
  | vec len elem ih =>
    unfold Typ.equatable at equatable
    unfold Typ.kind
    split
    · rfl
    · next full =>
      rw [if_neg full] at equatable
      exact ih equatable
  | seq size elem ih => exact ih equatable
  | pair left right left_ih right_ih
  | sum left right left_ih right_ih =>
    obtain ⟨first, second⟩ := Bool.and_eq_true_iff.mp equatable
    unfold Typ.kind
    rw [left_ih first, right_ih second]
    rfl

/-- The capabilities of linear variables that were not used yet. -/
def liveCaps : Scope → Env → Purse
  | slot :: env, entry :: values =>
    (if slot.bind.mul = .one ∧ slot.live = true then (entry.2.caps : Purse)
      else 0) + liveCaps env values
  | _, _ => 0

/-- A scope fits the values, and what holds capabilities is linear. -/
structure Owns (env : Scope) (values : Env) : Prop extends Fits env values where
  moded : ∀ bind ∈ binds env, bind.typ.kind = .res → bind.mul = .one

namespace Owns

variable {env bodyEnv usedEnv env' : Scope} {values : Env} {bind : Bind} {value : Value}

theorem of_binds (owns : Owns env values) (same : binds env' = binds env) : Owns env' values :=
  ⟨owns.toFits.of_binds same, same ▸ owns.moded⟩

theorem of_open (owns : Owns env values) (opened : openBind bind env = .ok bodyEnv)
    (holds : typed bind.typ value = true) : Owns bodyEnv (bindEnv bind value values) := by
  refine ⟨⟨formed_opened opened owns.formed, owns.matched.opened opened holds⟩, ?_⟩
  obtain ⟨-, mode, -, how⟩ := open_cases opened
  rcases how with ⟨-, rfl⟩ | ⟨-, rfl⟩
  · exact owns.moded
  · exact List.forall_mem_cons.mpr ⟨mode, owns.moded⟩

theorem opened (owns : Owns env values) (binder : Scoped bind env bodyEnv usedEnv env')
    (holds : typed bind.typ value = true) : Owns bodyEnv (bindEnv bind value values) :=
  owns.of_open binder.opened holds

/-- Using a variable takes the capabilities it holds out of the scope. -/
theorem live_use {id : Int} {typ : Typ} (owns : Owns env values)
    (used : use id env = .ok (typ, env')) (found : values.lookup id = some value) :
    liveCaps env values = liveCaps env' values + (value.caps : Purse) := by
  obtain ⟨before, slot, live, after, rfl, rfl, here, -, earlier, how⟩ := use_cases used
  clear used
  induction before generalizing values with
  | nil =>
    obtain ⟨entry, rest, ⟨same, holds⟩, -, rfl⟩ := List.forall₂_cons_left_iff.mp owns.matched
    rw [List.lookup_cons, ← here, same, BEq.rfl] at found
    obtain rfl := Option.some.inj found
    rw [List.nil_append, List.nil_append, liveCaps, liveCaps]
    rcases how with ⟨one, was, rfl⟩ | ⟨many, rfl⟩
    · rw [if_pos ⟨one, was⟩, if_neg (by simp), zero_add, add_comm]
    · have data : slot.bind.typ.kind ≠ .res := by
        intro res
        have one := owns.moded slot.bind (by simp [binds]) res
        rw [many] at one
        cases one
      rw [caps_of_data data holds]
      exact (add_zero _).symm
  | cons other before ih =>
    obtain ⟨entry, rest, ⟨same, -⟩, others, rfl⟩ := List.forall₂_cons_left_iff.mp owns.matched
    obtain ⟨elsewhere, earlier⟩ := List.forall_mem_cons.mp earlier
    have different : (id == entry.1) = false := by
      rw [← same]
      exact beq_eq_false_iff_ne.mpr (Ne.symm elsewhere)
    rw [List.lookup_cons, different] at found
    have inner : Owns (before ++ slot :: after) rest :=
      ⟨⟨fun bind listed => owns.formed bind (List.mem_cons_of_mem _ listed), others⟩,
        fun bind listed => owns.moded bind (List.mem_cons_of_mem _ listed)⟩
    rw [List.cons_append, List.cons_append, liveCaps, liveCaps, ih found inner earlier, add_assoc]

end Owns

namespace Scoped

variable {env bodyEnv usedEnv env' : Scope} {values : Env} {bind : Bind} {value : Value}

theorem live_open (opened : openBind bind env = .ok bodyEnv) (holds : typed bind.typ value = true) :
    liveCaps bodyEnv (bindEnv bind value values) = liveCaps env values + (value.caps : Purse) := by
  obtain ⟨-, mode, -, how⟩ := open_cases opened
  have none : bind.mul ≠ .one → value.caps = [] := fun other =>
    caps_of_data (fun res => other (mode res)) holds
  unfold bindEnv
  rcases how with ⟨mul, rfl⟩ | ⟨mul, rfl⟩
  · rw [mul, none (by simp [mul])]
    exact (add_zero _).symm
  · cases shape : bind.mul with
    | zero => exact absurd shape mul
    | one => simp [liveCaps, shape, add_comm]
    | many => simp [liveCaps, shape, none]

/-- A binder without a value leaves the scope alone. -/
theorem erased_eq (binder : Scoped bind env bodyEnv usedEnv env') (mul : bind.mul = .zero)
    (same : Aml.binds usedEnv = Aml.binds bodyEnv) : bodyEnv = env ∧ env' = usedEnv := by
  rcases binder.cases same with ⟨-, opened, closed⟩ | ⟨bound, -⟩
  · exact ⟨opened, closed⟩
  · exact absurd mul bound

/-- A value that is bound brings its capabilities into the scope. -/
theorem live_opened (binder : Scoped bind env bodyEnv usedEnv env')
    (holds : typed bind.typ value = true) :
    liveCaps bodyEnv (bindEnv bind value values) = liveCaps env values + (value.caps : Purse) :=
  live_open binder.opened holds

/-- A binder that is closed holds no capabilities any more. -/
theorem live_closed (binder : Scoped bind env bodyEnv usedEnv env')
    (same : Aml.binds usedEnv = Aml.binds bodyEnv) :
    liveCaps usedEnv (bindEnv bind value values) = liveCaps env' values := by
  unfold bindEnv
  rcases binder.cases same with ⟨mul, rfl, rfl⟩ | ⟨mul, rfl, live, rfl, dead⟩
  · rw [mul]
  · cases shape : bind.mul with
    | zero => exact absurd shape mul
    | one => simp [liveCaps, shape, dead shape]
    | many => simp [liveCaps, shape]

end Scoped
end Aml
end LiteNode
