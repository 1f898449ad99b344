import LiteNode.Aml.LinearRuns
import LiteNode.Data.Ordered

/-!
# Capability sessions

A session keeps a revision of every capability that was issued, and whether it
is live. A token names a revision. A run takes the tokens of the capabilities of
its inputs, and gives new ones for those that its value holds.
-/

namespace LiteNode
namespace Aml
namespace Sess

/-- The kind and the id of a capability. -/
abbrev Key := Int × Int

def compareKey (left right : Key) : Ordering :=
  (compare left.1 right.1).then (compare left.2 right.2)

theorem byKey {ν : Type} : Ordered.ByKey
    (fun left right : Key × ν => compareKey left.1 right.1)
    (fun binding => toLex binding.1) :=
  (Ordered.byKey_compare fun binding : Key × ν => binding.1.1).andThen
    (Ordered.byKey_compare fun binding : Key × ν => binding.1.2)

theorem compareKey_eq_lt {left right : Key} :
    compareKey left right = .lt ↔ toLex left < toLex right :=
  (@byKey Unit).lt_iff (left, ()) (right, ())

/-- A map whose keys increase. -/
structure Kmap (ν : Type) where
  bindings : List (Key × ν)
  ordered : Ordered.Increasing (fun binding => toLex binding.1) bindings

namespace Kmap

variable {ν : Type} {map : Kmap ν} {key other : Key} {value : ν}

def empty : Kmap ν := ⟨[], List.Pairwise.nil⟩

def add (key : Key) (value : ν) (map : Kmap ν) : Kmap ν where
  bindings := Ordered.bind (fun left right => compareKey left.1 right.1) (key, value) map.bindings
  ordered := Ordered.increasing_bind byKey map.ordered

def find? (map : Kmap ν) (key : Key) : Option ν :=
  (map.bindings.find? fun binding => decide (binding.1 = key)).map Prod.snd

def mem (map : Kmap ν) (key : Key) : Bool := (map.find? key).isSome

def keys (map : Kmap ν) : List Key := map.bindings.map Prod.fst

theorem nodup_keys (map : Kmap ν) : map.keys.Nodup :=
  List.pairwise_map.mpr (map.ordered.imp fun below same => below.ne (congrArg toLex same))

theorem mem_bindings : (key, value) ∈ map.bindings ↔ map.find? key = some value := by
  unfold find?
  constructor
  · intro listed
    cases found : map.bindings.find? fun binding => decide (binding.1 = key) with
    | none => simpa using List.find?_eq_none.mp found (key, value) listed
    | some binding =>
      have same : binding.1 = key := by simpa using List.find?_some found
      have present := List.mem_of_find?_eq_some found
      have unique := List.inj_on_of_nodup_map map.nodup_keys present listed same
      rw [unique]
      rfl
  · intro found
    obtain ⟨binding, first, rfl⟩ := Option.map_eq_some_iff.mp found
    have same : binding.1 = key := by simpa using List.find?_some first
    rw [← same]
    exact List.mem_of_find?_eq_some first

theorem mem_iff : map.mem key = true ↔ key ∈ map.keys := by
  rw [mem, Option.isSome_iff_exists]
  constructor
  · rintro ⟨value, found⟩
    exact List.mem_map_of_mem (mem_bindings.mpr found)
  · intro listed
    obtain ⟨binding, present, rfl⟩ := List.mem_map.mp listed
    exact ⟨binding.2, mem_bindings.mp present⟩

@[simp] theorem find?_empty (key : Key) : (empty : Kmap ν).find? key = none := rfl

theorem find?_add (map : Kmap ν) (key : Key) (value : ν) (other : Key) :
    (map.add key value).find? other = if other = key then some value else map.find? other := by
  apply Option.ext
  intro found
  rw [← mem_bindings, add, Ordered.mem_bind byKey map.ordered]
  split
  · next same =>
    rw [same]
    simp [eq_comm]
  · next apart =>
    rw [← mem_bindings]
    simp [apart]

theorem mem_add (map : Kmap ν) (key : Key) (value : ν) (other : Key) :
    (map.add key value).mem other = true ↔ other = key ∨ map.mem other = true := by
  rw [mem, mem, find?_add]
  split
  · next same => simp [same]
  · next apart => simp [apart]

theorem keys_add_of_mem (bound : map.mem key = true) : (map.add key value).keys = map.keys := by
  have perm : (map.add key value).keys.Perm map.keys := by
    refine (List.perm_ext_iff_of_nodup (nodup_keys _) (nodup_keys _)).mpr ?_
    intro other
    rw [← mem_iff, ← mem_iff, mem_add]
    exact ⟨fun either => either.elim (· ▸ bound) id, Or.inr⟩
  have sorted : ∀ map : Kmap ν, map.keys.Pairwise fun left right =>
      toLex left ≤ toLex right := fun map =>
    List.pairwise_map.mpr (map.ordered.imp fun below => below.le)
  exact perm.eq_of_pairwise (fun _ _ _ _ below above =>
    toLex.injective (le_antisymm below above)) (sorted _) (sorted _)

/-- A new key that is the greatest comes last. -/
theorem bindings_add (later : ∀ bound ∈ map.keys, toLex bound < toLex key) :
    (map.add key value).bindings = map.bindings ++ [(key, value)] := by
  have last : ∀ bindings : List (Key × ν), (∀ binding ∈ bindings, toLex binding.1 < toLex key) →
      Ordered.bind (fun left right : Key × ν => compareKey left.1 right.1)
        (key, value) bindings = bindings ++ [(key, value)] := by
    intro bindings
    induction bindings with
    | nil => exact fun _ => rfl
    | cons first rest ih =>
      intro later
      obtain ⟨here, others⟩ := List.forall_mem_cons.mp later
      rw [Ordered.bind, List.cons_append, ih others]
      split
      · next below =>
        exact absurd (compareKey_eq_lt.mp below) here.asymm
      · next same =>
        exact absurd ((byKey.eq_iff (key, value) first).mp same) here.ne'
      · rfl
  exact last map.bindings fun binding listed => later binding.1 (List.mem_map_of_mem listed)

theorem length_add_of_notMem (free : map.mem key = false) :
    (map.add key value).bindings.length = map.bindings.length + 1 := by
  have perm : (map.add key value).keys.Perm (key :: map.keys) := by
    have absent : key ∉ map.keys := fun listed => by
      rw [mem_iff.mpr listed] at free
      exact absurd free (by simp)
    refine (List.perm_ext_iff_of_nodup (nodup_keys _)
      (List.nodup_cons.mpr ⟨absent, map.nodup_keys⟩)).mpr ?_
    intro other
    rw [← mem_iff, mem_add, List.mem_cons, mem_iff]
  simpa [keys] using perm.length_eq

end Kmap

abbrev Kset := Kmap Unit

structure Scope where
  chain : Bytes
  prog : Bytes
  root : Bytes
  deriving DecidableEq

structure Token where
  scope : Scope
  kind : Int
  id : Int
  rev : Int
  deriving DecidableEq

def Token.key (token : Token) : Key := (token.kind, token.id)

structure Cell where
  kind : Int
  id : Int
  rev : Int
  live : Bool

structure Slot where
  rev : Int
  live : Bool
  deriving DecidableEq

structure State where
  scope : Scope
  slots : Kmap Slot
  count : Nat

structure Out where
  eval : Aml.Out
  state : State
  tokens : List Token

inductive Field
  | kind
  | id

/-- Why a session refuses; `notFound` is an exception. -/
inductive Error
  | nat (field : Field) (value : Int)
  | scope
  | order (left right : Key)
  | existing (key : Key)
  | absent (key : Key)
  | stale (kind id expected actual : Int)
  | tdup (key : Key)
  | tmiss (key : Key)
  | textra (key : Key)
  | vdup (key : Key)
  | vdepth (limit actual : Nat)
  | vnodes (limit actual : Nat)
  | icount (limit actual : Nat)
  | scount (limit actual : Nat)
  | new (key : Key)
  | revMax (key : Key)
  | eval (error : RunError)
  | notFound

def maxNodes : Nat := localLimits.tmNodes

def empty (scope : Scope) : State := { scope, slots := .empty, count := 0 }

def nat (field : Field) (value : Int) : Except Error Int :=
  match CNat.make value with
  | some value => .ok value
  | none => .error (.nat field value)

def cells (state : State) : List Cell :=
  state.slots.bindings.map fun binding =>
    { kind := binding.1.1
      id := binding.1.2
      rev := binding.2.rev
      live := binding.2.live }

def ofCellsFrom (scope : Scope) (prior : Option Key) (slots : Kmap Slot)
    (count : Nat) : List Cell → Except Error State
  | [] => .ok { scope, slots, count }
  | cell :: rest =>
    if count = maxNodes then .error (.scount maxNodes (maxNodes + 1))
    else
      let key := (cell.kind, cell.id)
      match prior.filter fun prior => compareKey prior key ≠ .lt with
      | some prior => .error (.order prior key)
      | none => ofCellsFrom scope (some key) (slots.add key ⟨cell.rev, cell.live⟩) (count + 1) rest

def ofCells (scope : Scope) (cells : List Cell) : Except Error State :=
  ofCellsFrom scope none .empty 0 cells

def issue (state : State) (kind id : Int) : Except Error (State × Token) := do
  let kind ← nat .kind kind
  let id ← nat .id id
  if state.slots.mem (kind, id) then .error (.existing (kind, id))
  else if state.count = maxNodes then .error (.scount maxNodes (maxNodes + 1))
  else
    let token : Token := { scope := state.scope, kind, id, rev := 0 }
    .ok ({ state with
      slots := state.slots.add (kind, id) ⟨token.rev, true⟩
      count := state.count + 1 }, token)

def current (state : State) (token : Token) : Bool :=
  if state.scope ≠ token.scope then false
  else
    match state.slots.find? token.key with
    | some slot => slot.live && slot.rev = token.rev
    | none => false

def take (state : State) (token : Token) (keep : Bool) : Except Error (State × Option Token) :=
  if state.scope ≠ token.scope then .error .scope
  else
    match state.slots.find? token.key with
    | none => .error (.absent token.key)
    | some slot =>
      if !slot.live || slot.rev ≠ token.rev then
        .error (.stale token.kind token.id slot.rev token.rev)
      else if !keep then
        .ok ({ state with slots := state.slots.add token.key ⟨token.rev, false⟩ }, none)
      else
        match CNat.add token.rev 1 with
        | none => .error (.revMax token.key)
        | some rev =>
          .ok ({ state with slots := state.slots.add token.key ⟨rev, true⟩ },
            some { token with rev })

/-- Whether one more value is within the limits. -/
def enter (depth nodes : Nat) : Except Error Unit :=
  if localLimits.tmDepth < depth then .error (.vdepth localLimits.tmDepth depth)
  else if maxNodes ≤ nodes then .error (.vnodes maxNodes (nodes + 1))
  else .ok ()

mutual

/-- The capabilities of a value, each of which is in it once, beside those that
were seen. -/
def caps (depth : Nat) (start : Kset × Nat) : Value → Except Error (Kset × Nat)
  | .unit | .bool _ | .int _ | .bytes _ | .enc _ _ _ => do
    enter depth start.2
    .ok (start.1, start.2 + 1)
  | .cap kind id => do
    enter depth start.2
    if !CNat.valid kind then .error (.nat .kind kind)
    else if !CNat.valid id then .error (.nat .id id)
    else if start.1.mem (kind, id) then .error (.vdup (kind, id))
    else .ok (start.1.add (kind, id) (), start.2 + 1)
  | .vec values => do
    enter depth start.2
    capsEach (depth + 1) (start.1, start.2 + 1) values
  | .pair left right => do
    enter depth start.2
    let between ← caps (depth + 1) (start.1, start.2 + 1) left
    caps (depth + 1) between right
  | .inl value | .inr value => do
    enter depth start.2
    caps (depth + 1) (start.1, start.2 + 1) value

def capsEach (depth : Nat) (start : Kset × Nat) : List Value → Except Error (Kset × Nat)
  | [] => .ok start
  | value :: rest => do
    let next ← caps depth start value
    capsEach depth next rest

end

def inputCapsFrom (count : Nat) (start : Kset × Nat) : List (Bind × Value) → Except Error Kset
  | [] => .ok start.1
  | (_, value) :: rest =>
    if count = localLimits.inputs then .error (.icount localLimits.inputs (localLimits.inputs + 1))
    else do
      let next ← caps 0 start value
      inputCapsFrom (count + 1) next rest

def tokenMapFrom (count : Nat) (out : Kmap Token) : List Token → Except Error (Kmap Token)
  | [] => .ok out
  | token :: rest =>
    if count = maxNodes then .error (.vnodes maxNodes (maxNodes + 1))
    else if out.mem token.key then .error (.tdup token.key)
    else tokenMapFrom (count + 1) (out.add token.key token) rest

def needs (state : State) (supplied : Kmap Token) : List Key → Except Error Unit
  | [] => .ok ()
  | key :: rest =>
    match supplied.find? key with
    | none => .error (.tmiss key)
    | some token =>
      if state.scope ≠ token.scope then .error .scope
      else if current state token then needs state supplied rest
      else
        match state.slots.find? key with
        | none => .error (.absent key)
        | some slot => .error (.stale token.kind token.id slot.rev token.rev)

def extras (expected : Kset) : List Key → Except Error Unit
  | [] => .ok ()
  | key :: rest => if expected.mem key then extras expected rest else .error (.textra key)

def verify (state : State) (expected : Kset) (supplied : Kmap Token) : Except Error Unit := do
  needs state supplied expected.keys
  extras expected supplied.keys

def known (input : Kset) : List Key → Except Error Unit
  | [] => .ok ()
  | key :: rest => if input.mem key then known input rest else .error (.new key)

def advanceFrom (supplied : Kmap Token) (output : Kset) (state : State)
    (tokens : List Token) : List Key → Except Error (State × List Token)
  | [] => .ok (state, tokens.reverse)
  | key :: rest =>
    match supplied.find? key with
    | none => .error .notFound
    | some token => do
      let (state, fresh) ← take state token (output.mem key)
      advanceFrom supplied output state (fresh.toList ++ tokens) rest

def advance (state : State) (supplied : Kmap Token) (input output : Kset) :
    Except Error (State × List Token) := do
  known input output.keys
  advanceFrom supplied output state [] input.keys

def run (fuel : Int) (state : State) (tokens : List Token)
    (inputs : List (Bind × Value)) (term : Term) : Except Error Out := do
  let input ← inputCapsFrom 0 (.empty, 0) inputs
  let supplied ← tokenMapFrom 0 .empty tokens
  verify state input supplied
  let eval ← (runIn fuel inputs term).mapError Error.eval
  let output ← caps 0 (.empty, 0) eval.value
  let (state, tokens) ← advance state supplied input output.1
  .ok { eval, state, tokens }

/-- What is asked of a session. -/
inductive Call
  | issue (kind id : Int)
  | run (fuel : Int) (tokens : List Token) (inputs : List (Bind × Value)) (term : Term)

/-- The state after a call, the tokens that it gives, and those that it takes. -/
def Call.outcome (state : State) : Call → Except Error (State × List Token × List Token)
  | .issue kind id => do
    let (state, token) ← Sess.issue state kind id
    .ok (state, [token], [])
  | .run fuel tokens inputs term => do
    let out ← Sess.run fuel state tokens inputs term
    .ok (out.state, out.tokens, tokens)

/-- The state after a call, with the tokens that were given and not taken. A
call that fails changes nothing. -/
def step (session : State × List Token) (call : Call) : State × List Token :=
  match call.outcome session.1 with
  | .ok (state, given, taken) =>
    (state, given ++ session.2.filter fun token => decide (token ∉ taken))
  | .error _ => session

def after (session : State × List Token) (calls : List Call) : State × List Token :=
  calls.foldl step session

end Sess
end Aml
end LiteNode
