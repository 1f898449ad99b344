import LiteNode.Aml.Values
import LiteNode.Vm.Effort

/-!
# The evaluator of the core language

A term is evaluated in an environment of values. The evaluator counts steps and
work, meters the arithmetic, and tells the actions in their order.
-/

namespace LiteNode
namespace Aml

open Vm (IntWork.cost IntWork.Op)

/-- Where an action comes from. -/
inductive Origin
  | direct
  | held (kind id : Int)
  deriving DecidableEq

structure Action where
  atom : Atom
  payload : Value
  origin : Origin

structure Out where
  value : Value
  plan : List Atom
  actions : List Action
  steps : Int
  work : Int
  row : Row
  limit : Int
  workLimit : Int
  intWork : Int

inductive RunError
  | static (error : CheckError)
  | missing (id : Int)
  | needBool
  | needInt
  | divideZero
  | moduloZero
  | needPair
  | needSum
  | needBytes
  | needVec
  | needCap
  | needSeq
  | byteIndex (len total : Int)
  | vecIndex (index total : Int)
  | input (id : Int)
  | inputType (id : Int) (typ : Typ)
  | inputDepth (id : Int) (limit actual : Nat)
  | inputNodes (id : Int) (limit actual : Nat)
  | capDup (kind id : Int)
  | fuel (limit needed : Int)
  | cost (limit actual : Int)
  | work (limit actual : Int)
  | arith (limit actual : Int)
  | effects (row used : Row)
  deriving DecidableEq

/-- A value with what it took to find it. -/
structure Done where
  value : Value
  trace : List Action
  steps : Int
  work : Int

def maxCost : Int := localLimits.fuel

/-- A computation with the arithmetic that was metered. -/
abbrev Run (α : Type) := StateT Int (Except RunError) α

abbrev Env := List (Int × Value)

namespace Done

/-- A value after one step more. -/
def next (done : Done) (value : Value) : Done :=
  { done with value, steps := done.steps + 1, work := done.work + 1 }

/-- One after the other, with a value. -/
def seq (left right : Done) (value : Value) : Done where
  value := value
  trace := left.trace ++ right.trace
  steps := left.steps + right.steps + 1
  work := left.work + right.work + 1

def copySeq (len : Int) (left right : Done) (value : Value) : Done where
  value := value
  trace := left.trace ++ right.trace
  steps := len + (left.steps + right.steps + 1)
  work := len + (left.work + right.work + 1)

def copyOne (len : Int) (done : Done) (value : Value) : Done where
  value := value
  trace := done.trace
  steps := len + (done.steps + 1)
  work := len + (done.work + 1)

end Done

def charge (cost : Int) : Run Unit := do
  let actual := (← get) + cost
  if maxCost < actual then throw (.arith maxCost actual)
  else set actual

/-- What an operation costs before its operands count. -/
def fixed : IntWork.Op → Int
  | .add | .sub | .mul => 3
  | .div | .mod | .neg | .abs => 5

def intCost (op : IntWork.Op) (left right : Int) : Int :=
  IntWork.cost (fixed op) .active op left right

def intEval : IntWork.Op → Int → Int → Option Int
  | .add, left, right => some (left + right)
  | .sub, left, right => some (left - right)
  | .mul, left, right => some (left * right)
  | .div, left, right => if right = 0 then none else some (left.tdiv right)
  | .mod, left, right => if right = 0 then none else some (left.tmod right)
  | .neg, left, _ => some (-left)
  | .abs, left, _ => some |left|

def integer (op : IntWork.Op) (reject : RunError) (left right : Int) : Run Int := do
  charge (intCost op left right)
  match intEval op left right with
  | some value => return value
  | none => throw reject

def Arith.op : Arith → IntWork.Op
  | .add => .add
  | .sub => .sub
  | .mul => .mul
  | .div => .div
  | .mod => .mod

/-- Why an operation on two integers is refused. -/
def Arith.reject : Arith → RunError
  | .add | .sub | .mul => .needInt
  | .div => .divideZero
  | .mod => .moduloZero

def Signs.op : Signs → IntWork.Op
  | .neg => .neg
  | .abs => .abs

def Rel.holds (rel : Rel) (left right : Int) : Bool :=
  match rel with
  | .lt => left < right
  | .le => left ≤ right
  | .gt => right < left
  | .ge => right ≤ left

mutual

def equalCharge : Value → Value → Run Unit
  | .int left, .int right => charge (intCost .sub left right)
  | .vec lefts, .vec rights =>
    if lefts.length = rights.length then equalChargeAll lefts rights
    else return ()
  | .pair leftFirst leftSecond, .pair rightFirst rightSecond => do
    equalCharge leftFirst rightFirst
    equalCharge leftSecond rightSecond
  | .inl left, .inl right => equalCharge left right
  | .inr left, .inr right => equalCharge left right
  | _, _ => return ()

def equalChargeAll : List Value → List Value → Run Unit
  | left :: lefts, right :: rights => do
    equalCharge left right
    equalChargeAll lefts rights
  | _, _ => return ()

end

/-! ## Evaluation -/

def hostLen (length : Nat) : Run Int :=
  match CNat.ofInt length with
  | some len => return len
  | none => throw (.static .size)

def bindEnv (bind : Bind) (value : Value) (env : Env) : Env :=
  match bind.mul with
  | .zero => env
  | .one | .many => (bind.id, value) :: env

def lookup (id : Int) (env : Env) : Run Value :=
  match env.lookup id with
  | some value => return value
  | none => throw (.missing id)

def done (value : Value) : Done := ⟨value, [], 1, 1⟩

/-- Fold the elements of a vector, from a state. -/
def evalFold (body : Value → Value → Run Done) : List Value → Done → Run Done
  | [], state => return state
  | item :: rest, state => do
    let turn ← body item state.value
    evalFold body rest (state.seq turn turn.value)

mutual

def eval (env : Env) : Term → Run Done
  | .unit => return done .unit
  | .bool value => return done (.bool value)
  | .int value => return done (.int value)
  | .narrow typ value => if typ.admits value then return done (.int value) else throw .needInt
  | .bytes value => do
    let len ← hostLen value.length
    return ⟨.bytes value, [], len + 1, len + 1⟩
  | .vec _ values => do
    let (values, active) ← evalVec env values
    return { active with value := .vec values }
  | .seq cap elem values => do
    if cap < values.length then
      match CNat.ofInt values.length with
      | some actual => throw (.vecIndex actual cap)
      | none => throw .needSeq
    else
      let (items, active) ← evalVec env values
      match zero elem with
      | none => throw .needSeq
      | some empty =>
        let pad := List.replicate (cap - values.length).toNat empty
        let extra := cap - values.length + 1
        return { active with
          value := .pair (.int values.length) (.vec (items ++ pad))
          steps := active.steps + extra
          work := active.work + extra }
  | .var id => do return done (← lookup id env)
  | .let' bind value body =>
    match bind.mul with
    | .zero => do
      let body ← eval env body
      return body.next body.value
    | .one | .many => do
      let value ← eval env value
      let body ← eval ((bind.id, value.value) :: env) body
      return value.seq body body.value
  | .if' guard yes no => do
    let guard ← eval env guard
    match guard.value with
    | .bool true => do
      let body ← eval env yes
      return guard.seq body body.value
    | .bool false => do
      let body ← eval env no
      return guard.seq body body.value
    | _ => throw .needBool
  | .pair left right => do
    let left ← eval env left
    let right ← eval env right
    return left.seq right (.pair left.value right.value)
  | .unpair pair left right body => do
    let pair ← eval env pair
    match pair.value with
    | .pair leftValue rightValue => do
      let body ← eval (bindEnv right rightValue (bindEnv left leftValue env)) body
      return pair.seq body body.value
    | _ => throw .needPair
  | .fst pair => do
    let pair ← eval env pair
    match pair.value with
    | .pair left _ => return pair.next left
    | _ => throw .needPair
  | .snd pair => do
    let pair ← eval env pair
    match pair.value with
    | .pair _ right => return pair.next right
    | _ => throw .needPair
  | .inl value _ => do
    let value ← eval env value
    return value.next (.inl value.value)
  | .inr _ value => do
    let value ← eval env value
    return value.next (.inr value.value)
  | .case value left yes right no => do
    let value ← eval env value
    match value.value with
    | .inl payload => do
      let body ← eval (bindEnv left payload env) yes
      return value.seq body body.value
    | .inr payload => do
      let body ← eval (bindEnv right payload env) no
      return value.seq body body.value
    | _ => throw .needSum
  | .act atom body => do
    let body ← eval env body
    return { body.next body.value with
      trace := ⟨atom, body.value, .direct⟩ :: body.trace }
  | .arith op left right => do
    let left ← eval env left
    let right ← eval env right
    match left.value, right.value with
    | .int leftInt, .int rightInt => do
      let value ← integer op.op op.reject leftInt rightInt
      return left.seq right (.int value)
    | _, _ => throw .needInt
  | .signs op value => do
    let value ← eval env value
    match value.value with
    | .int number => do
      let result ← integer op.op .needInt number number
      return value.next (.int result)
    | _ => throw .needInt
  | .fit target value => do
    let value ← eval env value
    match value.value with
    | .int number =>
      let result :=
        if target.admits number then Value.inl (.int number)
        else .inr (.int number)
      return { value with
        value := result
        steps := value.steps + 1
        work := value.work + 12 }
    | _ => throw .needInt
  | .wide value => do
    let value ← eval env value
    match value.value with
    | .int number => return value.next (.int number)
    | _ => throw .needInt
  | .length value => do
    let value ← eval env value
    match value.value with
    | .pair (.int len) (.vec items) =>
      if 0 ≤ len ∧ len ≤ items.length then return value.next (.int len)
      else throw .needSeq
    | _ => throw .needSeq
  | .eq typ left right => do
    let left ← eval env left
    let right ← eval env right
    equalCharge left.value right.value
    let (same, work) := equalRun typ left.value right.value
    let out := left.seq right (.bool same)
    return { out with work := out.work + work }
  | .cmp rel left right => do
    let left ← eval env left
    let right ← eval env right
    match left.value, right.value with
    | .int leftInt, .int rightInt => do
      charge (intCost .sub leftInt rightInt)
      return left.seq right (.bool (rel.holds leftInt rightInt))
    | _, _ => throw .needInt
  | .cat left right => do
    let left ← eval env left
    let right ← eval env right
    match left.value, right.value with
    | .bytes leftBytes, .bytes rightBytes => do
      let value := leftBytes ++ rightBytes
      let len ← hostLen value.length
      return .copySeq len left right (.bytes value)
    | _, _ => throw .needBytes
  | .take len value => do
    let value ← eval env value
    match value.value with
    | .bytes raw => do
      let total ← hostLen raw.length
      if CNat.le len total then return .copyOne len value (.bytes (raw.take len.toNat))
      else throw (.byteIndex len total)
    | _ => throw .needBytes
  | .drop len value => do
    let value ← eval env value
    match value.value with
    | .bytes raw => do
      let total ← hostLen raw.length
      match CNat.sub total len with
      | some rest => return .copyOne rest value (.bytes ((raw.drop len.toNat).take rest.toNat))
      | none => throw (.byteIndex len total)
    | _ => throw .needBytes
  | .vcat left right => do
    let left ← eval env left
    let right ← eval env right
    match left.value, right.value with
    | .vec leftValues, .vec rightValues => do
      let values := leftValues ++ rightValues
      let len ← hostLen values.length
      return .copySeq len left right (.vec values)
    | _, _ => throw .needVec
  | .at' index value => do
    let value ← eval env value
    match value.value with
    | .vec values => do
      let len ← hostLen values.length
      match values[index.toNat]? with
      | some element =>
        if CNat.lt index len then return value.next element
        else throw (.vecIndex index len)
      | none => throw (.vecIndex index len)
    | _ => throw .needVec
  | .uncons value => do
    let value ← eval env value
    match value.value with
    | .vec (first :: rest) => do
      let len ← hostLen rest.length
      return .copyOne len value (.pair first (.vec rest))
    | .vec [] => do
      let len ← hostLen 0
      throw (.vecIndex 0 len)
    | _ => throw .needVec
  | .vfold vector seed item state body => do
    let vector ← eval env vector
    let seed ← eval env seed
    let turn (element value : Value) : Run Done :=
      eval (bindEnv state value (bindEnv item element env)) body
    match vector.value with
    | .vec values => evalFold turn values (vector.seq seed seed.value)
    | .pair (.int len) (.vec values) =>
      if 0 ≤ len ∧ len ≤ values.length then
        evalFold turn (values.take len.toNat) (vector.seq seed seed.value)
      else throw .needVec
    | _ => throw .needVec
  | .step cap value => do
    let cap ← eval env cap
    let value ← eval env value
    match cap.value with
    | .cap kind id =>
      let out := cap.seq value (.pair (.cap kind id) value.value)
      return { out with
        trace := out.trace ++ [⟨.write kind, value.value, .held kind id⟩] }
    | _ => throw .needCap
  | .close cap => do
    let cap ← eval env cap
    match cap.value with
    | .cap kind id =>
      return { cap.next .unit with
        trace := cap.trace ++ [⟨.close kind, .unit, .held kind id⟩] }
    | _ => throw .needCap

/-- The values of a list of elements, with what it took to find them. -/
def evalVec (env : Env) : List Term → Run (List Value × Done)
  | [] => return ([], done .unit)
  | value :: rest => do
    let value ← eval env value
    let (values, others) ← evalVec env rest
    return (value.value :: values, value.seq others .unit)

end

/-- Capabilities, by kind and identifier. -/
abbrev Caps := List (Int × Int)

def inputNode (bind : Bind) (depth nodes : Nat) : Except RunError Unit :=
  if localLimits.tmDepth < depth then .error (.inputDepth bind.id localLimits.tmDepth depth)
  else if localLimits.tmNodes ≤ nodes then
    .error (.inputNodes bind.id localLimits.tmNodes (nodes + 1))
  else .ok ()

def expect (bind : Bind) (passed : Bool) : Except RunError Unit :=
  if passed then .ok () else .error (.inputType bind.id bind.typ)

/-- Check a value at a depth, with the number of nodes and the capabilities that
were met before it. -/
def inputFrom (bind : Bind) (depth : Nat) (state : Nat × Caps) (typ : Typ)
    (value : Value) : Except RunError (Nat × Caps) := do
  inputNode bind depth state.1
  match typ, value with
  | .unit, .unit => return (state.1 + 1, state.2)
  | .bool, .bool _ => return (state.1 + 1, state.2)
  | .int, .int _ => return (state.1 + 1, state.2)
  | .num sign bits, .int value => do
    expect bind ((Typ.num sign bits).admits value)
    return (state.1 + 1, state.2)
  | .bytes len, .bytes value => do
    expect bind (CNat.ofInt value.length = some len)
    return (state.1 + 1, state.2)
  | .vec len elem, .vec values => do
    expect bind (CNat.ofInt values.length = some len)
    values.foldlM (fun state value =>
      inputFrom bind (depth + 1) state elem value) (state.1 + 1, state.2)
  | .seq cap elem, .pair (.int len) (.vec values) =>
    match zero elem with
    | some empty => do
      expect bind (values.length = cap && 0 ≤ len && len ≤ cap)
      expect bind (padded empty len values)
      values.foldlM (fun state value =>
        inputFrom bind (depth + 1) state elem value) (state.1 + 1, state.2)
    | none => .error (.inputType bind.id bind.typ)
  | .cap kind, .cap actual id => do
    expect bind (kind = actual && CNat.valid id)
    if (kind, id) ∈ state.2 then .error (.capDup kind id)
    else return (state.1 + 1, (kind, id) :: state.2)
  | .enc key rem, .enc actualKey actualRem _ => do
    expect bind (key = actualKey && rem = actualRem)
    return (state.1 + 1, state.2)
  | .pair leftType rightType, .pair left right => do
    let state ← inputFrom bind (depth + 1) (state.1 + 1, state.2) leftType left
    inputFrom bind (depth + 1) state rightType right
  | .sum left _, .inl value => inputFrom bind (depth + 1) (state.1 + 1, state.2) left value
  | .sum _ right, .inr value => inputFrom bind (depth + 1) (state.1 + 1, state.2) right value
  | _, _ => .error (.inputType bind.id bind.typ)

def inputValue (bind : Bind) (caps : Caps) (value : Value) : Except RunError Caps :=
  (inputFrom bind 0 (0, caps) bind.typ value).map Prod.snd

def inputEnv (env : Env) (caps : Caps) (ids : List Int) : List (Bind × Value) → Except RunError Env
  | [] => .ok env
  | (bind, value) :: rest =>
    if bind.id ∈ ids then .error (.input bind.id)
    else do
      let caps ← inputValue bind caps value
      inputEnv (bindEnv bind value env) caps (bind.id :: ids) rest

def inputBinds (inputs : List (Bind × Value)) : Except RunError (List Bind) :=
  if inputs.length ≤ localLimits.inputs then .ok (inputs.map Prod.fst)
  else .error (.static (.inputs localLimits.inputs (localLimits.inputs + 1)))

def runIn (fuel : Int) (inputs : List (Bind × Value)) (term : Term) : Except RunError Out := do
  let binds ← inputBinds inputs
  match checkIn binds term with
  | .error error => .error (.static error)
  | .ok info =>
    let limit := info.res.steps
    if fuel < 0 ∨ fuel < limit then .error (.fuel fuel limit)
    else
      let env ← inputEnv [] [] [] inputs
      let (out, meter) ← (eval env term).run 0
      let plan := out.trace.map Action.atom
      let used := plan.toFinset
      if info.res.steps < out.steps then .error (.cost limit out.steps)
      else if info.res.work < out.work then .error (.work info.res.work out.work)
      else if (Limit.used out.steps out.work).le info.res = false then
        .error (.work info.res.work out.work)
      else if ¬ used ⊆ info.eff then .error (.effects info.eff used)
      else
        return {
          value := out.value
          plan := plan
          actions := out.trace
          steps := out.steps
          work := out.work
          row := info.eff
          limit := limit
          workLimit := info.res.work
          intWork := meter }

end Aml
end LiteNode
