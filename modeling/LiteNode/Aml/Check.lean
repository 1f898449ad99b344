import LiteNode.Aml.Terms
import LiteNode.Data.Results

/-!
# The checker of the core language

The checker infers the type of a term, the effects it may have, the resources it
may use, and the flow of its actions. It threads the variables in scope, of
which a linear one is used exactly once.
-/

namespace LiteNode
namespace Aml

structure Limit where
  steps : Int
  depth : Int
  work : Int
  deriving DecidableEq

namespace Limit

def zero : Limit := ⟨0, 0, 0⟩

def one : Limit := ⟨1, 0, 1⟩

def make (steps : Int) : Limit := ⟨steps, 0, steps⟩

def effort (work : Int) : Limit := ⟨0, 0, work⟩

def used (steps work : Int) : Limit := ⟨steps, 0, work⟩

def add (left right : Limit) : Limit :=
  ⟨left.steps + right.steps, left.depth + right.depth, left.work + right.work⟩

def succ (value : Limit) : Limit := add one value

def max (left right : Limit) : Limit :=
  ⟨Max.max left.steps right.steps, Max.max left.depth right.depth, Max.max left.work right.work⟩

def scale (count : Int) (value : Limit) : Limit :=
  ⟨count * value.steps, count * value.depth, count * value.work⟩

def le (left right : Limit) : Bool :=
  left.steps ≤ right.steps && left.depth ≤ right.depth && left.work ≤ right.work

end Limit

/-- Where an action comes from, as far as it is known before a run. -/
inductive SiteOrigin
  | direct
  | held (kind : Int)
  deriving DecidableEq

structure Site where
  atom : Atom
  payload : Typ
  origin : SiteOrigin
  deriving DecidableEq

inductive Flow
  | pure
  | action (site : Site)
  | seq (left right : Flow)
  | fork (left right : Flow)
  | loop (len : Int) (body : Flow)
  deriving DecidableEq

structure Info where
  typ : Typ
  eff : Row
  res : Limit
  flow : Flow
  deriving DecidableEq

inductive CheckError
  | unknown (id : Int)
  | used (id : Int)
  | ghost (id : Int)
  | shadow (id : Int)
  | need (expected actual : Typ)
  | bad (typ : Typ)
  | byteIndex (len total : Int)
  | vecIndex (index total : Int)
  | seqSize (actual cap : Int)
  | rangeType (typ : Typ)
  | size
  | mode (id : Int) (mul : Mul)
  | split (ids : List Int)
  | repeat' (ids : List Int)
  | erase (ids : List Int)
  | unused (id : Int)
  | impure (id : Int)
  | access (typ : Typ)
  | dropRes (typ : Typ)
  | depth (limit actual : Nat)
  | nodes (limit actual : Nat)
  | inputs (limit actual : Nat)
  deriving DecidableEq

structure Slot where
  bind : Bind
  live : Bool
  deriving DecidableEq

abbrev Scope := List Slot

def need (expected actual : Typ) : Except CheckError Unit :=
  if expected.valid = false then .error (.bad expected)
  else if actual.valid = false then .error (.bad actual)
  else if expected = actual then .ok ()
  else .error (.need expected actual)

/-- Whether a variable is in scope. -/
def has (id : Int) (env : Scope) : Bool := env.any fun slot => slot.bind.id = id

def use (id : Int) : Scope → Except CheckError (Typ × Scope)
  | [] => .error (.unknown id)
  | slot :: right =>
    if slot.bind.id = id then
      match slot.bind.mul, slot.live with
      | .zero, _ => .error (.ghost id)
      | .one, false => .error (.used id)
      | .one, true => .ok (slot.bind.typ, { slot with live := false } :: right)
      | .many, _ => .ok (slot.bind.typ, slot :: right)
    else do
      let (typ, right) ← use id right
      .ok (typ, slot :: right)

def drop (id : Int) : Scope → Scope
  | [] => []
  | slot :: right => if slot.bind.id = id then right else slot :: drop id right

def find (id : Int) (env : Scope) : Option Slot := env.find? fun slot => slot.bind.id = id

/-- The variables in which two scopes differ. -/
def splitIds (left right : Scope) : List Int :=
  let changed (slot : Slot) : Bool :=
    match find slot.bind.id right with
    | some peer => slot ≠ peer
    | none => true
  let leftIds := (left.filter changed).map fun slot => slot.bind.id
  let rightIds := (right.filter fun slot => !has slot.bind.id left).map fun slot => slot.bind.id
  ((leftIds ++ rightIds).dedup).insertionSort (· ≤ ·)

def openBind (bind : Bind) (env : Scope) : Except CheckError Scope :=
  if CNat.valid bind.id = false then .error .size
  else if bind.typ.valid = false then .error (.bad bind.typ)
  else if bind.typ.kind = .res ∧ bind.mul ≠ .one then .error (.mode bind.id bind.mul)
  else if has bind.id env then .error (.shadow bind.id)
  else
    match bind.mul with
    | .zero => .ok env
    | .one | .many => .ok (⟨bind, true⟩ :: env)

def closeBind (bind : Bind) (env : Scope) : Except CheckError Scope :=
  match bind.mul with
  | .zero => .ok env
  | .one =>
    match find bind.id env with
    | some slot =>
      if slot.live then .error (.unused bind.id)
      else .ok (drop bind.id env)
    | none => .error (.unknown bind.id)
  | .many =>
    match find bind.id env with
    | some _ => .ok (drop bind.id env)
    | none => .error (.unknown bind.id)

/-! ## Inference -/

def item (typ : Typ) (res : Limit) : Info := ⟨typ, ∅, res, .pure⟩

def leaf (typ : Typ) : Info := item typ .one

def flowSeq : Flow → Flow → Flow
  | .pure, flow | flow, .pure => flow
  | left, right => .seq left right

def flowFork : Flow → Flow → Flow
  | .pure, .pure => .pure
  | left, right => .fork left right

def flowLoop (len : Int) : Flow → Flow
  | .pure => .pure
  | flow => .loop len flow

def seq (typ : Typ) (left right : Info) : Info where
  typ := typ
  eff := left.eff ∪ right.eff
  res := (left.res.add right.res).succ
  flow := flowSeq left.flow right.flow

def join (typ : Typ) (guard yes no : Info) : Info where
  typ := typ
  eff := guard.eff ∪ (yes.eff ∪ no.eff)
  res := (guard.res.add (yes.res.max no.res)).succ
  flow := flowSeq guard.flow (flowFork yes.flow no.flow)

def copySeq (typ : Typ) (len : Int) (left right : Info) : Info where
  typ := typ
  eff := left.eff ∪ right.eff
  res := (Limit.make len).add (left.res.add right.res).succ
  flow := flowSeq left.flow right.flow

def copyOne (typ : Typ) (len : Int) (value : Info) : Info where
  typ := typ
  eff := value.eff
  res := (Limit.make len).add value.res.succ
  flow := value.flow

def foldInfo (len : Int) (vector seed body : Info) : Info where
  typ := seed.typ
  eff := vector.eff ∪ (seed.eff ∪ body.eff)
  res := (vector.res.add (seed.res.add (body.res.succ.scale len))).succ
  flow := flowSeq vector.flow (flowSeq seed.flow (flowLoop len body.flow))

/-- One more step on the way to a value of a type. -/
def Info.next (info : Info) (typ : Typ) : Info := { info with typ, res := info.res.succ }

def check (passed : Bool) (error : CheckError) : Except CheckError Unit :=
  if passed then .ok () else .error error

def sizeOf (len : Option Int) (error : CheckError) : Except CheckError Int :=
  match len with
  | some len => .ok len
  | none => .error error

abbrev Inferred := Except CheckError (Info × Scope)

/-- The effects, resources and flow of a list of elements. -/
abbrev InferredVec := Except CheckError ((Row × Limit × Flow) × Scope)

mutual

def infer (env : Scope) : Term → Inferred
  | .unit => .ok (leaf .unit, env)
  | .bool _ => .ok (leaf .bool, env)
  | .int _ => .ok (leaf .int, env)
  | .narrow typ value =>
    match typ with
    | .num _ _ =>
      if typ.valid && typ.admits value then .ok (leaf typ, env)
      else .error (.rangeType typ)
    | _ => .error (.rangeType typ)
  | .bytes value => do
    let len ← sizeOf (CNat.ofInt value.length) .size
    return (item (.bytes len) (Limit.make len).succ, env)
  | .vec elem values => do
    check elem.valid (.bad elem)
    let len ← sizeOf (CNat.ofInt values.length) .size
    let ((eff, res, flow), env) ← inferVec elem env values
    return (⟨.vec len elem, eff, res, flow⟩, env)
  | .seq cap elem values => do
    check (Typ.seq cap elem).valid (.bad (.seq cap elem))
    let len ← sizeOf (CNat.ofInt values.length) .size
    check (CNat.le len cap) (.seqSize len cap)
    let ((eff, res, flow), env) ← inferVec elem env values
    let pad ← sizeOf (CNat.sub cap len) (.seqSize len cap)
    return (⟨.seq cap elem, eff, res.add (Limit.make (pad + 1)), flow⟩, env)
  | .var id => do
    check (CNat.valid id) .size
    let (typ, env) ← use id env
    return (leaf typ, env)
  | .let' bind value body => do
    check bind.typ.valid (.bad bind.typ)
    let (valueInfo, valueEnv) ← infer env value
    need bind.typ valueInfo.typ
    match bind.mul with
    | .zero =>
      check (valueInfo.eff = ∅) (.impure bind.id)
      check (env = valueEnv) (.erase (splitIds env valueEnv))
      let bodyEnv ← openBind bind env
      let (bodyInfo, nextEnv) ← infer bodyEnv body
      let nextEnv ← closeBind bind nextEnv
      return ({ bodyInfo with
        flow := flowSeq valueInfo.flow bodyInfo.flow
        res := bodyInfo.res.succ }, nextEnv)
    | .one | .many =>
      let bodyEnv ← openBind bind valueEnv
      let (bodyInfo, nextEnv) ← infer bodyEnv body
      let nextEnv ← closeBind bind nextEnv
      return (seq bodyInfo.typ valueInfo bodyInfo, nextEnv)
  | .if' guard yes no => do
    let (guardInfo, guardEnv) ← infer env guard
    need .bool guardInfo.typ
    let (yesInfo, yesEnv) ← infer guardEnv yes
    let (noInfo, noEnv) ← infer guardEnv no
    need yesInfo.typ noInfo.typ
    check (yesEnv = noEnv) (.split (splitIds yesEnv noEnv))
    return (join yesInfo.typ guardInfo yesInfo noInfo, yesEnv)
  | .pair left right => do
    let (leftInfo, leftEnv) ← infer env left
    let (rightInfo, rightEnv) ← infer leftEnv right
    return (seq (.pair leftInfo.typ rightInfo.typ) leftInfo rightInfo, rightEnv)
  | .unpair pair left right body => do
    let (pairInfo, pairEnv) ← infer env pair
    match pairInfo.typ with
    | .pair leftType rightType =>
      need leftType left.typ
      need rightType right.typ
      let bodyEnv ← openBind left pairEnv
      let bodyEnv ← openBind right bodyEnv
      let (bodyInfo, nextEnv) ← infer bodyEnv body
      let nextEnv ← closeBind right nextEnv
      let nextEnv ← closeBind left nextEnv
      return (seq bodyInfo.typ pairInfo bodyInfo, nextEnv)
    | actual => .error (.need (.pair .unit .unit) actual)
  | .fst pair => do
    let (pairInfo, nextEnv) ← infer env pair
    match pairInfo.typ with
    | .pair left right =>
      if right.kind = .res then .error (.dropRes right)
      else return (pairInfo.next left, nextEnv)
    | actual => .error (.need (.pair .unit .unit) actual)
  | .snd pair => do
    let (pairInfo, nextEnv) ← infer env pair
    match pairInfo.typ with
    | .pair left right =>
      if left.kind = .res then .error (.dropRes left)
      else return (pairInfo.next right, nextEnv)
    | actual => .error (.need (.pair .unit .unit) actual)
  | .inl value right => do
    check right.valid (.bad right)
    let (valueInfo, nextEnv) ← infer env value
    return (valueInfo.next (.sum valueInfo.typ right), nextEnv)
  | .inr left value => do
    check left.valid (.bad left)
    let (valueInfo, nextEnv) ← infer env value
    return (valueInfo.next (.sum left valueInfo.typ), nextEnv)
  | .case value left yes right no => do
    let (valueInfo, valueEnv) ← infer env value
    match valueInfo.typ with
    | .sum leftType rightType =>
      need leftType left.typ
      need rightType right.typ
      let yesEnv ← openBind left valueEnv
      let (yesInfo, yesEnv) ← infer yesEnv yes
      let yesEnv ← closeBind left yesEnv
      let noEnv ← openBind right valueEnv
      let (noInfo, noEnv) ← infer noEnv no
      let noEnv ← closeBind right noEnv
      need yesInfo.typ noInfo.typ
      check (yesEnv = noEnv) (.split (splitIds yesEnv noEnv))
      return (join yesInfo.typ valueInfo yesInfo noInfo, yesEnv)
    | actual => .error (.need (.sum .unit .unit) actual)
  | .act atom body => do
    check atom.valid .size
    let (bodyInfo, nextEnv) ← infer env body
    let site : Site := ⟨atom, bodyInfo.typ, .direct⟩
    return ({ bodyInfo with
      eff := insert atom bodyInfo.eff
      res := bodyInfo.res.succ
      flow := flowSeq (.action site) bodyInfo.flow }, nextEnv)
  | .arith _ left right => do
    let (leftInfo, leftEnv) ← infer env left
    need .int leftInfo.typ
    let (rightInfo, rightEnv) ← infer leftEnv right
    need .int rightInfo.typ
    return (seq .int leftInfo rightInfo, rightEnv)
  | .signs _ value => do
    let (info, nextEnv) ← infer env value
    need .int info.typ
    return ({ info with res := info.res.succ }, nextEnv)
  | .fit target value => do
    match target with
    | .num _ _ => check target.valid (.rangeType target)
    | _ => .error (.rangeType target)
    let (info, nextEnv) ← infer env value
    need .int info.typ
    return ({ info with
      typ := .sum target .int
      res := info.res.add (Limit.used 1 12) }, nextEnv)
  | .wide value => do
    let (info, nextEnv) ← infer env value
    match info.typ with
    | .num _ _ => return (info.next .int, nextEnv)
    | typ => .error (.rangeType typ)
  | .length value => do
    let (info, nextEnv) ← infer env value
    match info.typ with
    | .seq _ _ => return (info.next .int, nextEnv)
    | typ => .error (.need (.seq 0 .unit) typ)
  | .eq typ left right => do
    let (leftInfo, leftEnv) ← infer env left
    let (rightInfo, rightEnv) ← infer leftEnv right
    need typ leftInfo.typ
    need typ rightInfo.typ
    check typ.equatable (.access typ)
    let info := seq .bool leftInfo rightInfo
    return ({ info with res := info.res.add (Limit.effort typ.eqWork) }, rightEnv)
  | .cmp _ left right => do
    let (leftInfo, leftEnv) ← infer env left
    need .int leftInfo.typ
    let (rightInfo, rightEnv) ← infer leftEnv right
    need .int rightInfo.typ
    return (seq .bool leftInfo rightInfo, rightEnv)
  | .cat left right => do
    let (leftInfo, leftEnv) ← infer env left
    let (rightInfo, rightEnv) ← infer leftEnv right
    match leftInfo.typ, rightInfo.typ with
    | .bytes leftLen, .bytes rightLen =>
      let len ← sizeOf (Typ.addLen leftLen rightLen) .size
      return (copySeq (.bytes len) len leftInfo rightInfo, rightEnv)
    | .bytes _, actual => .error (.need (.bytes 0) actual)
    | actual, _ => .error (.need (.bytes 0) actual)
  | .take len value => do
    let (valueInfo, nextEnv) ← infer env value
    match valueInfo.typ with
    | .bytes total =>
      check (CNat.le len total) (.byteIndex len total)
      return (copyOne (.bytes len) len valueInfo, nextEnv)
    | actual => .error (.need (.bytes 0) actual)
  | .drop len value => do
    let (valueInfo, nextEnv) ← infer env value
    match valueInfo.typ with
    | .bytes total =>
      let rest ← sizeOf (CNat.sub total len) (.byteIndex len total)
      return (copyOne (.bytes rest) rest valueInfo, nextEnv)
    | actual => .error (.need (.bytes 0) actual)
  | .vcat left right => do
    let (leftInfo, leftEnv) ← infer env left
    let (rightInfo, rightEnv) ← infer leftEnv right
    match leftInfo.typ, rightInfo.typ with
    | .vec leftLen leftElem, .vec rightLen rightElem =>
      need leftElem rightElem
      let len ← sizeOf (Typ.addLen leftLen rightLen) .size
      return (copySeq (.vec len leftElem) len leftInfo rightInfo, rightEnv)
    | .vec _ _, actual => .error (.need (.vec 0 .unit) actual)
    | actual, _ => .error (.need (.vec 0 .unit) actual)
  | .at' index value => do
    let (valueInfo, nextEnv) ← infer env value
    match valueInfo.typ with
    | .vec len elem =>
      if CNat.lt index len = false then .error (.vecIndex index len)
      else if elem.kind = .res then .error (.access elem)
      else return (valueInfo.next elem, nextEnv)
    | actual => .error (.need (.vec 0 .unit) actual)
  | .uncons value => do
    let (valueInfo, nextEnv) ← infer env value
    match valueInfo.typ with
    | .vec len elem =>
      let rest ← sizeOf (CNat.sub len 1) (.vecIndex 0 0)
      return (copyOne (.pair elem (.vec rest elem)) rest valueInfo, nextEnv)
    | actual => .error (.need (.vec 0 .unit) actual)
  | .vfold vector seed item state body => do
    let (vectorInfo, vectorEnv) ← infer env vector
    match vectorInfo.typ with
    | .vec len elem | .seq len elem =>
      need elem item.typ
      let (seedInfo, seedEnv) ← infer vectorEnv seed
      need seedInfo.typ state.typ
      let bodyEnv ← openBind item seedEnv
      let bodyEnv ← openBind state bodyEnv
      let (bodyInfo, bodyEnv) ← infer bodyEnv body
      need seedInfo.typ bodyInfo.typ
      let bodyEnv ← closeBind state bodyEnv
      let bodyEnv ← closeBind item bodyEnv
      check (seedEnv = bodyEnv) (.repeat' (splitIds seedEnv bodyEnv))
      return (foldInfo len vectorInfo seedInfo bodyInfo, seedEnv)
    | actual => .error (.need (.vec 0 .unit) actual)
  | .step cap value => do
    let (capInfo, capEnv) ← infer env cap
    let (valueInfo, nextEnv) ← infer capEnv value
    match capInfo.typ with
    | .cap kind =>
      let info := seq (.pair (.cap kind) valueInfo.typ) capInfo valueInfo
      let site : Site := ⟨.write kind, valueInfo.typ, .held kind⟩
      return ({ info with
        eff := insert (.write kind) info.eff
        flow := flowSeq info.flow (.action site) }, nextEnv)
    | actual => .error (.need (.cap 0) actual)
  | .close cap => do
    let (capInfo, nextEnv) ← infer env cap
    match capInfo.typ with
    | .cap kind =>
      let site : Site := ⟨.close kind, .unit, .held kind⟩
      return ({
        typ := .unit
        eff := insert (.close kind) capInfo.eff
        res := capInfo.res.succ
        flow := flowSeq capInfo.flow (.action site) }, nextEnv)
    | actual => .error (.need (.cap 0) actual)

def inferVec (elem : Typ) (env : Scope) : List Term → InferredVec
  | [] => .ok ((∅, .one, .pure), env)
  | value :: rest => do
    let (valueInfo, nextEnv) ← infer env value
    need elem valueInfo.typ
    let ((eff, res, flow), nextEnv) ← inferVec elem nextEnv rest
    return ((valueInfo.eff ∪ eff, (valueInfo.res.add res).succ,
      flowSeq valueInfo.flow flow), nextEnv)

end

mutual

/-- Count the nodes of a term, as deep as the depth tells. -/
def shapeFrom (depth nodes : Nat) (term : Term) : Except CheckError Nat :=
  if localLimits.tmDepth < depth then .error (.depth localLimits.tmDepth depth)
  else if localLimits.tmNodes ≤ nodes then .error (.nodes localLimits.tmNodes (nodes + 1))
  else
    match term with
    | .unit | .bool _ | .int _ | .narrow _ _ | .bytes _ | .var _ => .ok (nodes + 1)
    | .vec _ values | .seq _ _ values => shapeAll (depth + 1) (nodes + 1) values
    | .let' _ value body | .pair value body | .arith _ value body
    | .eq _ value body | .cmp _ value body | .cat value body
    | .vcat value body | .step value body | .unpair value _ _ body => do
      let nodes ← shapeFrom (depth + 1) (nodes + 1) value
      shapeFrom (depth + 1) nodes body
    | .if' first second third | .case first _ second _ third
    | .vfold first second _ _ third => do
      let nodes ← shapeFrom (depth + 1) (nodes + 1) first
      let nodes ← shapeFrom (depth + 1) nodes second
      shapeFrom (depth + 1) nodes third
    | .fst value | .snd value | .inl value _ | .inr _ value | .act _ value
    | .signs _ value | .fit _ value | .wide value | .length value
    | .take _ value | .drop _ value | .at' _ value | .uncons value
    | .close value => shapeFrom (depth + 1) (nodes + 1) value

/-- The last of the elements is counted first. -/
def shapeAll (depth nodes : Nat) : List Term → Except CheckError Nat
  | [] => .ok nodes
  | value :: rest => do
    let nodes ← shapeAll depth nodes rest
    shapeFrom depth nodes value

end

def shape (term : Term) : Except CheckError Unit := do
  let _ ← shapeFrom 0 0 term
  return ()

def openAll : Scope → List Bind → Except CheckError Scope
  | env, [] => .ok env
  | env, bind :: rest => do
    let env ← openBind bind env
    openAll env rest

/-- A linear variable that was not used. -/
def pending (env : Scope) : Option Int :=
  (env.find? fun slot => slot.bind.mul = .one && slot.live).map fun slot => slot.bind.id

def inputLimit (binds : List Bind) : Except CheckError Unit :=
  check (binds.length ≤ localLimits.inputs) (.inputs localLimits.inputs (localLimits.inputs + 1))

def checkIn (binds : List Bind) (term : Term) : Except CheckError Info := do
  inputLimit binds
  shape term
  let env ← openAll [] binds
  let (info, env) ← infer env term
  match pending env with
  | none => return info
  | some id => .error (.unused id)

end Aml
end LiteNode
