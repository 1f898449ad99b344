import LiteNode.Aml.Check

/-!
# Values of the core language

Whether a value is of a type, the work of comparing two values, and which values
are accepted as inputs.
-/

namespace LiteNode
namespace Aml

inductive Value
  | unit
  | bool (value : Bool)
  | int (value : Int)
  | bytes (value : Bytes)
  | vec (values : List Value)
  | cap (kind id : Int)
  | enc (key rem field : Int)
  | pair (left right : Value)
  | inl (value : Value)
  | inr (value : Value)

namespace Value

mutual

def equal : Value → Value → Bool
  | .unit, .unit => true
  | .bool left, .bool right => left = right
  | .int left, .int right => left = right
  | .bytes left, .bytes right => left = right
  | .vec left, .vec right => equalAll left right
  | .cap leftKind leftId, .cap rightKind rightId => leftKind = rightKind && leftId = rightId
  | .enc leftKey leftRem leftField, .enc rightKey rightRem rightField =>
    leftKey = rightKey && leftRem = rightRem && leftField = rightField
  | .pair leftFirst leftSecond, .pair rightFirst rightSecond =>
    equal leftFirst rightFirst && equal leftSecond rightSecond
  | .inl left, .inl right => equal left right
  | .inr left, .inr right => equal left right
  | _, _ => false

def equalAll : List Value → List Value → Bool
  | [], [] => true
  | left :: lefts, right :: rights => equal left right && equalAll lefts rights
  | _, _ => false

end

mutual

theorem equal_self : ∀ value : Value, equal value value = true
  | .unit | .bool _ | .int _ | .bytes _ | .cap _ _ | .enc _ _ _ => by
    simp [equal]
  | .vec values => by
    rw [equal]
    exact equalAll_self values
  | .pair left right => by
    rw [equal, equal_self left, equal_self right]
    rfl
  | .inl value | .inr value => by
    rw [equal]
    exact equal_self value

theorem equalAll_self : ∀ values : List Value, equalAll values values = true
  | [] => rfl
  | value :: rest => by
    rw [equalAll, equal_self value, equalAll_self rest]
    rfl

end

end Value

/-- The value that fills a sequence behind its elements. -/
def zero : Typ → Option Value
  | .unit => some .unit
  | .bool => some (.bool false)
  | .int | .num _ _ => some (.int 0)
  | .bytes len => some (.bytes (List.replicate len.toNat 0))
  | .vec len elem => (zero elem).map fun value => .vec (List.replicate len.toNat value)
  | .seq cap elem =>
    (zero elem).map fun value => .pair (.int 0) (.vec (List.replicate cap.toNat value))
  | .pair left right => (zero left).bind fun left => (zero right).map fun right => .pair left right
  | .sum left right =>
    match zero left with
    | some value => some (.inl value)
    | none => (zero right).map .inr
  | .cap _ | .enc _ _ => none

/-- Behind its elements, a sequence is filled with one value. -/
def padded (empty : Value) (used : Int) (values : List Value) : Bool :=
  (values.drop used.toNat).all fun value => value.equal empty

def typed : Typ → Value → Bool
  | .unit, .unit => true
  | .bool, .bool _ => true
  | .int, .int _ => true
  | .num sign bits, .int value => (Typ.num sign bits).admits value
  | .bytes len, .bytes value => len = value.length
  | .vec len elem, .vec values => len = values.length && values.all (typed elem)
  | .seq cap elem, .pair (.int len) (.vec values) =>
    if values.length ≠ cap ∨ len < 0 ∨ cap < len then false
    else
      match zero elem with
      | none => false
      | some empty => values.all (typed elem) && padded empty len values
  | .cap kind, .cap actual id => kind = actual && CNat.valid id
  | .enc key rem, .enc actualKey actualRem _ => key = actualKey && rem = actualRem
  | .pair leftType rightType, .pair left right => typed leftType left && typed rightType right
  | .sum left _, .inl value => typed left value
  | .sum _ right, .inr value => typed right value
  | _, _ => false

def valueWork : Typ → Value → Int
  | .bytes _, .bytes value => value.length + 1
  | .vec _ elem, .vec values => values.foldl (fun work value => work + valueWork elem value) 1
  | .seq _ elem, .pair (.int _) (.vec values) =>
    values.foldl (fun work value => work + valueWork elem value) 2
  | .pair leftType rightType, .pair left right =>
    valueWork leftType left + valueWork rightType right + 1
  | .sum left _, .inl value => valueWork left value + 1
  | .sum _ right, .inr value => valueWork right value + 1
  | _, _ => 1

def equalRun (typ : Typ) (left right : Value) : Bool × Int :=
  (left.equal right, max (valueWork typ left) (valueWork typ right))

end Aml
end LiteNode
