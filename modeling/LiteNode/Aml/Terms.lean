import LiteNode.Data.Bytes
import Mathlib.Data.Finset.Union

/-!
# Terms of the core language

Sizes and identifiers are bounded natural numbers. A type says how large its
values are, whether they can be compared, and whether they hold capabilities.

Terms bind variables by number, each with a multiplicity and a type, and name
the effects they have on the world.
-/

namespace LiteNode
namespace Aml

structure Limits where
  nat : Int
  tyDepth : Nat
  tyNodes : Nat
  tmDepth : Nat
  tmNodes : Nat
  inputs : Nat
  fuel : Int

def localLimits : Limits where
  nat := 1000000
  tyDepth := 256
  tyNodes := 4096
  tmDepth := 4096
  tmNodes := 100000
  inputs := 4096
  fuel := 1000000

/-! Natural numbers up to the limit are native integers that are checked. -/

namespace CNat

def max : Int := localLimits.nat

def valid (value : Int) : Bool := 0 ≤ value && value ≤ max

def ofInt (value : Int) : Option Int := if valid value then some value else none

def make (value : Int) : Option Int := if value < 0 ∨ max < value then none else some value

def lt (left right : Int) : Bool := valid left && valid right && left < right

def le (left right : Int) : Bool := valid left && valid right && left ≤ right

def add (left right : Int) : Option Int :=
  if valid left && valid right then make (left + right) else none

def sub (left right : Int) : Option Int :=
  if valid left && valid right && right ≤ left then make (left - right)
  else none

variable {value size left right : Int}

theorem valid_iff : valid value = true ↔ 0 ≤ value ∧ value ≤ max := by simp [valid]

theorem ofInt_eq_some (made : ofInt value = some size) : size = value ∧ valid size = true := by
  unfold ofInt at made
  split at made
  · next inside =>
    cases made
    exact ⟨rfl, inside⟩
  · cases made

theorem make_eq_some (made : make value = some size) : size = value ∧ valid size = true := by
  unfold make at made
  split at made
  · cases made
  · next inside =>
    cases made
    refine ⟨rfl, valid_iff.mpr ?_⟩
    omega

theorem add_eq_some (made : add left right = some size) :
    size = left + right ∧ valid size = true := by
  unfold add at made
  split at made
  · exact make_eq_some made
  · cases made

theorem sub_eq_some (made : sub left right = some size) :
    size = left - right ∧ valid size = true ∧ valid right = true := by
  unfold sub at made
  split at made
  · next inside =>
    obtain ⟨equal, small⟩ := make_eq_some made
    simp only [Bool.and_eq_true] at inside
    exact ⟨equal, small, inside.1.2⟩
  · cases made

theorem valid_of_sub (made : sub left right = some size) : valid left = true := by
  unfold sub at made
  split at made
  · next inside =>
    simp only [Bool.and_eq_true] at inside
    exact inside.1.1
  · cases made

theorem lt_iff : lt left right = true ↔ valid left = true ∧ valid right = true ∧ left < right := by
  simp [lt, and_assoc]

theorem le_iff : le left right = true ↔ valid left = true ∧ valid right = true ∧ left ≤ right := by
  simp [le, and_assoc]

end CNat

inductive Mul
  | zero
  | one
  | many
  deriving DecidableEq

inductive Kind
  | data
  | res
  deriving DecidableEq

inductive Sign
  | signed
  | unsigned
  deriving DecidableEq

inductive Typ
  | unit
  | bool
  | int
  | num (sign : Sign) (bits : Int)
  | bytes (len : Int)
  | vec (len : Int) (elem : Typ)
  | seq (size : Int) (elem : Typ)
  | cap (id : Int)
  | enc (key rem : Int)
  | pair (left right : Typ)
  | sum (left right : Typ)
  deriving DecidableEq

namespace Typ

def maxBits : Int := 256

/-- The work of comparing two values. -/
def eqWork : Typ → Int
  | .unit | .bool | .int | .num _ _ | .cap _ | .enc _ _ => 1
  | .bytes len => len + 1
  | .vec len elem => len * elem.eqWork + 1
  | .seq size elem => size * elem.eqWork + 1
  | .pair left right => left.eqWork + right.eqWork + 1
  | .sum left right => max left.eqWork right.eqWork + 1

/-- The sizes at the head of a type. -/
def sizesValid : Typ → Bool
  | .num _ bits => 0 < bits && bits ≤ maxBits
  | .bytes len | .cap len => CNat.valid len
  | .enc key rem => CNat.valid key && CNat.valid rem
  | .vec len _ => CNat.valid len
  | .seq size _ => CNat.valid size
  | .unit | .bool | .int | .pair _ _ | .sum _ _ => true

/-- Count the nodes of a type, as deep as the depth tells. -/
def nodesFrom (depth nodes : Nat) (typ : Typ) : Option Nat :=
  if localLimits.tyDepth < depth ∨ localLimits.tyNodes ≤ nodes then none
  else if typ.sizesValid = false then none
  else
    match typ with
    | .vec _ elem | .seq _ elem => nodesFrom (depth + 1) (nodes + 1) elem
    | .pair left right | .sum left right => do
      let nodes ← nodesFrom (depth + 1) (nodes + 1) left
      nodesFrom (depth + 1) nodes right
    | _ => some (nodes + 1)

def nodes (typ : Typ) : Option Nat := nodesFrom 0 0 typ

/-- Types of values without capabilities and ciphers. -/
def plain : Typ → Bool
  | .unit | .bool | .int | .num _ _ | .bytes _ => true
  | .vec _ elem | .seq _ elem => elem.plain
  | .pair left right | .sum left right => left.plain && right.plain
  | .cap _ | .enc _ _ => false

/-- Every sequence in a type is of plain elements. -/
def seqsPlain : Typ → Bool
  | .seq _ elem => elem.plain && elem.seqsPlain
  | .vec _ elem => elem.seqsPlain
  | .pair left right | .sum left right => left.seqsPlain && right.seqsPlain
  | _ => true

def valid (typ : Typ) : Bool := typ.nodes.isSome && typ.seqsPlain

def addLen (left right : Int) : Option Int := CNat.add left right

/-- Whether values hold capabilities. -/
def kind : Typ → Kind
  | .unit | .bool | .int | .num _ _ | .bytes _ | .enc _ _ => .data
  | .cap _ => .res
  | .vec len elem => if len = 0 then .data else elem.kind
  | .seq _ elem => elem.kind
  | .pair left right | .sum left right => if left.kind = .res then .res else right.kind

def equatable : Typ → Bool
  | .unit | .bool | .int | .num _ _ | .bytes _ => true
  | .vec len elem => if len = 0 then true else elem.equatable
  | .seq _ elem => elem.equatable
  | .pair left right | .sum left right => left.equatable && right.equatable
  | .cap _ | .enc _ _ => false

def range (sign : Sign) (bits : Int) : Option (Int × Int) :=
  if bits < 1 ∨ maxBits < bits then none
  else
    match sign with
    | .unsigned => some (0, 2 ^ bits.toNat - 1)
    | .signed => some (-(2 ^ (bits - 1).toNat), 2 ^ (bits - 1).toNat - 1)

/-- Whether a number is a value of a type of numbers. -/
def admits (typ : Typ) (value : Int) : Bool :=
  match typ with
  | .int => true
  | .num sign bits =>
    match range sign bits with
    | some (low, high) => low ≤ value && value ≤ high
    | none => false
  | _ => false

/-- The sizes of a type are in range and its sequences are plain. Unlike a valid
type, it may be of any size itself. -/
def Formed : Typ → Prop
  | .vec len elem => CNat.valid len = true ∧ elem.Formed
  | .seq size elem => CNat.valid size = true ∧ elem.plain = true ∧ elem.Formed
  | .pair left right | .sum left right => left.Formed ∧ right.Formed
  | .num _ bits => 0 < bits ∧ bits ≤ maxBits
  | .bytes len | .cap len => CNat.valid len = true
  | .enc key rem => CNat.valid key = true ∧ CNat.valid rem = true
  | .unit | .bool | .int => True

variable {typ : Typ}

theorem sizesValid_of_nodesFrom {depth nodes total : Nat}
    (counted : nodesFrom depth nodes typ = some total) : typ.sizesValid = true := by
  unfold nodesFrom at counted
  split at counted
  · cases counted
  split at counted
  · cases counted
  next sizes => exact (Bool.not_eq_false _).mp sizes

theorem formed_of_nodesFrom {depth nodes total : Nat}
    (counted : nodesFrom depth nodes typ = some total)
    (plain : typ.seqsPlain = true) : typ.Formed := by
  have sizes := sizesValid_of_nodesFrom counted
  induction typ generalizing depth nodes total with
  | vec len elem ih =>
    unfold nodesFrom at counted
    split at counted
    · cases counted
    split at counted
    · cases counted
    exact ⟨sizes, ih counted plain (sizesValid_of_nodesFrom counted)⟩
  | seq size elem ih =>
    unfold nodesFrom at counted
    split at counted
    · cases counted
    split at counted
    · cases counted
    obtain ⟨elements, inner⟩ := Bool.and_eq_true_iff.mp plain
    exact ⟨sizes, elements, ih counted inner (sizesValid_of_nodesFrom counted)⟩
  | pair left right left_ih right_ih
  | sum left right left_ih right_ih =>
    unfold nodesFrom at counted
    split at counted
    · cases counted
    split at counted
    · cases counted
    obtain ⟨between, first, second⟩ := Option.bind_eq_some_iff.mp counted
    obtain ⟨leftPlain, rightPlain⟩ := Bool.and_eq_true_iff.mp plain
    exact ⟨left_ih first leftPlain (sizesValid_of_nodesFrom first),
      right_ih second rightPlain (sizesValid_of_nodesFrom second)⟩
  | unit | bool | int => trivial
  | num | bytes | cap | enc => simpa [sizesValid, Formed] using sizes

theorem formed_of_valid (valid : typ.valid = true) : typ.Formed := by
  obtain ⟨counted, plain⟩ := Bool.and_eq_true_iff.mp valid
  obtain ⟨total, counted⟩ := Option.isSome_iff_exists.mp counted
  exact formed_of_nodesFrom counted plain

end Typ

inductive Atom
  | read (id : Int)
  | write (id : Int)
  | emit (id : Int)
  | fail (id : Int)
  | close (id : Int)
  deriving DecidableEq

def Atom.valid : Atom → Bool
  | .read id | .write id | .emit id | .fail id | .close id => CNat.valid id

/-- The effects a term may have. -/
abbrev Row := Finset Atom

structure Bind where
  id : Int
  mul : Mul
  typ : Typ
  deriving DecidableEq

inductive Rel
  | lt
  | le
  | gt
  | ge
  deriving DecidableEq

/-- Operations on two integers. -/
inductive Arith
  | add
  | sub
  | mul
  | div
  | mod
  deriving DecidableEq

/-- Operations on one integer. -/
inductive Signs
  | neg
  | abs
  deriving DecidableEq

inductive Term
  | unit
  | bool (value : Bool)
  | int (value : Int)
  | narrow (typ : Typ) (value : Int)
  | bytes (value : Bytes)
  | vec (elem : Typ) (values : List Term)
  | seq (cap : Int) (elem : Typ) (values : List Term)
  | var (id : Int)
  | let' (bind : Bind) (value body : Term)
  | if' (guard yes no : Term)
  | pair (left right : Term)
  | unpair (pair : Term) (left right : Bind) (body : Term)
  | fst (pair : Term)
  | snd (pair : Term)
  | inl (value : Term) (right : Typ)
  | inr (left : Typ) (value : Term)
  | case (value : Term) (left : Bind) (yes : Term) (right : Bind) (no : Term)
  | act (atom : Atom) (body : Term)
  | arith (op : Arith) (left right : Term)
  | signs (op : Signs) (value : Term)
  | fit (target : Typ) (value : Term)
  | wide (value : Term)
  | length (value : Term)
  | eq (typ : Typ) (left right : Term)
  | cmp (rel : Rel) (left right : Term)
  | cat (left right : Term)
  | take (len : Int) (value : Term)
  | drop (len : Int) (value : Term)
  | vcat (left right : Term)
  | at' (index : Int) (value : Term)
  | uncons (value : Term)
  /-- A fold with the binders of an item and of the state, and the body. -/
  | vfold (vector seed : Term) (item state : Bind) (body : Term)
  | step (cap value : Term)
  | close (cap : Term)

namespace Term

@[match_pattern] abbrev add : Term → Term → Term := .arith .add

@[match_pattern] abbrev sub : Term → Term → Term := .arith .sub

@[match_pattern] abbrev mul : Term → Term → Term := .arith .mul

@[match_pattern] abbrev div : Term → Term → Term := .arith .div

@[match_pattern] abbrev mod : Term → Term → Term := .arith .mod

@[match_pattern] abbrev neg : Term → Term := .signs .neg

@[match_pattern] abbrev abs : Term → Term := .signs .abs

end Term
end Aml
end LiteNode
