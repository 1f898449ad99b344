import LiteNode.Data.Decimal
import LiteNode.Data.Table

/-!
# Values of the virtual machine

The values that registers and cells of memory hold, how each is read as a
number, a truth value or a text, and how the texts of storage are read back at
a declared kind.
-/

namespace LiteNode
namespace Vm

structure Cap where
  scope : Bytes
  kind : Int
  id : Int
  rev : Int
  deriving DecidableEq

/-- Values; ciphers and keys are known by a handle. -/
inductive Value
  | vInt (z : Int)
  | vBool (b : Bool)
  | vString (s : Bytes)
  | vBytes (b : Bytes)
  | vBytes32 (b : Bytes)
  | vU64 (z : Int)
  | vU128 (z : Int)
  | vU256 (z : Int)
  | vAddr (a : Bytes)
  | vCap (cap : Cap)
  | vCipher (cipher : Nat)
  | vPubKey (key : Nat)
  deriving DecidableEq

/-- Number of bits of an integer without its sign. -/
def numbits (z : Int) : Nat := if z = 0 then 0 else z.natAbs.log2 + 1

/-- Bounds of native integers. -/
def maxInt : Int := 4611686018427387903

def minInt : Int := -4611686018427387904

def fitsInt (z : Int) : Bool := minInt ≤ z ∧ z ≤ maxInt

/-- A native integer, where a result that does not fit wraps around. -/
def wrapInt (z : Int) : Int := (z - minInt) % 2 ^ 63 + minInt

def fitsInt64 (z : Int) : Bool := -(2 ^ 63) ≤ z ∧ z < 2 ^ 63

def base58 : Bytes := Bytes.ofAscii "123456789ABCDEFGHJKLMNPQRSTUVWXYZabcdefghijkmnopqrstuvwxyz"

def isValidAddr (s : Bytes) : Bool :=
  s.length = 47 && s.take 3 == Bytes.ofAscii "oct" &&
    (s.drop 3).all fun byte => base58.contains byte

def isReservedKey (key : Bytes) : Bool := key.head? = some 0

namespace Value

section Reading

-- how integers are read from texts
variable (zOfString : Bytes → Option Int)

def toZ : Value → Int
  | vInt z | vU64 z | vU128 z | vU256 z => z
  | vBool b => if b then 1 else 0
  | vString s => (zOfString s).getD 0
  | _ => 0

end Reading

def toBool : Value → Bool
  | vBool b => b
  | vInt z => z ≠ 0
  | vString s => s ≠ []
  | _ => false

def toString : Value → Bytes
  | vString s | vBytes s | vBytes32 s | vAddr s => s
  | vInt z | vU64 z | vU128 z | vU256 z => intToString z
  | vBool b => Bytes.ofAscii (if b then "true" else "false")
  | vCap _ => Bytes.ofAscii "<cap>"
  | vCipher _ => Bytes.ofAscii "<cipher>"
  | vPubKey _ => Bytes.ofAscii "<pubkey>"

def toCipher : Value → Option Nat
  | vCipher cipher => some cipher
  | _ => none

def toPubKey : Value → Option Nat
  | vPubKey key => some key
  | _ => none

def toBytes : Value → Option Bytes
  | vBytes s | vBytes32 s | vString s => some s
  | _ => none

def isCap : Value → Bool
  | vCap _ => true
  | _ => false

def isNumeric : Value → Bool
  | vInt _ | vU64 _ | vU128 _ | vU256 _ => true
  | _ => false

def isText : Value → Bool
  | vString _ | vBytes _ | vBytes32 _ => true
  | _ => false

def isAddress : Value → Bool
  | vString _ | vAddr _ => true
  | _ => false

def isBool : Value → Bool
  | vBool _ => true
  | _ => false

def isScalar (value : Value) : Bool :=
  value.isText || value.isAddress || value.isNumeric || value.isBool

def comparable : Value → Value → Bool
  | vBool _, vBool _ | vString _, vString _ | vBytes _, vBytes _
  | vBytes32 _, vBytes32 _ | vAddr _, vAddr _ | vCipher _, vCipher _
  | vPubKey _, vPubKey _ => true
  | left, right => left.isNumeric && right.isNumeric

section Numbers

variable (zOfString : Bytes → Option Int)

def isDecimal : Value → Bool
  | vString s => (zOfString s).isSome
  | _ => false

def isAddOperand (left right : Value) : Bool :=
  (left.isNumeric && right.isNumeric) ||
    (left.isNumeric && left.toZ zOfString = 0 && right.isDecimal zOfString) ||
    (left.isDecimal zOfString && right.isNumeric && right.toZ zOfString = 0)

end Numbers
end Value

def capNat (value : Int) : Bool := 0 ≤ value ∧ value ≤ 1000000

def capValue (kind : Int) : Value → Bool
  | .vCap cap =>
    cap.scope.length = 32 && capNat kind && capNat cap.kind &&
      capNat cap.id && capNat cap.rev && kind = cap.kind
  | _ => false

inductive StorageKind
  | storageInt | storageBool | storageString | storageBytes | storageBytes32
  | storageU64 | storageU128 | storageU256 | storageAddr
  deriving DecidableEq

def validateBits (bits : Nat) (z : Int) : Bool := 0 ≤ z ∧ z < 2 ^ bits

namespace StorageKind

def default : StorageKind → Value
  | storageInt => .vInt 0
  | storageBool => .vBool false
  | storageString => .vString []
  | storageBytes => .vBytes []
  | storageBytes32 => .vBytes32 (List.replicate 32 0)
  | storageU64 => .vU64 0
  | storageU128 => .vU128 0
  | storageU256 => .vU256 0
  | storageAddr => .vAddr []

section Reading

variable (zOfString : Bytes → Option Int)

def valueMatches : StorageKind → Value → Bool
  | storageInt, value => value.isNumeric
  | storageBool, .vBool _ | storageString, .vString _
  | storageBytes, .vBytes _ | storageBytes32, .vBytes32 _
  | storageAddr, .vAddr _ => true
  | storageU64, value => value.isNumeric && validateBits 64 (value.toZ zOfString)
  | storageU128, value => value.isNumeric && validateBits 128 (value.toZ zOfString)
  | storageU256, value => value.isNumeric && validateBits 256 (value.toZ zOfString)
  | _, _ => false

/-- Read an integer of a number of bits. -/
def decodeBits (bits : Nat) (make : Int → Value) (raw : Bytes) : Option Value :=
  match zOfString raw with
  | some z => if validateBits bits z then some (make z) else none
  | none => none

def decode (kind : StorageKind) (raw : Bytes) : Option Value :=
  match kind with
  | storageInt => (zOfString raw).map .vInt
  | storageBool =>
    if raw = Bytes.ofAscii "true" then some (.vBool true)
    else if raw = Bytes.ofAscii "false" then some (.vBool false)
    else none
  | storageString => some (.vString raw)
  | storageBytes => some (.vBytes raw)
  | storageBytes32 => if raw.length = 32 then some (.vBytes32 raw) else none
  | storageU64 => decodeBits zOfString 64 .vU64 raw
  | storageU128 => decodeBits zOfString 128 .vU128 raw
  | storageU256 => decodeBits zOfString 256 .vU256 raw
  | storageAddr => if isValidAddr raw then some (.vAddr raw) else none

end Reading
end StorageKind
end Vm
end LiteNode
