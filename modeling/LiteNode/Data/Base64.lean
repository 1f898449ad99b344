import LiteNode.Data.Bytes

/-!
# Base64

Three bytes are written as four digits, what is left over with padding.
-/

namespace LiteNode
namespace Base64

def digit (value : Nat) : UInt8 :=
  if value < 26 then UInt8.ofNat (65 + value)
  else if value < 52 then UInt8.ofNat (71 + value)
  else if value < 62 then UInt8.ofNat (value - 4)
  else if value = 62 then 43
  else 47

def valueOf (byte : UInt8) : Option Nat :=
  if 65 ≤ byte ∧ byte ≤ 90 then some (byte.toNat - 65)
  else if 97 ≤ byte ∧ byte ≤ 122 then some (byte.toNat - 71)
  else if 48 ≤ byte ∧ byte ≤ 57 then some (byte.toNat + 4)
  else if byte = 43 then some 62
  else if byte = 47 then some 63
  else none

/-- The digits of a number of 24 bits. -/
def digits (value : Nat) : Bytes :=
  [digit (value / 262144), digit (value / 4096 % 64), digit (value / 64 % 64), digit (value % 64)]

def encode : Bytes → Bytes
  | [] => []
  | [a] => (digits (65536 * a.toNat)).take 2 ++ [61, 61]
  | [a, b] => (digits (65536 * a.toNat + 256 * b.toNat)).take 3 ++ [61]
  | a :: b :: c :: rest => digits (65536 * a.toNat + 256 * b.toNat + c.toNat) ++ encode rest

/-- The bytes of a number of 24 bits. -/
def bytes (value : Nat) : Bytes :=
  [UInt8.ofNat (value / 65536), UInt8.ofNat (value / 256), UInt8.ofNat value]

def decode : Bytes → Option Bytes
  | [] => some []
  | [w, x, 61, 61] => do
    let w ← valueOf w
    let x ← valueOf x
    some ((bytes (262144 * w + 4096 * x)).take 1)
  | [w, x, y, 61] => do
    let w ← valueOf w
    let x ← valueOf x
    let y ← valueOf y
    some ((bytes (262144 * w + 4096 * x + 64 * y)).take 2)
  | w :: x :: y :: z :: rest => do
    let w ← valueOf w
    let x ← valueOf x
    let y ← valueOf y
    let z ← valueOf z
    let rest ← decode rest
    some (bytes (262144 * w + 4096 * x + 64 * y + z) ++ rest)
  | _ => none

theorem valueOf_digit : ∀ value < 64, valueOf (digit value) = some value ∧ digit value ≠ 61 := by
  decide

theorem bytes_of (a b c : UInt8) :
    bytes (65536 * a.toNat + 256 * b.toNat + c.toNat) = [a, b, c] := by
  have boundA := a.toNat_lt
  have boundB := b.toNat_lt
  have boundC := c.toNat_lt
  have same : ∀ (value : Nat) (byte : UInt8), value % 256 = byte.toNat →
      UInt8.ofNat value = byte := by
    intro value byte low
    apply UInt8.toNat_inj.mp
    rw [UInt8.toNat_ofNat']
    exact low
  unfold bytes
  rw [same _ a (by omega), same _ b (by omega), same _ c (by omega)]

theorem decode_encode (raw : Bytes) : decode (encode raw) = some raw := by
  induction raw using encode.induct with
  | case1 => rfl
  | case2 a =>
    have bound := a.toNat_lt
    have whole := bytes_of a 0 0
    generalize number : 65536 * a.toNat + 256 * (0 : UInt8).toNat +
      (0 : UInt8).toNat = value at whole
    have value_eq : 65536 * a.toNat = value := number
    obtain ⟨first, -⟩ := valueOf_digit (value / 262144) (by omega)
    obtain ⟨second, -⟩ := valueOf_digit (value / 4096 % 64) (by omega)
    have sum : 262144 * (value / 262144) + 4096 * (value / 4096 % 64) = value := by omega
    rw [encode, value_eq]
    simp [digits, decode, first, second, sum, whole]
  | case3 a b =>
    have boundA := a.toNat_lt
    have boundB := b.toNat_lt
    have whole := bytes_of a b 0
    generalize number : 65536 * a.toNat + 256 * b.toNat + (0 : UInt8).toNat = value at whole
    have value_eq : 65536 * a.toNat + 256 * b.toNat = value := number
    obtain ⟨first, -⟩ := valueOf_digit (value / 262144) (by omega)
    obtain ⟨second, -⟩ := valueOf_digit (value / 4096 % 64) (by omega)
    obtain ⟨third, different⟩ := valueOf_digit (value / 64 % 64) (by omega)
    have sum : 262144 * (value / 262144) + 4096 * (value / 4096 % 64) +
        64 * (value / 64 % 64) = value := by omega
    rw [encode, value_eq]
    simp [digits, decode, first, second, third, different, sum, whole]
  | case4 a b c rest ih =>
    have boundA := a.toNat_lt
    have boundB := b.toNat_lt
    have boundC := c.toNat_lt
    have whole := bytes_of a b c
    generalize number : 65536 * a.toNat + 256 * b.toNat + c.toNat = value at whole
    obtain ⟨first, -⟩ := valueOf_digit (value / 262144) (by omega)
    obtain ⟨second, -⟩ := valueOf_digit (value / 4096 % 64) (by omega)
    obtain ⟨third, -⟩ := valueOf_digit (value / 64 % 64) (by omega)
    obtain ⟨fourth, different⟩ := valueOf_digit (value % 64) (by omega)
    have sum : 262144 * (value / 262144) + 4096 * (value / 4096 % 64) +
        64 * (value / 64 % 64) + value % 64 = value := by omega
    rw [encode, number]
    simp [digits, decode, first, second, third, fourth, different, sum, whole, ih]

end Base64
end LiteNode
