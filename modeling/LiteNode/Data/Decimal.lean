import LiteNode.Data.Bytes
import Mathlib.Data.Nat.Digits.Defs

/-!
# Integers as texts

Integers are printed in decimal, and read in decimal or in a base that a prefix
names, with underscores between digits, as the integers of a given width. What
is printed reads as itself.
-/

namespace LiteNode

def decimal (n : Nat) : Bytes := (Nat.toDigits 10 n).map fun digit => UInt8.ofNat digit.toNat

def intToString (n : Int) : Bytes := if n < 0 then 45 :: decimal n.natAbs else decimal n.natAbs

def parseDigit (byte : UInt8) : Option Nat :=
  if 48 ≤ byte ∧ byte ≤ 57 then some (byte.toNat - 48)
  else if 65 ≤ byte ∧ byte ≤ 70 then some (byte.toNat - 55)
  else if 97 ≤ byte ∧ byte ≤ 102 then some (byte.toNat - 87)
  else none

/-- Append one digit to a number, or skip an underscore. -/
def digitStep (base value : Nat) (byte : UInt8) : Option Nat :=
  if byte = 95 then some value
  else
    match parseDigit byte with
    | some digit => if digit < base then some (base * value + digit) else none
    | none => none

/-- Whether a text is negative, and the rest of it. -/
def parseSign : Bytes → Bool × Bytes
  | 45 :: rest => (true, rest)
  | 43 :: rest => (false, rest)
  | text => (false, text)

/-- Base of the digits, whether they are read as a signed number, and the
digits. -/
def parseBase (text : Bytes) : Nat × Bool × Bytes :=
  match text with
  | 48 :: mark :: rest =>
    if mark = 120 ∨ mark = 88 then (16, false, rest)
    else if mark = 111 ∨ mark = 79 then (8, false, rest)
    else if mark = 98 ∨ mark = 66 then (2, false, rest)
    else if mark = 117 ∨ mark = 85 then (10, false, rest)
    else (10, true, text)
  | _ => (10, true, text)

def parseMagnitude (base : Nat) (digits : Bytes) : Option Nat :=
  match digits with
  | [] => none
  | first :: _ => if first = 95 then none else digits.foldlM (digitStep base) 0

/-- Read an integer of some number of bits. -/
def intOfString (bits : Nat) (text : Bytes) : Option Int :=
  let (negative, unsignedText) := parseSign text
  let (base, signed, digits) := parseBase unsignedText
  match parseMagnitude base digits with
  | none => none
  | some magnitude =>
    let inRange :=
      if signed then
        if negative then magnitude ≤ 2 ^ (bits - 1)
        else magnitude < 2 ^ (bits - 1)
      else magnitude < 2 ^ bits
    if inRange then
      some ((if negative then -(magnitude : Int) else magnitude).bmod (2 ^ bits))
    else none

/-- Width of an integer, and of a native one. -/
def int64Bits : Nat := 64

def intBits : Nat := 63

/-- The integers of some number of bits. -/
def FitsBits (bits : Nat) (n : Int) : Prop := -(2 ^ (bits - 1)) ≤ n ∧ n < 2 ^ (bits - 1)

theorem decimal_eq (n : Nat) :
    decimal n = if n < 10 then [UInt8.ofNat (48 + n)]
      else decimal (n / 10) ++ [UInt8.ofNat (48 + n % 10)] := by
  have digit : ∀ d < 10, (Nat.digitChar d).toNat = 48 + d := by decide
  unfold decimal
  rw [Nat.toDigits_eq_if (by decide)]
  split
  · next small => simp [digit n small]
  · simp [digit (n % 10) (Nat.mod_lt n (by decide))]

theorem digit_of_mem_decimal (n : Nat) : ∀ byte ∈ decimal n, 48 ≤ byte ∧ byte ≤ 57 := by
  have digit : ∀ d < 10, 48 ≤ UInt8.ofNat (48 + d) ∧ UInt8.ofNat (48 + d) ≤ 57 := by decide
  induction n using Nat.strong_induction_on with
  | _ n ih =>
    rw [decimal_eq]
    intro byte present
    split at present
    · next small =>
      rw [List.mem_singleton] at present
      rw [present]
      exact digit n small
    · next large =>
      rcases List.mem_append.mp present with former | last
      · exact ih (n / 10) (by omega) byte former
      · rw [List.mem_singleton] at last
        rw [last]
        exact digit (n % 10) (Nat.mod_lt n (by decide))

theorem decimal_ne_nil (n : Nat) : decimal n ≠ [] := by
  rw [decimal_eq]
  split <;> simp

theorem digitStep_digit (value : Nat) {d : Nat} (small : d < 10) :
    digitStep 10 value (UInt8.ofNat (48 + d)) = some (10 * value + d) := by
  have parsed : ∀ d < 10, UInt8.ofNat (48 + d) ≠ 95 ∧
      parseDigit (UInt8.ofNat (48 + d)) = some d := by decide
  obtain ⟨notUnderscore, digit⟩ := parsed d small
  unfold digitStep
  rw [if_neg notUnderscore, digit]
  exact if_pos small

theorem foldlM_decimal (n : Nat) : (decimal n).foldlM (digitStep 10) 0 = some n := by
  induction n using Nat.strong_induction_on with
  | _ n ih =>
    rw [decimal_eq]
    split
    · next small =>
      rw [List.foldlM_cons, digitStep_digit 0 small]
      simp
    · next large =>
      rw [List.foldlM_append, ih (n / 10) (by omega)]
      have last := digitStep_digit (n / 10) (Nat.mod_lt n (by decide))
      simp only [Option.bind_eq_bind, Option.bind_some, List.foldlM_cons,
        last, List.foldlM_nil, Option.pure_def]
      rw [Nat.div_add_mod]

theorem parseMagnitude_decimal (n : Nat) : parseMagnitude 10 (decimal n) = some n := by
  unfold parseMagnitude
  cases digits : decimal n with
  | nil => exact absurd digits (decimal_ne_nil n)
  | cons first rest =>
    have range := digit_of_mem_decimal n first (by simp [digits])
    have notUnderscore : first ≠ 95 := by
      rintro rfl
      exact absurd range.2 (by decide)
    dsimp only
    rw [if_neg notUnderscore, ← digits, foldlM_decimal]

variable {digits : Bytes} {bits width : Nat} {n : Int}

theorem ne_of_digits (range : ∀ byte ∈ digits, 48 ≤ byte ∧ byte ≤ 57) {byte other : UInt8}
    (member : byte ∈ digits) (outside : other < 48 ∨ 57 < other) : byte ≠ other := by
  rintro rfl
  obtain ⟨low, high⟩ := range byte member
  rcases outside with below | above
  · exact absurd low (not_le_of_gt below)
  · exact absurd high (not_le_of_gt above)

/-- Decimal digits stand for themselves. -/
theorem parseBase_digits (range : ∀ byte ∈ digits, 48 ≤ byte ∧ byte ≤ 57) :
    parseBase digits = (10, true, digits) := by
  unfold parseBase
  split
  · next mark rest =>
    have other : ∀ letter : UInt8, 57 < letter → mark ≠ letter :=
      fun letter above => ne_of_digits range (by simp) (Or.inr above)
    simp [other]
  · rfl

theorem parseSign_digits (range : ∀ byte ∈ digits, 48 ≤ byte ∧ byte ≤ 57) :
    parseSign digits = (false, digits) := by
  unfold parseSign
  split
  · next rest =>
    exact absurd (range 45 (by simp)).1 (by decide)
  · next rest =>
    exact absurd (range 43 (by simp)).1 (by decide)
  · rfl

theorem parseSign_decimal (n : Nat) : parseSign (decimal n) = (false, decimal n) :=
  parseSign_digits (digit_of_mem_decimal n)

/-- Digits that stand for the magnitude of an integer, after its sign. -/
theorem intOfString_digits (positive : 0 < bits) (fits : FitsBits bits n) (range : ∀ byte ∈ digits, 48 ≤ byte ∧ byte ≤ 57)
    (magnitude : parseMagnitude 10 digits = some n.natAbs) :
    intOfString bits (if n < 0 then 45 :: digits else digits) = some n := by
  obtain ⟨low, high⟩ := fits
  have power : (2 : Int) ^ bits = 2 * 2 ^ (bits - 1) := by
    rw [← pow_succ', Nat.sub_add_cancel positive]
  have whole : n.bmod (2 ^ bits) = n := by
    apply Int.bmod_eq_of_le <;> push_cast <;> omega
  by_cases negative : n < 0
  · have sign : parseSign (45 :: digits) = (true, digits) := rfl
    have value : -(n.natAbs : Int) = n := by omega
    have inRange : n.natAbs ≤ 2 ^ (bits - 1) := by
      have bound : (n.natAbs : Int) ≤ 2 ^ (bits - 1) := by omega
      exact_mod_cast bound
    rw [if_pos negative]
    unfold intOfString
    simp only [sign, parseBase_digits range, magnitude]
    rw [value]
    simp [inRange, whole]
  · have value : (n.natAbs : Int) = n := by omega
    have inRange : n.natAbs < 2 ^ (bits - 1) := by
      have bound : (n.natAbs : Int) < 2 ^ (bits - 1) := by omega
      exact_mod_cast bound
    rw [if_neg negative]
    unfold intOfString
    simp only [parseSign_digits range, parseBase_digits range, magnitude]
    rw [value]
    simp [inRange, whole]

/-- What is printed reads as itself. -/
theorem intOfString_intToString (positive : 0 < bits) (fits : FitsBits bits n) :
    intOfString bits (intToString n) = some n :=
  intOfString_digits positive fits (digit_of_mem_decimal n.natAbs)
    (parseMagnitude_decimal n.natAbs)

/-- Digits after zeros that fill some width, the sign included. -/
def zeroPadded (width : Nat) (n : Int) : Bytes :=
  let digits := decimal n.natAbs
  if n < 0 then 45 :: (List.replicate (width - 1 - digits.length) 48 ++ digits)
  else List.replicate (width - digits.length) 48 ++ digits

theorem parseMagnitude_padded (zeros n : Nat) :
    parseMagnitude 10 (List.replicate zeros 48 ++ decimal n) = some n := by
  have skipped : (List.replicate zeros (48 : UInt8)).foldlM (digitStep 10) 0 = some 0 := by
    induction zeros with
    | zero => rfl
    | succ zeros ih =>
      rw [List.replicate_succ, List.foldlM_cons]
      exact ih
  have total : (List.replicate zeros 48 ++ decimal n).foldlM (digitStep 10) 0 = some n := by
    rw [List.foldlM_append, skipped]
    exact foldlM_decimal n
  cases zeros with
  | zero => exact parseMagnitude_decimal n
  | succ zeros =>
    rw [List.replicate_succ, List.cons_append] at total ⊢
    simp only [parseMagnitude]
    rw [if_neg (by decide), total]

/-- What is printed with zeros in front reads as itself. -/
theorem intOfString_zeroPadded (positive : 0 < bits) (width : Nat) (fits : FitsBits bits n) :
    intOfString bits (zeroPadded width n) = some n := by
  have range : ∀ zeros, ∀ byte ∈ List.replicate zeros 48 ++ decimal n.natAbs,
      48 ≤ byte ∧ byte ≤ 57 := by
    intro zeros byte member
    rcases List.mem_append.mp member with padding | digit
    · rw [List.eq_of_mem_replicate padding]
      decide
    · exact digit_of_mem_decimal _ byte digit
  have read : ∀ zeros, intOfString bits
      (if n < 0 then 45 :: (List.replicate zeros 48 ++ decimal n.natAbs)
        else List.replicate zeros 48 ++ decimal n.natAbs) = some n :=
    fun zeros => intOfString_digits positive fits (range zeros) (parseMagnitude_padded zeros _)
  by_cases negative : n < 0
  · have padded := read (width - 1 - (decimal n.natAbs).length)
    simp only [zeroPadded]
    rwa [if_pos negative] at padded ⊢
  · have padded := read (width - (decimal n.natAbs).length)
    simp only [zeroPadded]
    rwa [if_neg negative] at padded ⊢

theorem zeroPadded_inj (positive : 0 < bits)
    {m : Int} (fits : FitsBits bits m) (fits' : FitsBits bits n)
    (same : zeroPadded width m = zeroPadded width n) : m = n := by
  apply Option.some.inj
  rw [← intOfString_zeroPadded positive width fits,
    ← intOfString_zeroPadded positive width fits', same]

theorem length_decimal_le {n : Nat} (positive : 0 < width)
    (small : n < 10 ^ width) : (decimal n).length ≤ width := by
  rw [decimal, List.length_map]
  exact Nat.toDigits_length 10 n width positive small

/-- A number that fits is padded to the width. -/
theorem length_zeroPadded (positive : 0 < width) (nonneg : 0 ≤ n) (small : n < 10 ^ width) :
    (zeroPadded width n).length = width := by
  have bound : n.natAbs < 10 ^ width := by
    have value : (n.natAbs : Int) < 10 ^ width := by omega
    exact_mod_cast value
  have fits := length_decimal_le positive bound
  simp only [zeroPadded]
  rw [if_neg (by omega), List.length_append, List.length_replicate]
  omega

def readDecimal (text : Bytes) : Option Int :=
  let (negative, digits) := parseSign text
  (parseMagnitude 10 digits).map fun (magnitude : Nat) =>
    if negative then -(magnitude : Int) else magnitude

theorem readDecimal_intToString (n : Int) : readDecimal (intToString n) = some n := by
  unfold intToString
  by_cases negative : n < 0
  · have sign : parseSign (45 :: decimal n.natAbs) = (true, decimal n.natAbs) := rfl
    have magnitude : -(n.natAbs : Int) = n := by omega
    rw [if_pos negative]
    simp only [readDecimal, sign, parseMagnitude_decimal, Option.map_some, if_true]
    rw [magnitude]
  · have magnitude : (n.natAbs : Int) = n := by omega
    rw [if_neg negative]
    simp only [readDecimal, parseSign_decimal, parseMagnitude_decimal, Option.map_some]
    simpa using magnitude

end LiteNode

/-! ## Integers of 64 bits -/

namespace LiteNode

def int64Add (left right : Int) : Int := (left + right).bmod (2 ^ 64)

def int64Sub (left right : Int) : Int := (left - right).bmod (2 ^ 64)

def int64Mul (left right : Int) : Int := (left * right).bmod (2 ^ 64)

/-- The integers of 64 bits. -/
abbrev Fits64 (n : Int) : Prop := FitsBits int64Bits n

theorem bmod_of_fits64 {n : Int} (fits : Fits64 n) : n.bmod (2 ^ 64) = n := by
  obtain ⟨least, most⟩ := fits
  unfold int64Bits at least most
  rw [Int.bmod_eq_of_le] <;> omega

variable {left right : Int}

theorem int64Add_eq (fits : Fits64 (left + right)) : int64Add left right = left + right :=
  bmod_of_fits64 fits

theorem int64Sub_eq (fits : Fits64 (left - right)) : int64Sub left right = left - right :=
  bmod_of_fits64 fits

theorem int64Mul_eq (fits : Fits64 (left * right)) : int64Mul left right = left * right :=
  bmod_of_fits64 fits

theorem fits64_iff {n : Int} : Fits64 n ↔ -9223372036854775808 ≤ n ∧ n < 9223372036854775808 := by
  simp [Fits64, FitsBits, int64Bits]

instance (n : Int) : Decidable (Fits64 n) := inferInstanceAs (Decidable (_ ∧ _))

end LiteNode
