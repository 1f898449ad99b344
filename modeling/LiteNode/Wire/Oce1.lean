import LiteNode.Data.Results
import LiteNode.Data.Decimal
import Mathlib.Tactic.Positivity

/-!
# The wire format

Values are written one after the other: integers in a fixed number of bytes,
strings and lists after their length. A reader takes a value from the front of
its input, or refuses.
-/

/-! ## Big-endian integers -/

namespace LiteNode

/-- The last bytes of a number, in order of significance. -/
def bigEndian : Nat → Nat → Bytes
  | 0, _ => []
  | count + 1, n => bigEndian count (n / 256) ++ [UInt8.ofNat n]

def ofBigEndian (bytes : Bytes) : Nat := bytes.foldl (fun value byte => 256 * value + byte.toNat) 0

@[simp] theorem length_bigEndian (count n : Nat) : (bigEndian count n).length = count := by
  induction count generalizing n with
  | zero => rfl
  | succ count ih =>
    rw [bigEndian, List.length_append, ih]
    rfl

theorem ofBigEndian_append (bytes : Bytes) (byte : UInt8) :
    ofBigEndian (bytes ++ [byte]) = 256 * ofBigEndian bytes + byte.toNat := by
  unfold ofBigEndian
  rw [List.foldl_append]
  rfl

theorem ofBigEndian_bigEndian (count n : Nat) :
    ofBigEndian (bigEndian count n) = n % 256 ^ count := by
  induction count generalizing n with
  | zero =>
    rw [pow_zero, Nat.mod_one]
    rfl
  | succ count ih =>
    have byte : (UInt8.ofNat n).toNat = n % 256 := UInt8.toNat_ofNat'
    rw [bigEndian, ofBigEndian_append, ih, byte, pow_succ', Nat.mod_mul, Nat.add_comm]

theorem bigEndian_ofBigEndian (bytes : Bytes) :
    bigEndian bytes.length (ofBigEndian bytes) = bytes := by
  induction bytes using List.reverseRecOn with
  | nil => rfl
  | append_singleton bytes byte ih =>
    have small := byte.toNat_lt
    have high : (256 * ofBigEndian bytes + byte.toNat) / 256 = ofBigEndian bytes := by omega
    have low : UInt8.ofNat (256 * ofBigEndian bytes + byte.toNat) = byte := by
      apply UInt8.toNat_inj.mp
      rw [UInt8.toNat_ofNat']
      omega
    rw [List.length_append, List.length_singleton, ofBigEndian_append, bigEndian, high, low, ih]

theorem ofBigEndian_lt (bytes : Bytes) : ofBigEndian bytes < 256 ^ bytes.length := by
  have whole := ofBigEndian_bigEndian bytes.length (ofBigEndian bytes)
  rw [bigEndian_ofBigEndian] at whole
  rw [whole]
  exact Nat.mod_lt _ (by positivity)

namespace Oce1

def putUint (count : Nat) (v : Int) : Bytes := bigEndian count (v % 256 ^ count).toNat

def putU8 (v : Int) : Bytes := putUint 1 v

def putU16 (v : Int) : Bytes := putUint 2 v

def putU32Int (v : Int) : Bytes := putUint 4 v

def putU64 (v : Int) : Bytes := putUint 8 v

def putBool (v : Bool) : Bytes := putU8 (if v then 1 else 0)

def putBytes (s : Bytes) : Bytes := putU32Int s.length ++ s

def putString (s : Bytes) : Bytes := putBytes s

def hexNibble (byte : UInt8) : Except String Nat :=
  if 48 ≤ byte ∧ byte ≤ 57 then .ok (byte.toNat - 48)
  else if 97 ≤ byte ∧ byte ≤ 102 then .ok (byte.toNat - 97 + 10)
  else .error "hash32 contains non-hex characters"

/-- The bytes that pairs of hexadecimal digits stand for. -/
def hexBytes : Bytes → Except String Bytes
  | high :: low :: rest => do
    let high ← hexNibble high
    let low ← hexNibble low
    let rest ← hexBytes rest
    .ok (UInt8.ofNat (16 * high + low) :: rest)
  | _ => .ok []

def hash32OfHex (value : Bytes) : Except String Bytes :=
  if value.length ≠ 64 then .error "hash32 hex length must be 64"
  else hexBytes value

def hash32Bytes (value : Bytes) : Except String Bytes :=
  if value.length = 32 then .ok value else hash32OfHex value

/-- The bytes of a hash; the source raises where there are none. -/
def putHash32 (value : Bytes) : Except String Bytes := hash32Bytes value

def putOption (putInner : α → Except String Bytes) : Option α → Except String Bytes
  | none => .ok (putU8 0)
  | some v => (putInner v).map (putU8 1 ++ ·)

/-- The items of a list, one after the other. -/
def putItems (putInner : α → Except String Bytes) : List α → Except String Bytes
  | [] => .ok []
  | item :: rest => do
    let first ← putInner item
    let others ← putItems putInner rest
    .ok (first ++ others)

def putList (putInner : α → Except String Bytes) (items : List α) : Except String Bytes :=
  (putItems putInner items).map (putU32Int items.length ++ ·)

/-- A reader: the value and the rest of the input. -/
abbrev Get (α : Type) := StateT Bytes (Except String) α

def fail (reason : String) : Get α := fun _ => .error reason

def getRaw (n : Nat) : Get Bytes := fun data =>
  if data.length < n then
    .error ("OCE1: need " ++ toString n ++ " bytes, have " ++ toString data.length)
  else .ok (data.take n, data.drop n)

def getUint (count : Nat) : Get Int := do
  let bytes ← getRaw count
  return ofBigEndian bytes

def getU8 : Get Int := getUint 1

def getU16 : Get Int := getUint 2

def getU32Int : Get Int := do
  let value ← getUint 4
  return value.bmod (2 ^ 32)

def getU64 : Get Int := do
  let value ← getUint 8
  return value.bmod (2 ^ 64)

def getBool : Get Bool := do
  let tag ← getU8
  if tag = 0 then return false
  else if tag = 1 then return true
  else fail "OCE1: bad bool tag"

def getBytesBounded (max : Int) : Get Bytes := do
  let len ← getU32Int
  if len < 0 ∨ max < len then fail "OCE1: bytes len out of range"
  else getRaw len.toNat

def getBytes : Get Bytes := getBytesBounded 10000000

def getString : Get Bytes := getBytes

def getHash32 : Get Bytes := getRaw 32

def getOption (getInner : Get α) : Get (Option α) := do
  let tag ← getU8
  if tag = 0 then return none
  else if tag = 1 then return some (← getInner)
  else fail "OCE1: bad option tag"

/-- Read some items, one after the other. -/
def getItems (getInner : Get α) : Nat → Get (List α)
  | 0 => return []
  | count + 1 => do
    let first ← getInner
    let others ← getItems getInner count
    return first :: others

def getListBounded (max : Int) (getInner : Get α) : Get (List α) := do
  let count ← getU32Int
  if count < 0 ∨ max < count then fail "OCE1: list count out of range"
  else getItems getInner count.toNat

/-- Read a whole input. -/
def decode (get : Get α) (data : Bytes) : Except String α :=
  match get data with
  | .error reason => .error reason
  | .ok (value, []) => .ok value
  | .ok (_, rest) => .error ("OCE1: " ++ toString rest.length ++ " trailing bytes")

@[simp] theorem length_putUint (count : Nat) (v : Int) : (putUint count v).length = count :=
  length_bigEndian _ _

theorem putUint_inj {count : Nat} {v w : Int} (same : putUint count v = putUint count w) :
    v % 256 ^ count = w % 256 ^ count := by
  have positive : (0 : Int) < 256 ^ count := by positivity
  have read : ∀ v : Int, (ofBigEndian (putUint count v) : Int) = v % 256 ^ count := by
    intro v
    have nonneg := Int.emod_nonneg v positive.ne'
    have below := Int.emod_lt_of_pos v positive
    have small : (v % 256 ^ count).toNat < 256 ^ count := by
      rw [Int.toNat_lt nonneg]
      exact_mod_cast below
    unfold putUint
    rw [ofBigEndian_bigEndian, Nat.mod_eq_of_lt small, Int.toNat_of_nonneg nonneg]
  rw [← read v, ← read w, same]

/-- Parts of known length are what they were before being joined. -/
theorem append_inj_of_length {left left' right right' : Bytes} {n : Nat}
    (size : left.length = n) (size' : left'.length = n) (same : left ++ right = left' ++ right') :
    left = left' ∧ right = right' :=
  List.append_inj same (size.trans size'.symm)

theorem length_hexBytes {value bytes : Bytes}
    (read : hexBytes value = .ok bytes) : bytes.length = value.length / 2 := by
  induction value using hexBytes.induct generalizing bytes with
  | case1 high low rest ih =>
    obtain ⟨upper, -, read⟩ := bind_eq_ok read
    obtain ⟨lower, -, read⟩ := bind_eq_ok read
    obtain ⟨others, later, read⟩ := bind_eq_ok read
    cases read
    rw [List.length_cons, ih later, List.length_cons, List.length_cons]
    omega
  | case2 value short =>
    unfold hexBytes at read
    split at read
    · exact absurd rfl (short _ _ _)
    · cases read
      rcases value with _ | ⟨first, _ | ⟨second, rest⟩⟩
      · rfl
      · simp
      · exact absurd rfl (short _ _ _)

/-- A hash is written as 32 bytes. -/
theorem length_putHash32 {value bytes : Bytes}
    (written : putHash32 value = .ok bytes) : bytes.length = 32 := by
  unfold putHash32 hash32Bytes at written
  split at written
  · next size =>
    cases written
    exact size
  · unfold hash32OfHex at written
    split at written
    · cases written
    · next size =>
      rw [length_hexBytes written]
      omega

/-- Whatever follows, a reader takes exactly these bytes and reads a value. -/
def Gets (get : Get α) (bytes : Bytes) (value : α) : Prop :=
  ∀ rest, get (bytes ++ rest) = .ok (value, rest)

namespace Gets

theorem pure (value : α) : Gets (Pure.pure value) [] value := fun _ => rfl

theorem bind {get : Get α} {next : α → Get β} {first second : Bytes}
    {value : α} {last : β} (gets : Gets get first value) (later : Gets (next value) second last) :
    Gets (get >>= next) (first ++ second) last := by
  intro rest
  have run : (get >>= next) (first ++ (second ++ rest)) =
      (get (first ++ (second ++ rest)) >>= fun after => next after.1 after.2) := rfl
  rw [List.append_assoc, run, gets (second ++ rest)]
  exact later rest

/-- A last step that reads nothing more. -/
theorem map {get : Get α} {f : α → β} {bytes : Bytes} {value : α} (gets : Gets get bytes value) :
    Gets (do return f (← get)) bytes (f value) := by
  have both : Gets (get >>= fun value => Pure.pure (f value)) (bytes ++ [])
      (f value) := bind gets (pure (f value))
  rwa [List.append_nil] at both

theorem getRaw (bytes : Bytes) : Gets (getRaw bytes.length) bytes bytes := by
  intro rest
  have enough : ¬ (bytes ++ rest).length < bytes.length := by simp
  rw [Oce1.getRaw, if_neg enough, List.take_left, List.drop_left]

theorem getUint {count : Nat} {v : Int} (nonneg : 0 ≤ v) (small : v < 256 ^ count) :
    Gets (getUint count) (putUint count v) v := by
  have raw := getRaw (putUint count v)
  rw [length_putUint] at raw
  have read : ((ofBigEndian (putUint count v) : Nat) : Int) = v := by
    unfold putUint
    rw [ofBigEndian_bigEndian, Int.emod_eq_of_lt nonneg small,
      Nat.mod_eq_of_lt, Int.toNat_of_nonneg nonneg]
    rw [Int.toNat_lt nonneg]
    exact_mod_cast small
  have gets := map (f := fun bytes => ((ofBigEndian bytes : Nat) : Int)) raw
  rw [read] at gets
  exact gets

theorem getU8 {v : Int} (nonneg : 0 ≤ v) (small : v < 256) : Gets getU8 (putU8 v) v :=
  getUint nonneg (by simpa using small)

/-- A signed number is read as it was written. -/
theorem getSigned {count : Nat} {v : Int}
    (least : -(256 ^ count : Int) ≤ 2 * v) (most : 2 * v < 256 ^ count) :
    Gets (do return (← Oce1.getUint count).bmod (256 ^ count)) (putUint count v) v := by
  have positive : (0 : Int) < 256 ^ count := by positivity
  have same : putUint count v = putUint count (v % 256 ^ count) := by simp [putUint]
  have value : (v % 256 ^ count).bmod (256 ^ count) = v := by
    have cast : ((256 ^ count : Nat) : Int) = 256 ^ count := by push_cast; rfl
    rw [← cast, Int.emod_bmod, Int.bmod_eq_of_le] <;> push_cast <;> omega
  have gets := map (f := fun n : Int => n.bmod (256 ^ count))
    (getUint (Int.emod_nonneg v positive.ne') (Int.emod_lt_of_pos v positive))
  rw [value] at gets
  rwa [same]

theorem getU32Int {v : Int} (nonneg : 0 ≤ v) (small : v < 2 ^ 31) :
    Gets getU32Int (putU32Int v) v :=
  @getSigned 4 v (by omega) (by omega)

theorem getU64 {v : Int} (least : -2 ^ 63 ≤ v) (most : v < 2 ^ 63) : Gets getU64 (putU64 v) v :=
  @getSigned 8 v (by omega) (by omega)

theorem getBool (v : Bool) : Gets getBool (putBool v) v := by cases v <;> exact fun rest => rfl

theorem getBytesBounded {max : Int} {bytes : Bytes}
    (fits : (bytes.length : Int) ≤ max) (small : max < 2 ^ 31) :
    Gets (getBytesBounded max) (putBytes bytes) bytes := by
  apply bind (getU32Int (by omega) (by omega))
  rw [if_neg (by omega), Int.toNat_natCast]
  exact getRaw bytes

/-- An option is read when its value is. -/
theorem getOption {getInner : Get α} {putInner : α → Except String Bytes}
    {value : Option α} {bytes : Bytes} (written : putOption putInner value = .ok bytes)
    (gets : ∀ v inner, value = some v → putInner v = .ok inner → Gets getInner inner v) :
    Gets (getOption getInner) bytes value := by
  cases value with
  | none =>
    obtain rfl := Except.ok.inj written
    exact fun rest => rfl
  | some v =>
    obtain ⟨inner, put, rfl⟩ := map_eq_ok written
    apply bind (getU8 (v := 1) (by decide) (by decide))
    exact map (gets v inner rfl put)

theorem getItems {getInner : Get α} {putInner : α → Except String Bytes}
    {items : List α} {bytes : Bytes} (written : putItems putInner items = .ok bytes)
    (gets : ∀ item ∈ items, ∀ inner, putInner item = .ok inner → Gets getInner inner item) :
    Gets (getItems getInner items.length) bytes items := by
  induction items generalizing bytes with
  | nil =>
    obtain rfl := Except.ok.inj written
    exact pure []
  | cons item rest ih =>
    obtain ⟨first, put, written⟩ := bind_eq_ok written
    obtain ⟨others, later, written⟩ := bind_eq_ok written
    obtain rfl := Except.ok.inj written
    apply bind (gets item List.mem_cons_self first put)
    exact map (ih later fun item listed => gets item (List.mem_cons_of_mem _ listed))

/-- A list that is not too long is read when its items are. -/
theorem getListBounded {max : Int} {getInner : Get α}
    {putInner : α → Except String Bytes} {items : List α} {bytes : Bytes}
    (fits : (items.length : Int) ≤ max) (small : max < 2 ^ 31)
    (written : putList putInner items = .ok bytes)
    (gets : ∀ item ∈ items, ∀ inner, putInner item = .ok inner → Gets getInner inner item) :
    Gets (getListBounded max getInner) bytes items := by
  obtain ⟨inner, put, rfl⟩ := map_eq_ok written
  apply bind (getU32Int (by omega) (by omega))
  rw [if_neg (by omega), Int.toNat_natCast]
  exact getItems put gets

end Gets

/-- Whatever a reader accepts, the bytes that it takes are those that writing the
value gives. -/
def Takes (get : Get α) (put : α → Except String Bytes) : Prop :=
  ∀ {data value rest}, get data = .ok (value, rest) →
    ∃ bytes, put value = .ok bytes ∧ data = bytes ++ rest

theorem bind_run {get : Get α} {next : α → Get β} {data rest : Bytes} {last : β}
    (read : (get >>= next) data = .ok (last, rest)) :
    ∃ value middle, get data = .ok (value, middle) ∧
      next value middle = .ok (last, rest) := by
  obtain ⟨⟨value, middle⟩, first, later⟩ := bind_eq_ok
    (show (get data >>= fun after => next after.1 after.2) = _ from read)
  exact ⟨value, middle, first, later⟩

theorem getRaw_eq_ok {n : Nat} {data value rest : Bytes}
    (read : getRaw n data = .ok (value, rest)) : value.length = n ∧ data = value ++ rest := by
  unfold getRaw at read
  split at read
  · cases read
  · next enough =>
    obtain ⟨rfl, rfl⟩ := Prod.mk.inj (Except.ok.inj read)
    exact ⟨by rw [List.length_take]; omega, (List.take_append_drop n data).symm⟩

theorem getUint_eq_ok {count : Nat} {data rest : Bytes} {v : Int}
    (read : getUint count data = .ok (v, rest)) : data = putUint count v ++ rest := by
  obtain ⟨bytes, middle, first, later⟩ := bind_run read
  obtain ⟨rfl, rfl⟩ := Prod.mk.inj (Except.ok.inj later)
  obtain ⟨size, rfl⟩ := getRaw_eq_ok first
  have small : ((ofBigEndian bytes : Nat) : Int) < 256 ^ count := by
    rw [← size]
    exact_mod_cast ofBigEndian_lt bytes
  unfold putUint
  rw [Int.emod_eq_of_lt (by omega) small, Int.toNat_natCast, ← size, bigEndian_ofBigEndian]

namespace Takes

theorem getU8 : Takes getU8 fun v => .ok (putU8 v) := fun read => ⟨_, rfl, getUint_eq_ok read⟩

theorem getU32Int : Takes getU32Int fun v => .ok (putU32Int v) := by
  intro data value rest read
  obtain ⟨v, middle, first, later⟩ := bind_run read
  obtain ⟨rfl, rfl⟩ := Prod.mk.inj (Except.ok.inj later)
  have same : v.bmod (2 ^ 32) % 256 ^ 4 = v % 256 ^ 4 := by
    rw [Int.bmod_def]
    split <;> omega
  refine ⟨_, rfl, ?_⟩
  rw [getUint_eq_ok first, putU32Int, putUint, putUint, same]

theorem getBytesBounded (max : Int) :
    Takes (getBytesBounded max) fun bytes => .ok (putBytes bytes) := by
  intro data value rest read
  obtain ⟨len, middle, first, later⟩ := bind_run read
  obtain ⟨_, written, rfl⟩ := getU32Int first
  obtain rfl := Except.ok.inj written
  split at later
  · cases later
  · next fits =>
    obtain ⟨size, rfl⟩ := getRaw_eq_ok later
    refine ⟨_, rfl, ?_⟩
    have same : (value.length : Int) = len := by omega
    rw [putBytes, same, List.append_assoc]

theorem getOption {getInner : Get α} {putInner : α → Except String Bytes}
    (takes : Takes getInner putInner) : Takes (getOption getInner) (putOption putInner) := by
  intro data value rest read
  obtain ⟨tag, middle, first, later⟩ := bind_run read
  obtain ⟨_, written, rfl⟩ := getU8 first
  obtain rfl := Except.ok.inj written
  split at later
  · next absent =>
    obtain ⟨rfl, rfl⟩ := Prod.mk.inj (Except.ok.inj later)
    exact ⟨_, rfl, by rw [absent]⟩
  split at later
  · next present =>
    obtain ⟨inner, last, second, later⟩ := bind_run later
    obtain ⟨rfl, rfl⟩ := Prod.mk.inj (Except.ok.inj later)
    obtain ⟨bytes, put, rfl⟩ := takes second
    refine ⟨_, by rw [putOption, put]; rfl, ?_⟩
    rw [present, List.append_assoc]
  · cases later

end Takes

theorem getItems_eq_ok {getInner : Get α} {putInner : α → Except String Bytes}
    (takes : Takes getInner putInner) {count : Nat} {data rest : Bytes}
    {items : List α} (read : getItems getInner count data = .ok (items, rest)) :
    items.length = count ∧ ∃ bytes, putItems putInner items = .ok bytes ∧ data = bytes ++ rest := by
  induction count generalizing data items with
  | zero =>
    obtain ⟨rfl, rfl⟩ := Prod.mk.inj (Except.ok.inj read)
    exact ⟨rfl, [], rfl, rfl⟩
  | succ count ih =>
    obtain ⟨first, middle, front, later⟩ := bind_run read
    obtain ⟨others, last, back, later⟩ := bind_run later
    obtain ⟨rfl, rfl⟩ := Prod.mk.inj (Except.ok.inj later)
    obtain ⟨bytes, put, rfl⟩ := takes front
    obtain ⟨size, bytes', put', rfl⟩ := ih back
    refine ⟨by rw [List.length_cons, size], bytes ++ bytes', ?_, ?_⟩
    · rw [putItems, put, ok_bind, put', ok_bind]
    · rw [List.append_assoc]

theorem Takes.getListBounded (max : Int) {getInner : Get α}
    {putInner : α → Except String Bytes} (takes : Takes getInner putInner) :
    Takes (getListBounded max getInner) (putList putInner) := by
  intro data value rest read
  obtain ⟨count, middle, first, later⟩ := bind_run read
  obtain ⟨_, written, rfl⟩ := Takes.getU32Int first
  obtain rfl := Except.ok.inj written
  split at later
  · cases later
  · next fits =>
    obtain ⟨size, bytes, put, rfl⟩ := getItems_eq_ok takes later
    have same : (value.length : Int) = count := by omega
    refine ⟨_, by rw [putList, put]; rfl, ?_⟩
    rw [same, List.append_assoc]

theorem decode_of_gets {get : Get α} {data : Bytes} {value : α}
    (gets : Gets get data value) : decode get data = .ok value := by
  have read := gets []
  rw [List.append_nil] at read
  unfold decode
  rw [read]

end Oce1
end LiteNode
