import LiteNode.Data.Bytes
import Mathlib.Algebra.Order.Ring.Int

/-!
# Framed records

Records stand one after the other in a file, each behind the number of its
bytes in little-endian order. What is read where a record stands is that record, and reading on from
one record to the next visits all of them.
-/

namespace LiteNode

/-- The last bytes of a number, the least significant one first. -/
def littleEndian : Nat → Nat → Bytes
  | 0, _ => []
  | count + 1, n => UInt8.ofNat n :: littleEndian count (n / 256)

def ofLittleEndian : Bytes → Nat
  | [] => 0
  | byte :: rest => byte.toNat + 256 * ofLittleEndian rest

@[simp] theorem length_littleEndian (count n : Nat) : (littleEndian count n).length = count := by
  induction count generalizing n with
  | zero => rfl
  | succ count ih => rw [littleEndian, List.length_cons, ih]

theorem ofLittleEndian_littleEndian (count n : Nat) :
    ofLittleEndian (littleEndian count n) = n % 256 ^ count := by
  induction count generalizing n with
  | zero =>
    rw [pow_zero, Nat.mod_one]
    rfl
  | succ count ih =>
    have byte : (UInt8.ofNat n).toNat = n % 256 := UInt8.toNat_ofNat'
    rw [littleEndian, ofLittleEndian, ih, byte, pow_succ', Nat.mod_mul]

/-- An integer in a number of bytes, where one that does not fit is cut. -/
def putLittle (count : Nat) (v : Int) : Bytes := littleEndian count (v % 256 ^ count).toNat

@[simp] theorem length_putLittle (count : Nat) (v : Int) : (putLittle count v).length = count :=
  length_littleEndian _ _

def FitsBytes (count : Nat) (v : Int) : Prop := 0 ≤ v ∧ v < 256 ^ count

theorem ofLittleEndian_putLittle {count : Nat} {v : Int}
    (fits : FitsBytes count v) : (ofLittleEndian (putLittle count v) : Int) = v := by
  obtain ⟨nonneg, small⟩ := fits
  have below : (v % 256 ^ count).toNat < 256 ^ count := by
    rw [Int.emod_eq_of_lt nonneg small, Int.toNat_lt nonneg]
    exact_mod_cast small
  rw [putLittle, ofLittleEndian_littleEndian, Nat.mod_eq_of_lt below,
    Int.emod_eq_of_lt nonneg small, Int.toNat_of_nonneg nonneg]

/-- The bytes at an offset, if there are that many. -/
def exactBytes (content : Bytes) (offset length : Nat) : Option Bytes :=
  if offset + length ≤ content.length then some ((content.drop offset).take length)
  else none

/-- Bytes written over others from an offset on. -/
def writeBytes (content : Bytes) (offset : Nat) (bytes : Bytes) : Bytes :=
  content.take offset ++ bytes ++ content.drop (offset + bytes.length)

theorem exactBytes_append (before middle after : Bytes) :
    exactBytes (before ++ (middle ++ after)) before.length middle.length = some middle := by
  unfold exactBytes
  rw [if_pos (by simp only [List.length_append]; omega), List.drop_left, List.take_left]

theorem writeBytes_length (content bytes : Bytes) :
    writeBytes content content.length bytes = content ++ bytes := by
  unfold writeBytes
  rw [List.take_length, List.drop_of_length_le (by omega), List.append_nil]

section Frames

variable {α : Type} (encode : α → Bytes)

/-- A record behind the number of its bytes. -/
def frame (body : Bytes) : Bytes := putLittle 4 body.length ++ body

def frames (items : List α) : Bytes := items.flatMap fun item => frame (encode item)

/-- Records with the offsets at which they stand. -/
def placed (start : Nat) : List α → List (Nat × α)
  | [] => []
  | item :: rest => (start, item) :: placed (start + (frame (encode item)).length) rest

variable {encode}

@[simp] theorem length_frame (body : Bytes) : (frame body).length = 4 + body.length := by
  rw [frame, List.length_append, length_putLittle]

@[simp] theorem frames_nil : frames encode [] = [] := rfl

@[simp] theorem frames_cons (item : α) (rest : List α) :
    frames encode (item :: rest) = frame (encode item) ++ frames encode rest :=
  rfl

@[simp] theorem frames_append (items rest : List α) :
    frames encode (items ++ rest) = frames encode items ++ frames encode rest :=
  List.flatMap_append

theorem placed_append (start : Nat) (items rest : List α) :
    placed encode start (items ++ rest) =
      placed encode start items ++ placed encode (start + (frames encode items).length) rest := by
  induction items generalizing start with
  | nil => rfl
  | cons item items ih =>
    rw [List.cons_append, placed, ih, placed,
      List.cons_append, frames_cons, List.length_append, Nat.add_assoc]

variable {offset : Nat} {item : α} {items : List α}

/-- A record stands behind those before it. -/
theorem mem_placed {start : Nat} : (offset, item) ∈ placed encode start items ↔
      ∃ before after, items = before ++ item :: after ∧
        offset = start + (frames encode before).length := by
  induction items generalizing start with
  | nil => simp [placed]
  | cons first rest ih =>
    rw [placed, List.mem_cons, ih]
    constructor
    · rintro (same | ⟨before, after, rfl, rfl⟩)
      · cases same
        exact ⟨[], rest, rfl, rfl⟩
      · refine ⟨first :: before, after, rfl, ?_⟩
        rw [frames_cons, List.length_append, Nat.add_assoc]
    · rintro ⟨before, after, split, rfl⟩
      cases before with
      | nil =>
        obtain ⟨rfl, rfl⟩ := List.cons.inj split
        exact .inl rfl
      | cons other before =>
        obtain ⟨rfl, rfl⟩ := List.cons.inj split
        refine .inr ⟨before, after, rfl, ?_⟩
        rw [frames_cons, List.length_append, Nat.add_assoc]

theorem placed_mem {start : Nat}
    (stands : (offset, item) ∈ placed encode start items) : item ∈ items := by
  obtain ⟨before, after, rfl, -⟩ := mem_placed.mp stands
  exact List.mem_append_right _ List.mem_cons_self

/-- What is read at the place of a record is the number of its bytes and the
record. -/
theorem exactBytes_placed {head rest : Bytes}
    (stands : (offset, item) ∈ placed encode head.length items) :
    exactBytes (head ++ (frames encode items ++ rest)) offset 4 =
        some (putLittle 4 (encode item).length) ∧
      exactBytes (head ++ (frames encode items ++ rest)) (offset + 4)
        (encode item).length = some (encode item) ∧
      offset + 4 + (encode item).length ≤ head.length + (frames encode items).length := by
  obtain ⟨before, after, rfl, rfl⟩ := mem_placed.mp stands
  have shape : head ++ (frames encode (before ++ item :: after) ++ rest) =
      (head ++ frames encode before) ++ (putLittle 4 (encode item).length ++
        (encode item ++ (frames encode after ++ rest))) := by
    simp only [frames_append, frames_cons, frame, List.append_assoc]
  refine ⟨?_, ?_, ?_⟩
  · have read := exactBytes_append (head ++ frames encode before)
      (putLittle 4 (encode item).length)
      (encode item ++ (frames encode after ++ rest))
    rw [length_putLittle, List.length_append] at read
    rw [shape, read]
  · have read := exactBytes_append
      (head ++ frames encode before ++ putLittle 4 (encode item).length)
      (encode item) (frames encode after ++ rest)
    rw [List.length_append, List.length_append, length_putLittle] at read
    rw [shape, ← List.append_assoc _ (putLittle _ _), read]
  · simp only [frames_append, frames_cons, List.length_append, length_frame]
    omega

/-- A whole record is read, with the number of its bytes. -/
theorem exactBytes_frame {head rest : Bytes}
    (stands : (offset, item) ∈ placed encode head.length items) :
    exactBytes (head ++ (frames encode items ++ rest)) offset
      (4 + (encode item).length) = some (frame (encode item)) := by
  obtain ⟨before, after, rfl, rfl⟩ := mem_placed.mp stands
  have shape : head ++ (frames encode (before ++ item :: after) ++ rest) =
      (head ++ frames encode before) ++ (frame (encode item) ++ (frames encode after ++ rest)) := by
    simp only [frames_append, frames_cons, List.append_assoc]
  have read := exactBytes_append (head ++ frames encode before)
    (frame (encode item)) (frames encode after ++ rest)
  rw [length_frame, List.length_append] at read
  rw [shape, read]

end Frames

section Scan

variable {σ ε α : Type}

/-- Go from one record to the next until a size is reached; each step tells
where the next record stands. -/
def scanRecords (next : σ → Nat → Except ε (σ × Nat)) (stuck : ε) (size : Nat) :
    Nat → σ → Nat → Except ε σ
  | 0, state, offset => if offset = size then .ok state else .error stuck
  | fuel + 1, state, offset =>
    if offset = size then .ok state
    else
      match next state offset with
      | .error error => .error error
      | .ok (after, offset') => scanRecords next stuck size fuel after offset'

/-- A scan visits the records that stand in the file, one after the other. -/
theorem scanRecords_placed
    {encode : α → Bytes} {next : σ → Nat → Except ε (σ × Nat)} {stuck : ε}
    {size fuel start : Nat} {items : List α} {visit : σ → Nat × α → Except ε σ}
    (reads : ∀ state offset item, (offset, item) ∈ placed encode start items →
      next state offset = (visit state (offset, item)).map fun after =>
        (after, offset + (frame (encode item)).length))
    (whole : size = start + (frames encode items).length)
    (enough : size ≤ start + fuel) (state : σ) :
    scanRecords next stuck size fuel state start =
      (placed encode start items).foldlM visit state := by
  induction items generalizing start fuel state with
  | nil =>
    rw [frames_nil, List.length_nil, add_zero] at whole
    cases fuel <;> rw [scanRecords, if_pos whole.symm] <;> rfl
  | cons item rest ih =>
    rw [frames_cons, List.length_append, length_frame] at whole
    cases fuel with
    | zero => omega
    | succ fuel =>
      rw [scanRecords, if_neg (by omega), reads state start item
        List.mem_cons_self, placed, List.foldlM_cons]
      cases visited : visit state (start, item) with
      | error error => rfl
      | ok after =>
        refine ih ?_ ?_ ?_ after
        · intro state' offset other stands
          exact reads state' offset other (List.mem_cons_of_mem _ stands)
        · rw [length_frame]
          omega
        · rw [length_frame]
          omega

theorem boundary_of_scanRecords
    {encode : α → Bytes} {next : σ → Nat → Except ε (σ × Nat)} {stuck : ε}
    {size fuel start : Nat} {items : List α} {state result : σ}
    (reads : ∀ state offset item, (offset, item) ∈ placed encode start items →
      ∀ after offset', next state offset = .ok (after, offset') →
        offset' = offset + (frame (encode item)).length ∧ offset' ≤ size)
    (within : size ≤ start + (frames encode items).length) (begun : start ≤ size)
    (scanned : scanRecords next stuck size fuel state start = .ok result) :
    ∃ kept dropped, items = kept ++ dropped ∧ size = start + (frames encode kept).length := by
  induction items generalizing start fuel state with
  | nil =>
    rw [frames_nil, List.length_nil, add_zero] at within
    exact ⟨[], [], rfl, by
      rw [frames_nil, List.length_nil]
      omega⟩
  | cons item rest ih =>
    by_cases reached : start = size
    · exact ⟨[], item :: rest, rfl, by
        rw [frames_nil, List.length_nil]
        omega⟩
    rw [frames_cons, List.length_append] at within
    cases fuel with
    | zero =>
      rw [scanRecords, if_neg reached] at scanned
      cases scanned
    | succ fuel =>
      rw [scanRecords, if_neg reached] at scanned
      split at scanned
      · cases scanned
      · next after offset' stepped =>
        obtain ⟨rfl, bounded⟩ := reads state start item List.mem_cons_self after offset' stepped
        obtain ⟨kept, dropped, rfl, ends⟩ := ih
          (fun state offset other stands =>
            reads state offset other (List.mem_cons_of_mem _ stands))
          (by omega) bounded scanned
        refine ⟨item :: kept, dropped, rfl, ?_⟩
        rw [frames_cons, List.length_append]
        omega

end Scan
end LiteNode
