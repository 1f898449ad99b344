import Mathlib.Logic.Function.Defs

/-!
# Mutable cells

A store of mutable records. A reference is the position of its record, and a
fresh record gets the next position, so two records share a reference only
when they are the same object. While the names that refer into a store are
separated, writing or creating the record of one name changes no other.
-/

namespace LiteNode

/-- Position of a mutable record in its store. -/
abbrev Ref := Nat

/-- All records allocated so far. -/
structure Cells (α : Type u) where records : List α

namespace Cells

variable {α : Type u} [Inhabited α]

/-- Number of records allocated so far. -/
def size (cells : Cells α) : Nat := cells.records.length

/-- Contents of a record. -/
def read (cells : Cells α) (ref : Ref) : α := cells.records.getD ref default

/-- Overwrite a record in place. -/
def write (cells : Cells α) (ref : Ref) (record : α) : Cells α := ⟨cells.records.set ref record⟩

/-- Store with one more record; its reference is the former `size`. -/
def alloc (cells : Cells α) (record : α) : Cells α := ⟨cells.records ++ [record]⟩

omit [Inhabited α] in
@[simp] theorem size_write (cells : Cells α) (ref : Ref) (record : α) :
    (cells.write ref record).size = cells.size := by
  simp [size, write]

omit [Inhabited α] in
@[simp] theorem size_alloc (cells : Cells α) (record : α) :
    (cells.alloc record).size = cells.size + 1 := by
  simp [size, alloc]

variable {ref : Ref}

theorem read_write_self {cells : Cells α} (allocated : ref < cells.size) (record : α) :
    (cells.write ref record).read ref = record := by
  unfold size at allocated
  simp [read, write, List.getD, allocated]

theorem read_write_of_ne {other : Ref} (different : other ≠ ref) (cells : Cells α) (record : α) :
    (cells.write ref record).read other = cells.read other := by
  simp [read, write, List.getD, List.getElem?_set_ne different.symm]

@[simp] theorem read_alloc_size (cells : Cells α) (record : α) :
    (cells.alloc record).read cells.size = record := by
  simp [read, alloc, size, List.getD]

theorem read_alloc_of_lt {cells : Cells α} (allocated : ref < cells.size) (record : α) :
    (cells.alloc record).read ref = cells.read ref := by
  simp [read, alloc, List.getD, List.getElem?_append_left allocated]

variable {ι : Type v} {cells : Cells α} {place : ι → Option Ref}

/-- Names refer to allocated records, and no two to the same one. -/
structure Separated (cells : Cells α) (place : ι → Option Ref) : Prop where
  allocated : ∀ {name ref}, place name = some ref → ref < cells.size
  distinct : ∀ {name other ref}, place name = some ref → place other = some ref → other = name

/-- Record of a name. -/
def contents (cells : Cells α) (place : ι → Option Ref) (name : ι) : Option α :=
  (place name).map cells.read

theorem contents_of_place {name : ι} (placed : place name = some ref) :
    cells.contents place name = some (cells.read ref) := by
  simp [contents, placed]

omit [Inhabited α] in
theorem Separated.write (separated : Separated cells place)
    (ref : Ref) (record : α) : Separated (cells.write ref record) place where
  allocated placed := by
    rw [size_write]
    exact separated.allocated placed
  distinct := separated.distinct

omit [Inhabited α] in
/-- Fewer names, each for a record that it already had, stay separated. -/
theorem Separated.restrict
    {κ : Type w} {place' : κ → Option Ref} (separated : Separated cells place)
    (rename : κ → ι) (injective : Function.Injective rename)
    (sub : ∀ {name ref}, place' name = some ref →
      place (rename name) = some ref) : Separated cells place' where
  allocated placed := separated.allocated (sub placed)
  distinct placed placed' := injective (separated.distinct (sub placed) (sub placed'))

variable [DecidableEq ι]

/-- Writing the record of a name changes that name only. -/
theorem Separated.contents_write (separated : Separated cells place) {name : ι}
    (placed : place name = some ref) (record : α) (other : ι) :
    (cells.write ref record).contents place other =
      if other = name then some record else cells.contents place other := by
  unfold contents
  split
  · next same =>
    subst same
    simp [placed, read_write_self (separated.allocated placed)]
  · next different =>
    cases found : place other with
    | none => rfl
    | some ref' =>
      have apart : ref' ≠ ref := by
        rintro rfl
        exact different (separated.distinct placed found)
      simp [read_write_of_ne apart]

omit [Inhabited α] in
/-- A name may be given a new record. -/
theorem Separated.alloc (separated : Separated cells place) (name : ι) (record : α) :
    Separated (cells.alloc record)
      (fun other => if other = name then some cells.size else place other) := by
  constructor
  · intro other ref placed
    rw [size_alloc]
    split at placed
    · cases placed
      exact Nat.lt_succ_self _
    · exact Nat.lt_succ_of_lt (separated.allocated placed)
  · intro other other' ref placed placed'
    split at placed <;> split at placed'
    · next first second => exact second.trans first.symm
    · cases placed
      exact absurd (separated.allocated placed') (Nat.lt_irrefl _)
    · cases placed'
      exact absurd (separated.allocated placed) (Nat.lt_irrefl _)
    · exact separated.distinct placed placed'

/-- Giving a name a new record changes that name only. -/
theorem Separated.contents_alloc (separated : Separated cells place)
    (name : ι) (record : α) (other : ι) :
    (cells.alloc record).contents
        (fun other => if other = name then some cells.size else place other)
        other =
      if other = name then some record else cells.contents place other := by
  unfold contents
  simp only
  split
  · simp
  · cases found : place other with
    | none => rfl
    | some ref => simp [read_alloc_of_lt (separated.allocated found)]

end Cells
end LiteNode
