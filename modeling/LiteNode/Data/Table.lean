import Mathlib.Data.List.AList
import Mathlib.Algebra.BigOperators.Group.Finset.Basic
import Mathlib.Algebra.Order.BigOperators.Group.List
import Mathlib.Algebra.Order.Ring.Int

/-!
# Hash tables as finite maps

A table holds at most one binding per key. It is an association list without
duplicate keys; the order of the bindings is the order in which a fold visits
them.
-/

namespace LiteNode

/-- A finite map from keys to values of one type. -/
structure Table (κ : Type u) (ν : Type v) where bindings : AList fun _ : κ => ν

namespace Table

variable {κ : Type u} {ν : Type v}

instance : EmptyCollection (Table κ ν) := ⟨⟨∅⟩⟩

instance : Inhabited (Table κ ν) := ⟨∅⟩

/-- The bindings in the order of a fold. -/
def toList (table : Table κ ν) : List (κ × ν) :=
  table.bindings.entries.map fun entry => (entry.1, entry.2)

/-- The stored values in the order of a fold. -/
def values (table : Table κ ν) : List ν := table.toList.map Prod.snd

/-- Number of bindings. -/
def length (table : Table κ ν) : Nat := table.toList.length

/-- Keep the bindings whose key passes the test. -/
def filterKeys (keep : κ → Bool) (table : Table κ ν) : Table κ ν :=
  ⟨⟨table.bindings.entries.filter fun entry => keep entry.1,
    table.bindings.nodupKeys.sublist List.filter_sublist⟩⟩

/-- Keep the bindings whose value passes the test. -/
def filterValues (keep : ν → Bool) (table : Table κ ν) : Table κ ν :=
  ⟨⟨table.bindings.entries.filter fun entry => keep entry.2,
    table.bindings.nodupKeys.sublist List.filter_sublist⟩⟩

theorem nodup_keys (table : Table κ ν) : (table.toList.map Prod.fst).Nodup := by
  have distinct := table.bindings.nodupKeys
  rw [List.NodupKeys] at distinct
  simpa [toList, List.keys, Function.comp_def] using distinct

@[simp] theorem toList_empty : (∅ : Table κ ν).toList = [] := rfl

@[simp] theorem values_empty : (∅ : Table κ ν).values = [] := rfl

@[simp] theorem length_empty : (∅ : Table κ ν).length = 0 := rfl

variable [DecidableEq κ]

/-- The value bound to a key. -/
def find? (table : Table κ ν) (key : κ) : Option ν := table.bindings.lookup key

/-- Whether a key is bound. -/
def mem (table : Table κ ν) (key : κ) : Bool := (table.find? key).isSome

/-- Bind a key, dropping its former binding. -/
def replace (table : Table κ ν) (key : κ) (value : ν) : Table κ ν :=
  ⟨table.bindings.insert key value⟩

/-- Drop the binding of a key. -/
def remove (table : Table κ ν) (key : κ) : Table κ ν := ⟨table.bindings.erase key⟩

variable {table : Table κ ν} {key : κ} {value : ν}

theorem mem_toList : (key, value) ∈ table.toList ↔ table.find? key = some value := by
  unfold find?
  rw [← Option.mem_def, AList.mem_lookup_iff]
  simp [toList]

theorem mem_values : value ∈ table.values ↔ ∃ key, table.find? key = some value := by
  simp [values, ← mem_toList]

@[simp] theorem find?_empty (key : κ) : (∅ : Table κ ν).find? key = none := AList.lookup_empty key

/-- Searching the bindings in order finds the bound value. -/
theorem lookup_toList [BEq κ] [LawfulBEq κ] (table : Table κ ν) (key : κ) :
    table.toList.lookup key = table.find? key := by
  cases found : table.find? key with
  | none =>
    rw [List.lookup_eq_none_iff]
    rintro ⟨other, value⟩ present
    rw [bne_iff_ne]
    rintro rfl
    rw [mem_toList.mp present] at found
    cases found
  | some value =>
    have present : (table.toList.lookup key).isSome := by
      rw [List.lookup_isSome_iff]
      exact ⟨(key, value), mem_toList.mpr found, beq_self_eq_true key⟩
    obtain ⟨other, lookup⟩ := Option.isSome_iff_exists.mp present
    obtain ⟨before, after, split, -⟩ := List.lookup_eq_some_iff.mp lookup
    have member : (key, other) ∈ table.toList := by simp [split]
    rw [lookup, ← found, mem_toList.mp member]

theorem find?_of_length_eq_zero (empty : table.length = 0) (key : κ) : table.find? key = none := by
  cases found : table.find? key with
  | none => rfl
  | some value =>
    have present := mem_toList.mpr found
    rw [List.length_eq_zero_iff.mp empty] at present
    simp at present

@[simp] theorem find?_replace (table : Table κ ν) (key : κ) (value : ν) :
    (table.replace key value).find? key = some value :=
  AList.lookup_insert table.bindings

theorem find?_replace_ne {other : κ} (different : other ≠ key) :
    (table.replace key value).find? other = table.find? other :=
  AList.lookup_insert_ne different

theorem find?_replace_eq_ite (table : Table κ ν) (key other : κ) (value : ν) :
    (table.replace key value).find? other =
      if other = key then some value else table.find? other := by
  split
  · next equal => rw [equal, find?_replace]
  · next different => exact find?_replace_ne different

/-- A new key puts its binding in front. -/
theorem toList_replace_of_find?_eq_none (absent : table.find? key = none) :
    (table.replace key value).toList = (key, value) :: table.toList := by
  unfold toList replace
  rw [AList.entries_insert_of_notMem (AList.lookup_eq_none.mp absent)]
  rfl

theorem values_replace_of_find?_eq_none (absent : table.find? key = none) :
    (table.replace key value).values = value :: table.values := by
  simp [values, toList_replace_of_find?_eq_none absent]

theorem find?_remove_eq_ite (table : Table κ ν) (key other : κ) :
    (table.remove key).find? other = if other = key then none else table.find? other := by
  split
  · next equal => rw [equal]; exact AList.lookup_erase key table.bindings
  · next different => exact AList.lookup_erase_ne different

@[simp] theorem find?_filterKeys (keep : κ → Bool) (table : Table κ ν) (key : κ) :
    (table.filterKeys keep).find? key = if keep key then table.find? key else none := by
  ext value
  rw [← mem_toList]
  have filtered : (key, value) ∈ (table.filterKeys keep).toList ↔
      keep key ∧ (key, value) ∈ table.toList := by
    simp [toList, filterKeys, and_comm]
  rw [filtered, mem_toList]
  split
  · next kept => simp [kept]
  · next dropped => simp [dropped]

theorem find?_filterValues (keep : ν → Bool) (table : Table κ ν) (key : κ) :
    (table.filterValues keep).find? key = (table.find? key).filter keep := by
  ext value
  rw [← mem_toList, Option.filter_eq_some_iff, ← mem_toList]
  simp [toList, filterValues]

theorem length_filterValues_le (keep : ν → Bool) (table : Table κ ν) :
    (table.filterValues keep).length ≤ table.length := by
  simp only [length, toList, filterValues, List.length_map]
  exact List.length_filter_le ..

theorem length_replace_of_find?_eq_none (absent : table.find? key = none) :
    (table.replace key value).length = table.length + 1 := by
  simp [length, toList_replace_of_find?_eq_none absent]

theorem mem_iff : table.mem key = true ↔ ∃ value, table.find? key = some value := by
  unfold mem
  rw [Option.isSome_iff_exists]

theorem find?_eq_none_iff : table.find? key = none ↔ table.mem key = false := by
  unfold mem
  rw [Option.isSome_eq_false_iff, Option.isNone_iff_eq_none]

section lookup

variable [BEq κ] [LawfulBEq κ]

omit [DecidableEq κ] in
theorem lookup_eq_none_of_notMem {entries : List (κ × ν)} {key : κ}
    (unlisted : key ∉ entries.map Prod.fst) : entries.lookup key = none := by
  rw [List.lookup_eq_none_iff]
  intro entry present
  rw [bne_iff_ne]
  rintro rfl
  exact unlisted (List.mem_map_of_mem present)

theorem lookup_cons_eq_ite (entry : κ × ν) (entries : List (κ × ν)) (key : κ) :
    (entry :: entries).lookup key =
      if key = entry.1 then some entry.2 else entries.lookup key := by
  rw [List.lookup_cons]
  by_cases same : key = entry.1
  · rw [if_pos same, beq_iff_eq.mpr same]
  · rw [if_neg same, beq_eq_false_iff_ne.mpr same]

/-- Distinct keys are found wherever they are listed. -/
theorem lookup_eq_some_iff {entries : List (κ × ν)} (distinct : (entries.map Prod.fst).Nodup)
    {key : κ} {value : ν} : entries.lookup key = some value ↔ (key, value) ∈ entries := by
  induction entries with
  | nil => simp
  | cons entry rest ih =>
    rw [List.map_cons, List.nodup_cons] at distinct
    rw [lookup_cons_eq_ite, List.mem_cons]
    split
    · next same =>
      have unlisted : (entry.1, value) ∉ rest := fun present =>
        distinct.1 (List.mem_map.mpr ⟨_, present, rfl⟩)
      rw [same, or_iff_left unlisted]
      simp [Prod.ext_iff, eq_comm]
    · next apart =>
      rw [ih distinct.2]
      simp [Prod.ext_iff, apart]

end lookup

/-- Bind or drop one key. -/
def alter (table : Table κ ν) (change : κ × Option ν) : Table κ ν :=
  match change.2 with
  | some value => table.replace change.1 value
  | none => table.remove change.1

/-- Put recorded bindings back: a key without one is dropped. -/
def restore (table : Table κ ν) (recorded : Table κ (Option ν)) : Table κ ν :=
  recorded.toList.foldl alter table

/-- A table with the bindings of another one. -/
def copyOf (source : Table κ ν) : Table κ ν :=
  source.toList.foldl (fun table entry => table.replace entry.1 entry.2) ∅

theorem find?_alter (table : Table κ ν) (change : κ × Option ν) (key : κ) :
    (table.alter change).find? key = if key = change.1 then change.2 else table.find? key := by
  unfold alter
  cases changed : change.2 with
  | some value => exact find?_replace_eq_ite _ _ _ _
  | none => exact find?_remove_eq_ite _ _ _

theorem find?_foldl_alter (changes : List (κ × Option ν)) (table : Table κ ν)
    (distinct : (changes.map Prod.fst).Nodup) (key : κ) :
    (changes.foldl alter table).find? key = (changes.lookup key).getD (table.find? key) := by
  induction changes generalizing table with
  | nil => rfl
  | cons change rest ih =>
    rw [List.map_cons, List.nodup_cons] at distinct
    rw [List.foldl_cons, ih _ distinct.2, find?_alter, lookup_cons_eq_ite]
    split
    · next same =>
      rw [same, lookup_eq_none_of_notMem distinct.1]
      rfl
    · rfl

/-- Restoring gives recorded keys their recorded bindings, and leaves the
others. -/
theorem find?_restore (table : Table κ ν) (recorded : Table κ (Option ν)) (key : κ) :
    (table.restore recorded).find? key = (recorded.find? key).getD (table.find? key) := by
  unfold restore
  rw [find?_foldl_alter _ _ recorded.nodup_keys, lookup_toList]

@[simp] theorem find?_copyOf (source : Table κ ν) (key : κ) :
    source.copyOf.find? key = source.find? key := by
  have bound : source.copyOf =
      (source.toList.map fun entry => (entry.1, some entry.2)).foldl alter ∅ := by
    rw [List.foldl_map]
    rfl
  have distinct : ((source.toList.map fun entry =>
      (entry.1, some entry.2)).map Prod.fst).Nodup := by
    rw [List.map_map]
    exact source.nodup_keys
  have listed : ∀ entries : List (κ × ν),
      (entries.map fun entry => (entry.1, some entry.2)).lookup key =
        (entries.lookup key).map some := by
    intro entries
    induction entries with
    | nil => rfl
    | cons entry rest ih =>
      rw [List.map_cons, lookup_cons_eq_ite, lookup_cons_eq_ite]
      split
      · rfl
      · exact ih
  rw [bound, find?_foldl_alter _ _ distinct, listed, lookup_toList, find?_empty]
  cases source.find? key <;> rfl

end Table
end LiteNode

/-!
## Sums over finite maps

The sum of a weight over the bindings of a table depends on what the table
maps, not on the order of its bindings. Binding a key trades the weight of its
former value for that of the new one. Two tables are layered with the upper one
first.
-/

namespace LiteNode
namespace Table

variable {κ : Type u} {ν : Type v}

/-- Sum of a weight over the stored values. -/
def sumBy (weight : ν → Int) (table : Table κ ν) : Int := (table.values.map weight).sum

@[simp] theorem sumBy_empty (weight : ν → Int) : (∅ : Table κ ν).sumBy weight = 0 := rfl

variable [DecidableEq κ]

/-- Weight of a key's value, zero for an unbound key. -/
def weightAt (weight : ν → Int) (table : Table κ ν) (key : κ) : Int :=
  ((table.find? key).map weight).getD 0

/-- Look a key up in the upper table, then in the lower one. -/
def overlaying (upper lower : Table κ ν) : Table κ ν := ⟨upper.bindings ∪ lower.bindings⟩

@[simp] theorem find?_overlaying (upper lower : Table κ ν) (key : κ) :
    (upper.overlaying lower).find? key = (upper.find? key).or (lower.find? key) := by
  unfold find? overlaying
  cases found : upper.bindings.lookup key with
  | none =>
    rw [AList.lookup_union_right (AList.lookup_eq_none.mp found)]
    rfl
  | some value =>
    have bound : key ∈ upper.bindings := by
      rw [← AList.lookup_isSome, found]
      rfl
    rw [AList.lookup_union_left bound, found]
    rfl

@[simp] theorem mem_empty (key : κ) : (∅ : Table κ ν).mem key = false := by simp [mem]

theorem mem_replace (table : Table κ ν) (key other : κ) (value : ν) :
    (table.replace key value).mem other = (decide (other = key) || table.mem other) := by
  unfold mem
  rw [find?_replace_eq_ite]
  by_cases same : other = key <;> simp [same]

variable {table : Table κ ν}

/-- Tables that map the same are permutations of each other. -/
theorem toList_perm {other : Table κ ν} (same : ∀ key, table.find? key = other.find? key) :
    table.toList.Perm other.toList := by
  refine (List.perm_ext_iff_of_nodup table.nodup_keys.of_map other.nodup_keys.of_map).mpr ?_
  rintro ⟨key, value⟩
  rw [mem_toList, mem_toList, same]

theorem sumBy_congr {other : Table κ ν} (weight : ν → Int)
    (same : ∀ key, table.find? key = other.find? key) :
    table.sumBy weight = other.sumBy weight := by
  have listed := (toList_perm same).map fun entry => weight entry.2
  have total := listed.sum_eq
  unfold sumBy values
  rwa [List.map_map, List.map_map]

/-- A key is bound in front of the other bindings. -/
theorem toList_replace (table : Table κ ν) (key : κ) (value : ν) :
    (table.replace key value).toList = (key, value) :: (table.remove key).toList := rfl

theorem sumBy_remove_of_find?_eq_none {key : κ} (weight : ν → Int)
    (absent : table.find? key = none) : (table.remove key).sumBy weight = table.sumBy weight := by
  refine sumBy_congr weight fun other => ?_
  rw [find?_remove_eq_ite]
  split
  · next equal => rw [equal, absent]
  · rfl

theorem sumBy_replace_remove (weight : ν → Int) (table : Table κ ν) (key : κ) (value : ν) :
    (table.replace key value).sumBy weight = weight value + (table.remove key).sumBy weight := by
  unfold sumBy values
  rw [toList_replace]
  simp

theorem sumBy_remove (weight : ν → Int) (table : Table κ ν) (key : κ) :
    (table.remove key).sumBy weight = table.sumBy weight - table.weightAt weight key := by
  cases found : table.find? key with
  | none =>
    rw [sumBy_remove_of_find?_eq_none weight found]
    simp [weightAt, found]
  | some value =>
    have restored : ∀ other, (table.replace key value).find? other = table.find? other := by
      intro other
      rw [find?_replace_eq_ite]
      split
      · next equal => rw [equal, found]
      · rfl
    have total := sumBy_congr weight restored
    rw [sumBy_replace_remove] at total
    have here : table.weightAt weight key = weight value := by simp [weightAt, found]
    omega

/-- Binding a key trades the weight of its former value for the new one. -/
theorem sumBy_replace (weight : ν → Int) (table : Table κ ν) (key : κ) (value : ν) :
    (table.replace key value).sumBy weight =
      table.sumBy weight - table.weightAt weight key + weight value := by
  rw [sumBy_replace_remove, sumBy_remove]
  omega

theorem sumBy_nonneg {weight : ν → Int}
    (nonneg : ∀ key value, table.find? key = some value → 0 ≤ weight value) :
    0 ≤ table.sumBy weight := by
  apply List.sum_nonneg
  intro item present
  obtain ⟨value, stored, rfl⟩ := List.mem_map.mp present
  obtain ⟨key, found⟩ := mem_values.mp stored
  exact nonneg key value found

theorem weightAt_le_sumBy {weight : ν → Int}
    (nonneg : ∀ key value, table.find? key = some value → 0 ≤ weight value)
    (key : κ) : table.weightAt weight key ≤ table.sumBy weight := by
  have rest : 0 ≤ (table.remove key).sumBy weight := by
    refine sumBy_nonneg fun other value found => ?_
    rw [find?_remove_eq_ite] at found
    split at found
    · cases found
    · exact nonneg other value found
  rw [sumBy_remove] at rest
  omega

end Table
end LiteNode
