import Mathlib.Data.List.Dedup
import Mathlib.Data.List.Lex
import Mathlib.Data.List.Sort

/-!
# Byte strings

Byte strings with the lexicographic order of their bytes, and the sort of a
list by a byte-string key. Sorting is stable, so its result is determined by
the multiset of elements whenever the keys are distinct.
-/

namespace LiteNode

/-- Bytes are ordered by value. -/
instance byteOrder : LinearOrder UInt8 where
  le_refl := UInt8.le_refl
  le_trans _ _ _ := UInt8.le_trans
  le_antisymm _ _ := UInt8.le_antisymm
  le_total := UInt8.le_total
  toDecidableLE := inferInstance
  lt_iff_le_not_ge left right := by
    simp only [UInt8.lt_iff_toNat_lt, UInt8.le_iff_toNat_le]
    omega

/-- A byte string, compared lexicographically. -/
abbrev Bytes := List UInt8

def Bytes.ofAscii (text : String) : Bytes := text.toList.map fun char => UInt8.ofNat char.toNat

def sortByKey (key : α → Bytes) (items : List α) : List α :=
  items.insertionSort fun left right => key left ≤ key right

theorem sortByKey_perm (key : α → Bytes) (items : List α) : (sortByKey key items).Perm items :=
  List.perm_insertionSort _ _

variable {key : α → Bytes} {items : List α}

@[simp] theorem mem_sortByKey {item : α} : item ∈ sortByKey key items ↔ item ∈ items :=
  (sortByKey_perm key items).mem_iff

@[simp] theorem length_sortByKey (key : α → Bytes) (items : List α) :
    (sortByKey key items).length = items.length :=
  (sortByKey_perm key items).length_eq

theorem sortByKey_pairwise (key : α → Bytes) (items : List α) :
    (sortByKey key items).Pairwise fun left right => key left ≤ key right := by
  have : Std.Total fun left right : α => key left ≤ key right :=
    ⟨fun left right => le_total (key left) (key right)⟩
  have : IsTrans α fun left right => key left ≤ key right :=
    ⟨fun _ _ _ first second => le_trans first second⟩
  exact List.pairwise_insertionSort _ items

/-- Sorting a list whose keys increase changes nothing. -/
theorem sortByKey_eq_self (increasing : items.Pairwise fun left right => key left ≤ key right) :
    sortByKey key items = items :=
  increasing.insertionSort_eq

@[simp] theorem sortByKey_idem (key : α → Bytes) (items : List α) :
    sortByKey key (sortByKey key items) = sortByKey key items :=
  sortByKey_eq_self (sortByKey_pairwise key items)

theorem sortByKey_map {key' : β → Bytes} {f : α → β}
    (same : ∀ item, key' (f item) = key item) (items : List α) :
    sortByKey key' (items.map f) = (sortByKey key items).map f := by
  unfold sortByKey
  rw [List.map_insertionSort (r := fun left right => key left ≤ key right)
    (s := fun left right => key' left ≤ key' right)]
  intro left _ right _
  rw [same left, same right]

/-- Sorting by distinct keys does not depend on the order of the items. -/
theorem sortByKey_eq_of_perm {others : List α} (same : items.Perm others)
    (distinct : (items.map key).Nodup) : sortByKey key items = sortByKey key others := by
  refine List.Perm.eq_of_pairwise ?_ (sortByKey_pairwise key items)
    (sortByKey_pairwise key others)
    ((sortByKey_perm key items).trans (same.trans (sortByKey_perm key others).symm))
  intro left right leftListed rightListed below above
  refine List.inj_on_of_nodup_map distinct (mem_sortByKey.mp leftListed) ?_
    (le_antisymm below above)
  exact same.mem_iff.mpr (mem_sortByKey.mp rightListed)

/-- Sort the keys and drop repeated ones. -/
def sortUniq (keys : List Bytes) : List Bytes := (sortByKey id keys).dedup

/-- Sorted keys survive exactly when they are distinct. -/
theorem sortUniq_eq_self_iff {keys : List Bytes} (sorted : keys.Pairwise (· ≤ ·)) :
    sortUniq keys = keys ↔ keys.Nodup := by
  unfold sortUniq
  rw [@sortByKey_eq_self Bytes id keys sorted]
  exact List.dedup_eq_self

end LiteNode
