import LiteNode.Data.Bytes
import Mathlib.Data.Prod.Lex

/-!
# Ordered sets

A set kept in increasing order by a comparison. When the comparison is that of
a key, an item with a new key is added as itself and an item of the set is
removed as itself.
-/

namespace LiteNode

def compareBytes (left right : Bytes) : Ordering :=
  if left < right then .lt else if left = right then .eq else .gt

namespace Ordered

section Sets

variable (compare : α → α → Ordering)

/-- Add an item, unless an equal one is in the set. -/
def add (item : α) : List α → List α
  | [] => [item]
  | first :: rest =>
    match compare item first with
    | .lt => item :: first :: rest
    | .eq => first :: rest
    | .gt => first :: add item rest

/-- Add an item in the place of an equal one. -/
def bind (item : α) : List α → List α
  | [] => [item]
  | first :: rest =>
    match compare item first with
    | .lt => item :: first :: rest
    | .eq => item :: rest
    | .gt => first :: bind item rest

/-- Remove the item that is equal to a given one. -/
def remove (item : α) : List α → List α
  | [] => []
  | first :: rest =>
    match compare item first with
    | .lt => first :: rest
    | .eq => rest
    | .gt => first :: remove item rest

end Sets

/-- A comparison is that of a key. -/
structure ByKey [LinearOrder κ] (compare : α → α → Ordering) (key : α → κ) : Prop where
  lt_iff : ∀ left right, compare left right = .lt ↔ key left < key right
  eq_iff : ∀ left right, compare left right = .eq ↔ key left = key right

variable [LinearOrder κ] [LinearOrder τ]

theorem byKey_compareBytes (field : α → Bytes) :
    ByKey (fun left right => compareBytes (field left) (field right)) field
    where
  lt_iff left right := by
    unfold compareBytes
    split
    · next below => simp [below]
    · next above => split <;> simp [above]
  eq_iff left right := by
    unfold compareBytes
    split
    · next below => simp [below.ne]
    · next above => split <;> simp_all

theorem byKey_compare (field : α → Int) :
    ByKey (fun left right => compare (field left) (field right)) field where
  lt_iff _ _ := compare_lt_iff_lt
  eq_iff _ _ := compare_eq_iff_eq

theorem ByKey.andThen {first second : α → α → Ordering} {key : α → κ} {next : α → τ}
    (byFirst : ByKey first key) (bySecond : ByKey second next) :
    ByKey (fun left right => (first left right).then (second left right))
      (fun item => toLex (key item, next item)) where
  lt_iff left right := by
    rw [Prod.Lex.toLex_lt_toLex, ← byFirst.lt_iff, ← byFirst.eq_iff,
      ← bySecond.lt_iff, Ordering.then_eq_lt]
  eq_iff left right := by
    rw [toLex_inj, Prod.mk.injEq, ← byFirst.eq_iff, ← bySecond.eq_iff, Ordering.then_eq_eq]

/-- Compare the other way around. -/
theorem ByKey.reversed {compare : α → α → Ordering} {key : α → κ} (byKey : ByKey compare key) :
    ByKey (fun left right => compare right left) (fun item => OrderDual.toDual (key item)) where
  lt_iff left right := by
    rw [OrderDual.toDual_lt_toDual]
    exact byKey.lt_iff right left
  eq_iff left right := by
    rw [OrderDual.toDual_inj]
    exact (byKey.eq_iff right left).trans eq_comm

/-- Items whose keys increase. -/
def Increasing (key : α → κ) (items : List α) : Prop :=
  items.Pairwise fun left right => key left < key right

variable {compare : α → α → Ordering} {key : α → κ}

variable {item : α} {items : List α}

theorem add_spec (byKey : ByKey compare key) (increasing : Increasing key items)
    (new : ∀ other ∈ items, key other ≠ key item) :
    (add compare item items).Perm (item :: items) ∧ Increasing key (add compare item items) := by
  induction items with
  | nil => exact ⟨.refl _, List.pairwise_singleton _ _⟩
  | cons first rest ih =>
    obtain ⟨least, increasing⟩ := List.pairwise_cons.mp increasing
    obtain ⟨perm, ordered⟩ := ih increasing
      fun other listed => new other (List.mem_cons_of_mem _ listed)
    have apart := new first List.mem_cons_self
    rw [add]
    split
    · next below =>
      rw [byKey.lt_iff] at below
      refine ⟨.refl _, List.pairwise_cons.mpr ⟨?_, List.pairwise_cons.mpr ⟨least, increasing⟩⟩⟩
      intro other listed
      rcases List.mem_cons.mp listed with rfl | later
      · exact below
      · exact below.trans (least other later)
    · next same =>
      exact absurd ((byKey.eq_iff _ _).mp same).symm apart
    · next above =>
      have after : key first < key item := by
        rcases lt_trichotomy (key item) (key first) with below | same | after
        · rw [(byKey.lt_iff _ _).mpr below] at above
          cases above
        · exact absurd same.symm apart
        · exact after
      refine ⟨(perm.cons first).trans (.swap item first rest), List.pairwise_cons.mpr ⟨?_, ordered⟩⟩
      intro other listed
      rcases List.mem_cons.mp (perm.mem_iff.mp listed) with rfl | later
      · exact after
      · exact least other later

/-- An item with a new key takes no other's place. -/
theorem bind_eq_add (byKey : ByKey compare key) (new : ∀ other ∈ items, key other ≠ key item) :
    bind compare item items = add compare item items := by
  induction items with
  | nil => rfl
  | cons first rest ih =>
    have apart := new first List.mem_cons_self
    have others := ih fun other listed => new other (List.mem_cons_of_mem _ listed)
    rw [bind, add, others]
    split
    · rfl
    · next same =>
      exact absurd ((byKey.eq_iff _ _).mp same).symm apart
    · rfl

/-- An item is bound to its key, and the items of other keys stay. -/
theorem mem_bind (byKey : ByKey compare key) {other : α} (increasing : Increasing key items) :
    other ∈ bind compare item items ↔ other = item ∨ other ∈ items ∧ key other ≠ key item := by
  induction items with
  | nil => simp [bind]
  | cons first rest ih =>
    obtain ⟨least, later⟩ := List.pairwise_cons.mp increasing
    rw [bind]
    split
    · next below =>
      rw [byKey.lt_iff] at below
      have apart : ∀ kept ∈ first :: rest, key kept ≠ key item := by
        intro kept listed
        rcases List.mem_cons.mp listed with rfl | further
        · exact below.ne'
        · exact (below.trans (least kept further)).ne'
      rw [List.mem_cons]
      constructor
      · exact Or.imp id fun listed => ⟨listed, apart other listed⟩
      · exact Or.imp id And.left
    · next same =>
      rw [byKey.eq_iff] at same
      rw [List.mem_cons, List.mem_cons]
      constructor
      · exact Or.imp id fun listed => ⟨Or.inr listed, same ▸ (least other listed).ne'⟩
      · rintro (rfl | ⟨rfl | listed, apart⟩)
        · exact Or.inl rfl
        · exact absurd same.symm apart
        · exact Or.inr listed
    · next above =>
      have apart : key first ≠ key item := by
        intro same
        rw [(byKey.eq_iff _ _).mpr same.symm] at above
        cases above
      rw [List.mem_cons, ih later, List.mem_cons]
      constructor
      · rintro (rfl | rfl | ⟨listed, different⟩)
        · exact Or.inr ⟨Or.inl rfl, apart⟩
        · exact Or.inl rfl
        · exact Or.inr ⟨Or.inr listed, different⟩
      · rintro (rfl | ⟨rfl | listed, different⟩)
        · exact Or.inr (Or.inl rfl)
        · exact Or.inl rfl
        · exact Or.inr (Or.inr ⟨listed, different⟩)

theorem increasing_bind (byKey : ByKey compare key) (increasing : Increasing key items) :
    Increasing key (bind compare item items) := by
  induction items with
  | nil => exact List.pairwise_singleton _ _
  | cons first rest ih =>
    obtain ⟨least, later⟩ := List.pairwise_cons.mp increasing
    rw [bind]
    split
    · next below =>
      rw [byKey.lt_iff] at below
      refine List.pairwise_cons.mpr ⟨?_, increasing⟩
      intro other listed
      rcases List.mem_cons.mp listed with rfl | further
      · exact below
      · exact below.trans (least other further)
    · next same =>
      rw [byKey.eq_iff] at same
      exact List.pairwise_cons.mpr ⟨fun other listed => same ▸ least other listed, later⟩
    · next above =>
      refine List.pairwise_cons.mpr ⟨?_, ih later⟩
      intro other listed
      rcases (mem_bind byKey later).mp listed with rfl | ⟨kept, _⟩
      · rcases lt_trichotomy (key other) (key first) with
          below | same | after
        · rw [(byKey.lt_iff _ _).mpr below] at above
          cases above
        · rw [(byKey.eq_iff _ _).mpr same] at above
          cases above
        · exact after
      · exact least other kept

theorem remove_spec (byKey : ByKey compare key)
    (increasing : Increasing key items) (present : item ∈ items) :
    items.Perm (item :: remove compare item items) ∧
      Increasing key (remove compare item items) := by
  induction items with
  | nil => simp at present
  | cons first rest ih =>
    obtain ⟨least, later⟩ := List.pairwise_cons.mp increasing
    rw [remove]
    rcases List.mem_cons.mp present with rfl | listed
    · rw [(byKey.eq_iff item item).mpr rfl]
      exact ⟨.refl _, later⟩
    · obtain ⟨perm, ordered⟩ := ih later listed
      have after := least item listed
      have above : compare item first = .gt := by
        cases found : compare item first with
        | lt => exact absurd ((byKey.lt_iff _ _).mp found) after.not_gt
        | eq => exact absurd ((byKey.eq_iff _ _).mp found) after.ne'
        | gt => rfl
      rw [above]
      refine ⟨(perm.cons first).trans (.swap item first _), List.pairwise_cons.mpr ⟨?_, ordered⟩⟩
      intro other kept
      exact least other (perm.mem_iff.mpr (List.mem_cons_of_mem _ kept))

/-- In a sorted list the items of one value stand together. -/
theorem takeWhile_dropWhile_eq_filter (field : α → κ) (value : κ)
    (sorted : items.Pairwise fun left right => field left ≤ field right) :
    (items.dropWhile fun item => field item < value).takeWhile
        (fun item => field item = value) =
      items.filter fun item => field item = value := by
  induction items with
  | nil => rfl
  | cons first rest ih =>
    obtain ⟨least, later⟩ := List.pairwise_cons.mp sorted
    rw [List.dropWhile_cons]
    split
    · next below =>
      rw [ih later, List.filter_cons_of_neg]
      simpa using (of_decide_eq_true below).ne
    · next reached =>
      have reached : value ≤ field first := by simpa using reached
      rw [List.takeWhile_cons, List.filter_cons]
      split
      · next same =>
        have same : field first = value := of_decide_eq_true same
        -- nothing later is below the value
        have skipped : (rest.dropWhile fun item => field item < value) = rest := by
          cases rest with
          | nil => rfl
          | cons second rest =>
            have next := least second List.mem_cons_self
            rw [List.dropWhile_cons_of_neg]
            simpa [same] using next
        rw [← ih later, skipped]
      · next apart =>
        have above : value < field first := reached.lt_of_ne fun same => apart (by simp [same])
        rw [eq_comm, List.filter_eq_nil_iff]
        intro other listed
        simpa using (above.trans_le (least other listed)).ne'

def sort (compare : α → α → Ordering) (items : List α) : List α :=
  items.insertionSort fun left right => compare left right ≠ .gt

theorem sort_perm (compare : α → α → Ordering) (items : List α) : (sort compare items).Perm items :=
  List.perm_insertionSort _ _

@[simp] theorem mem_sort : item ∈ sort compare items ↔ item ∈ items :=
  (sort_perm compare items).mem_iff

theorem ByKey.ne_gt_iff (byKey : ByKey compare key) (left right : α) :
    compare left right ≠ .gt ↔ key left ≤ key right := by
  rw [le_iff_lt_or_eq, ← byKey.lt_iff, ← byKey.eq_iff]
  cases compare left right <;> simp

theorem ByKey.pairwise_sort (byKey : ByKey compare key) (items : List α) :
    (sort compare items).Pairwise fun left right => key left ≤ key right := by
  have total : Std.Total fun left right : α => compare left right ≠ .gt :=
    ⟨fun left right => by
      rw [byKey.ne_gt_iff, byKey.ne_gt_iff]
      exact le_total _ _⟩
  have trans : IsTrans α fun left right => compare left right ≠ .gt :=
    ⟨fun _ _ _ first second => by
      rw [byKey.ne_gt_iff] at first second ⊢
      exact first.trans second⟩
  exact (List.pairwise_insertionSort _ items).imp (byKey.ne_gt_iff _ _).mp

/-- What equal items share stands in the same places, whatever their order
was. -/
theorem ByKey.map_sort_eq_of_perm (byKey : ByKey compare key) {others : List α}
    (same : items.Perm others) {shared : α → β}
    (respects : ∀ left ∈ items, ∀ right ∈ items, key left = key right →
      shared left = shared right) :
    (sort compare items).map shared = (sort compare others).map shared := by
  have keys : (sort compare items).map key = (sort compare others).map key := by
    apply @List.Perm.eq_of_pairwise _ (· ≤ ·)
    · intro left right _ _ below above
      exact le_antisymm below above
    · exact List.pairwise_map.mpr (byKey.pairwise_sort items)
    · exact List.pairwise_map.mpr (byKey.pairwise_sort others)
    · exact ((sort_perm _ items).trans (same.trans (sort_perm _ others).symm)).map key
  have length := congrArg List.length keys
  rw [List.length_map, List.length_map] at length
  apply List.ext_getElem
  · rw [List.length_map, List.length_map, length]
  · intro place inLeft inRight
    rw [List.length_map] at inLeft inRight
    rw [List.getElem_map, List.getElem_map]
    apply respects
    · exact mem_sort.mp (List.getElem_mem inLeft)
    · exact same.mem_iff.mpr (mem_sort.mp (List.getElem_mem inRight))
    · have found := congrArg (·[place]?) keys
      simpa [inLeft, inRight] using found

theorem ByKey.sort_eq_of_perm (byKey : ByKey compare key) {others : List α}
    (same : items.Perm others) (apart : ∀ left ∈ items, ∀ right ∈ items, key left = key right →
      left = right) :
    sort compare items = sort compare others := by
  have mapped := @map_sort_eq_of_perm _ _ _ _ _ _ _ byKey _ same id apart
  rwa [List.map_id, List.map_id] at mapped

end Ordered
end LiteNode
