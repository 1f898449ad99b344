import Mathlib.Data.List.Sort

/-!
# The least items of a listing

A heap in a list keeps the least items of those that were offered to it, with
the greatest of them at its root: an item enters while there is room, and then
takes the place of the root if it is less. Sorted, the heap holds the first
items of the sorted listing.
-/

namespace LiteNode
namespace LeastItems

variable {α : Type u} [LinearOrder α]

/-- Move a hole up to where a value belongs. -/
def rise (heap : List α) (hole : Nat) (value : α) (inside : hole < heap.length) : List α :=
  if hole = 0 then heap.set hole value
  else if value ≤ heap[(hole - 1) / 2] then heap.set hole value
  else
    rise (heap.set hole heap[(hole - 1) / 2]) ((hole - 1) / 2) value
      (by rw [List.length_set]; omega)
termination_by hole

/-- The greater child of two that stand next to each other, the left one if the
other is not there. -/
def greaterChild (heap : List α) (left : Nat) (inside : left < heap.length) : Nat :=
  if right : left + 1 < heap.length then
    if heap[left] < heap[left + 1] then left + 1 else left
  else left

theorem greaterChild_lt (heap : List α) (left : Nat) (inside : left < heap.length) :
    greaterChild heap left inside < heap.length := by
  unfold greaterChild
  split
  · split <;> omega
  · exact inside

theorem le_greaterChild (heap : List α) (left : Nat) (inside : left < heap.length) :
    left ≤ greaterChild heap left inside ∧ greaterChild heap left inside ≤ left + 1 := by
  unfold greaterChild
  split
  · split <;> omega
  · omega

/-- Move a hole down to where a value belongs. -/
def sink (heap : List α) (hole : Nat) (value : α) : List α :=
  if left : hole * 2 + 1 < heap.length then
    let child := greaterChild heap (hole * 2 + 1) left
    have bound : child < heap.length := greaterChild_lt heap _ left
    if heap[child] ≤ value then heap.set hole value
    else sink (heap.set hole heap[child]) child value
  else heap.set hole value
termination_by heap.length - hole
decreasing_by
  have after := (le_greaterChild heap (hole * 2 + 1) left).1
  rw [List.length_set]
  omega

section Items

variable {α : Type u}

theorem perm_set_set (heap : List α) {hole other : Nat} (value : α)
    (inside : hole < heap.length) (beside : other < heap.length) (apart : other ≠ hole) :
    ((heap.set hole heap[other]).set other value).Perm (heap.set hole value) := by
  have swapped := @List.set_set_perm _ (heap.set hole value) hole
    other (by rwa [List.length_set]) (by rwa [List.length_set])
  rw [List.getElem_set_self, List.getElem_set_ne apart.symm, List.set_set] at swapped
  exact swapped

theorem set_append_self (heap : List α) (item : α) :
    (heap ++ [item]).set heap.length item = heap ++ [item] := by
  rw [List.set_append_right _ _ (le_refl _), Nat.sub_self]
  rfl

end Items

theorem rise_perm (heap : List α) (hole : Nat) (value : α) (inside : hole < heap.length) :
    (rise heap hole value inside).Perm (heap.set hole value) := by
  induction heap, hole, inside using rise.induct value with
  | case1 heap inside => rw [rise, if_pos rfl]
  | case2 heap hole inside notRoot below => rw [rise, if_neg notRoot, if_pos below]
  | case3 heap hole inside notRoot above ih =>
    rw [rise, if_neg notRoot, if_neg above]
    exact ih.trans (perm_set_set heap value inside (by omega) (by omega))

theorem sink_perm (heap : List α) (hole : Nat) (value : α) :
    (sink heap hole value).Perm (heap.set hole value) := by
  induction heap, hole using sink.induct value with
  | case1 heap hole left child bound below => rw [sink, dif_pos left, if_pos below]
  | case2 heap hole left child bound above ih =>
    have after := (le_greaterChild heap (hole * 2 + 1) left).1
    rw [sink, dif_pos left, if_neg above]
    exact ih.trans (perm_set_set heap value (by omega) bound (by omega))
  | case3 heap hole childless => rw [sink, dif_neg childless]

/-- No item is greater than its parent. -/
def InOrder (heap : List α) : Prop :=
  ∀ index (inside : index < heap.length), 0 < index → heap[index] ≤ heap[(index - 1) / 2]

/-- Items that do not touch a hole are in order, and the children of the hole
are not greater than its parent. -/
structure Hole (heap : List α) (hole : Nat) : Prop where
  apart : ∀ index (inside : index < heap.length), 0 < index → index ≠ hole →
    (index - 1) / 2 ≠ hole → heap[index] ≤ heap[(index - 1) / 2]
  below : ∀ index (inside : index < heap.length), 0 < index →
    ∀ own : (index - 1) / 2 = hole, 0 < hole → heap[index] ≤ getElem heap ((hole - 1) / 2) (by omega)

variable {heap offered : List α}

theorem InOrder.hole (ordered : InOrder heap) (hole : Nat) : Hole heap hole where
  apart := fun index inside positive _ _ => ordered index inside positive
  below := by
    rintro index inside positive rfl above
    exact (ordered index inside positive).trans (ordered ((index - 1) / 2) (by omega) above)

/-- A value that fits its neighbours fills a hole. -/
theorem Hole.fill {hole : Nat} (open' : Hole heap hole) {value : α}
    (above : ∀ inside : hole < heap.length, 0 < hole →
      value ≤ heap[(hole - 1) / 2]) (below : ∀ index (inside : index < heap.length), 0 < index →
      (index - 1) / 2 = hole → heap[index] ≤ value) :
    InOrder (heap.set hole value) := by
  intro index within positive
  have inside : index < heap.length := by rwa [List.length_set] at within
  by_cases here : index = hole
  · subst here
    rw [List.getElem_set_self, List.getElem_set_ne (by omega)]
    exact above inside positive
  · rw [List.getElem_set_ne (Ne.symm here)]
    by_cases child : (index - 1) / 2 = hole
    · subst child
      rw [List.getElem_set_self]
      exact below index inside positive rfl
    · rw [List.getElem_set_ne (Ne.symm child)]
      exact open'.apart index inside positive here child

/-- Moving the parent down leaves a hole at the parent. -/
theorem Hole.rise {hole : Nat} (open' : Hole heap hole)
    (inside : hole < heap.length) (positive : 0 < hole) :
    Hole (heap.set hole heap[(hole - 1) / 2]) ((hole - 1) / 2) where
  apart := by
    intro index within' above notParent notBelow
    have within : index < heap.length := by rwa [List.length_set] at within'
    have notHole : index ≠ hole := by
      rintro rfl
      exact notBelow rfl
    rw [List.getElem_set_ne (Ne.symm notHole)]
    by_cases child : (index - 1) / 2 = hole
    · subst child
      rw [List.getElem_set_self]
      exact open'.below index within above rfl positive
    · rw [List.getElem_set_ne (Ne.symm child)]
      exact open'.apart index within above notHole child
  below := by
    intro index within' above child grand
    have within : index < heap.length := by rwa [List.length_set] at within'
    have parent : heap[(hole - 1) / 2] ≤ heap[((hole - 1) / 2 - 1) / 2] :=
      open'.apart ((hole - 1) / 2) (by omega) grand (by omega) (by omega)
    rw [List.getElem_set_ne (i := hole) (j := ((hole - 1) / 2 - 1) / 2) (by omega)]
    by_cases here : index = hole
    · subst here
      rw [List.getElem_set_self]
      exact parent
    · rw [List.getElem_set_ne (Ne.symm here)]
      have near := open'.apart index within above here (by omega)
      simp only [child] at near
      exact near.trans parent

/-- Moving a greatest child up leaves a hole at the child. -/
theorem Hole.sink {hole child : Nat} (open' : Hole heap hole)
    (inside : child < heap.length) (positive : 0 < child) (own : (child - 1) / 2 = hole)
    (greatest : ∀ index (within : index < heap.length), 0 < index →
      (index - 1) / 2 = hole → heap[index] ≤ heap[child]) :
    Hole (heap.set hole heap[child]) child where
  apart := by
    intro index within' above notChild notBelow
    have within : index < heap.length := by rwa [List.length_set] at within'
    by_cases here : index = hole
    · subst here
      rw [List.getElem_set_self, List.getElem_set_ne (by omega)]
      have near := open'.below child inside positive own above
      exact near
    · rw [List.getElem_set_ne (Ne.symm here)]
      by_cases sibling : (index - 1) / 2 = hole
      · subst sibling
        rw [List.getElem_set_self]
        exact greatest index within above rfl
      · rw [List.getElem_set_ne (Ne.symm sibling)]
        exact open'.apart index within above here sibling
  below := by
    intro index within' above under _
    have within : index < heap.length := by rwa [List.length_set] at within'
    subst own
    rw [List.getElem_set_self, List.getElem_set_ne (by omega)]
    have near := open'.apart index within above (by omega) (by omega)
    simp only [under] at near
    exact near

theorem inOrder_rise (heap : List α) (hole : Nat) (value : α) (inside : hole < heap.length)
    (open' : Hole heap hole) (below : ∀ index (within : index < heap.length), 0 < index →
      (index - 1) / 2 = hole → heap[index] ≤ value) :
    InOrder (rise heap hole value inside) := by
  induction heap, hole, inside using rise.induct value with
  | case1 heap inside =>
    rw [rise, if_pos rfl]
    exact open'.fill (fun _ impossible => absurd impossible (lt_irrefl 0)) below
  | case2 heap hole inside notRoot small =>
    rw [rise, if_neg notRoot, if_pos small]
    exact open'.fill (fun _ _ => small) below
  | case3 heap hole inside notRoot large ih =>
    rw [rise, if_neg notRoot, if_neg large]
    apply ih (open'.rise inside (Nat.pos_of_ne_zero notRoot))
    intro index within' above under
    have within : index < heap.length := by rwa [List.length_set] at within'
    have less : heap[(hole - 1) / 2] ≤ value := (not_le.mp large).le
    by_cases here : index = hole
    · subst here
      rw [List.getElem_set_self]
      exact less
    · rw [List.getElem_set_ne (Ne.symm here)]
      have near := open'.apart index within above here (by omega)
      simp only [under] at near
      exact near.trans less

theorem le_getElem_greaterChild (heap : List α) (hole : Nat) (left : hole * 2 + 1 < heap.length)
    (index : Nat) (inside : index < heap.length) (above : 0 < index)
    (own : (index - 1) / 2 = hole) :
    heap[index] ≤ getElem heap (greaterChild heap (hole * 2 + 1) left)
      (greaterChild_lt heap _ left) := by
  have either : index = hole * 2 + 1 ∨ index = hole * 2 + 1 + 1 := by omega
  unfold greaterChild
  split
  · next right =>
    split
    · next less =>
      rcases either with rfl | rfl
      · exact less.le
      · exact le_refl _
    · next more =>
      rcases either with rfl | rfl
      · exact le_refl _
      · exact not_lt.mp more
  · rcases either with rfl | rfl
    · exact le_refl _
    · omega

theorem inOrder_sink (heap : List α) (hole : Nat) (value : α) (open' : Hole heap hole)
    (above : ∀ inside : hole < heap.length, 0 < hole → value ≤ heap[(hole - 1) / 2]) :
    InOrder (sink heap hole value) := by
  induction heap, hole using sink.induct value with
  | case1 heap hole left child bound small =>
    rw [sink, dif_pos left, if_pos small]
    exact open'.fill above fun index within positive own =>
      (le_getElem_greaterChild heap hole left index within positive own).trans small
  | case2 heap hole left child bound large ih =>
    rw [sink, dif_pos left, if_neg large]
    obtain ⟨after, before⟩ := le_greaterChild heap (hole * 2 + 1) left
    have own : (child - 1) / 2 = hole := by omega
    apply ih
    · exact open'.sink bound (by omega) own (le_getElem_greaterChild heap hole left)
    · intro _ _
      simp only [own, List.getElem_set_self]
      exact (not_le.mp large).le
  | case3 heap hole childless =>
    rw [sink, dif_neg childless]
    exact open'.fill above fun index within positive own => by omega

theorem InOrder.le_root (ordered : InOrder heap) (index : Nat)
    (inside : index < heap.length) : heap[index] ≤ heap[0] := by
  induction index using Nat.strongRecOn with
  | _ index ih =>
    by_cases root : index = 0
    · subst root
      exact le_refl _
    · exact (ordered index inside (Nat.pos_of_ne_zero root)).trans
        (ih ((index - 1) / 2) (by omega) (by omega))

/-- Offer an item to a heap that has room for some items. -/
def offer (capacity : Nat) (heap : List α) (item : α) : List α :=
  if heap.length < capacity then
    rise (heap ++ [item]) heap.length item (by
      rw [List.length_append]; exact Nat.lt_succ_self _)
  else
    match heap with
    | [] => []
    | root :: _ => if item < root then sink heap 0 item else heap

/-- A heap of the least items that were offered: what was left out is not less,
and there was no room for it. -/
def Least (capacity : Nat) (offered heap : List α) : Prop :=
  ∃ rest, (heap ++ rest).Perm offered ∧ (∀ item ∈ heap, ∀ other ∈ rest, item ≤ other) ∧
    heap.length ≤ capacity ∧ (rest = [] ∨ heap.length = capacity)

theorem hole_append (ordered : InOrder heap) (item : α) : Hole (heap ++ [item]) heap.length where
  apart := by
    intro index within above notLast _
    rw [List.length_append, List.length_singleton] at within
    rw [List.getElem_append_left (by omega), List.getElem_append_left (by omega)]
    exact ordered index (by omega) above
  below := by
    intro index within _ own _
    rw [List.length_append, List.length_singleton] at within
    omega

theorem inOrder_offer (capacity : Nat) (ordered : InOrder heap) (item : α) :
    InOrder (offer capacity heap item) := by
  unfold offer
  split
  · apply inOrder_rise _ _ _ _ (hole_append ordered item)
    intro index within _ own
    rw [List.length_append, List.length_singleton] at within
    omega
  · split
    · exact fun index inside _ => absurd inside (Nat.not_lt_zero index)
    · split
      · exact inOrder_sink _ _ _ (ordered.hole 0)
          fun _ impossible => absurd impossible (lt_irrefl 0)
      · exact ordered

theorem least_offer {capacity : Nat} (ordered : InOrder heap)
    (least : Least capacity offered heap) (item : α) :
    Least capacity (item :: offered) (offer capacity heap item) := by
  obtain ⟨rest, same, apart, size, full⟩ := least
  unfold offer
  split
  · next room =>
    have empty : rest = [] := full.resolve_right room.ne
    subst empty
    rw [List.append_nil] at same
    have moved := rise_perm (heap ++ [item]) heap.length item (by
      rw [List.length_append]; exact Nat.lt_succ_self _)
    rw [set_append_self] at moved
    refine ⟨[], ?_, (fun _ _ _ impossible => by cases impossible), ?_, Or.inl rfl⟩
    · rw [List.append_nil]
      exact moved.trans (List.perm_append_comm.trans (same.cons item))
    · rw [moved.length_eq, List.length_append]
      exact room
  · next noRoom =>
    have whole : heap.length = capacity := by omega
    split
    · refine ⟨item :: rest, ?_, (fun _ impossible => by cases impossible), size, Or.inr whole⟩
      exact same.cons item
    · next root others =>
      have greatest : ∀ other ∈ root :: others, other ≤ root := by
        intro other listed
        obtain ⟨index, inside, rfl⟩ := List.getElem_of_mem listed
        exact ordered.le_root index inside
      split
      · next less =>
        have moved : (sink (root :: others) 0 item).Perm (item :: others) :=
          sink_perm (root :: others) 0 item
        refine ⟨root :: rest, ?_, ?_, ?_, ?_⟩
        · refine (moved.append_right _).trans ?_
          rw [List.cons_append]
          exact (List.perm_middle.trans same).cons item
        · intro one listed other left
          have small : one ≤ root := by
            rcases List.mem_cons.mp (moved.mem_iff.mp listed) with rfl | kept
            · exact less.le
            · exact greatest one (List.mem_cons_of_mem _ kept)
          rcases List.mem_cons.mp left with rfl | further
          · exact small
          · exact small.trans (apart root List.mem_cons_self other further)
        · rw [moved.length_eq]
          exact size
        · rw [moved.length_eq]
          exact Or.inr whole
      · next notLess =>
        refine ⟨item :: rest, ?_, ?_, size, Or.inr whole⟩
        · exact List.perm_middle.trans (same.cons item)
        · intro one listed other left
          rcases List.mem_cons.mp left with rfl | further
          · exact (greatest one listed).trans (not_lt.mp notLess)
          · exact apart one listed other further

theorem least_foldl_offer (capacity : Nat) (items : List α)
    (ordered : InOrder heap) (least : Least capacity offered heap) :
    Least capacity (items.reverse ++ offered) (items.foldl (offer capacity) heap) := by
  induction items generalizing offered heap with
  | nil => exact least
  | cons item items ih =>
    rw [List.foldl_cons, List.reverse_cons, List.append_assoc]
    exact ih (inOrder_offer capacity ordered item) (least_offer ordered least item)

/-- Sorted, a heap of the least items is the start of the sorted listing. -/
theorem Least.sort_eq {capacity : Nat} (least : Least capacity offered heap) :
    heap.insertionSort (· ≤ ·) = (offered.insertionSort (· ≤ ·)).take capacity := by
  obtain ⟨rest, same, apart, size, full⟩ := least
  have joined : offered.insertionSort (· ≤ ·) =
      heap.insertionSort (· ≤ ·) ++ rest.insertionSort (· ≤ ·) := by
    refine @List.Perm.eq_of_pairwise _ (· ≤ ·) _ _ ?_
      (List.pairwise_insertionSort _ _) ?_ ?_
    · exact fun _ _ _ _ below above => le_antisymm below above
    · refine List.pairwise_append.mpr ⟨List.pairwise_insertionSort _ _,
        List.pairwise_insertionSort _ _, ?_⟩
      intro item listed other left
      rw [List.mem_insertionSort] at listed left
      exact apart item listed other left
    · refine (List.perm_insertionSort _ _).trans (same.symm.trans ?_)
      exact ((List.perm_insertionSort _ _).symm).append (List.perm_insertionSort _ _).symm
  rw [joined]
  rcases full with rfl | whole
  · rw [List.insertionSort_nil, List.append_nil, List.take_of_length_le]
    rw [List.length_insertionSort]
    exact size
  · rw [List.take_left']
    rw [List.length_insertionSort]
    exact whole

/-- Offering items one by one keeps the least of them, in whatever order they
are offered. -/
theorem sort_foldl_offer (capacity : Nat) (items : List α) :
    (items.foldl (offer capacity) []).insertionSort (· ≤ ·) =
      (items.insertionSort (· ≤ ·)).take capacity := by
  have ordered : InOrder ([] : List α) :=
    fun index inside _ => absurd inside (Nat.not_lt_zero index)
  have start : Least capacity ([] : List α) [] :=
    ⟨[], List.Perm.refl _, (fun _ impossible => by cases impossible), Nat.zero_le _, Or.inl rfl⟩
  have least := least_foldl_offer capacity items ordered start
  rw [List.append_nil] at least
  rw [least.sort_eq]
  congr 1
  refine @List.Perm.eq_of_pairwise _ (· ≤ ·) _ _ ?_
    (List.pairwise_insertionSort _ _) (List.pairwise_insertionSort _ _) ?_
  · exact fun _ _ _ _ below above => le_antisymm below above
  · exact (List.perm_insertionSort _ _).trans
      ((List.reverse_perm items).trans (List.perm_insertionSort _ _).symm)

end LeastItems
end LiteNode
