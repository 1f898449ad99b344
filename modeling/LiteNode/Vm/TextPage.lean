import LiteNode.Data.LeastItems
import LiteNode.Vm.Stored

/-!
# Pages of keys

A page of keys is collected in a heap while the keys are scanned in the order
of the hash table. What it returns are the first keys of the prefix in the
order of the keys, whatever the order of the scan was.
-/

namespace LiteNode
namespace Vm
namespace TextWork

/-- Whether the bytes of a prefix are those that a text starts with. -/
def same : Bytes → Bytes → Bool
  | _, [] => true
  | byte :: text, other :: pref => byte = other && same text pref
  | [], _ :: _ => false

def hasPrefix (text pref : Bytes) : Bool := pref.length ≤ text.length && same text pref

/-- Compare two texts byte by byte, and then by their lengths. -/
def compareAt : Bytes → Bytes → Ordering
  | [], [] => .eq
  | [], _ :: _ => .lt
  | _ :: _, [] => .gt
  | byte :: text, other :: rest => if byte = other then compareAt text rest else compare byte other

def compareSlice (text : Bytes) (start : Nat) (other : Bytes) : Ordering :=
  compareAt (text.drop start) other

/-- Offer a key to the heap if it is of the page. -/
def visit (pref after : Bytes) (capacity : Nat) (heap : List Bytes) (key : Bytes) : List Bytes :=
  if 0 < capacity ∧ (key.length = 0 ∨ key.head? ≠ some 0) ∧ hasPrefix key pref ∧
      (after = [] ∨ compareSlice key pref.length after = .gt) then
    LeastItems.offer capacity heap key
  else heap

/-- A page of the keys that a scan visits. -/
def page (pref after : Bytes) (capacity : Int) (keys : List Bytes) : Except Crash (List Bytes) :=
  if capacity < 0 ∨ 1001 < capacity then .error .caught
  else .ok (sortByKey id (keys.foldl (visit pref after capacity.toNat) []))

theorem hasPrefix_eq (text pref : Bytes) : hasPrefix text pref = pref.isPrefixOf text := by
  unfold hasPrefix
  induction pref generalizing text with
  | nil => cases text <;> simp [same]
  | cons other pref ih =>
    cases text with
    | nil => rfl
    | cons byte text =>
      have shorter := ih text
      rw [List.isPrefixOf_cons_cons, ← shorter, same]
      by_cases equal : byte = other
      · simp [equal]
      · simp [equal, Ne.symm equal]

theorem compareSlice_eq_gt_iff (text : Bytes) (start : Nat) (other : Bytes) :
    compareSlice text start other = .gt ↔ other < text.drop start := by
  unfold compareSlice
  generalize text.drop start = rest
  induction rest generalizing other with
  | nil => cases other <;> simp [compareAt]
  | cons byte rest ih =>
    cases other with
    | nil => simp [compareAt]
    | cons byte' other =>
      rw [compareAt, List.cons_lt_cons_iff]
      by_cases equal : byte = byte'
      · rw [if_pos equal, ih]
        simp [equal]
      · rw [if_neg equal, compare_gt_iff_gt]
        simp [Ne.symm equal]

/-- Whether a key is not reserved, has a prefix, and goes on after a text. -/
def selects (pref after key : Bytes) : Bool :=
  !isReservedKey key && pref.isPrefixOf key && (after = [] || after < key.drop pref.length)

theorem visit_eq {capacity : Nat} (room : 0 < capacity) (pref after : Bytes)
    (heap : List Bytes) (key : Bytes) :
    visit pref after capacity heap key =
      if selects pref after key then LeastItems.offer capacity heap key
      else heap := by
  unfold visit selects isReservedKey
  simp only [hasPrefix_eq, compareSlice_eq_gt_iff]
  congr 1
  cases key <;> simp [room, and_assoc]

/-- The first keys of a prefix after a text, in their order. -/
def firstKeys (pref after : Bytes) (capacity : Nat) (keys : List Bytes) : List Bytes :=
  (sortByKey id (keys.filter (selects pref after))).take capacity

variable {keys : List Bytes}

/-- The first keys do not depend on the order of a scan. -/
theorem firstKeys_perm (pref after : Bytes) (capacity : Nat) {order : List Bytes}
    (scanned : order.Perm keys) :
    firstKeys pref after capacity order = firstKeys pref after capacity keys := by
  unfold firstKeys
  congr 1
  refine @List.Perm.eq_of_pairwise _ (· ≤ ·) _ _ ?_
    (sortByKey_pairwise id _) (sortByKey_pairwise id _)
    ((sortByKey_perm _ _).trans ((scanned.filter _).trans (sortByKey_perm id _).symm))
  exact fun _ _ _ _ below above => le_antisymm below above

/-- A page of up to 1001 keys is the first keys that a scan visits. -/
theorem page_eq {capacity : Int} (least : 0 ≤ capacity) (most : capacity ≤ 1001)
    (pref after : Bytes) (keys : List Bytes) :
    page pref after capacity keys = .ok (firstKeys pref after capacity.toNat keys) := by
  unfold page firstKeys
  rw [if_neg (by omega)]
  congr 1
  rcases Nat.eq_zero_or_pos capacity.toNat with none | room
  · have skipped : ∀ heap, keys.foldl (visit pref after capacity.toNat) heap = heap := by
      induction keys with
      | nil => exact fun _ => rfl
      | cons key keys ih =>
        intro heap
        rw [List.foldl_cons, ih, visit, none]
        exact if_neg fun holds => absurd holds.1 (lt_irrefl 0)
    rw [skipped, none]
    rfl
  · have visited : visit pref after capacity.toNat = fun heap key =>
        if selects pref after key then LeastItems.offer capacity.toNat heap key
        else heap := by
      funext heap key
      exact visit_eq room pref after heap key
    rw [visited, ← List.foldl_filter]
    exact LeastItems.sort_foldl_offer _ _

theorem append_lt_append_iff (pref left right : Bytes) :
    pref ++ left < pref ++ right ↔ left < right := by
  induction pref with
  | nil => exact Iff.rfl
  | cons byte pref ih =>
    rw [List.cons_append, List.cons_append, List.cons_lt_cons_iff]
    simp [ih]

/-- Keys of one prefix are ordered as what follows it. -/
theorem sortByKey_drop {pref : Bytes} (starts : ∀ key ∈ keys, pref.isPrefixOf key = true) :
    sortByKey (·.drop pref.length) keys = sortByKey id keys := by
  refine @List.Perm.eq_of_pairwise _ (· ≤ ·) _ _ ?_ ?_
    (sortByKey_pairwise id keys)
    ((sortByKey_perm _ keys).trans (sortByKey_perm id keys).symm)
  · exact fun _ _ _ _ below above => le_antisymm below above
  · refine (sortByKey_pairwise (·.drop pref.length) keys).imp_of_mem ?_
    intro left right listed listed' below
    rw [mem_sortByKey] at listed listed'
    obtain ⟨rest, rfl⟩ := List.isPrefixOf_iff_prefix.mp (starts left listed)
    obtain ⟨rest', rfl⟩ := List.isPrefixOf_iff_prefix.mp (starts right listed')
    rw [List.drop_left, List.drop_left] at below
    exact not_lt.mp (mt (append_lt_append_iff pref rest' rest).mp (not_lt.mpr below))

/-- What follows the prefix in the keys that a page may hold. -/
theorem suffixesOf_eq (storage : Table Bytes Bytes) (pref after : Bytes) :
    suffixesOf storage pref after =
      (sortByKey id ((storedKeys storage).filter (selects pref after))).map
        (·.drop pref.length) := by
  have starts : ∀ key ∈ (storedKeys storage).filter (selects pref after),
      pref.isPrefixOf key = true := by
    intro key listed
    have selected := (List.mem_filter.mp listed).2
    unfold selects at selected
    simp only [Bool.and_eq_true] at selected
    exact selected.1.2
  have mapped := @sortByKey_map _ (fun key : Bytes => key.drop pref.length)
    _ id (fun key => key.drop pref.length) (fun _ => rfl)
    ((storedKeys storage).filter (selects pref after))
  rw [← sortByKey_drop starts, ← mapped]
  unfold suffixesOf
  rw [List.filter_map, List.filter_filter]
  congr 3
  funext key
  unfold selects
  simp [Bool.and_comm, Bool.and_left_comm]

/-- The suffixes of a page are the first suffixes of the storage, whatever the
order in which its keys are scanned. -/
theorem page_suffixes {capacity : Int} (least : 0 ≤ capacity) (most : capacity ≤ 1001)
    {storage : Table Bytes Bytes} (scanned : keys.Perm (storedKeys storage)) (pref after : Bytes) :
    (page pref after capacity keys).map
        (fun page => page.map (·.drop pref.length)) =
      .ok ((suffixesOf storage pref after).take capacity.toNat) := by
  rw [page_eq least most, firstKeys_perm _ _ _ scanned, suffixesOf_eq, ← List.map_take]
  rfl

end TextWork
end Vm
end LiteNode
