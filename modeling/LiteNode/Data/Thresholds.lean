import Mathlib.Data.List.Sort
import Mathlib.Algebra.BigOperators.Ring.List
import Mathlib.Algebra.Order.Ring.Int
import Mathlib.Tactic.Ring
import Mathlib.Algebra.Order.BigOperators.Group.Finset

/-!
# Thresholds on numbers and weights

A threshold asks for a number of items and for their total weight. It is
monotone, so among items in falling order of their keys the first key at which
it is reached is the greatest key from which on the items reach it.
-/

/-!
## Weighted quorums

Two groups of one population overlap in at least the weight by which they
together exceed the population, and so contain a member outside any group
lighter than the overlap.
-/

namespace LiteNode
namespace WeightedQuorum

variable {ι : Type u} [DecidableEq ι]
variable {weight : ι → Int} {population first second : Finset ι}

/-- Inclusion and exclusion for the weights of two groups. -/
theorem sum_add_sum_le (nonneg : ∀ member ∈ population, 0 ≤ weight member)
    (firstSubset : first ⊆ population) (secondSubset : second ⊆ population) :
    (∑ member ∈ first, weight member) + (∑ member ∈ second, weight member) ≤
      (∑ member ∈ population, weight member) + ∑ member ∈ first ∩ second, weight member := by
  rw [← Finset.sum_union_inter]
  have union_le : (∑ member ∈ first ∪ second, weight member) ≤
      ∑ member ∈ population, weight member :=
    Finset.sum_le_sum_of_subset_of_nonneg
      (Finset.union_subset firstSubset secondSubset)
      fun member present _ => nonneg member present
  omega

/-- Inclusion and exclusion for the sizes of two groups. -/
theorem card_add_card_le
    (firstSubset : first ⊆ population) (secondSubset : second ⊆ population) :
    first.card + second.card ≤ population.card + (first ∩ second).card := by
  rw [← Finset.card_union_add_card_inter]
  have union_le := Finset.card_le_card (Finset.union_subset firstSubset secondSubset)
  omega

end WeightedQuorum
end LiteNode

/-!
## Sums of the largest and the smallest

A few elements of a list sum to no more than as many of the largest ones, and
many elements to no less than as many of the smallest ones. The balance of the
large elements against the small ones only tips once when all are capped.
-/

namespace LiteNode
namespace SortedSums

section Sums

variable {α : Type} [AddCommMonoid α] [LinearOrder α] [IsOrderedAddMonoid α]
  {items part : List α} {count : Nat}

def largestSum (count : Nat) (items : List α) : α :=
  ((items.insertionSort fun left right => right ≤ left).take count).sum

def smallestSum (count : Nat) (items : List α) : α :=
  ((items.insertionSort fun left right => left ≤ right).take count).sum

theorem pairwise_insertionSort_ge (items : List α) :
    (items.insertionSort fun left right => right ≤ left).Pairwise
      fun left right => right ≤ left := by
  have : IsTrans α fun left right => right ≤ left :=
    ⟨fun _ _ _ first second => le_trans second first⟩
  exact List.pairwise_insertionSort _ items

theorem pairwise_insertionSort_le (items : List α) :
    (items.insertionSort fun left right => left ≤ right).Pairwise fun left right => left ≤ right :=
  List.pairwise_insertionSort _ items

/-- The first elements of a list in order are ahead of those of any part of it. -/
theorem forall₂_take {r : α → α → Prop} (refl : ∀ item, r item item) (sub : part.Sublist items)
    (sorted : items.Pairwise r) : List.Forall₂ r (items.take part.length) part := by
  induction items generalizing part with
  | nil => simp [List.sublist_nil.mp sub]
  | cons item items ih =>
    obtain ⟨first, sorted⟩ := List.pairwise_cons.mp sorted
    cases part with
    | nil => exact .nil
    | cons other rest =>
      refine .cons ?_ (ih sub.tail sorted)
      rcases List.mem_cons.mp (sub.subset List.mem_cons_self) with rfl | later
      · exact refl _
      · exact first other later

theorem sum_take_le_sum_take {size : Nat} (nonneg : ∀ item ∈ items, 0 ≤ item)
    (less : count ≤ size) : (items.take count).sum ≤ (items.take size).sum :=
  (List.take_sublist_take_left less).sum_le_sum fun item listed =>
    nonneg item (List.mem_of_mem_take listed)

/-- Few elements of a decreasing list sum to no more than the first ones. -/
theorem sum_le_sum_take (sub : part.Sublist items)
    (decreasing : items.Pairwise fun left right => right ≤ left)
    (nonneg : ∀ item ∈ items, 0 ≤ item) (few : part.length ≤ count) :
    part.sum ≤ (items.take count).sum := by
  have ahead := @forall₂_take _ _ _ _ _ _ (fun left right => right ≤ left) le_refl sub decreasing
  exact (ahead.flip.sum_le_sum).trans (sum_take_le_sum_take nonneg few)

/-- Many elements of an increasing list sum to no less than the first ones. -/
theorem sum_take_le_sum (sub : part.Sublist items)
    (increasing : items.Pairwise fun left right => left ≤ right)
    (nonneg : ∀ item ∈ items, 0 ≤ item) (many : count ≤ part.length) :
    (items.take count).sum ≤ part.sum :=
  (sum_take_le_sum_take nonneg many).trans (forall₂_take le_refl sub increasing).sum_le_sum

/-- Few elements sum to no more than as many of the largest. -/
theorem sum_le_largestSum (sub : part.Subperm items)
    (nonneg : ∀ item ∈ items, 0 ≤ item) (few : part.length ≤ count) :
    part.sum ≤ largestSum count items := by
  have sorted := List.perm_insertionSort (fun left right : α => right ≤ left) items
  obtain ⟨rest, same, sub⟩ := sub.trans sorted.symm.subperm
  rw [← same.sum_eq]
  exact sum_le_sum_take sub (pairwise_insertionSort_ge items)
    (fun item listed => nonneg item (sorted.mem_iff.mp listed))
    (same.length_eq.le.trans few)

theorem smallestSum_le_sum (sub : part.Subperm items)
    (nonneg : ∀ item ∈ items, 0 ≤ item) (many : count ≤ part.length) :
    smallestSum count items ≤ part.sum := by
  have sorted := List.perm_insertionSort (fun left right : α => left ≤ right) items
  obtain ⟨rest, same, sub⟩ := sub.trans sorted.symm.subperm
  rw [← same.sum_eq]
  exact sum_take_le_sum sub (pairwise_insertionSort_le items)
    (fun item listed => nonneg item (sorted.mem_iff.mp listed))
    (many.trans same.length_eq.ge)

end Sums

/-- Sum of the elements, none counted for more than the cap. -/
def cappedSum (cap : Int) (items : List Int) : Int := (items.map fun item => min item cap).sum

section Caps

variable {items large small : List Int} {cap cap' : Int}

theorem cappedSum_mono (lower : cap ≤ cap') : cappedSum cap items ≤ cappedSum cap' items :=
  List.sum_le_sum fun item _ => min_le_min_left item lower

/-- Caps that no element tells apart. -/
theorem cappedSum_congr (same : ∀ item ∈ items, min item cap = min item cap') :
    cappedSum cap items = cappedSum cap' items :=
  congrArg List.sum (List.map_congr_left same)

/-- Elements that are all over the cap. -/
theorem cappedSum_of_le (above : ∀ item ∈ items, cap ≤ item) :
    cappedSum cap items = items.length * cap := by
  have same : (items.map fun item => min item cap) = List.replicate items.length cap :=
    List.map_eq_replicate_iff.mpr fun item listed => min_eq_right (above item listed)
  rw [cappedSum, same, List.sum_replicate, nsmul_eq_mul]

/-- A lower cap takes no more than its share. -/
theorem cappedSum_scale (nonneg : ∀ item ∈ items, 0 ≤ item) (positive : 0 ≤ cap)
    (lower : cap ≤ cap') : cap * cappedSum cap' items ≤ cap' * cappedSum cap items := by
  have each : ∀ item ∈ items, cap * min item cap' ≤ cap' * min item cap := by
    intro item listed
    have natural := nonneg item listed
    rcases le_total item cap with below | above
    · rw [min_eq_left below, min_eq_left (below.trans lower)]
      exact Int.mul_le_mul_of_nonneg_right lower natural
    · rw [min_eq_right above, Int.mul_comm cap']
      exact Int.mul_le_mul_of_nonneg_left (min_le_right item cap') positive
  unfold cappedSum
  rw [← List.sum_map_mul_left, ← List.sum_map_mul_left]
  exact List.sum_le_sum each

/-- The least of some elements and a cap. -/
theorem exists_least (cap : Int) (items : List Int) :
    ∃ least, least ≤ cap ∧ (∀ item ∈ items, least ≤ item) ∧ (least = cap ∨ least ∈ items) := by
  induction items with
  | nil => exact ⟨cap, le_rfl, by simp, .inl rfl⟩
  | cons item items ih =>
    obtain ⟨least, below, others, which⟩ := ih
    rcases le_total least item with here | here
    · exact ⟨least, below, List.forall_mem_cons.mpr ⟨here, others⟩,
        which.imp_right (List.mem_cons_of_mem item)⟩
    · refine ⟨item, here.trans below, List.forall_mem_cons.mpr ⟨le_rfl, ?_⟩,
        .inr List.mem_cons_self⟩
      exact fun other listed => here.trans (others other listed)

/-- If the small elements outweigh the large ones many times under a cap, they
do so under every lower cap. -/
theorem outweigh_mono {times : Int} (natural : 0 ≤ times)
    (apart : ∀ above ∈ large, ∀ below ∈ small, below ≤ above)
    (nonneg : ∀ item ∈ small, 0 ≤ item) (positive : 0 < cap) (lower : cap ≤ cap')
    (outweigh : times * cappedSum cap' large < cappedSum cap' small) :
    times * cappedSum cap large < cappedSum cap small := by
  obtain ⟨least, below, each, which⟩ := exists_least cap' large
  -- no small element tells the least large one from the cap
  have same : cappedSum least small = cappedSum cap' small := by
    apply cappedSum_congr
    intro item listed
    rcases which with rfl | taken
    · rfl
    · have small := apart least taken item listed
      rw [min_eq_left small, min_eq_left (small.trans below)]
  rcases le_total cap least with under | beyond
  · have few : times * (large.length * least) < cappedSum least small := by
      rw [← cappedSum_of_le each, same]
      refine lt_of_le_of_lt ?_ outweigh
      exact Int.mul_le_mul_of_nonneg_left (cappedSum_mono below) natural
    have share := cappedSum_scale nonneg positive.le under
    rw [cappedSum_of_le fun item listed => under.trans (each item listed)]
    have scaled := Int.mul_lt_mul_of_pos_left few positive
    have whole : least * (times * (large.length * cap)) < least * cappedSum cap small := by
      calc least * (times * (large.length * cap))
          = cap * (times * (large.length * least)) := by ring
        _ < cap * cappedSum least small := scaled
        _ ≤ least * cappedSum cap small := share
    exact lt_of_mul_lt_mul_left whole (positive.le.trans under)
  · have same' : cappedSum cap small = cappedSum cap' small := by
      apply cappedSum_congr
      intro item listed
      rcases which with rfl | taken
      · rw [le_antisymm lower beyond]
      · have small := (apart least taken item listed).trans beyond
        rw [min_eq_left small, min_eq_left (small.trans lower)]
    rw [same']
    refine lt_of_le_of_lt ?_ outweigh
    exact Int.mul_le_mul_of_nonneg_left (cappedSum_mono lower) natural

end Caps
end SortedSums
namespace Thresholds

variable {α : Type u}

/-- More items and more weight still reach the threshold. -/
def Rising (reached : Int → Int → Bool) : Prop :=
  ∀ {count count' weight weight'}, count ≤ count' → weight ≤ weight' →
    reached count weight = true → reached count' weight' = true

/-- The number and the total weight of the items, added to what was counted
before, reach the threshold. -/
def MeetsFrom (reached : Int → Int → Bool) (weigh : α → Int)
    (count weight : Int) (items : List α) : Prop :=
  reached (count + items.length) (weight + (items.map weigh).sum) = true

/-- The items reach the threshold. -/
abbrev Meets (reached : Int → Int → Bool) (weigh : α → Int) (items : List α) : Prop :=
  MeetsFrom reached weigh 0 0 items

section Monotone

variable {reached : Int → Int → Bool} {weigh : α → Int} {count weight : Int}
  {items items' : List α} {item : α}

theorem meetsFrom_nil : MeetsFrom reached weigh count weight [] ↔ reached count weight = true := by
  simp [MeetsFrom]

theorem meetsFrom_cons :
    MeetsFrom reached weigh count weight (item :: items) ↔
      MeetsFrom reached weigh (count + 1) (weight + weigh item) items := by
  have number : count + ((items.length + 1 : Nat) : Int) = count + 1 + items.length := by omega
  unfold MeetsFrom
  rw [List.map_cons, List.sum_cons, List.length_cons, number, add_assoc weight]

theorem meetsFrom_perm (perm : items.Perm items') :
    MeetsFrom reached weigh count weight items ↔ MeetsFrom reached weigh count weight items' := by
  unfold MeetsFrom
  rw [perm.length_eq, (perm.map weigh).sum_eq]

/-- Some of the items reach no more than all of them. -/
theorem MeetsFrom.of_subperm (rising : Rising reached)
    (nonneg : ∀ item ∈ items', 0 ≤ weigh item) (sub : items.Subperm items')
    (meets : MeetsFrom reached weigh count weight items) :
    MeetsFrom reached weigh count weight items' := by
  obtain ⟨part, perm, sublist⟩ := sub
  rw [← meetsFrom_perm perm] at meets
  have fewer := sublist.length_le
  have lighter : (part.map weigh).sum ≤ (items'.map weigh).sum := by
    refine (sublist.map weigh).sum_le_sum fun value listed => ?_
    obtain ⟨item, present, rfl⟩ := List.mem_map.mp listed
    exact nonneg item present
  exact rising (by omega) (by omega) meets

/-- Items that reach the threshold on top of others reach it with them. -/
theorem MeetsFrom.append (rising : Rising reached) (nonneg : ∀ item ∈ items', 0 ≤ weigh item)
    (meets : MeetsFrom reached weigh count weight items) :
    MeetsFrom reached weigh count weight (items ++ items') := by
  have more : 0 ≤ (items'.map weigh).sum := by
    refine List.sum_nonneg fun value listed => ?_
    obtain ⟨item, present, rfl⟩ := List.mem_map.mp listed
    exact nonneg item present
  unfold MeetsFrom at meets ⊢
  rw [List.map_append, List.sum_append, List.length_append]
  exact rising (by push_cast; omega) (by omega) meets

end Monotone

/-- Key of the item that completes the threshold. -/
def firstKey (reached : Int → Int → Bool) (count weight : Int) : List (Int × Int) → Option Int
  | [] => none
  | (key, value) :: rest =>
    if reached (count + 1) (weight + value) then some key
    else firstKey reached (count + 1) (weight + value) rest

/-- Items whose key is no less than the given one. -/
def fromKey (key : Int) (items : List (Int × Int)) : List (Int × Int) :=
  items.filter fun item => decide (key ≤ item.1)

section FirstKey

variable {reached : Int → Int → Bool} {count weight key : Int} {items : List (Int × Int)}

theorem fromKey_eq_nil (below : ∀ item ∈ items, item.1 < key) : fromKey key items = [] := by
  apply List.filter_eq_nil_iff.mpr
  intro item listed
  simpa using below item listed

theorem firstKey_mem (found : firstKey reached count weight items = some key) :
    ∃ item ∈ items, item.1 = key := by
  induction items generalizing count weight with
  | nil => cases found
  | cons item rest ih =>
    unfold firstKey at found
    split at found
    · exact ⟨item, List.mem_cons_self, Option.some.inj found⟩
    · obtain ⟨later, listed, same⟩ := ih found
      exact ⟨later, List.mem_cons_of_mem _ listed, same⟩

/-- The key found is the greatest from which on the items reach the threshold;
there is none when no key is. -/
theorem firstKey_spec (rising : Rising reached)
    (falling : items.Pairwise fun left right => right.1 ≤ left.1)
    (nonneg : ∀ item ∈ items, 0 ≤ item.2) (short : reached count weight = false) :
    (∀ found, firstKey reached count weight items = some found →
      MeetsFrom reached Prod.snd count weight (fromKey found items) ∧
        ∀ key, found < key → ¬ MeetsFrom reached Prod.snd count weight (fromKey key items)) ∧
    (firstKey reached count weight items = none →
      ∀ key, ¬ MeetsFrom reached Prod.snd count weight (fromKey key items)) := by
  induction items generalizing count weight with
  | nil =>
    refine ⟨fun found none => (nomatch none), fun _ key => ?_⟩
    rw [fromKey, List.filter_nil, meetsFrom_nil, short]
    exact Bool.false_ne_true
  | cons item rest ih =>
    obtain ⟨front, value⟩ := item
    obtain ⟨greatest, sorted⟩ := List.pairwise_cons.mp falling
    -- above the first key nothing is left
    have above : ∀ key, front < key → ¬ MeetsFrom reached Prod.snd count
        weight (fromKey key ((front, value) :: rest)) := by
      intro key larger
      rw [fromKey_eq_nil, meetsFrom_nil, short]
      · exact Bool.false_ne_true
      · intro item listed
        rcases List.mem_cons.mp listed with rfl | listed
        · exact larger
        · exact lt_of_le_of_lt (greatest item listed) larger
    have upTo : ∀ key, key ≤ front →
        fromKey key ((front, value) :: rest) = (front, value) :: fromKey key rest := by
      intro key smaller
      simp [fromKey, smaller]
    unfold firstKey
    split
    · next complete =>
      refine ⟨fun found equal => ?_, fun none => (nomatch none)⟩
      obtain rfl := Option.some.inj equal
      refine ⟨?_, above⟩
      rw [upTo front le_rfl, ← List.singleton_append]
      apply MeetsFrom.append rising
      · intro item listed
        exact nonneg item (List.mem_cons_of_mem _ (List.mem_filter.mp listed).1)
      · rw [meetsFrom_cons, meetsFrom_nil]
        exact complete
    · next incomplete =>
      obtain ⟨some, none⟩ := ih sorted
        (fun item listed => nonneg item (List.mem_cons_of_mem _ listed))
        (Bool.eq_false_iff.mpr incomplete)
      constructor
      · intro found equal
        obtain ⟨item, listed, rfl⟩ := firstKey_mem equal
        obtain ⟨meets, maximal⟩ := some item.1 equal
        constructor
        · rw [upTo _ (greatest item listed), meetsFrom_cons]
          exact meets
        · intro key larger
          by_cases inside : key ≤ front
          · rw [upTo key inside, meetsFrom_cons]
            exact maximal key larger
          · exact above key (not_le.mp inside)
      · intro absent key
        by_cases inside : key ≤ front
        · rw [upTo key inside, meetsFrom_cons]
          exact none absent key
        · exact above key (not_le.mp inside)

end FirstKey
end Thresholds
end LiteNode
