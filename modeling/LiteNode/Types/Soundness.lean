import LiteNode.Types.ValidatorSet
import Mathlib.Algebra.Order.BigOperators.Group.Finset
import Mathlib.Algebra.Order.Ring.Int

/-!
# Sound validator sets

Every set the code builds has positive weights, totals and thresholds that
follow from them, and one weight entry per member. Re-weighting keeps these
facts. Signer lists are measured by the finite set of their addresses.
-/

namespace LiteNode
namespace ValidatorSet

/-- Weight of an address, zero for a stranger. -/
def weightOf (vs : ValidatorSet) (addr : Bytes) : Int := (vs.weightOfAddr addr).getD 0

/-- Addresses that carry a weight. -/
def members (vs : ValidatorSet) : Finset Bytes := (vs.weights.map Prod.fst).toFinset

/-- Facts that hold of every set laid out from positive weights. -/
structure Sound (vs : ValidatorSet) : Prop where
  weight_pos : ∀ entry ∈ vs.weights, 0 < entry.2
  addresses : vs.weights.map Prod.fst = vs.validators.map ValidatorInfo.address
  total_eq : vs.totalWeight = (vs.weights.map Prod.snd).sum
  quorumWeight_eq : vs.quorumWeight =
    if vs.totalWeight ≤ 0 then 0 else quorumWeightOf vs.totalWeight
  n_eq : vs.n = vs.weights.length
  f_eq : vs.f = (vs.n - 1).tdiv 3
  quorum_eq : vs.quorum = if vs.n ≤ 0 then 0 else if vs.n < 4 then vs.n else vs.n - vs.f

theorem foldl_add_eq_sum (entries : List α) (value : α → Int) (start : Int) :
    entries.foldl (fun total entry => total + value entry) start =
      start + (entries.map value).sum := by
  induction entries generalizing start with
  | nil => simp
  | cons entry rest ih =>
    rw [List.foldl_cons, ih, List.map_cons, List.sum_cons]
    omega

/-- Laying out positive weights gives a sound set. -/
theorem sound_build {entries : List (ValidatorInfo × Int)}
    (positive : ∀ entry ∈ entries, 0 < entry.2) (weighted : Bool) :
    (buildValidatorSet weighted entries).Sound where
  weight_pos := by
    intro entry present
    simp only [buildValidatorSet, List.mem_map, mem_sortByKey] at present
    obtain ⟨source, sourcePresent, rfl⟩ := present
    exact positive source sourcePresent
  addresses := by simp [buildValidatorSet, Function.comp_def]
  total_eq := by
    simp only [buildValidatorSet, List.map_map]
    rw [foldl_add_eq_sum _ Prod.snd, zero_add]
    rfl
  quorumWeight_eq := rfl
  n_eq := by simp [buildValidatorSet]
  f_eq := rfl
  quorum_eq := rfl

theorem sound_makeValidatorSet (validators : List ValidatorInfo) :
    (makeValidatorSet validators).Sound := by
  apply sound_build
  intro entry present
  obtain ⟨validator, -, rfl⟩ := List.mem_map.mp present
  exact Int.one_pos

variable {vs : ValidatorSet} {addr : Bytes} {weight : Int}

theorem sound_makeWeightedValidatorSet {entries : List (ValidatorInfo × Int)}
    (built : makeWeightedValidatorSet entries = .ok vs) : vs.Sound := by
  obtain ⟨valid, rfl⟩ := makeWeightedValidatorSet_eq_ok_iff.mp built
  exact sound_build valid.weight_pos true

theorem mem_members_iff : addr ∈ vs.members ↔ (vs.weightOfAddr addr).isSome := by
  rw [members, List.mem_toFinset, weightOfAddr, List.lookup_isSome_iff]
  constructor
  · intro present
    obtain ⟨entry, entryPresent, rfl⟩ := List.mem_map.mp present
    exact ⟨entry, entryPresent, beq_self_eq_true _⟩
  · rintro ⟨entry, present, equal⟩
    rw [beq_iff_eq.mp equal]
    exact List.mem_map_of_mem present

theorem weightOfAddr_mem (found : vs.weightOfAddr addr = some weight) :
    (addr, weight) ∈ vs.weights := by
  obtain ⟨before, after, split, -⟩ := List.lookup_eq_some_iff.mp found
  rw [split]
  simp

/-- A member has a weight, and in a sound set only members have one. -/
theorem Sound.isValidator_iff (sound : vs.Sound) :
    vs.isValidator addr = true ↔ addr ∈ vs.members := by
  rw [members, sound.addresses]
  simp [isValidator]

theorem weightOfAddr_isSome_of_isValidator (member : vs.isValidator addr = true) :
    (vs.weightOfAddr addr).isSome := by
  obtain ⟨validator, present, equal⟩ := List.any_eq_true.mp member
  rw [← beq_iff_eq.mp equal]
  exact vs.weighed validator present

theorem Sound.weight_pos_of_lookup (sound : vs.Sound)
    (found : vs.weightOfAddr addr = some weight) : 0 < weight :=
  sound.weight_pos _ (weightOfAddr_mem found)

theorem Sound.weightOf_nonneg (sound : vs.Sound) (addr : Bytes) : 0 ≤ vs.weightOf addr := by
  unfold weightOf
  cases found : vs.weightOfAddr addr with
  | none => exact le_refl 0
  | some weight => exact (sound.weight_pos_of_lookup found).le

/-- First bindings weigh at most all bindings together. -/
theorem sum_lookup_le (weights : List (Bytes × Int)) (nonneg : ∀ entry ∈ weights, 0 ≤ entry.2) :
    (∑ addr ∈ (weights.map Prod.fst).toFinset, (weights.lookup addr).getD 0) ≤
      (weights.map Prod.snd).sum := by
  induction weights with
  | nil => simp
  | cons entry rest ih =>
    obtain ⟨key, value⟩ := entry
    have restBound := ih fun entry present => nonneg entry (List.mem_cons_of_mem _ present)
    rw [List.map_cons, List.toFinset_cons, List.map_cons, List.sum_cons]
    rw [← Finset.insert_erase (Finset.mem_insert_self key _), Finset.erase_insert_eq_erase,
      Finset.sum_insert (Finset.notMem_erase _ _)]
    have rest_eq : (∑ addr ∈ ((rest.map Prod.fst).toFinset).erase key,
          (((key, value) :: rest).lookup addr).getD 0) =
        ∑ addr ∈ ((rest.map Prod.fst).toFinset).erase key, (rest.lookup addr).getD 0 := by
      apply Finset.sum_congr rfl
      intro addr present
      rw [List.lookup_cons, beq_false_of_ne (Finset.ne_of_mem_erase present)]
    have erase_le : (∑ addr ∈ ((rest.map Prod.fst).toFinset).erase key, (rest.lookup addr).getD 0) ≤
        ∑ addr ∈ (rest.map Prod.fst).toFinset, (rest.lookup addr).getD 0 := by
      apply Finset.sum_le_sum_of_subset_of_nonneg (Finset.erase_subset _ _)
      intro addr _ _
      cases found : rest.lookup addr with
      | none => exact le_refl 0
      | some weight =>
        obtain ⟨before, after, split, -⟩ := List.lookup_eq_some_iff.mp found
        exact nonneg (addr, weight) (by simp [split])
    rw [rest_eq, List.lookup_cons_self, Option.getD_some]
    exact add_le_add_right (erase_le.trans restBound) value

/-- Distinct members weigh at most the total. -/
theorem Sound.sum_members_le (sound : vs.Sound) :
    (∑ addr ∈ vs.members, vs.weightOf addr) ≤ vs.totalWeight := by
  rw [sound.total_eq]
  exact sum_lookup_le vs.weights fun entry present => (sound.weight_pos entry present).le

theorem Sound.card_members_le (sound : vs.Sound) : (vs.members.card : Int) ≤ vs.n := by
  rw [sound.n_eq, members]
  have bound := List.toFinset_card_le (vs.weights.map Prod.fst)
  rw [List.length_map] at bound
  exact_mod_cast bound

/-- Two quorums of a sound set together outweigh it by more than the weight
that one quorum leaves out. -/
theorem Sound.total_lt_quorumWeight (sound : vs.Sound) (positive : 0 < vs.totalWeight) :
    vs.totalWeight - vs.quorumWeight < vs.quorumWeight + vs.quorumWeight - vs.totalWeight := by
  rw [sound.quorumWeight_eq, if_neg (not_le.mpr positive), quorumWeightOf,
    Int.tdiv_eq_ediv_of_nonneg (by omega)]
  omega

theorem signedWeightFrom_eq_some_iff (vs : ValidatorSet) (seen : List Bytes) (total : Int)
    (validators : List Bytes) (weight : Int) :
    vs.signedWeightFrom seen total validators = some weight ↔
      validators.toFinset \ seen.toFinset ⊆ vs.members ∧
      weight = total + ∑ addr ∈ validators.toFinset \ seen.toFinset, vs.weightOf addr := by
  induction validators generalizing seen total with
  | nil => simp [signedWeightFrom, eq_comm]
  | cons validator rest ih =>
    unfold signedWeightFrom
    split
    · next present =>
      rw [ih, List.toFinset_cons, Finset.insert_sdiff_of_mem _ (List.mem_toFinset.mpr present)]
    · next fresh =>
      have difference :
          (validator :: rest).toFinset \ seen.toFinset =
            insert validator (rest.toFinset \ (validator :: seen).toFinset) := by
        ext addr
        by_cases same : addr = validator
        · simp [same, fresh]
        · simp [same]
      have separate : validator ∉ rest.toFinset \ (validator :: seen).toFinset := by simp
      rw [difference, Finset.sum_insert separate, Finset.insert_subset_iff, mem_members_iff]
      cases found : vs.weightOfAddr validator with
      | none => simp
      | some own =>
        have own_eq : vs.weightOf validator = own := by simp [weightOf, found]
        simp only [Option.isSome_some, true_and]
        rw [ih, own_eq]
        simp only [add_assoc]

theorem signedWeight_eq_some_iff {validators : List Bytes} :
    vs.signedWeight validators = some weight ↔ validators.toFinset ⊆ vs.members ∧
      weight = ∑ addr ∈ validators.toFinset, vs.weightOf addr := by
  unfold signedWeight
  rw [signedWeightFrom_eq_some_iff]
  simp

theorem uniqueSignerCount_eq (validators : List Bytes) :
    uniqueSignerCount validators = validators.toFinset.card := by
  rw [uniqueSignerCount, length_sortByKey, List.card_toFinset]

end ValidatorSet

/-- The search never goes below its lower bound. -/
theorem le_searchCap (faults : Int) (entries : List (ValidatorInfo × Int))
    (lower upper : Int) : lower ≤ searchCap faults entries lower upper := by
  fun_induction searchCap faults entries lower upper with
  | case1 => exact le_refl _
  | case2 lower upper apart middle live ih =>
    have middle_ge : lower ≤ middle := by
      have unit : Int.sign 2 = 1 := rfl
      unfold middle
      rw [Int.tdiv_eq_ediv, unit]
      split <;> omega
    exact middle_ge.trans ih
  | case3 lower upper apart middle live ih => exact ih

theorem le_foldl_max (entries : List (ValidatorInfo × Int)) (start : Int) :
    start ≤ entries.foldl (fun current entry => max current entry.2) start := by
  induction entries generalizing start with
  | nil => exact le_refl _
  | cons entry rest ih => exact (le_max_left _ _).trans (ih _)

namespace ValidatorSet

variable {vs : ValidatorSet}

theorem Sound.weightsOfSet_pos (sound : vs.Sound) : ∀ entry ∈ vs.weightsOfSet, 0 < entry.2 := by
  intro entry present
  obtain ⟨validator, member, rfl⟩ := List.mem_map.mp present
  obtain ⟨weight, found⟩ := Option.isSome_iff_exists.mp (vs.weighed validator member)
  have found' : vs.weightOfAddr validator.address = some weight := found
  simp only [found', Option.getD_some]
  exact sound.weight_pos_of_lookup found'

theorem Sound.countWeightCap_pos (sound : vs.Sound) (nonempty : vs.weightsOfSet ≠ []) :
    0 < countWeightCap vs := by
  have positive := sound.weightsOfSet_pos
  unfold countWeightCap
  cases entries : vs.weightsOfSet with
  | nil => exact absurd entries nonempty
  | cons first rest =>
    rw [entries] at positive
    simp only
    split
    · exact (positive first (by simp)).trans_le (le_foldl_max _ _)
    · exact Int.one_pos.trans_le (le_searchCap _ _ _ _)

theorem capEntries_pos {cap : Int} {entries : List (ValidatorInfo × Int)}
    (capPositive : 0 < cap) (positive : ∀ entry ∈ entries, 0 < entry.2) :
    ∀ entry ∈ capEntries cap entries, 0 < entry.2 := by
  intro entry present
  obtain ⟨source, member, rfl⟩ := List.mem_map.mp present
  exact lt_min (positive source member) capPositive

theorem weightsOfSet_length (vs : ValidatorSet) :
    vs.weightsOfSet.length = vs.validators.length := by
  simp [weightsOfSet]

theorem Sound.validators_length (sound : vs.Sound) : (vs.validators.length : Int) = vs.n := by
  have lengths := congrArg List.length sound.addresses
  rw [List.length_map, List.length_map] at lengths
  rw [sound.n_eq, lengths]

theorem Sound.countCappedSet (sound : vs.Sound) :
    (countCappedSet vs).Sound ∧ (countCappedSet vs).n = vs.n ∧ (countCappedSet vs).f = vs.f ∧
      (countCappedSet vs).quorum = vs.quorum := by
  unfold LiteNode.countCappedSet
  split
  · exact ⟨sound, rfl, rfl, rfl⟩
  · next large =>
    have nonempty : vs.weightsOfSet ≠ [] := by
      intro empty
      have length := vs.weightsOfSet_length
      rw [empty, List.length_nil] at length
      have count := sound.validators_length
      rw [← length] at count
      simp only [Bool.or_eq_true, decide_eq_true_eq, not_or] at large
      omega
    have capped := sound_build
      (capEntries_pos (sound.countWeightCap_pos nonempty) sound.weightsOfSet_pos) true
    have n_eq : (buildValidatorSet true
        (capEntries (countWeightCap vs) vs.weightsOfSet)).n = vs.n := by
      rw [← sound.validators_length, ← vs.weightsOfSet_length]
      simp [buildValidatorSet, capEntries]
    refine ⟨capped, n_eq, ?_, ?_⟩
    · rw [capped.f_eq, sound.f_eq, n_eq]
    · rw [capped.quorum_eq, sound.quorum_eq, capped.f_eq, sound.f_eq, n_eq]

theorem Sound.validatorSetForRule (sound : vs.Sound) (rule : QuorumRule) :
    (validatorSetForRule rule vs).Sound ∧ (validatorSetForRule rule vs).n = vs.n ∧
      (validatorSetForRule rule vs).f = vs.f ∧
      (validatorSetForRule rule vs).quorum = vs.quorum := by
  cases rule with
  | prior | stake => exact ⟨sound, rfl, rfl, rfl⟩
  | capped => exact sound.countCappedSet

end ValidatorSet
end LiteNode
