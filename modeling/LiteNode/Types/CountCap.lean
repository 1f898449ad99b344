import LiteNode.Types.QuorumIntersection

/-!
# Caps of weights

The cap of a set is the greatest one under which the set outweighs a quorum
without its heaviest members. Capped sets have a quorum in every group that only
the tolerated number of members is missing from.
-/

namespace LiteNode

open SortedSums

variable {entries : List (ValidatorInfo × Int)} {faults cap cap' : Int}

theorem sumWeights_eq (entries : List (ValidatorInfo × Int)) :
    sumWeights entries = (entries.map Prod.snd).sum := by
  rw [sumWeights, ValidatorSet.foldl_add_eq_sum _ Prod.snd, zero_add]

theorem capEntries_weights (cap : Int) (entries : List (ValidatorInfo × Int)) :
    (capEntries cap entries).map Prod.snd =
      (entries.map Prod.snd).map fun weight => min weight cap := by
  simp [capEntries, Function.comp_def]

theorem largestWeightSum_eq (count : Int) (entries : List (ValidatorInfo × Int)) :
    largestWeightSum count entries = largestSum count.toNat (entries.map Prod.snd) := by
  have sum := ValidatorSet.foldl_add_eq_sum (((entries.map Prod.snd).insertionSort
    fun left right => right ≤ left).take count.toNat) id 0
  rw [List.map_id, zero_add] at sum
  exact sum

/-- The weights of entries, the heaviest first. -/
def heaviest (entries : List (ValidatorInfo × Int)) : List Int :=
  (entries.map Prod.snd).insertionSort fun left right => right ≤ left

theorem heaviest_perm (entries : List (ValidatorInfo × Int)) :
    (heaviest entries).Perm (entries.map Prod.snd) :=
  List.perm_insertionSort _ _

/-- A quorum of two parts of a weight is in the second part exactly if it
outweighs the first one twice. -/
theorem quorumWeightOf_le_iff {large small : Int} (natural : 0 ≤ large + small) :
    quorumWeightOf (large + small) ≤ small ↔ 2 * large < small := by
  rw [quorumWeightOf, Int.tdiv_eq_ediv_of_nonneg (by omega)]
  omega

theorem insertionSort_capped (cap : Int) (entries : List (ValidatorInfo × Int)) :
    ((entries.map Prod.snd).map fun weight => min weight cap).insertionSort
        (fun left right => right ≤ left) =
      (heaviest entries).map fun weight => min weight cap := by
  refine List.Perm.eq_of_pairwise ?_ (pairwise_insertionSort_ge _) ?_ ?_
  · intro left right _ _ below above
    exact le_antisymm above below
  · rw [List.pairwise_map]
    refine (pairwise_insertionSort_ge _).imp ?_
    intro left right below
    exact min_le_min_right cap below
  · exact (List.perm_insertionSort _ _).trans ((heaviest_perm entries).symm.map _)

/-- A cap is live if the lighter weights outweigh the heaviest ones twice. -/
theorem countLiveAtCap_iff (positive : ∀ entry ∈ entries, 0 < entry.2) (natural : 0 ≤ cap) :
    countLiveAtCap faults cap entries = true ↔
      2 * cappedSum cap ((heaviest entries).take faults.toNat) <
        cappedSum cap ((heaviest entries).drop faults.toNat) := by
  have total : sumWeights (capEntries cap entries) =
      cappedSum cap ((heaviest entries).take faults.toNat) +
        cappedSum cap ((heaviest entries).drop faults.toNat) := by
    rw [sumWeights_eq, capEntries_weights, cappedSum, cappedSum, ← List.sum_append,
      ← List.map_append, List.take_append_drop]
    exact ((heaviest_perm entries).symm.map _).sum_eq
  have unavailable : largestWeightSum faults (capEntries cap entries) =
      cappedSum cap ((heaviest entries).take faults.toNat) := by
    rw [largestWeightSum_eq, capEntries_weights, largestSum, insertionSort_capped, ← List.map_take]
    rfl
  have nonneg : 0 ≤ sumWeights (capEntries cap entries) := by
    rw [sumWeights_eq, capEntries_weights]
    apply List.sum_nonneg
    intro weight listed
    obtain ⟨whole, source, rfl⟩ := List.mem_map.mp listed
    obtain ⟨entry, member, rfl⟩ := List.mem_map.mp source
    exact le_min (positive entry member).le natural
  unfold countLiveAtCap
  rw [decide_eq_true_iff, unavailable, total, add_sub_cancel_left]
  rw [total] at nonneg
  exact quorumWeightOf_le_iff nonneg

theorem countLiveAtCap_mono (positive : ∀ entry ∈ entries, 0 < entry.2)
    (capPositive : 0 < cap) (lower : cap ≤ cap')
    (live : countLiveAtCap faults cap' entries = true) :
    countLiveAtCap faults cap entries = true := by
  have pos : ∀ weight ∈ heaviest entries, 0 < weight := by
    intro weight listed
    obtain ⟨entry, member, rfl⟩ := List.mem_map.mp ((heaviest_perm entries).mem_iff.mp listed)
    exact positive entry member
  have sorted : (heaviest entries).Pairwise fun left right => right ≤ left :=
    pairwise_insertionSort_ge _
  rw [← List.take_append_drop faults.toNat (heaviest entries), List.pairwise_append] at sorted
  rw [countLiveAtCap_iff positive (capPositive.le.trans lower)] at live
  rw [countLiveAtCap_iff positive capPositive.le]
  refine outweigh_mono (by decide) sorted.2.2 ?_ capPositive lower live
  exact fun weight listed => (pos weight (List.mem_of_mem_drop listed)).le

/-- Without a third of its members, a set in which all weigh the same outweighs
a quorum. -/
theorem countLiveAtCap_one (positive : ∀ entry ∈ entries, 0 < entry.2)
    (natural : 0 ≤ faults) (few : 3 * faults < entries.length) :
    countLiveAtCap faults 1 entries = true := by
  have each : ∀ weight ∈ heaviest entries, 1 ≤ weight := by
    intro weight listed
    obtain ⟨entry, member, rfl⟩ := List.mem_map.mp ((heaviest_perm entries).mem_iff.mp listed)
    exact positive entry member
  have size : (heaviest entries).length = entries.length := by
    rw [(heaviest_perm entries).length_eq, List.length_map]
  rw [countLiveAtCap_iff positive (by decide),
    cappedSum_of_le fun weight listed => each weight (List.mem_of_mem_take listed),
    cappedSum_of_le fun weight listed => each weight (List.mem_of_mem_drop listed),
    List.length_take, List.length_drop, size]
  omega

/-- The search finds the greatest live cap between its bounds. -/
theorem searchCap_spec {lower upper : Int}
    (monotone : ∀ {low high : Int}, lower ≤ low → low ≤ high →
      countLiveAtCap faults high entries = true → countLiveAtCap faults low entries = true)
    (start : countLiveAtCap faults lower entries = true) (below : lower ≤ upper) :
    countLiveAtCap faults (searchCap faults entries lower upper) entries = true ∧
      searchCap faults entries lower upper ≤ upper ∧
      ∀ other, other ≤ upper → countLiveAtCap faults other entries = true →
        other ≤ searchCap faults entries lower upper := by
  fun_induction searchCap faults entries lower upper with
  | case1 lower upper meet => exact ⟨start, below, fun other inside _ => inside.trans meet⟩
  | case2 lower upper apart middle live ih =>
    have inside : lower ≤ middle ∧ middle ≤ upper := by
      have unit : Int.sign 2 = 1 := rfl
      unfold middle
      rw [Int.tdiv_eq_ediv, unit]
      split <;> omega
    exact ih (fun above => monotone (inside.1.trans above)) live inside.2
  | case3 lower upper apart middle dead ih =>
    have inside : lower < middle ∧ middle ≤ upper := by
      have unit : Int.sign 2 = 1 := rfl
      unfold middle
      rw [Int.tdiv_eq_ediv, unit]
      split <;> omega
    obtain ⟨found, under, greatest⟩ := ih monotone start (by omega)
    refine ⟨found, by omega, fun other within live => greatest other ?_ live⟩
    by_contra beyond
    exact dead (monotone inside.1.le (by omega) live)

theorem le_foldl_max_of_mem {first : Int} {entry : ValidatorInfo × Int} (member : entry ∈ entries) :
    entry.2 ≤ entries.foldl (fun current entry => max current entry.2) first := by
  induction entries generalizing first with
  | nil => cases member
  | cons other rest ih =>
    rcases List.mem_cons.mp member with rfl | later
    · exact (le_max_right first entry.2).trans (le_foldl_max rest _)
    · exact ih later

theorem foldl_max_mem (first : ValidatorInfo × Int) (rest : List (ValidatorInfo × Int)) :
    ∃ entry ∈ first :: rest,
      rest.foldl (fun current entry => max current entry.2) first.2 = entry.2 := by
  induction rest generalizing first with
  | nil => exact ⟨first, List.mem_cons_self, rfl⟩
  | cons entry rest ih =>
    rw [List.foldl_cons]
    rcases max_choice first.2 entry.2 with larger | larger
    · obtain ⟨found, member, equal⟩ := ih first
      refine ⟨found, ?_, by rw [larger, equal]⟩
      rcases List.mem_cons.mp member with rfl | later
      · exact List.mem_cons_self
      · exact List.mem_cons_of_mem _ (List.mem_cons_of_mem _ later)
    · obtain ⟨found, member, equal⟩ := ih entry
      exact ⟨found, List.mem_cons_of_mem _ member, by rw [larger, equal]⟩

namespace ValidatorSet

variable {vs : ValidatorSet}

theorem Sound.f_bounds (sound : vs.Sound) (large : 4 ≤ vs.n) : 1 ≤ vs.f ∧ 3 * vs.f < vs.n := by
  have f_eq := sound.f_eq
  rw [Int.tdiv_eq_ediv_of_nonneg (by omega)] at f_eq
  omega

theorem Sound.length_weightsOfSet (sound : vs.Sound) : (vs.weightsOfSet.length : Int) = vs.n := by
  rw [vs.weightsOfSet_length]
  exact sound.validators_length

/-- The cap is the greatest live one up to the greatest weight. -/
theorem Sound.countWeightCap_spec (sound : vs.Sound) (large : 4 ≤ vs.n) :
    1 ≤ countWeightCap vs ∧ countLiveAtCap vs.f (countWeightCap vs) vs.weightsOfSet = true ∧
      (∃ entry ∈ vs.weightsOfSet, countWeightCap vs ≤ entry.2) ∧
      ∀ other, (∃ entry ∈ vs.weightsOfSet, other ≤ entry.2) →
        countLiveAtCap vs.f other vs.weightsOfSet = true → other ≤ countWeightCap vs := by
  have positive := sound.weightsOfSet_pos
  have size := sound.length_weightsOfSet
  obtain ⟨faulty, few⟩ := sound.f_bounds large
  unfold countWeightCap
  cases entries : vs.weightsOfSet with
  | nil =>
    rw [entries, List.length_nil] at size
    omega
  | cons first rest =>
    rw [entries] at positive size
    have above := positive first List.mem_cons_self
    have start := le_foldl_max rest first.2
    have attained := foldl_max_mem first rest
    have most : ∀ other, (∃ entry ∈ first :: rest, other ≤ entry.2) →
        other ≤ rest.foldl (fun current entry => max current entry.2) first.2 := by
      rintro other ⟨entry, member, below⟩
      rcases List.mem_cons.mp member with rfl | later
      · exact below.trans start
      · exact below.trans (le_foldl_max_of_mem later)
    dsimp only
    split
    · next whole =>
      have live : countLiveAtCap vs.f (rest.foldl (fun current entry =>
          max current entry.2) first.2) (first :: rest) = true := by
        simpa [not_le.mpr (by omega : 0 < vs.f)] using whole
      obtain ⟨entry, member, equal⟩ := attained
      exact ⟨by omega, live, ⟨entry, member, equal.le⟩, fun other inside _ => most other inside⟩
    · obtain ⟨found, under, greatest⟩ := @searchCap_spec (first :: rest) vs.f 1
        (rest.foldl (fun current entry => max current entry.2) first.2)
        (fun natural lower => countLiveAtCap_mono positive natural lower)
        (countLiveAtCap_one positive (by omega) (by omega)) (by omega)
      obtain ⟨entry, member, equal⟩ := attained
      exact ⟨le_searchCap _ _ _ _, found, ⟨entry, member, equal ▸ under⟩,
        fun other inside live => greatest other (most other inside) live⟩

/-- Members of a set that was built: sorted by their addresses, each once. -/
structure Laid (vs : ValidatorSet) : Prop extends Sound vs where
  nodup : (vs.validators.map ValidatorInfo.address).Nodup
  sorted : vs.validators.Pairwise fun left right => left.address ≤ right.address

theorem laid_of_built {vs : ValidatorSet}
    (built : makeWeightedValidatorSet entries = .ok vs) : vs.Laid := by
  have sound := sound_makeWeightedValidatorSet built
  obtain ⟨valid, rfl⟩ := makeWeightedValidatorSet_eq_ok_iff.mp built
  refine ⟨sound, ?_, ?_⟩
  · have same : ((buildValidatorSet true entries).validators.map
        ValidatorInfo.address).Perm (entries.map fun entry => entry.1.address) := by
      rw [buildValidatorSet, List.map_map]
      exact (sortByKey_perm _ entries).map _
    exact same.nodup_iff.mpr valid.nodup_address
  · exact List.pairwise_map.mpr (sortByKey_pairwise _ entries)

/-- Weight of an address under a cap. -/
def cappedWeight (vs : ValidatorSet) (cap : Int) (addr : Bytes) : Int := min (vs.weightOf addr) cap

/-- As many members as the set tolerates to be faulty, none of them lighter than
any other member. -/
structure Heaviest (vs : ValidatorSet) (group : Finset Bytes) : Prop where
  subset : group ⊆ vs.members
  size : (group.card : Int) = vs.f
  heavy : ∀ inside ∈ group, ∀ outside ∈ vs.members \ group, vs.weightOf outside ≤ vs.weightOf inside

/-- Under a cap, the set without its `f` heaviest members weighs a quorum. -/
def LiveAt (vs : ValidatorSet) (cap : Int) : Prop :=
  ∀ group, vs.Heaviest group →
    quorumWeightOf (∑ addr ∈ vs.members, vs.cappedWeight cap addr) ≤
      ∑ addr ∈ vs.members \ group, vs.cappedWeight cap addr

theorem lookup_of_mem {weights : List (Bytes × Int)} {entry : Bytes × Int}
    (distinct : (weights.map Prod.fst).Nodup) (listed : entry ∈ weights) :
    weights.lookup entry.1 = some entry.2 := by
  induction weights with
  | nil => cases listed
  | cons other rest ih =>
    obtain ⟨fresh, distinct⟩ := List.nodup_cons.mp distinct
    rw [List.lookup_cons]
    rcases List.mem_cons.mp listed with rfl | later
    · rw [BEq.rfl]
    · have different : entry.1 ≠ other.1 := by
        intro same
        exact fresh (same ▸ List.mem_map_of_mem later)
      rw [beq_false_of_ne different]
      exact ih distinct later

namespace Laid

variable {group : Finset Bytes}

theorem members_eq (laid : vs.Laid) :
    vs.members = (vs.validators.map ValidatorInfo.address).toFinset := by
  rw [members, laid.addresses]

/-- Members are listed with the weights they were given. -/
theorem weightsOfSet_snd (laid : vs.Laid) :
    vs.weightsOfSet.map Prod.snd = vs.weights.map Prod.snd := by
  have distinct : (vs.weights.map Prod.fst).Nodup := by
    rw [laid.addresses]
    exact laid.nodup
  have each : ∀ entry ∈ vs.weights, vs.weightOf entry.1 = entry.2 := by
    intro entry listed
    rw [weightOf, weightOfAddr, lookup_of_mem distinct listed]
    rfl
  have keys : vs.weightsOfSet.map Prod.snd =
      (vs.validators.map ValidatorInfo.address).map vs.weightOf := by
    simp [weightsOfSet, weightOf, Function.comp_def]
  rw [keys, ← laid.addresses, List.map_map]
  exact List.map_congr_left each

theorem weights_capped (vs : ValidatorSet) (cap : Int) :
    (capEntries cap vs.weightsOfSet).map Prod.snd =
      (vs.validators.map ValidatorInfo.address).map (vs.cappedWeight cap) := by
  simp [capEntries, weightsOfSet, cappedWeight, weightOf, Function.comp_def]

/-- A group of members is among the members as they are listed. -/
theorem subperm (laid : vs.Laid) (subset : group ⊆ vs.members)
    (value : Bytes → Int) : (group.toList.map value).Subperm
      ((vs.validators.map ValidatorInfo.address).map value) := by
  have inside : group.toList.Subperm (vs.validators.map ValidatorInfo.address) := by
    apply List.subperm_of_subset group.nodup_toList
    intro addr listed
    have member := subset (Finset.mem_toList.mp listed)
    rw [laid.members_eq] at member
    exact List.mem_toFinset.mp member
  obtain ⟨keys, perm, sub⟩ := inside
  exact ⟨keys.map value, perm.map value, sub.map value⟩

/-- The total under a cap. -/
theorem sum_capped (laid : vs.Laid) (cap : Int) :
    sumWeights (capEntries cap vs.weightsOfSet) =
      ∑ addr ∈ vs.members, vs.cappedWeight cap addr := by
  rw [sumWeights_eq, weights_capped, laid.members_eq, List.sum_toFinset _ laid.nodup]

theorem cappedWeight_nonneg (laid : vs.Laid) (natural : 0 ≤ cap)
    (addr : Bytes) : 0 ≤ vs.cappedWeight cap addr :=
  le_min (laid.weightOf_nonneg addr) natural

/-- A group that may be faulty weighs no more than the heaviest one. -/
theorem sum_le_largest (laid : vs.Laid) (natural : 0 ≤ cap)
    (subset : group ⊆ vs.members) (few : (group.card : Int) ≤ vs.f) :
    ∑ addr ∈ group, vs.cappedWeight cap addr ≤
      largestWeightSum vs.f (capEntries cap vs.weightsOfSet) := by
  rw [largestWeightSum_eq, weights_capped, ← Finset.sum_map_toList]
  apply sum_le_largestSum
  · exact laid.subperm subset _
  · intro weight listed
    obtain ⟨addr, -, rfl⟩ := List.mem_map.mp listed
    exact laid.cappedWeight_nonneg natural addr
  · rw [List.length_map, Finset.length_toList]
    omega

/-- What is left of a live set without a group that may be faulty. -/
theorem quorum_le_of_live (laid : vs.Laid) (natural : 0 ≤ cap)
    (live : countLiveAtCap vs.f cap vs.weightsOfSet = true)
    (subset : group ⊆ vs.members) (few : (group.card : Int) ≤ vs.f) :
    quorumWeightOf (∑ addr ∈ vs.members, vs.cappedWeight cap addr) ≤
      ∑ addr ∈ vs.members \ group, vs.cappedWeight cap addr := by
  have most := laid.sum_le_largest natural subset few
  have whole : (∑ addr ∈ vs.members \ group, vs.cappedWeight cap addr) +
      ∑ addr ∈ group, vs.cappedWeight cap addr =
        ∑ addr ∈ vs.members, vs.cappedWeight cap addr := Finset.sum_sdiff subset
  have balance := of_decide_eq_true live
  rw [laid.sum_capped] at balance
  omega

/-- The `f` heaviest members, and how much they weigh under a cap. -/
theorem exists_heaviest (laid : vs.Laid) (large : 4 ≤ vs.n) :
    ∃ group, vs.Heaviest group ∧ ∀ cap, ∑ addr ∈ group, vs.cappedWeight cap addr =
        largestWeightSum vs.f (capEntries cap vs.weightsOfSet) := by
  obtain ⟨faulty, few⟩ := laid.f_bounds large
  have size := laid.validators_length
  let keys := vs.validators.map ValidatorInfo.address
  let ranked := keys.insertionSort fun left right => vs.weightOf right ≤ vs.weightOf left
  have perm : ranked.Perm keys := List.perm_insertionSort _ _
  have distinct : ranked.Nodup := perm.nodup_iff.mpr laid.nodup
  have weights : ranked.map vs.weightOf = LiteNode.heaviest vs.weightsOfSet := by
    have all : vs.weightsOfSet.map Prod.snd = keys.map vs.weightOf := by
      simp [weightsOfSet, weightOf, keys, Function.comp_def]
    rw [LiteNode.heaviest, all]
    exact List.map_insertionSort _ _ _ _ fun _ _ _ _ => Iff.rfl
  have sorted : (ranked.map vs.weightOf).Pairwise fun left right =>
      right ≤ left := by
    rw [weights]
    exact pairwise_insertionSort_ge _
  rw [List.pairwise_map, ← List.take_append_drop vs.f.toNat ranked, List.pairwise_append] at sorted
  refine ⟨(ranked.take vs.f.toNat).toFinset, ⟨?_, ?_, ?_⟩, fun cap => ?_⟩
  · intro addr listed
    rw [laid.members_eq, List.mem_toFinset]
    exact perm.mem_iff.mp (List.mem_of_mem_take (List.mem_toFinset.mp listed))
  · rw [List.toFinset_card_of_nodup (distinct.sublist (List.take_sublist _ _)),
      List.length_take, perm.length_eq, List.length_map]
    omega
  · intro inside listed outside rest
    obtain ⟨member, other⟩ := Finset.mem_sdiff.mp rest
    rw [laid.members_eq, List.mem_toFinset] at member
    rw [List.mem_toFinset] at listed other
    have ranked' := perm.mem_iff.mpr member
    rw [← List.take_append_drop vs.f.toNat ranked, List.mem_append] at ranked'
    exact sorted.2.2 inside listed outside (ranked'.resolve_left other)
  · rw [List.sum_toFinset _ (distinct.sublist (List.take_sublist _ _)),
      largestWeightSum_eq, largestSum, capEntries_weights, insertionSort_capped,
      ← weights, List.map_map, ← List.map_take]
    rfl

/-- The code's test is whether the set is live without its heaviest members. -/
theorem liveAt_iff (laid : vs.Laid) (large : 4 ≤ vs.n) (natural : 0 ≤ cap) :
    countLiveAtCap vs.f cap vs.weightsOfSet = true ↔ vs.LiveAt cap := by
  constructor
  · intro live group heaviest
    exact laid.quorum_le_of_live natural live heaviest.subset heaviest.size.le
  · intro live
    obtain ⟨group, heaviest, weighs⟩ := laid.exists_heaviest large
    have rest := live group heaviest
    have whole : (∑ addr ∈ vs.members \ group, vs.cappedWeight cap addr) +
        ∑ addr ∈ group, vs.cappedWeight cap addr = ∑ addr ∈ vs.members, vs.cappedWeight cap addr :=
      Finset.sum_sdiff heaviest.subset
    apply decide_eq_true
    rw [laid.sum_capped, ← weighs]
    omega

theorem lookup_map_self {keys : List Bytes} {addr : Bytes} {value : Bytes → Int}
    (listed : addr ∈ keys) :
    (keys.map fun key => (key, value key)).lookup addr = some (value addr) := by
  induction keys with
  | nil => cases listed
  | cons key keys ih =>
    rw [List.map_cons, List.lookup_cons]
    by_cases same : addr = key
    · rw [same, BEq.rfl]
    · rw [beq_false_of_ne same]
      exact ih ((List.mem_cons.mp listed).resolve_left same)

theorem countCappedSet_eq (laid : vs.Laid) (weighted : vs.weighted = true) (large : 4 ≤ vs.n) :
    countCappedSet vs = buildValidatorSet true
        (capEntries (countWeightCap vs) vs.weightsOfSet) ∧
      (countCappedSet vs).validators = vs.validators ∧ (countCappedSet vs).members = vs.members ∧
      ∀ addr ∈ vs.members, (countCappedSet vs).weightOf addr =
        vs.cappedWeight (countWeightCap vs) addr := by
  have sorted : sortByKey (fun entry => entry.1.address)
      (capEntries (countWeightCap vs) vs.weightsOfSet) =
        capEntries (countWeightCap vs) vs.weightsOfSet := by
    apply sortByKey_eq_self
    rw [capEntries, weightsOfSet, List.map_map, List.pairwise_map]
    exact laid.sorted
  have built : countCappedSet vs = buildValidatorSet true
      (capEntries (countWeightCap vs) vs.weightsOfSet) := by
    unfold countCappedSet
    rw [if_neg]
    simp [weighted, large]
  have listed : (countCappedSet vs).validators = vs.validators := by
    rw [built, buildValidatorSet, sorted]
    simp [capEntries, weightsOfSet, Function.comp_def]
  have weights : (countCappedSet vs).weights =
      (vs.validators.map ValidatorInfo.address).map fun addr =>
        (addr, vs.cappedWeight (countWeightCap vs) addr) := by
    rw [built, buildValidatorSet, sorted]
    simp [capEntries, weightsOfSet, cappedWeight, weightOf, Function.comp_def]
  refine ⟨built, listed, ?_, ?_⟩
  · rw [laid.members_eq, members, weights]
    simp [Function.comp_def]
  · intro addr member
    rw [laid.members_eq, List.mem_toFinset] at member
    rw [weightOf, weightOfAddr, weights, lookup_map_self member]
    rfl

end Laid

theorem weighted_of_built {vs : ValidatorSet} (built : makeWeightedValidatorSet entries = .ok vs) :
    vs.weighted = true := by
  obtain ⟨-, rfl⟩ := makeWeightedValidatorSet_eq_ok_iff.mp built
  rfl

theorem capEntries_capEntries (cap : Int) (entries : List (ValidatorInfo × Int)) :
    capEntries cap (capEntries cap entries) = capEntries cap entries := by
  simp [capEntries, Function.comp_def]

theorem capEntries_eq_self (each : ∀ entry ∈ entries, entry.2 ≤ cap) :
    capEntries cap entries = entries := by
  have same : ∀ entry ∈ entries, (entry.1, min entry.2 cap) = entry := by
    intro entry listed
    rw [min_eq_left (each entry listed)]
  rw [capEntries, List.map_congr_left same, List.map_id']

theorem Laid.countCappedSet_idem (laid : vs.Laid) (weighted : vs.weighted = true)
    (large : 4 ≤ vs.n) : countCappedSet (countCappedSet vs) = countCappedSet vs := by
  obtain ⟨built, listed, members, weighs⟩ := laid.countCappedSet_eq weighted large
  obtain ⟨sound, n_eq, f_eq, -⟩ := laid.toSound.countCappedSet
  obtain ⟨-, live, -, -⟩ := laid.toSound.countWeightCap_spec large
  have entries : (countCappedSet vs).weightsOfSet =
      capEntries (countWeightCap vs) vs.weightsOfSet := by
    rw [weightsOfSet, listed, capEntries, weightsOfSet, List.map_map]
    apply List.map_congr_left
    intro validator member
    have inside : validator.address ∈ vs.members := by
      rw [laid.members_eq, List.mem_toFinset]
      exact List.mem_map_of_mem member
    exact Prod.ext rfl (weighs _ inside)
  have large' : 4 ≤ (countCappedSet vs).n := n_eq ▸ large
  obtain ⟨-, -, -, greatest⟩ := sound.countWeightCap_spec large'
  have live' : countLiveAtCap (countCappedSet vs).f (countWeightCap vs)
      (countCappedSet vs).weightsOfSet = true := by
    unfold countLiveAtCap
    rw [entries, capEntries_capEntries, f_eq]
    exact live
  have positive := sound.weightsOfSet_pos
  have within : ∀ entry ∈ (countCappedSet vs).weightsOfSet,
      entry.2 ≤ countWeightCap (countCappedSet vs) := by
    intro entry present
    have below : entry.2 ≤ countWeightCap vs := by
      rw [entries] at present
      obtain ⟨source, -, rfl⟩ := List.mem_map.mp present
      exact min_le_right _ _
    exact greatest entry.2 ⟨entry, present, le_rfl⟩
      (countLiveAtCap_mono positive (positive entry present) below live')
  have weighted' : (countCappedSet vs).weighted = true := by
    rw [built]
    rfl
  have again : countCappedSet (countCappedSet vs) = buildValidatorSet true
      (capEntries (countWeightCap (countCappedSet vs)) (countCappedSet vs).weightsOfSet) := by
    rw [LiteNode.countCappedSet, if_neg]
    simp [weighted', large']
  rw [again, capEntries_eq_self within, entries]
  exact built.symm

/-- A live cap leaves a quorum of the capped set without any group that may be
faulty. -/
theorem Laid.hasQuorum_capped (laid : vs.Laid) (weighted : vs.weighted = true)
    (large : 4 ≤ vs.n) {signers : List Bytes}
    (inside : ∀ addr ∈ signers, vs.isValidator addr = true)
    (enough : vs.n - vs.f ≤ signers.toFinset.card) :
    (countCappedSet vs).hasQuorum signers = true := by
  obtain ⟨built, listed, members, weighs⟩ := laid.countCappedSet_eq weighted large
  obtain ⟨sound, n_eq, f_eq, quorum_eq⟩ := laid.toSound.countCappedSet
  obtain ⟨positive, live, -, -⟩ := laid.toSound.countWeightCap_spec large
  have subset : signers.toFinset ⊆ vs.members := by
    intro addr present
    exact laid.isValidator_iff.mp (inside addr (List.mem_toFinset.mp present))
  have all : (vs.members.card : Int) = vs.n := by
    rw [laid.members_eq, List.toFinset_card_of_nodup laid.nodup, List.length_map]
    exact laid.validators_length
  have few : ((vs.members \ signers.toFinset).card : Int) ≤ vs.f := by
    have natural := (laid.f_bounds large).1
    rw [Finset.card_sdiff_of_subset subset]
    omega
  have rest := laid.quorum_le_of_live (by omega) live Finset.sdiff_subset few
  rw [Finset.sdiff_sdiff_eq_self subset] at rest
  have total : (countCappedSet vs).totalWeight =
      ∑ addr ∈ vs.members, vs.cappedWeight (countWeightCap vs) addr := by
    rw [← laid.sum_capped, sumWeights_eq, sound.total_eq]
    have same := (sortByKey_perm (fun entry => entry.1.address)
      (capEntries (countWeightCap vs) vs.weightsOfSet)).map Prod.snd
    rw [← same.sum_eq, built, buildValidatorSet, List.map_map]
    rfl
  have heavy := sound.totalWeight_pos (n_eq ▸ by omega)
  refine hasQuorum_iff.mpr ⟨?_, hasWeightQuorum_iff.mpr ⟨members ▸ subset, ?_⟩⟩
  · have quorum := laid.quorum_eq
    rw [if_neg (by omega), if_neg (by omega)] at quorum
    rw [quorum_eq, quorum]
    exact enough
  · rw [sound.quorumWeight_eq, if_neg (not_le.mpr heavy), total]
    refine rest.trans (le_of_eq (Finset.sum_congr rfl ?_))
    intro addr present
    exact (weighs addr (subset present)).symm

/-- The cap of a set of at least four members is the greatest one, up to the
greatest weight, that leaves a quorum without the heaviest members. In the capped
set all but the tolerated number of members have a quorum, and it is not capped
any further. -/
theorem countWeightCap_greatest {vs : ValidatorSet}
    (built : makeWeightedValidatorSet entries = .ok vs) (large : 4 ≤ vs.n) :
    (∃ group, vs.Heaviest group) ∧
      1 ≤ countWeightCap vs ∧
      (∃ entry ∈ vs.weights, countWeightCap vs ≤ entry.2) ∧
      vs.LiveAt (countWeightCap vs) ∧
      (∀ other, 1 ≤ other → (∃ entry ∈ vs.weights, other ≤ entry.2) →
        vs.LiveAt other → other ≤ countWeightCap vs) ∧
      (∀ signers : List Bytes, (∀ addr ∈ signers, vs.isValidator addr = true) →
        vs.n - vs.f ≤ signers.toFinset.card →
          (countCappedSet vs).hasQuorum signers = true) ∧
      countCappedSet (countCappedSet vs) = countCappedSet vs := by
  have laid := laid_of_built built
  have weighted := weighted_of_built built
  obtain ⟨positive, live, bounded, greatest⟩ := laid.toSound.countWeightCap_spec large
  have weights : ∀ bound : Int, (∃ entry ∈ vs.weightsOfSet, bound ≤ entry.2) ↔
      ∃ entry ∈ vs.weights, bound ≤ entry.2 := by
    intro bound
    have same : vs.weightsOfSet.map Prod.snd = vs.weights.map Prod.snd := laid.weightsOfSet_snd
    have heavy : ∀ weight, (∃ entry ∈ vs.weightsOfSet, entry.2 = weight) ↔
        ∃ entry ∈ vs.weights, entry.2 = weight := by
      intro weight
      have member := congrArg (weight ∈ ·) same
      simpa only [List.mem_map, eq_iff_iff] using member
    constructor
    · rintro ⟨entry, listed, below⟩
      obtain ⟨other, present, equal⟩ := (heavy entry.2).mp ⟨entry, listed, rfl⟩
      exact ⟨other, present, equal ▸ below⟩
    · rintro ⟨entry, listed, below⟩
      obtain ⟨other, present, equal⟩ := (heavy entry.2).mpr ⟨entry, listed, rfl⟩
      exact ⟨other, present, equal ▸ below⟩
  refine ⟨?_, positive, (weights _).mp bounded,
    (laid.liveAt_iff large (by omega)).mp live, ?_, ?_,
    laid.countCappedSet_idem weighted large⟩
  · obtain ⟨group, heaviest, -⟩ := laid.exists_heaviest large
    exact ⟨group, heaviest⟩
  · intro other least inside alive
    exact greatest other ((weights other).mpr inside)
      ((laid.liveAt_iff large (by omega)).mpr alive)
  · intro signers inside enough
    exact laid.hasQuorum_capped weighted large inside enough

/-- Of four members, three have a quorum once the weights are capped, which they
have not before. -/
theorem countWeightCap_greatest_entries :
    (buildValidatorSet true intersectionEntries).hasQuorum [[2], [3], [4]] = false ∧
      (countCappedSet (buildValidatorSet true intersectionEntries)).hasQuorum
        [[2], [3], [4]] = true := by
  have built : makeWeightedValidatorSet intersectionEntries =
      .ok (buildValidatorSet true intersectionEntries) := by
    decide +kernel
  obtain ⟨-, -, -, -, -, quorums, -⟩ := countWeightCap_greatest built (by decide +kernel)
  exact ⟨by decide +kernel, quorums [[2], [3], [4]] (by decide +kernel) (by decide +kernel)⟩

end ValidatorSet
end LiteNode
