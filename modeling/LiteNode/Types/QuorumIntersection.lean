import LiteNode.Data.Thresholds
import LiteNode.Types.Soundness

/-!
# Quorum intersection

Any two signer lists that reach a quorum share more weight than a quorum leaves
out, and under the counting rules more signers than the set tolerates as
faulty.
-/

namespace LiteNode
namespace ValidatorSet

/-- Distinct addresses on both signer lists. -/
def commonSigners (first second : List Bytes) : Finset Bytes := first.toFinset ∩ second.toFinset

variable {vs : ValidatorSet} {signers : List Bytes}

theorem hasWeightQuorum_iff : vs.hasWeightQuorum signers = true ↔ signers.toFinset ⊆ vs.members ∧
      vs.quorumWeight ≤ ∑ addr ∈ signers.toFinset, vs.weightOf addr := by
  unfold hasWeightQuorum
  cases signed : vs.signedWeight signers with
  | none =>
    simp only [Bool.false_eq_true, false_iff, not_and]
    intro subset
    have complete := signedWeight_eq_some_iff.mpr ⟨subset, rfl⟩
    rw [signed] at complete
    cases complete
  | some weight =>
    obtain ⟨subset, rfl⟩ := signedWeight_eq_some_iff.mp signed
    simp [subset]

theorem hasQuorum_iff : vs.hasQuorum signers = true ↔ vs.quorum ≤ signers.toFinset.card ∧
      vs.hasWeightQuorum signers = true := by
  unfold hasQuorum hasQuorumValues hasWeightQuorum
  cases signed : vs.signedWeight signers with
  | none => simp
  | some weight => simp [uniqueSignerCount_eq]

/-- Under every rule a quorum reaches the quorum weight of the set that
counts. -/
theorem hasWeightQuorum_of_hasQuorumForRule {rule : QuorumRule}
    (reached : hasQuorumForRule rule vs signers = true) :
    (validatorSetForRule rule vs).hasWeightQuorum signers = true := by
  obtain ⟨-, reached⟩ := Bool.and_eq_true_iff.mp reached
  cases rule with
  | prior => exact reached
  | capped | stake => exact (hasQuorum_iff.mp reached).2

/-- The counting rules also ask for the quorum count. -/
theorem quorum_le_card_of_hasQuorumForRule {rule : QuorumRule} (counting : rule ≠ .prior)
    (reached : hasQuorumForRule rule vs signers = true) :
    (validatorSetForRule rule vs).quorum ≤ signers.toFinset.card := by
  obtain ⟨-, reached⟩ := Bool.and_eq_true_iff.mp reached
  cases rule with
  | prior => exact absurd rfl counting
  | capped | stake => exact (hasQuorum_iff.mp reached).1

/-- Two quorums by weight overlap in more than the weight outside one. -/
theorem Sound.lt_sum_commonSigners (sound : vs.Sound) (positive : 0 < vs.totalWeight)
    {first second : List Bytes} (firstQuorum : vs.hasWeightQuorum first = true)
    (secondQuorum : vs.hasWeightQuorum second = true) :
    vs.totalWeight - vs.quorumWeight < ∑ addr ∈ commonSigners first second, vs.weightOf addr := by
  obtain ⟨firstSubset, firstWeight⟩ := hasWeightQuorum_iff.mp firstQuorum
  obtain ⟨secondSubset, secondWeight⟩ := hasWeightQuorum_iff.mp secondQuorum
  have overlap := WeightedQuorum.sum_add_sum_le
    (fun addr _ => sound.weightOf_nonneg addr) firstSubset secondSubset
  have bound := sound.sum_members_le
  have threshold := sound.total_lt_quorumWeight positive
  unfold commonSigners
  omega

/-- Two quorums by count overlap in more signers than the set tolerates as
faulty. -/
theorem Sound.f_lt_card_commonSigners (sound : vs.Sound) (large : 4 ≤ vs.n)
    {first second : List Bytes} (firstSubset : first.toFinset ⊆ vs.members)
    (secondSubset : second.toFinset ⊆ vs.members) (firstCount : vs.quorum ≤ first.toFinset.card)
    (secondCount : vs.quorum ≤ second.toFinset.card) :
    vs.f < (commonSigners first second).card := by
  have overlap := WeightedQuorum.card_add_card_le firstSubset secondSubset
  have bound := sound.card_members_le
  have f_eq := sound.f_eq
  have quorum_eq := sound.quorum_eq
  rw [if_neg (by omega), if_neg (by omega)] at quorum_eq
  rw [Int.tdiv_eq_ediv_of_nonneg (by omega)] at f_eq
  unfold commonSigners
  omega

theorem Sound.totalWeight_pos (sound : vs.Sound) (nonempty : 0 < vs.n) : 0 < vs.totalWeight := by
  have weights_ne_nil : vs.weights ≠ [] := by
    intro empty
    have count := sound.n_eq
    rw [empty] at count
    simp only [List.length_nil] at count
    omega
  rw [sound.total_eq]
  apply List.sum_pos
  · intro weight present
    obtain ⟨entry, member, rfl⟩ := List.mem_map.mp present
    exact sound.weight_pos entry member
  · simpa using weights_ne_nil

/-- Under every rule, two signer lists that reach a quorum of a weighted set
share more weight than the quorum leaves out; under the counting rules a set
of at least four members also shares more than `f` signers. -/
theorem quorum_intersection {entries : List (ValidatorInfo × Int)} {vs : ValidatorSet}
    (built : makeWeightedValidatorSet entries = .ok vs)
    {rule : QuorumRule} {first second : List Bytes}
    (firstQuorum : hasQuorumForRule rule vs first = true)
    (secondQuorum : hasQuorumForRule rule vs second = true) :
    (validatorSetForRule rule vs).totalWeight - (validatorSetForRule rule vs).quorumWeight <
        ∑ addr ∈ commonSigners first second, (validatorSetForRule rule vs).weightOf addr ∧
      (rule = .capped ∨ rule = .stake → 4 ≤ vs.n →
        vs.f < (commonSigners first second).card) := by
  have sound := sound_makeWeightedValidatorSet built
  obtain ⟨effectiveSound, n_eq, f_eq, -⟩ := sound.validatorSetForRule rule
  have nonempty : 0 < vs.n := by
    obtain ⟨valid, rfl⟩ := makeWeightedValidatorSet_eq_ok_iff.mp built
    have length_pos := List.length_pos_iff.mpr valid.nonempty
    simpa [buildValidatorSet] using length_pos
  have positive := effectiveSound.totalWeight_pos (n_eq ▸ nonempty)
  have firstWeight := hasWeightQuorum_of_hasQuorumForRule firstQuorum
  have secondWeight := hasWeightQuorum_of_hasQuorumForRule secondQuorum
  refine ⟨effectiveSound.lt_sum_commonSigners positive firstWeight
    secondWeight, fun counting large => ?_⟩
  have counts : rule ≠ .prior := by
    rintro rfl
    simp at counting
  rw [← f_eq]
  exact effectiveSound.f_lt_card_commonSigners (n_eq ▸ large)
    (hasWeightQuorum_iff.mp firstWeight).1
    (hasWeightQuorum_iff.mp secondWeight).1
    (quorum_le_card_of_hasQuorumForRule counts firstQuorum)
    (quorum_le_card_of_hasQuorumForRule counts secondQuorum)

/-- Four members, of whom one alone weighs a quorum without the counting
rules. -/
def intersectionEntries : List (ValidatorInfo × Int) :=
  [(1, 100), (2, 10), (3, 10), (4, 10)].map fun (entry : UInt8 × Int) =>
    (⟨[entry.1], List.replicate 32 entry.1⟩, entry.2)

/-- Two quorums of the four under the capped rule share more than one
signer. -/
theorem quorum_intersection_entries :
    let vs := buildValidatorSet true intersectionEntries
    (validatorSetForRule .capped vs).totalWeight - (validatorSetForRule .capped vs).quorumWeight <
        ∑ addr ∈ commonSigners [[1], [2], [3], [1]] [[4], [2], [1]],
          (validatorSetForRule .capped vs).weightOf addr ∧
      (QuorumRule.capped = .capped ∨ QuorumRule.capped = .stake → 4 ≤ vs.n →
        vs.f < (commonSigners [[1], [2], [3], [1]] [[4], [2], [1]]).card) :=
  quorum_intersection
    (show makeWeightedValidatorSet intersectionEntries = .ok _ by decide +kernel)
    (by decide +kernel) (by decide +kernel)

end ValidatorSet
end LiteNode
