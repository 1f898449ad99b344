import LiteNode.Data.Thresholds
import LiteNode.Types.Soundness

/-!
# The threshold of a round skip

A round is skipped when the signers who are ahead outweigh what a quorum leaves
out, and are more than the tolerated faults under the rules that count them.
-/

namespace LiteNode
namespace ValidatorSet

open Thresholds

variable {vs : ValidatorSet} {policy : QuorumPolicy} {epochId : Int}

theorem rising_roundSkipReachedAt (policy : QuorumPolicy) (epochId : Int)
    (vs : ValidatorSet) : Rising (vs.roundSkipReachedAt policy epochId) := by
  intro count count' weight weight' more heavier reached
  simp only [roundSkipReachedAt, Bool.and_eq_true, Bool.or_eq_true, decide_eq_true_eq] at reached ⊢
  obtain ⟨⟨valid, weighs⟩, counts⟩ := reached
  exact ⟨⟨valid, weighs.trans heavier⟩, counts.imp_right fun enough => enough.trans more⟩

/-- A skip asks for some weight, as a quorum asks for no more than all of it. -/
theorem Sound.roundSkipWeight_pos (sound : vs.Sound) : 0 < vs.roundSkipWeight := by
  have total : 0 ≤ vs.totalWeight := by
    rw [sound.total_eq]
    refine List.sum_nonneg fun weight listed => ?_
    obtain ⟨entry, present, rfl⟩ := List.mem_map.mp listed
    exact (sound.weight_pos entry present).le
  rw [roundSkipWeight, sound.quorumWeight_eq]
  split
  · omega
  · rw [quorumWeightOf, Int.tdiv_eq_ediv_of_nonneg (by omega)]
    omega

/-- Nobody alone does not justify a skip. -/
theorem Sound.roundSkipReachedAt_zero (sound : vs.Sound) :
    vs.roundSkipReachedAt policy epochId 0 0 = false := by
  have positive := sound.roundSkipWeight_pos
  simp [roundSkipReachedAt, not_le.mpr positive]

/-- A member has a public key. -/
theorem exists_pubkeyOfAddr {addr : Bytes} (member : vs.isValidator addr = true) :
    ∃ pubkey, vs.pubkeyOfAddr addr = some pubkey := by
  obtain ⟨validator, listed, same⟩ := List.any_eq_true.mp member
  have some : (vs.validators.find? fun validator =>
      validator.address == addr).isSome :=
    List.find?_isSome.mpr ⟨validator, listed, same⟩
  obtain ⟨found, search⟩ := Option.isSome_iff_exists.mp some
  exact ⟨found.pubkey, by rw [pubkeyOfAddr, search, Option.map_some]⟩

/-- Signers who justify a skip outweigh what a quorum leaves out, and are more
than the tolerated faults unless only weights count. -/
theorem outweigh_of_roundSkipReachedAt {count weight : Int}
    (reached : vs.roundSkipReachedAt policy epochId count weight = true) :
    vs.totalWeight - vs.quorumWeight < weight ∧
      (policy.select epochId ≠ .prior → vs.f + 1 ≤ count) := by
  simp only [roundSkipReachedAt, Bool.and_eq_true, Bool.or_eq_true, decide_eq_true_eq] at reached
  obtain ⟨⟨-, weighs⟩, counts⟩ := reached
  rw [roundSkipWeight] at weighs
  exact ⟨by omega, fun counted => counts.resolve_left counted⟩

end ValidatorSet
end LiteNode
