import LiteNode.Types.Messages

/-!
# Authors of headers

A leader is a member, members are authors, and so are the members of the set
in which the extra authors count as well. Hence the header of a well-formed
proposal always names an author.
-/

namespace LiteNode
namespace ValidatorSet

variable {chainId addr : Bytes} {epochId : Int} {vs : ValidatorSet}

def extraAuthors (chainId : Bytes) (epochId : Int) (vs : ValidatorSet) :
    List (ValidatorInfo × Int) :=
  match vs.authors with
  | some (height, entries) =>
    if height = epochId ∧ QuorumPolicy.linearWeight chainId epochId then entries
    else []
  | none => []

theorem isAuthor_iff :
    vs.isAuthor chainId epochId addr = true ↔
      vs.isValidator addr = true ∨
        ∃ entry ∈ vs.extraAuthors chainId epochId, entry.1.address = addr := by
  unfold isAuthor authorEntry isValidator
  cases found : vs.validators.find? fun validator => validator.address == addr with
  | some member =>
    have present := List.mem_of_find?_eq_some found
    have same : member.address = addr := by simpa using List.find?_some found
    have weighed := vs.weighed member present
    rw [same] at weighed
    have listed : vs.validators.any (fun validator => validator.address == addr) = true :=
      List.any_eq_true.mpr ⟨member, present, by simpa using same⟩
    simp [weightOfAddr, listed, weighed]
  | none =>
    have unlisted : vs.validators.any (fun validator => validator.address == addr) = false := by
      rw [List.any_eq_false]
      exact List.find?_eq_none.mp found
    simp only [unlisted, Bool.false_eq_true, false_or]
    unfold extraAuthors
    cases vs.authors with
    | none => simp
    | some extra =>
      simp only
      split
      · simp [List.find?_isSome]
      · simp

theorem isAuthor_of_isValidator (member : vs.isValidator addr = true) :
    vs.isAuthor chainId epochId addr = true :=
  isAuthor_iff.mpr (Or.inl member)

theorem isValidator_of_mem {validator : ValidatorInfo} (member : validator ∈ vs.validators) :
    vs.isValidator validator.address = true :=
  List.any_eq_true.mpr ⟨validator, member, beq_self_eq_true _⟩

theorem isValidator_buildValidatorSet {weighted : Bool} {entries : List (ValidatorInfo × Int)} :
    (buildValidatorSet weighted entries).isValidator addr = true ↔
      ∃ entry ∈ entries, entry.1.address = addr := by
  simp only [isValidator, buildValidatorSet, List.any_map, List.any_eq_true,
    Function.comp_apply, beq_iff_eq]
  simp only [(sortByKey_perm _ entries).mem_iff]

/-- The source set is built from the members and the extra authors. -/
theorem sourceSet_eq_some {source : ValidatorSet}
    (found : vs.sourceSet chainId epochId = some source) :
    EntriesValid (vs.weightsOfSet ++ vs.extraAuthors chainId epochId) ∧
      source = buildValidatorSet true (vs.weightsOfSet ++ vs.extraAuthors chainId epochId) := by
  unfold sourceSet at found
  unfold extraAuthors
  cases extra : vs.authors with
  | none => simp [extra] at found
  | some pair =>
    rw [extra] at found
    simp only at found ⊢
    split at found
    · next counts =>
      rw [if_pos counts]
      cases made : makeWeightedValidatorSet (vs.weightsOfSet ++ pair.2) with
      | error reason => simp [made, Except.toOption] at found
      | ok set =>
        obtain ⟨valid, set_eq⟩ := makeWeightedValidatorSet_eq_ok_iff.mp made
        have source_eq : set = source := by simpa [made, Except.toOption] using found
        exact ⟨valid, (set_eq.trans source_eq).symm⟩
    · cases found

theorem isAuthor_of_sourceSet {source : ValidatorSet}
    (found : vs.sourceSet chainId epochId = some source)
    (author : source.isAuthor chainId epochId addr = true) :
    vs.isAuthor chainId epochId addr = true := by
  obtain ⟨-, rfl⟩ := sourceSet_eq_some found
  have counted : (buildValidatorSet true (vs.weightsOfSet ++
      vs.extraAuthors chainId epochId)).isValidator addr = true := by
    rcases isAuthor_iff.mp author with member | ⟨entry, present, -⟩
    · exact member
    · cases present
  obtain ⟨entry, present, same⟩ := isValidator_buildValidatorSet.mp counted
  rw [isAuthor_iff]
  rcases List.mem_append.mp present with member | extra
  · obtain ⟨validator, listed, rfl⟩ := List.mem_map.mp member
    exact Or.inl (same ▸ isValidator_of_mem listed)
  · exact Or.inr ⟨entry, extra, same⟩

end ValidatorSet

theorem mem_of_selectLeader
    {vs : ValidatorSet} {target offset : Int} {validators : List ValidatorInfo}
    {leader : ValidatorInfo} (selected : selectLeader vs target offset validators = some leader) :
    leader ∈ validators := by
  induction validators generalizing offset with
  | nil => cases selected
  | cons validator rest ih =>
    unfold selectLeader at selected
    simp only at selected
    split at selected
    · cases selected
      exact List.mem_cons_self
    · exact List.mem_cons_of_mem _ (ih selected)

theorem mem_of_leaderOf {ext : Externals} {vs : ValidatorSet} {epochId round : Int}
    {leader : ValidatorInfo} (selected : leaderOf ext vs epochId round = some leader) :
    leader ∈ vs.validators := by
  unfold leaderOf at selected
  split at selected
  · cases selected
  split at selected
  · exact mem_of_selectLeader selected
  · simp only at selected
    split at selected
    · cases selected
    · exact List.mem_of_getElem? selected

/-- What a well-formed proposal says about its header. -/
structure HeaderFits
    (ext : Externals) (chainId : Bytes) (vs : ValidatorSet)
    (epochId : Int) (header : EpochHeader) : Prop where
  author : vs.isAuthor chainId epochId header.creatorAddr = true
  protoVersion : header.protoVersion = ext.versionForEpoch epochId
  sameChain : header.chainId = chainId
  sameEpoch : header.epochId = epochId

/-- The header of a well-formed proposal fits. Its author is the leader, or is
checked. -/
theorem headerFits_of_wellFormed
    {ext : Externals} {chainId : Bytes} {vs : ValidatorSet} {p : Propose}
    (wellFormed : proposalIsWellFormed ext chainId vs p = true) :
    HeaderFits ext chainId vs p.epochId p.header := by
  unfold proposalIsWellFormed at wellFormed
  simp only [Bool.and_eq_true, decide_eq_true_eq] at wellFormed
  obtain ⟨⟨⟨⟨⟨⟨⟨⟨-, -⟩, chain⟩, version⟩, headerChain⟩, headerEpoch⟩, -⟩,
    leads⟩, author⟩ := wellFormed
  refine ⟨?_, version, headerChain.trans chain, headerEpoch⟩
  split at author
  · obtain ⟨leader, selected, same⟩ := Option.map_eq_some_iff.mp leads
    have creator : p.header.creatorAddr = p.proposer := by simpa using author
    rw [creator, ← same]
    exact ValidatorSet.isAuthor_of_isValidator
      (ValidatorSet.isValidator_of_mem (mem_of_leaderOf selected))
  · exact author

end LiteNode
