import LiteNode.Engine.Projecting
import LiteNode.Types.QuorumIntersection

/-!
# One quorum at most

In a consistent vote set of a sound validator set at most one proposal id has a
quorum, so the functions that read it off the counters agree.
-/

namespace LiteNode
namespace ValidatorSet

theorem Sound.totalWeight_pos_of_weight {vs : ValidatorSet} (sound : vs.Sound) {addr : Bytes}
    (weighs : (vs.weightOfAddr addr).isSome) : 0 < vs.totalWeight := by
  obtain ⟨weight, found⟩ := Option.isSome_iff_exists.mp weighs
  refine sound.totalWeight_pos ?_
  rw [sound.n_eq]
  exact_mod_cast List.length_pos_of_mem (weightOfAddr_mem found)

/-- Two disjoint groups of members are not both quorums by weight. -/
theorem Sound.inter_nonempty
    {vs : ValidatorSet} (sound : vs.Sound) (positive : 0 < vs.totalWeight)
    {first second : Finset Bytes}
    (firstSubset : first ⊆ vs.members) (secondSubset : second ⊆ vs.members)
    (firstWeight : vs.quorumWeight ≤ ∑ addr ∈ first, vs.weightOf addr)
    (secondWeight : vs.quorumWeight ≤ ∑ addr ∈ second, vs.weightOf addr) :
    vs.totalWeight - vs.quorumWeight < ∑ addr ∈ first ∩ second, vs.weightOf addr := by
  have overlap := WeightedQuorum.sum_add_sum_le
    (fun addr _ => sound.weightOf_nonneg addr) firstSubset secondSubset
  have bound := sound.sum_members_le
  have threshold := sound.total_lt_quorumWeight positive
  omega

end ValidatorSet

namespace VoteSet

variable {policy : QuorumPolicy} {epochId : Int} {vs : ValidatorSet}
variable {votes : VoteSet} {pid other : Bytes}

/-- Voters whose stored vote is for a proposal id. -/
def voters (votes : VoteSet) (pid : Bytes) : Finset Bytes :=
  ((votes.votesFor pid).map Vote.validator).toFinset

/-- Stored votes are by distinct voters. -/
theorem Consistent.nodup_validators (consistent : Consistent vs votes) :
    (votes.votes.values.map Vote.validator).Nodup := by
  have keys_eq : votes.votes.values.map Vote.validator = votes.votes.toList.map Prod.fst := by
    rw [Table.values, List.map_map]
    apply List.map_congr_left
    rintro ⟨addr, vote⟩ present
    exact consistent.keyed addr vote (Table.mem_toList.mp present)
  rw [keys_eq]
  exact votes.votes.nodup_keys

theorem Consistent.nodup_votesFor (consistent : Consistent vs votes) (pid : Bytes) :
    ((votes.votesFor pid).map Vote.validator).Nodup :=
  consistent.nodup_validators.sublist (List.filter_sublist.map _)

theorem Consistent.mem_voters (consistent : Consistent vs votes) {addr : Bytes} :
    addr ∈ votes.voters pid ↔
      ∃ vote, votes.votes.find? addr = some vote ∧ vote.proposalId = pid := by
  simp only [voters, votesFor, List.mem_toFinset, List.mem_map,
    List.mem_filter, Table.mem_values, decide_eq_true_eq]
  constructor
  · rintro ⟨vote, ⟨⟨key, stored⟩, same⟩, rfl⟩
    rw [consistent.keyed key vote stored]
    exact ⟨vote, stored, same⟩
  · rintro ⟨vote, stored, same⟩
    exact ⟨vote, ⟨⟨addr, stored⟩, same⟩, consistent.keyed addr vote stored⟩

theorem Consistent.voters_subset (consistent : Consistent vs votes) (pid : Bytes) :
    votes.voters pid ⊆ vs.members := by
  intro addr present
  obtain ⟨vote, stored, -⟩ := consistent.mem_voters.mp present
  have weighs := consistent.weighed vote (Table.mem_values.mpr ⟨addr, stored⟩)
  rw [consistent.keyed addr vote stored] at weighs
  exact ValidatorSet.mem_members_iff.mpr weighs

theorem Consistent.weigh_votesFor (consistent : Consistent vs votes) (pid : Bytes) :
    weigh vs (votes.votesFor pid) = ∑ addr ∈ votes.voters pid, vs.weightOf addr := by
  rw [voters, List.sum_toFinset _ (consistent.nodup_votesFor pid), List.map_map]
  rfl

theorem Consistent.length_votesFor (consistent : Consistent vs votes) (pid : Bytes) :
    (votes.votesFor pid).length = (votes.voters pid).card := by
  rw [voters, List.toFinset_card_of_nodup (consistent.nodup_votesFor pid), List.length_map]

/-- Nobody's stored vote is for two proposal ids. -/
theorem Consistent.eq_of_mem_voters (consistent : Consistent vs votes) {addr : Bytes}
    (first : addr ∈ votes.voters pid) (second : addr ∈ votes.voters other) : pid = other := by
  obtain ⟨vote, stored, rfl⟩ := consistent.mem_voters.mp first
  obtain ⟨vote', stored', rfl⟩ := consistent.mem_voters.mp second
  rw [stored] at stored'
  cases stored'
  rfl

theorem Consistent.quorumWeight_le (consistent : Consistent vs votes) (sound : vs.Sound)
    (shows : votes.ShowsQuorum policy epochId vs pid) :
    vs.quorumWeight ≤ ∑ addr ∈ votes.voters pid, vs.weightOf addr := by
  have nonneg : 0 ≤ ∑ addr ∈ votes.voters pid, vs.weightOf addr :=
    Finset.sum_nonneg fun addr _ => sound.weightOf_nonneg addr
  rcases shows with reached | ⟨nil, reached⟩
  · unfold ValidatorSet.quorumReachedAt at reached
    simp only [Bool.and_eq_true, decide_eq_true_eq] at reached
    by_cases proper : pid = nilHash
    · have weightless : votes.weightForPid pid = 0 := by
        rw [weightForPid, consistent.by_pid_weight, if_pos (Or.inl proper)]
        rfl
      exact reached.1.2.trans (weightless.le.trans nonneg)
    · rw [← consistent.weigh_votesFor, ← consistent.weightForPid_eq proper]
      exact reached.1.2
  · have nil' : pid = nilHash := by simpa [isNil] using nil
    unfold nilQuorum ValidatorSet.quorumReachedAt at reached
    simp only [Bool.and_eq_true, decide_eq_true_eq] at reached
    rw [nil', ← consistent.weigh_votesFor, ← consistent.weight_nil]
    exact reached.1.2

/-- At most one proposal id has a quorum. -/
theorem Consistent.eq_of_shows (consistent : Consistent vs votes) (sound : vs.Sound)
    (positive : 0 < vs.totalWeight) (first : votes.ShowsQuorum policy epochId vs pid)
    (second : votes.ShowsQuorum policy epochId vs other) : pid = other := by
  have overlap := sound.inter_nonempty positive
    (consistent.voters_subset pid) (consistent.voters_subset other)
    (consistent.quorumWeight_le sound first)
    (consistent.quorumWeight_le sound second)
  by_contra different
  have empty : votes.voters pid ∩ votes.voters other = ∅ := by
    rw [Finset.eq_empty_iff_forall_notMem]
    intro addr present
    obtain ⟨mine, yours⟩ := Finset.mem_inter.mp present
    exact different (consistent.eq_of_mem_voters mine yours)
  rw [empty, Finset.sum_empty] at overlap
  have weight := consistent.quorumWeight_le sound first
  have inside := Finset.sum_le_sum_of_subset_of_nonneg
    (f := vs.weightOf) (consistent.voters_subset pid)
    fun addr _ _ => sound.weightOf_nonneg addr
  have bound := sound.sum_members_le
  omega

/-- The voters of the votes for a proposal id, in any order. -/
theorem Consistent.signers (consistent : Consistent vs votes) {list : List Vote}
    (same : list.Perm (votes.votesFor pid)) :
    (list.map Vote.validator).Nodup ∧
      vs.signedWeight (list.map Vote.validator) = some (weigh vs (votes.votesFor pid)) ∧
      ValidatorSet.uniqueSignerCount (list.map Vote.validator) = (votes.votesFor pid).length := by
  have signers_eq : (list.map Vote.validator).toFinset = votes.voters pid :=
    List.toFinset_eq_of_perm _ _ (same.map _)
  refine ⟨(same.map _).nodup_iff.mpr (consistent.nodup_votesFor pid), ?_, ?_⟩
  · rw [ValidatorSet.signedWeight_eq_some_iff, signers_eq, consistent.weigh_votesFor]
    exact ⟨consistent.voters_subset pid, rfl⟩
  · rw [ValidatorSet.uniqueSignerCount_eq, signers_eq, consistent.length_votesFor]

/-- A quorum for a proposal is reached by the votes for it. -/
theorem Consistent.reached_of_shows
    (consistent : Consistent vs votes) (proper : isNil pid = false)
    (shows : votes.ShowsQuorum policy epochId vs pid) :
    vs.quorumReachedAt policy epochId (votes.votesFor pid).length
      (weigh vs (votes.votesFor pid)) = true := by
  have proper' : pid ≠ nilHash := by simpa [isNil] using proper
  rcases shows with reached | ⟨nil, -⟩
  · rwa [consistent.countForPid_eq proper', consistent.weightForPid_eq proper'] at reached
  · rw [nil] at proper
    cases proper

/-- A proposal id with a vote is listed, and the listed ones have votes. -/
theorem Consistent.mem_byPidWeight (consistent : Consistent vs votes) {weight : Int} :
    (pid, weight) ∈ votes.byPidWeight.toList ↔
      pid ≠ nilHash ∧ votes.votesFor pid ≠ [] ∧ weight = votes.weightForPid pid := by
  rw [Table.mem_toList, consistent.by_pid_weight]
  by_cases nil : pid = nilHash
  · simp [nil]
  by_cases empty : votes.votesFor pid = []
  · simp [empty]
  · simp [nil, empty, consistent.weightForPid_eq nil, eq_comm]

theorem Consistent.totalWeight_pos (consistent : Consistent vs votes) (sound : vs.Sound)
    (voted : votes.votesFor pid ≠ []) : 0 < vs.totalWeight := by
  obtain ⟨vote, present⟩ := List.exists_mem_of_ne_nil _ voted
  exact sound.totalWeight_pos_of_weight (consistent.weighed vote (List.mem_of_mem_filter present))

/-- A search for the first id with a quorum finds one when there is one. -/
theorem foldl_first_isSome
    (votes : VoteSet) (entries : List (Bytes × Int)) {entry : Bytes × Int}
    (present : entry ∈ entries)
    (reached : vs.quorumReachedAt policy epochId (votes.countForPid entry.1)
      entry.2 = true) (found : Option Bytes) :
    (entries.foldl
      (fun found entry =>
        match found with
        | some _ => found
        | none =>
          if vs.quorumReachedAt policy epochId (votes.countForPid entry.1)
              entry.2 then some entry.1
          else none)
      found).isSome := by
  have kept : ∀ (rest : List (Bytes × Int)) (pid : Bytes), rest.foldl
      (fun found entry =>
        match found with
        | some _ => found
        | none =>
          if vs.quorumReachedAt policy epochId (votes.countForPid entry.1)
              entry.2 then some entry.1
          else none)
      (some pid) = some pid := by
    intro rest pid
    induction rest with
    | nil => rfl
    | cons _ _ ih => exact ih
  induction entries generalizing found with
  | nil => cases present
  | cons first rest ih =>
    rw [List.foldl_cons]
    cases found with
    | some pid =>
      simp only
      rw [kept]
      rfl
    | none =>
      rcases List.mem_cons.mp present with rfl | later
      · simp only [reached, if_true]
        rw [kept]
        rfl
      · exact ih later _

/-- The first listed id with a quorum is not nil, and is the only one. -/
theorem Consistent.firstQuorum_iff (consistent : Consistent vs votes) (sound : vs.Sound) :
    firstQuorum policy votes epochId vs = some pid ↔
      pid ≠ nilHash ∧ votes.votesFor pid ≠ [] ∧ votes.ShowsQuorum policy epochId vs pid := by
  have listed : ∀ other, firstQuorum policy votes epochId vs = some other →
      other ≠ nilHash ∧ votes.votesFor other ≠ [] ∧ votes.ShowsQuorum policy epochId vs other := by
    intro other search
    obtain ⟨weight, present, reached⟩ := firstQuorum_listed search
    obtain ⟨proper, voted, rfl⟩ := consistent.mem_byPidWeight.mp present
    exact ⟨proper, voted, Or.inl reached⟩
  refine ⟨listed pid, fun ⟨proper, voted, shows⟩ => ?_⟩
  have positive := consistent.totalWeight_pos sound voted
  have reached : vs.quorumReachedAt policy epochId (votes.countForPid pid)
      (votes.weightForPid pid) = true := by
    rcases shows with reached | ⟨nil, -⟩
    · exact reached
    · exact absurd (by simpa [isNil] using nil) proper
  have present := consistent.mem_byPidWeight.mpr ⟨proper, voted, rfl⟩
  obtain ⟨other, search⟩ := Option.isSome_iff_exists.mp
    (foldl_first_isSome votes _ present reached none)
  obtain ⟨-, -, shows'⟩ := listed other search
  rw [consistent.eq_of_shows sound positive shows shows']
  exact search

theorem Consistent.nilQuorum_of_shows (consistent : Consistent vs votes) (sound : vs.Sound)
    (shows : votes.ShowsQuorum policy epochId vs nilHash) :
    votes.nilQuorum policy epochId vs = true := by
  rcases shows with reached | ⟨-, reached⟩
  · have count : votes.countForPid nilHash = 0 := by simp [countForPid, consistent.by_pid]
    have weight : votes.weightForPid nilHash = 0 := by
      simp [weightForPid, consistent.by_pid_weight]
    have count_nonneg : 0 ≤ votes.countNil := by
      rw [consistent.count_nil]
      exact Int.natCast_nonneg _
    have weight_nonneg : 0 ≤ votes.weightNil := by
      rw [consistent.weight_nil, consistent.weigh_votesFor]
      exact Finset.sum_nonneg fun addr _ => sound.weightOf_nonneg addr
    rw [count, weight] at reached
    unfold ValidatorSet.quorumReachedAt at reached
    unfold nilQuorum ValidatorSet.quorumReachedAt
    simp only [Bool.and_eq_true, Bool.or_eq_true, decide_eq_true_eq] at reached ⊢
    refine ⟨⟨reached.1.1, reached.1.2.trans weight_nonneg⟩, ?_⟩
    rcases reached.2 with prior | count
    · exact Or.inl prior
    · exact Or.inr (count.trans count_nonneg)
  · exact reached

/-- The counted votes decide for a proposal id exactly when it has a quorum,
and votes unless it is nil. -/
theorem Consistent.quorumResult_iff (consistent : Consistent vs votes) (sound : vs.Sound) :
    quorumResult policy votes epochId vs = .quorumOf pid ↔
      votes.ShowsQuorum policy epochId vs pid ∧ (pid = nilHash ∨ votes.votesFor pid ≠ []) := by
  rw [quorumResult_eq]
  cases search : firstQuorum policy votes epochId vs with
  | some first =>
    obtain ⟨proper, voted, shows⟩ := (consistent.firstQuorum_iff sound).mp search
    simp only [VoteAddResult.quorumOf.injEq]
    constructor
    · rintro rfl
      exact ⟨shows, Or.inr voted⟩
    · rintro ⟨shows', -⟩
      exact consistent.eq_of_shows sound (consistent.totalWeight_pos sound voted) shows shows'
  | none =>
    have unlisted : pid ≠ nilHash → votes.votesFor pid ≠ [] →
        ¬ votes.ShowsQuorum policy epochId vs pid := by
      intro proper voted shows
      rw [(consistent.firstQuorum_iff sound).mpr ⟨proper, voted, shows⟩] at search
      cases search
    have nilOnly : votes.ShowsQuorum policy epochId vs pid ∧
        (pid = nilHash ∨ votes.votesFor pid ≠ []) → pid = nilHash := by
      rintro ⟨shows, nil | voted⟩
      · exact nil
      · by_contra proper
        exact unlisted proper voted shows
    constructor
    · intro result
      have nil : pid = nilHash := by
        simp only at result
        split at result
        · exact (VoteAddResult.quorumOf.inj result).symm
        · split at result <;> cases result
      refine ⟨?_, Or.inl nil⟩
      exact showsQuorum_of_quorumResult (by rw [quorumResult_eq, search]; exact result)
    · intro shown
      have nil := nilOnly shown
      subst nil
      simp only [consistent.nilQuorum_of_shows sound shown.1, if_true]

/-- A search for the least id with a quorum finds one when there is one. -/
theorem foldl_least_isSome
    (votes : VoteSet) (entries : List (Bytes × Int)) {entry : Bytes × Int} (found : Option Bytes)
    (present : entry ∈ entries ∧ isNil entry.1 = false ∧
      vs.quorumReachedAt policy epochId (votes.countForPid entry.1) entry.2 = true ∨ found.isSome) :
    (entries.foldl
      (fun found entry =>
        let signerCount := votes.countForPid entry.1
        if isNil entry.1 ||
            !vs.quorumReachedAt policy epochId signerCount entry.2 then found
        else
          match found with
          | none => some entry.1
          | some prior => if prior ≤ entry.1 then some prior else some entry.1)
      found).isSome := by
  induction entries generalizing found with
  | nil =>
    rcases present with ⟨absent, -⟩ | found
    · cases absent
    · exact found
  | cons first rest ih =>
    rw [List.foldl_cons]
    apply ih
    rcases present with ⟨member, proper, reached⟩ | some
    · rcases List.mem_cons.mp member with rfl | later
      · right
        simp only [proper, reached, Bool.not_true, Bool.or_self, Bool.false_eq_true, if_false]
        cases found with
        | none => rfl
        | some prior =>
          simp only
          split <;> rfl
      · exact Or.inl ⟨later, proper, reached⟩
    · right
      simp only
      split
      · exact some
      · cases found with
        | none => rfl
        | some prior =>
          simp only
          split <;> rfl

/-- The least proposal id with a quorum is the one that the votes decide
for. -/
theorem Consistent.quorumPid_iff (consistent : Consistent vs votes) (sound : vs.Sound) :
    quorumPid policy epochId vs votes = some pid ↔
      pid ≠ nilHash ∧ quorumResult policy votes epochId vs = .quorumOf pid := by
  have listed : ∀ other, quorumPid policy epochId vs votes = some other →
      other ≠ nilHash ∧ votes.votesFor other ≠ [] ∧ votes.ShowsQuorum policy epochId vs other := by
    intro other result
    obtain ⟨proper, shows⟩ := showsQuorum_of_quorumPid result
    rcases foldl_quorumPid votes _ none result with
      nothing | ⟨weight, present, -⟩
    · cases nothing
    · obtain ⟨proper', voted, -⟩ := consistent.mem_byPidWeight.mp present
      exact ⟨proper', voted, shows⟩
  rw [consistent.quorumResult_iff sound]
  constructor
  · intro result
    obtain ⟨proper, voted, shows⟩ := listed pid result
    exact ⟨proper, shows, Or.inr voted⟩
  · rintro ⟨proper, shows, nil | voted⟩
    · exact absurd nil proper
    have reached : vs.quorumReachedAt policy epochId (votes.countForPid pid)
        (votes.weightForPid pid) = true := by
      rcases shows with reached | ⟨nil, -⟩
      · exact reached
      · exact absurd (by simpa [isNil] using nil) proper
    have present := consistent.mem_byPidWeight.mpr ⟨proper, voted, rfl⟩
    obtain ⟨other, result⟩ := Option.isSome_iff_exists.mp
      (foldl_least_isSome votes _ none (Or.inl ⟨present, by simpa [isNil] using proper, reached⟩))
    obtain ⟨-, -, shows'⟩ := listed other result
    rw [consistent.eq_of_shows sound (consistent.totalWeight_pos sound voted) shows shows']
    exact result

/-- Counting a vote reports a quorum exactly when the vote is new, its voter
has a weight, and the votes then decide for its proposal id. -/
theorem Consistent.addVote_iff
    (consistent : Consistent vs votes) (sound : vs.Sound) {v : Vote} :
    (votes.addVote policy v vs).2 = .quorumOf pid ↔
      pid = v.proposalId ∧ votes.votes.mem v.validator = false ∧
        (vs.weightOfAddr v.validator).isSome ∧
        quorumResult policy (votes.addVote policy v vs).1 v.epochId vs = .quorumOf pid := by
  have counting := consistent.addVote policy v
  rw [counting.quorumResult_iff sound]
  rcases addVote_cases policy votes v vs with
    ⟨known, equal⟩ | ⟨fresh, missing, equal⟩ | ⟨weight, fresh, found, equal⟩
  · simp [equal, known]
  · simp [equal, missing]
  · rw [equal] at counting ⊢
    have voted : (votes.put v weight).votesFor v.proposalId ≠ [] := by
      rw [votesFor_put (mem_eq_false_iff.mp fresh), if_pos rfl]
      exact List.cons_ne_nil _ _
    simp only [fresh, found, Option.isSome_some, true_and]
    constructor
    · intro reported
      have reported' : (votes.addVote policy v vs).2 = .quorumOf pid := by
        rw [equal]
        exact reported
      obtain ⟨same, counted⟩ := counted_of_addVote reported'
      rw [equal] at counted
      refine ⟨same, ?_, Or.inr (same ▸ voted)⟩
      unfold VoteSet.counted at counted
      split at counted
      · next nil => exact Or.inr ⟨nil, counted⟩
      · exact Or.inl counted
    · rintro ⟨rfl, shows, -⟩
      have counted : (votes.put v weight).counted policy v.epochId vs v.proposalId = true := by
        unfold VoteSet.counted
        split
        · next nil =>
          have nil' : v.proposalId = nilHash := by simpa [isNil] using nil
          exact counting.nilQuorum_of_shows sound (nil' ▸ shows)
        · next proper =>
          rcases shows with reached | ⟨nil, -⟩
          · exact reached
          · exact absurd nil proper
      simp only [outcome, counted, if_true]

end VoteSet
end LiteNode
