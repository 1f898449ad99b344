import LiteNode.Engine.VoteSet

/-!
# Consistent vote sets

A vote set is consistent with a validator set when its counters are the numbers
and weights of the votes it stores. Counting a vote keeps this, and counting
the votes of any set again establishes it.
-/

namespace LiteNode

/-- Total weight of the voters of a list of votes. -/
def weigh (vs : ValidatorSet) (votes : List Vote) : Int :=
  (votes.map fun vote => vs.weightOf vote.validator).sum

@[simp] theorem weigh_nil (vs : ValidatorSet) : weigh vs [] = 0 := rfl

@[simp] theorem weigh_cons (vs : ValidatorSet) (vote : Vote) (votes : List Vote) :
    weigh vs (vote :: votes) = vs.weightOf vote.validator + weigh vs votes := by
  simp [weigh]

namespace VoteSet

/-- Stored votes for a proposal id. -/
def votesFor (votes : VoteSet) (pid : Bytes) : List Vote :=
  votes.votes.values.filter fun vote => vote.proposalId = pid

/-- The counters agree with the stored votes. -/
structure Consistent (vs : ValidatorSet) (votes : VoteSet) : Prop where
  keyed : ∀ addr vote, votes.votes.find? addr = some vote → vote.validator = addr
  weighed : ∀ vote ∈ votes.votes.values, (vs.weightOfAddr vote.validator).isSome
  count_total : votes.countTotal = votes.votes.values.length
  weight_total : votes.weightTotal = weigh vs votes.votes.values
  count_nil : votes.countNil = (votes.votesFor nilHash).length
  weight_nil : votes.weightNil = weigh vs (votes.votesFor nilHash)
  by_pid : ∀ pid, votes.byPid.find? pid =
    if pid = nilHash ∨ votes.votesFor pid = [] then none
    else some ((votes.votesFor pid).length : Int)
  by_pid_weight : ∀ pid, votes.byPidWeight.find? pid =
    if pid = nilHash ∨ votes.votesFor pid = [] then none
    else some (weigh vs (votes.votesFor pid))

theorem consistent_createVoteSet (vs : ValidatorSet) : Consistent vs createVoteSet where
  keyed := by simp [createVoteSet]
  weighed := by simp [createVoteSet]
  count_total := by simp [createVoteSet]
  weight_total := by simp [createVoteSet]
  count_nil := by simp [createVoteSet, votesFor]
  weight_nil := by simp [createVoteSet, votesFor]
  by_pid := by simp [createVoteSet, votesFor]
  by_pid_weight := by simp [createVoteSet, votesFor]

variable {votes : VoteSet} {pid addr : Bytes} {v vote : Vote}

/-- Consistency depends on the weights of the set only. -/
theorem Consistent.congr {vs other : ValidatorSet}
    (consistent : Consistent vs votes) (same : vs.weights = other.weights) :
    Consistent other votes := by
  have weightOfAddr_eq : vs.weightOfAddr = other.weightOfAddr := by
    funext addr
    rw [ValidatorSet.weightOfAddr, ValidatorSet.weightOfAddr, same]
  have weigh_eq : weigh vs = weigh other := by
    funext list
    simp only [weigh, ValidatorSet.weightOf, weightOfAddr_eq]
  exact
    { keyed := consistent.keyed
      weighed := weightOfAddr_eq ▸ consistent.weighed
      count_total := consistent.count_total
      weight_total := weigh_eq ▸ consistent.weight_total
      count_nil := consistent.count_nil
      weight_nil := weigh_eq ▸ consistent.weight_nil
      by_pid := consistent.by_pid
      by_pid_weight := weigh_eq ▸ consistent.by_pid_weight }

theorem Consistent.countForPid_eq
    {vs : ValidatorSet} (consistent : Consistent vs votes) (proper : pid ≠ nilHash) :
    votes.countForPid pid = (votes.votesFor pid).length := by
  rw [countForPid, consistent.by_pid]
  by_cases empty : votes.votesFor pid = []
  · simp [empty]
  · simp [proper, empty]

theorem Consistent.weightForPid_eq
    {vs : ValidatorSet} (consistent : Consistent vs votes) (proper : pid ≠ nilHash) :
    votes.weightForPid pid = weigh vs (votes.votesFor pid) := by
  rw [weightForPid, consistent.by_pid_weight]
  by_cases empty : votes.votesFor pid = []
  · simp [empty]
  · simp [proper, empty]

/-! ## Counting one vote -/

/-- The set after a new vote of the given weight. -/
def put (votes : VoteSet) (v : Vote) (weight : Int) : VoteSet where
  votes := votes.votes.replace v.validator v
  byPid :=
    if isNil v.proposalId then votes.byPid
    else votes.byPid.replace v.proposalId (votes.countForPid v.proposalId + 1)
  byPidWeight :=
    if isNil v.proposalId then votes.byPidWeight
    else votes.byPidWeight.replace v.proposalId (votes.weightForPid v.proposalId + weight)
  countNil := if isNil v.proposalId then votes.countNil + 1 else votes.countNil
  countTotal := votes.countTotal + 1
  weightNil := if isNil v.proposalId then votes.weightNil + weight else votes.weightNil
  weightTotal := votes.weightTotal + weight

/-- Whether the counters show a quorum for a proposal id. -/
def counted (policy : QuorumPolicy) (votes : VoteSet) (epochId : Int)
    (vs : ValidatorSet) (pid : Bytes) : Bool :=
  if isNil pid then votes.nilQuorum policy epochId vs
  else vs.quorumReachedAt policy epochId (votes.countForPid pid) (votes.weightForPid pid)

/-- What is reported once a vote has been counted. -/
def outcome (policy : QuorumPolicy) (votes : VoteSet) (v : Vote) (vs : ValidatorSet) :
    VoteAddResult :=
  if votes.counted policy v.epochId vs v.proposalId then .quorumOf v.proposalId
  else if vs.quorumReachedAt policy v.epochId votes.countTotal votes.weightTotal then .quorumAny
  else .added

/-- A vote is a duplicate, or its voter has no weight, or it is counted. -/
theorem addVote_cases (policy : QuorumPolicy) (votes : VoteSet) (v : Vote) (vs : ValidatorSet) :
    (votes.votes.mem v.validator = true ∧ votes.addVote policy v vs = (votes, .duplicate)) ∨
    (votes.votes.mem v.validator = false ∧ vs.weightOfAddr v.validator = none ∧
      votes.addVote policy v vs = (votes, .rejected)) ∨
    ∃ weight, votes.votes.mem v.validator = false ∧ vs.weightOfAddr v.validator = some weight ∧
      votes.addVote policy v vs =
        (votes.put v weight, (votes.put v weight).outcome policy v vs) := by
  cases known : votes.votes.mem v.validator with
  | true => exact Or.inl ⟨rfl, by simp [addVote, known]⟩
  | false =>
    refine Or.inr ?_
    cases found : vs.weightOfAddr v.validator with
    | none => exact Or.inl ⟨rfl, rfl, by simp [addVote, known, found]⟩
    | some weight =>
      refine Or.inr ⟨weight, rfl, rfl, ?_⟩
      cases nil : isNil v.proposalId with
      | true =>
        simp [addVote, known, found, nil, put, outcome, counted, nilQuorum]
        rfl
      | false =>
        simp [addVote, known, found, nil, put, outcome, counted, countForPid, weightForPid]
        rfl

/-- A reported quorum is one for the vote's own proposal id. -/
theorem counted_of_addVote {policy : QuorumPolicy} {vs : ValidatorSet}
    (reported : (votes.addVote policy v vs).2 = .quorumOf pid) :
    pid = v.proposalId ∧ (votes.addVote policy v vs).1.counted policy v.epochId vs pid = true := by
  rcases addVote_cases policy votes v vs with
    ⟨-, equal⟩ | ⟨-, -, equal⟩ | ⟨weight, -, -, equal⟩
  · simp [equal] at reported
  · simp [equal] at reported
  · rw [equal] at reported ⊢
    simp only [outcome] at reported
    split at reported
    · next reached =>
      cases reported
      exact ⟨rfl, reached⟩
    · split at reported <;> cases reported

theorem mem_eq_false_iff : votes.votes.mem addr = false ↔ votes.votes.find? addr = none := by
  simp [Table.mem]

theorem votesFor_put (fresh : votes.votes.find? v.validator = none) (weight : Int) (pid : Bytes) :
    (votes.put v weight).votesFor pid =
      if v.proposalId = pid then v :: votes.votesFor pid
      else votes.votesFor pid := by
  unfold votesFor put
  rw [Table.values_replace_of_find?_eq_none fresh]
  by_cases same : v.proposalId = pid <;> simp [same]

/-- Counting a new vote keeps a set consistent. -/
theorem Consistent.put {vs : ValidatorSet} (consistent : Consistent vs votes) {weight : Int}
    (fresh : votes.votes.find? v.validator = none)
    (found : vs.weightOfAddr v.validator = some weight) : Consistent vs (votes.put v weight) := by
  have values_eq : (votes.put v weight).votes.values = v :: votes.votes.values :=
    Table.values_replace_of_find?_eq_none fresh
  have weight_eq : vs.weightOf v.validator = weight := by simp [ValidatorSet.weightOf, found]
  refine
    { keyed := ?_, weighed := ?_, count_total := ?_, weight_total := ?_,
      count_nil := ?_, weight_nil := ?_, by_pid := ?_, by_pid_weight := ?_ }
  · intro addr vote
    simp only [VoteSet.put, Table.find?_replace_eq_ite]
    split
    · next equal =>
      intro stored
      rw [← Option.some.inj stored, equal]
    · exact consistent.keyed addr vote
  · rw [values_eq]
    intro vote present
    rcases List.mem_cons.mp present with rfl | older
    · rw [found]; rfl
    · exact consistent.weighed vote older
  · rw [values_eq]
    simp [VoteSet.put, consistent.count_total]
  · rw [values_eq, weigh_cons, weight_eq]
    simp only [VoteSet.put, consistent.weight_total]
    omega
  · rw [votesFor_put fresh]
    by_cases nil : v.proposalId = nilHash
    · simp [VoteSet.put, isNil, nil, consistent.count_nil]
    · simp [VoteSet.put, isNil, nil, consistent.count_nil]
  · rw [votesFor_put fresh]
    by_cases nil : v.proposalId = nilHash
    · simp only [VoteSet.put, isNil, nil, consistent.weight_nil,
        decide_true, if_true, weigh_cons, weight_eq]
      omega
    · simp [VoteSet.put, isNil, nil, consistent.weight_nil]
  · intro pid
    rw [votesFor_put fresh]
    by_cases nil : v.proposalId = nilHash
    · have unchanged : (votes.put v weight).byPid = votes.byPid := by
        simp [VoteSet.put, isNil, nil]
      rw [unchanged, consistent.by_pid]
      by_cases same : v.proposalId = pid
      · rw [if_pos (Or.inl (same ▸ nil)), if_pos (Or.inl (same ▸ nil))]
      · rw [if_neg same]
    · simp only [VoteSet.put, isNil, nil, decide_false, Bool.false_eq_true,
        if_false, Table.find?_replace_eq_ite]
      by_cases same : v.proposalId = pid
      · subst same
        simp [nil, consistent.countForPid_eq nil]
      · rw [if_neg (Ne.symm same), if_neg same, consistent.by_pid]
  · intro pid
    rw [votesFor_put fresh]
    by_cases nil : v.proposalId = nilHash
    · have unchanged : (votes.put v weight).byPidWeight = votes.byPidWeight := by
        simp [VoteSet.put, isNil, nil]
      rw [unchanged, consistent.by_pid_weight]
      by_cases same : v.proposalId = pid
      · rw [if_pos (Or.inl (same ▸ nil)), if_pos (Or.inl (same ▸ nil))]
      · rw [if_neg same]
    · simp only [VoteSet.put, isNil, nil, decide_false, Bool.false_eq_true,
        if_false, Table.find?_replace_eq_ite]
      by_cases same : v.proposalId = pid
      · subst same
        simp [nil, consistent.weightForPid_eq nil, weight_eq, Int.add_comm]
      · rw [if_neg (Ne.symm same), if_neg same, consistent.by_pid_weight]

theorem Consistent.addVote {vs : ValidatorSet} (consistent : Consistent vs votes)
    (policy : QuorumPolicy) (v : Vote) : Consistent vs (votes.addVote policy v vs).1 := by
  rcases addVote_cases policy votes v vs with
    ⟨-, equal⟩ | ⟨-, -, equal⟩ | ⟨weight, fresh, found, equal⟩
  · rw [equal]; exact consistent
  · rw [equal]; exact consistent
  · rw [equal]
    exact consistent.put (mem_eq_false_iff.mp fresh) found

theorem find?_addVote (policy : QuorumPolicy) (votes : VoteSet) (v : Vote) (vs : ValidatorSet)
    (addr : Bytes) :
    (votes.addVote policy v vs).1.votes.find? addr =
      if addr = v.validator ∧ votes.votes.find? addr = none ∧
          (vs.weightOfAddr addr).isSome then some v
      else votes.votes.find? addr := by
  rcases addVote_cases policy votes v vs with
    ⟨known, equal⟩ | ⟨-, missing, equal⟩ | ⟨weight, fresh, found, equal⟩
  · rw [equal, if_neg]
    rintro ⟨rfl, absent, -⟩
    rw [mem_eq_false_iff.mpr absent] at known
    exact Bool.false_ne_true known
  · rw [equal, if_neg]
    rintro ⟨rfl, -, weighs⟩
    rw [missing] at weighs
    exact Bool.false_ne_true weighs
  · rw [equal]
    simp only [put, Table.find?_replace_eq_ite]
    by_cases same : addr = v.validator
    · subst same
      simp [mem_eq_false_iff.mp fresh, found]
    · simp [same]

theorem find?_addVote_of_some
    {policy : QuorumPolicy} {vs : ValidatorSet} (stored : votes.votes.find? addr = some vote)
    (v : Vote) : (votes.addVote policy v vs).1.votes.find? addr = some vote := by
  rw [find?_addVote, if_neg (by simp [stored]), stored]

/-- A stored vote was there before or is the one that was counted. -/
theorem find?_addVote_origin {policy : QuorumPolicy} {vs : ValidatorSet}
    (stored : (votes.addVote policy v vs).1.votes.find? addr = some vote) :
    votes.votes.find? addr = some vote ∨ vote = v ∧ addr = v.validator := by
  rw [find?_addVote] at stored
  split at stored
  · next fresh => exact Or.inr ⟨(Option.some.inj stored).symm, fresh.1⟩
  · exact Or.inl stored

variable {policy : QuorumPolicy} {vs : ValidatorSet}

theorem Consistent.addVotes (consistent : Consistent vs votes) (list : List Vote) :
    Consistent vs (votes.addVotes policy vs list) := by
  induction list generalizing votes with
  | nil => exact consistent
  | cons vote rest ih => exact ih (consistent.addVote policy vote)

theorem find?_addVotes_of_some (stored : votes.votes.find? addr = some vote) (list : List Vote) :
    (votes.addVotes policy vs list).votes.find? addr = some vote := by
  induction list generalizing votes with
  | nil => exact stored
  | cons first rest ih => exact ih (find?_addVote_of_some stored first)

/-- Votes stored after counting a list come from it. -/
theorem find?_addVotes_origin {list : List Vote}
    (stored : (votes.addVotes policy vs list).votes.find? addr = some vote) :
    votes.votes.find? addr = some vote ∨ vote ∈ list ∧ addr = vote.validator := by
  induction list generalizing votes with
  | nil => exact Or.inl stored
  | cons first rest ih =>
    rcases ih stored with earlier | ⟨present, equal⟩
    · rcases find?_addVote_origin earlier with before | ⟨rfl, equal⟩
      · exact Or.inl before
      · exact Or.inr ⟨List.mem_cons_self, equal⟩
    · exact Or.inr ⟨List.mem_cons_of_mem _ present, equal⟩

theorem find?_addVotes_isSome {list : List Vote} (present : vote ∈ list)
    (weighs : (vs.weightOfAddr vote.validator).isSome) :
    ((votes.addVotes policy vs list).votes.find? vote.validator).isSome := by
  induction list generalizing votes with
  | nil => simp at present
  | cons first rest ih =>
    rcases List.mem_cons.mp present with rfl | later
    · have stored : ∃ stored, (votes.addVote policy vote vs).1.votes.find?
          vote.validator = some stored := by
        rw [find?_addVote]
        cases known : votes.votes.find? vote.validator with
        | none => exact ⟨vote, by simp [weighs]⟩
        | some prior => exact ⟨prior, by simp⟩
      obtain ⟨prior, stored⟩ := stored
      exact Option.isSome_iff_exists.mpr ⟨prior, find?_addVotes_of_some stored rest⟩
    · exact ih later

theorem find?_projectVotes (keyed : ∀ addr vote, votes.votes.find? addr = some vote →
      vote.validator = addr) (addr : Bytes) :
    (projectVotes policy vs votes).votes.find? addr =
      if (vs.weightOfAddr addr).isSome then votes.votes.find? addr
      else none := by
  rw [projectVotes]
  have origin : ∀ vote, (createVoteSet.addVotes policy vs
      votes.votes.values).votes.find? addr = some vote → votes.votes.find? addr = some vote := by
    intro vote stored
    rcases find?_addVotes_origin stored with before | ⟨present, equal⟩
    · simp [createVoteSet] at before
    · obtain ⟨key, found⟩ := Table.mem_values.mp present
      rw [equal, keyed key vote found, found]
  split
  · next weighs =>
    cases stored : votes.votes.find? addr with
    | none =>
      cases result : (createVoteSet.addVotes policy vs votes.votes.values).votes.find? addr with
      | none => rfl
      | some vote =>
        rw [origin vote result] at stored
        exact absurd stored (by simp)
    | some vote =>
      have equal := keyed addr vote stored
      have present : vote ∈ votes.votes.values := Table.mem_values.mpr ⟨addr, stored⟩
      have kept : ((createVoteSet.addVotes policy vs
          votes.votes.values).votes.find? vote.validator).isSome :=
        find?_addVotes_isSome present (equal.symm ▸ weighs)
      rw [equal] at kept
      obtain ⟨result, found⟩ := Option.isSome_iff_exists.mp kept
      rw [found, ← stored, origin result found]
  · next weightless =>
    cases result : (createVoteSet.addVotes policy vs votes.votes.values).votes.find? addr with
    | none => rfl
    | some vote =>
      exfalso
      have consistent : Consistent vs (createVoteSet.addVotes policy vs votes.votes.values) :=
        (consistent_createVoteSet vs).addVotes votes.votes.values
      have weighs := consistent.weighed vote (Table.mem_values.mpr ⟨addr, result⟩)
      rw [consistent.keyed addr vote result] at weighs
      exact weightless weighs

end VoteSet
end LiteNode
