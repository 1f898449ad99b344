import LiteNode.Engine.Opening

/-!
# Moves that change the validator set

Every table is counted again in fresh cells, and the prevotes are added to the
source votes. The old cells, the new cells and the source cells are told apart
by names, so that each write changes the votes of one name.
-/

namespace LiteNode
namespace VoteSet

variable {policy : QuorumPolicy} {epochId : Int} {vs : ValidatorSet}

variable {pid : Bytes} {votes : VoteSet}

/-- The fold behind `quorumPid` finds a listed id that is not nil and has a
quorum. -/
theorem foldl_quorumPid (votes : VoteSet) (entries : List (Bytes × Int)) (found : Option Bytes)
    (result : entries.foldl
      (fun found entry =>
        let signerCount := votes.countForPid entry.1
        if isNil entry.1 ||
            !vs.quorumReachedAt policy epochId signerCount entry.2 then found
        else
          match found with
          | none => some entry.1
          | some prior => if prior ≤ entry.1 then some prior else some entry.1)
      found = some pid) :
    found = some pid ∨ ∃ weight, (pid, weight) ∈ entries ∧
      isNil pid = false ∧ vs.quorumReachedAt policy epochId
        (votes.countForPid pid) weight = true := by
  induction entries generalizing found with
  | nil => exact Or.inl result
  | cons entry rest ih =>
    rw [List.foldl_cons] at result
    rcases ih _ result with step | ⟨weight, present, facts⟩
    · simp only at step
      split at step
      · exact Or.inl step
      · next passed =>
        have passed' : isNil entry.1 = false ∧ vs.quorumReachedAt policy
            epochId (votes.countForPid entry.1) entry.2 = true := by
          simpa using passed
        have own : some entry.1 = some pid → ∃ weight,
            (pid, weight) ∈ entry :: rest ∧ isNil pid = false ∧
              vs.quorumReachedAt policy epochId (votes.countForPid pid) weight = true := by
          rintro equal
          cases equal
          exact ⟨entry.2, List.mem_cons_self, passed'⟩
        split at step
        · exact Or.inr (own step)
        · split at step
          · exact Or.inl step
          · exact Or.inr (own step)
    · exact Or.inr ⟨weight, List.mem_cons_of_mem _ present, facts⟩

/-- A proposal id read off as having a quorum has one. -/
theorem showsQuorum_of_quorumPid (result : quorumPid policy epochId vs votes = some pid) :
    isNil pid = false ∧ votes.ShowsQuorum policy epochId vs pid := by
  rcases foldl_quorumPid votes _ none result with
    nothing | ⟨weight, present, proper, reached⟩
  · cases nothing
  · refine ⟨proper, Or.inl ?_⟩
    rw [weightForPid, Table.mem_toList.mp present]
    exact reached

def firstQuorum (policy : QuorumPolicy) (votes : VoteSet) (epochId : Int)
    (vs : ValidatorSet) : Option Bytes :=
  votes.byPidWeight.toList.foldl
    (fun found entry =>
      match found with
      | some _ => found
      | none =>
        if vs.quorumReachedAt policy epochId (votes.countForPid entry.1) entry.2 then some entry.1
        else none)
    none

theorem quorumResult_eq : quorumResult policy votes epochId vs =
      match firstQuorum policy votes epochId vs with
      | some pid => .quorumOf pid
      | none =>
        if votes.nilQuorum policy epochId vs then .quorumOf nilHash
        else if vs.quorumReachedAt policy epochId votes.countTotal
            votes.weightTotal then .quorumAny
        else .added := rfl

theorem firstQuorum_listed (search : firstQuorum policy votes epochId vs = some pid) :
    ∃ weight, (pid, weight) ∈ votes.byPidWeight.toList ∧
      vs.quorumReachedAt policy epochId (votes.countForPid pid) weight = true := by
  revert search
  refine List.foldlRecOn _ _ (motive := fun found => found = some pid →
    ∃ weight, (pid, weight) ∈ votes.byPidWeight.toList ∧
      vs.quorumReachedAt policy epochId (votes.countForPid pid) weight = true) (by simp) ?_
  intro found earlier entry present equal
  split at equal
  · exact earlier equal
  · split at equal
    · next reached =>
      cases equal
      exact ⟨entry.2, present, reached⟩
    · cases equal

/-- A proposal id that the counted votes decide for has a quorum. -/
theorem showsQuorum_of_quorumResult
    (result : quorumResult policy votes epochId vs = .quorumOf pid) :
    votes.ShowsQuorum policy epochId vs pid := by
  rw [quorumResult_eq] at result
  split at result
  · next search =>
    cases result
    obtain ⟨weight, present, reached⟩ := firstQuorum_listed search
    left
    rw [weightForPid, Table.mem_toList.mp present]
    exact reached
  · split at result
    · next nil =>
      cases result
      exact Or.inr ⟨by simp [isNil], nil⟩
    · split at result <;> cases result

end VoteSet

/-- Names of the engine's entries, next to others. -/
abbrev EngineData.placeWith {κ : Type u} (t : EngineData)
    (extra : κ → Option Ref) : (TableKind × Int) ⊕ κ → Option Ref :=
  Sum.elim t.place extra

namespace Engine

section Project

variable {policy : QuorumPolicy} {vs : ValidatorSet}
variable {ι : Type u} [DecidableEq ι] {place : ι → Option Ref}

/-- Names of a table that is being filled, next to older names. -/
abbrev beside (place : ι → Option Ref) (table : Table Int Ref) : ι ⊕ Int → Option Ref :=
  Sum.elim place table.find?

theorem beside_replace (place : ι → Option Ref) (table : Table Int Ref) (round : Int) (ref : Ref) :
    beside place (table.replace round ref) = fun name =>
      if name = Sum.inr round then some ref else beside place table name := by
  funext name
  cases name with
  | inl older => simp [beside]
  | inr r => simp [beside, Table.find?_replace_eq_ite]

/-- Counting listed cells again fills the table and changes no older name. -/
theorem foldl_projectRounds (policy : QuorumPolicy) (vs : ValidatorSet)
    (entries : List (Int × Ref)) (cells : Cells VoteSet) (table : Table Int Ref)
    (separated : cells.Separated (beside place table))
    (placed : ∀ entry ∈ entries, ∃ name, place name = some entry.2)
    (nodup : (entries.map Prod.fst).Nodup) :
    let result := entries.foldl
      (fun (projected : Cells VoteSet × Table Int Ref) entry =>
        (projected.1.alloc
            (VoteSet.projectVotes policy vs (projected.1.read entry.2)),
          projected.2.replace entry.1 projected.1.size))
      (cells, table)
    result.1.Separated (beside place result.2) ∧
    (∀ name, result.1.contents (beside place result.2) (Sum.inl name) =
      cells.contents (beside place table) (Sum.inl name)) ∧
    ∀ round, result.1.contents (beside place result.2) (Sum.inr round) =
      match entries.lookup round with
      | some ref => some (VoteSet.projectVotes policy vs (cells.read ref))
      | none => cells.contents (beside place table) (Sum.inr round) := by
  induction entries generalizing cells table with
  | nil => exact ⟨separated, fun _ => rfl, fun _ => rfl⟩
  | cons entry rest ih =>
    obtain ⟨key, ref⟩ := entry
    simp only [List.foldl_cons]
    let votes := VoteSet.projectVotes policy vs (cells.read ref)
    have separated' : (cells.alloc votes).Separated
        (beside place (table.replace key cells.size)) := by
      rw [beside_replace]
      exact separated.alloc _ _
    have contents' : ∀ name, (cells.alloc votes).contents
        (beside place (table.replace key cells.size)) name =
        if name = Sum.inr key then some votes
        else cells.contents (beside place table) name := by
      intro name
      rw [beside_replace]
      exact separated.contents_alloc _ _ _
    have unread : ∀ entry ∈ rest, (cells.alloc votes).read entry.2 = cells.read entry.2 := by
      intro entry present
      obtain ⟨name, found⟩ := placed entry (List.mem_cons_of_mem _ present)
      have found' : (beside place table) (Sum.inl name) = some entry.2 := found
      exact Cells.read_alloc_of_lt (separated.allocated found') _
    rw [List.map_cons, List.nodup_cons] at nodup
    obtain ⟨first, second, third⟩ := ih (cells.alloc votes)
      (table.replace key cells.size) separated'
      (fun entry present => placed entry (List.mem_cons_of_mem _ present))
      nodup.2
    refine ⟨first, ?_, ?_⟩
    · intro name
      rw [second name, contents']
      simp
    · intro round
      rw [third round, List.lookup_cons]
      cases found : rest.lookup round with
      | some ref' =>
        obtain ⟨before, after, split, -⟩ := List.lookup_eq_some_iff.mp found
        have member : (round, ref') ∈ rest := by simp [split]
        have apart : round ≠ key := by
          rintro rfl
          exact nodup.1 (List.mem_map.mpr ⟨(round, ref'), member, rfl⟩)
        simp only [beq_false_of_ne apart]
        rw [unread _ member]
      | none =>
        by_cases same : round = key
        · subst same
          simp [contents', votes]
        · simp [contents', same, beq_false_of_ne same]

/-- A projected table holds the votes of the old one, counted again. -/
theorem projectRounds_spec (policy : QuorumPolicy) (vs : ValidatorSet)
    (cells : Cells VoteSet) (rounds : Table Int Ref) (separated : cells.Separated place)
    (placed : ∀ round ref, rounds.find? round = some ref → ∃ name, place name = some ref) :
    let result := projectRounds policy vs cells rounds
    result.1.Separated (beside place result.2) ∧
    (∀ name, result.1.contents (beside place result.2) (Sum.inl name) = cells.contents place name) ∧
    ∀ round, result.1.contents (beside place result.2) (Sum.inr round) =
      (rounds.find? round).map fun ref => VoteSet.projectVotes policy vs (cells.read ref) := by
  have empty : ∀ round, beside place ∅ (Sum.inr round) = none :=
    fun round => Table.find?_empty round
  have separated' : cells.Separated (beside place ∅) := by
    constructor
    · rintro (name | round) ref found
      · exact separated.allocated found
      · rw [empty] at found
        cases found
    · rintro (name | round) (other | round') ref found found'
      · rw [separated.distinct found found']
      · rw [empty] at found'
        cases found'
      · rw [empty] at found
        cases found
      · rw [empty] at found
        cases found
  have spec := foldl_projectRounds policy vs rounds.toList cells ∅ separated'
    (fun entry present => placed entry.1 entry.2 (Table.mem_toList.mp present))
    rounds.nodup_keys
  refine ⟨spec.1, spec.2.1, fun round => (spec.2.2 round).trans ?_⟩
  rw [Table.lookup_toList]
  cases rounds.find? round with
  | some ref => rfl
  | none => simp [Cells.contents, empty]

end Project

section Source

variable {κ : Type u} [DecidableEq κ] {extra : κ → Option Ref}
variable {source : ValidatorSet}

/-- Votes of a name once votes were added to the source votes of a round. -/
def withSource (policy : QuorumPolicy) (source : ValidatorSet) (round : Int)
    (votes : List Vote) (contents : (TableKind × Int) ⊕ κ → Option VoteSet)
    (name : (TableKind × Int) ⊕ κ) : Option VoteSet :=
  if name = Sum.inl (.source, round) then
    some (VoteSet.addVotes policy source ((contents name).getD createVoteSet) votes)
  else contents name

/-- Only cells and the table of source votes changed. -/
def SavesSource (t t' : Engine) : Prop :=
  t' = { t with cells := t'.cells, sourcePrevotes := t'.sourcePrevotes }

variable {t : Engine}

theorem SavesSource.trans {t' t'' : Engine}
    (first : SavesSource t t') (second : SavesSource t' t'') : SavesSource t t'' := by
  unfold SavesSource at *
  rw [second, first]

theorem placeWith_allocTable (t : EngineData) (extra : κ → Option Ref) (kind : TableKind)
    (round : Int) :
    (t.allocTable kind round).placeWith extra = fun name =>
      if name = Sum.inl (kind, round) then some t.cells.size
      else t.placeWith extra name := by
  funext name
  cases name with
  | inl entry => simp [EngineData.placeWith, EngineData.place_allocTable]
  | inr other => simp [EngineData.placeWith]

theorem sourceVotesAt_spec (separated : t.cells.Separated (t.placeWith extra)) (round : Int) :
    let found := t.sourceVotesAt round
    found.1.cells.Separated (found.1.placeWith extra) ∧ SavesSource t found.1 ∧
    found.1.placeWith extra (Sum.inl (.source, round)) = some found.2 ∧
    ∀ name, found.1.cells.contents (found.1.placeWith extra) name =
      if name = Sum.inl (.source, round) then
        some ((t.cells.contents (t.placeWith extra) name).getD createVoteSet)
      else t.cells.contents (t.placeWith extra) name := by
  unfold sourceVotesAt
  cases saved : t.sourcePrevotes.find? round with
  | some ref =>
    refine ⟨separated, rfl, saved, ?_⟩
    intro name
    simp only
    split
    · next same =>
      subst same
      have saved' : t.placeWith extra (Sum.inl (.source, round)) = some ref := saved
      rw [Cells.contents_of_place saved']
      rfl
    · rfl
  | none =>
    let created := t.allocTable .source round
    have place_eq := placeWith_allocTable t.toEngineData extra .source round
    refine ⟨?_, rfl, Table.find?_replace _ _ _, ?_⟩
    · change created.cells.Separated (created.placeWith extra)
      rw [place_eq]
      exact separated.alloc _ _
    · intro name
      change created.cells.contents (created.placeWith extra) name = _
      rw [place_eq]
      refine (separated.contents_alloc _ createVoteSet name).trans ?_
      split
      · next same =>
        subst same
        have absent : t.cells.contents (t.placeWith extra) (Sum.inl (.source, round)) = none :=
          congrArg (Option.map t.cells.read) saved
        rw [absent]
        rfl
      · rfl

theorem addSourceVotes_spec (source : ValidatorSet) (separated : t.cells.Separated (t.placeWith extra))
    {round : Int} {ref : Ref} {name : (TableKind × Int) ⊕ κ}
    (placed : t.placeWith extra name = some ref) (apart : name ≠ Sum.inl (.source, round)) :
    let added := t.addSourceVotes source round ref
    added.cells.Separated (added.placeWith extra) ∧ SavesSource t added ∧
    added.cells.contents (added.placeWith extra) =
      withSource t.policy source round (t.cells.read ref).votes.values
        (t.cells.contents (t.placeWith extra)) := by
  obtain ⟨separated', saves, saved, contents⟩ := sourceVotesAt_spec separated round
  have policy_eq : (t.sourceVotesAt round).1.policy = t.policy := by rw [saves]
  have read_eq : (t.sourceVotesAt round).1.cells.read ref = t.cells.read ref := by
    have same := contents name
    rw [if_neg apart, Cells.contents_of_place placed] at same
    have placed' : (t.sourceVotesAt round).1.placeWith extra name = some ref := by
      cases name with
      | inr other => exact placed
      | inl entry =>
        obtain ⟨kind, r⟩ := entry
        have different : ¬(kind = .source ∧ r = round) := by
          rintro ⟨rfl, rfl⟩
          exact apart rfl
        unfold sourceVotesAt
        cases found : t.sourcePrevotes.find? round with
        | some _ => exact placed
        | none =>
          change (t.allocTable .source round).placeWith extra (Sum.inl (kind, r)) = some ref
          rw [placeWith_allocTable]
          simp only [Sum.inl.injEq, Prod.mk.injEq]
          rw [if_neg different]
          exact placed
    rw [Cells.contents_of_place placed'] at same
    exact Option.some.inj same
  let found := t.sourceVotesAt round
  let votes := VoteSet.addVotes found.1.policy source
    (found.1.cells.read found.2) (found.1.cells.read ref).votes.values
  have place_eq : (t.addSourceVotes source round ref).placeWith extra =
      found.1.placeWith extra := by
    funext other
    cases other with
    | inr _ => rfl
    | inl entry =>
      obtain ⟨kind, r⟩ := entry
      cases kind <;> rfl
  have cells_eq : (t.addSourceVotes source round ref).cells =
      found.1.cells.write found.2 votes := rfl
  refine ⟨?_, ?_, ?_⟩
  · rw [place_eq, cells_eq]
    exact separated'.write _ _
  · exact saves.trans rfl
  · funext other
    rw [place_eq, cells_eq, separated'.contents_write saved]
    unfold withSource
    split
    · next same =>
      subst same
      have own := contents (Sum.inl (.source, round))
      rw [if_pos rfl, Cells.contents_of_place saved] at own
      rw [← Option.some.inj own, ← read_eq, ← policy_eq]
    · next different =>
      rw [contents, if_neg different]

/-- Adding the listed cells, one for each round, to the source votes. -/
theorem foldl_addSourceVotes (source : ValidatorSet) (entries : List (Int × Ref))
    (separated : t.cells.Separated (t.placeWith extra))
    (placed : ∀ entry ∈ entries, t.place (.prevote, entry.1) = some entry.2)
    (nodup : (entries.map Prod.fst).Nodup) :
    let saved := entries.foldl (fun t entry => addSourceVotes t source entry.1 entry.2) t
    saved.cells.Separated (saved.placeWith extra) ∧ SavesSource t saved ∧
    (∀ name, (∀ round, name ≠ Sum.inl (.source, round)) →
      saved.cells.contents (saved.placeWith extra) name =
        t.cells.contents (t.placeWith extra) name) ∧
    ∀ round, saved.cells.contents (saved.placeWith extra)
        (Sum.inl (.source, round)) =
      match entries.lookup round with
      | some ref => some (VoteSet.addVotes t.policy source
          ((t.cells.contents (t.placeWith extra) (Sum.inl (.source, round))).getD createVoteSet)
          (t.cells.read ref).votes.values)
      | none => t.cells.contents (t.placeWith extra)
          (Sum.inl (.source, round)) := by
  induction entries generalizing t with
  | nil => exact ⟨separated, rfl, fun _ _ => rfl, fun _ => rfl⟩
  | cons entry rest ih =>
    obtain ⟨key, ref⟩ := entry
    simp only [List.foldl_cons]
    rw [List.map_cons, List.nodup_cons] at nodup
    have placedHere : t.placeWith extra (Sum.inl (.prevote, key)) =
        some ref := placed (key, ref) List.mem_cons_self
    have apart : ∀ round : Int,
        (Sum.inl (.prevote, key) : (TableKind × Int) ⊕ κ) ≠ Sum.inl (.source, round) := by simp
    obtain ⟨separated', saves, contents⟩ := addSourceVotes_spec source
      separated placedHere (apart key)
    have placed' : ∀ entry ∈ rest,
        (t.addSourceVotes source key ref).place (.prevote, entry.1) = some entry.2 := by
      intro entry present
      rw [saves]
      exact placed entry (List.mem_cons_of_mem _ present)
    have unread : ∀ entry ∈ rest,
        (t.addSourceVotes source key ref).cells.read entry.2 = t.cells.read entry.2 := by
      intro entry present
      have there : t.placeWith extra (Sum.inl (.prevote, entry.1)) =
        some entry.2 := placed entry (List.mem_cons_of_mem _ present)
      have before : t.cells.contents _ _ = _ := Cells.contents_of_place there
      have here : (t.addSourceVotes source key ref).placeWith extra
          (Sum.inl (.prevote, entry.1)) = some entry.2 :=
        placed' entry present
      have after : (t.addSourceVotes source key ref).cells.contents _ _ = _ :=
        Cells.contents_of_place here
      rw [contents] at after
      unfold withSource at after
      rw [if_neg (by simp), before] at after
      exact (Option.some.inj after).symm
    obtain ⟨first, second, third, fourth⟩ := ih separated' placed' nodup.2
    refine ⟨first, saves.trans second, ?_, ?_⟩
    · intro name apart
      rw [third name apart, contents]
      exact if_neg (apart key)
    · intro round
      rw [fourth round, contents, List.lookup_cons]
      have policy_eq : (t.addSourceVotes source key ref).policy = t.policy := by rw [saves]
      rw [policy_eq]
      unfold withSource
      cases found : rest.lookup round with
      | some ref' =>
        obtain ⟨before, after, split, -⟩ := List.lookup_eq_some_iff.mp found
        have member : (round, ref') ∈ rest := by simp [split]
        have apart : round ≠ key := by
          rintro rfl
          exact nodup.1 (List.mem_map.mpr ⟨(round, ref'), member, rfl⟩)
        simp only [beq_false_of_ne apart]
        rw [unread _ member, if_neg (by simpa using apart)]
      | none =>
        by_cases same : round = key
        · subst same
          simp
        · simp [same, beq_false_of_ne same]

end Source
end Engine
end LiteNode
