import LiteNode.Engine.Rounds
import LiteNode.Types.RoundSkip

/-!
# The target of a round skip

The engine scans the reports of higher rounds from the highest one down. The
round it finds is the greatest one that enough members have reported to be in,
or to be past.
-/

namespace LiteNode
namespace Engine

open Thresholds

/-- Members whose recorded report is of the given round or of a later one. -/
def backers (t : Engine) (round : Int) : Finset Bytes :=
  t.vs.members.filter fun addr =>
    ∃ reported, t.higherRoundEvidence.find? addr = some reported ∧ round ≤ reported

/-- The backers of a round justify skipping to it. -/
def Backed (t : Engine) (round : Int) : Prop :=
  t.vs.roundSkipReachedAt t.policy t.state.height (t.backers round).card
    (∑ addr ∈ t.backers round, t.vs.weightOf addr) = true

/-- Round and weight of a member who is ahead. -/
def reportOf (t : Engine) (entry : Bytes × Int) : Option (Int × Int) :=
  if entry.2 ≤ t.state.round then none
  else (t.vs.weightOfAddr entry.1).map fun weight => (entry.2, weight)

section Target

variable {t : Engine} {round : Int}

theorem selectSkipRound_eq (t : Engine) (count weight : Int) (reports : List (Int × Int)) :
    t.selectSkipRound count weight reports =
      firstKey (t.vs.roundSkipReachedAt t.policy t.state.height) count weight reports := by
  induction reports generalizing count weight with
  | nil => rfl
  | cons report rest ih => simp only [selectSkipRound, firstKey, ih]

/-- A fold that puts each report in front lists them in reverse. -/
theorem foldl_reports {step : List (Int × Int) → Bytes × Int → List (Int × Int)}
    (steps : ∀ reports entry, step reports entry = (t.reportOf entry).toList ++ reports)
    (entries : List (Bytes × Int)) (reports : List (Int × Int)) :
    entries.foldl step reports = (entries.filterMap t.reportOf).reverse ++ reports := by
  induction entries generalizing reports with
  | nil => rfl
  | cons entry rest ih =>
    rw [List.foldl_cons, ih, steps]
    cases report : t.reportOf entry <;> simp [report]

/-- Reports of members who are ahead, the highest first. -/
def sortedReports (t : Engine) : List (Int × Int) :=
  (t.higherRoundEvidence.toList.filterMap t.reportOf).reverse.insertionSort
    fun left right => right.1 ≤ left.1

theorem roundSkipTarget_eq (t : Engine) :
    t.roundSkipTarget =
      firstKey (t.vs.roundSkipReachedAt t.policy t.state.height) 0 0 t.sortedReports := by
  unfold roundSkipTarget sortedReports
  rw [selectSkipRound_eq, foldl_reports, List.append_nil]
  intro reports entry
  unfold reportOf
  split
  · rfl
  · cases t.vs.weightOfAddr entry.1 <;> rfl

variable {report : Int × Int}

theorem mem_sortedReports : report ∈ t.sortedReports ↔
      ∃ entry ∈ t.higherRoundEvidence.toList, t.reportOf entry = some report := by
  rw [sortedReports, List.mem_insertionSort, List.mem_reverse, List.mem_filterMap]

theorem reportOf_eq_some {entry : Bytes × Int} : t.reportOf entry = some report ↔
      t.state.round < entry.2 ∧ report.1 = entry.2 ∧ t.vs.weightOfAddr entry.1 = some report.2 := by
  unfold reportOf
  split
  · next behind => simp [not_lt.mpr behind]
  · next ahead =>
    rw [Option.map_eq_some_iff]
    constructor
    · rintro ⟨weight, weighed, rfl⟩
      exact ⟨not_le.mp ahead, rfl, weighed⟩
    · rintro ⟨-, round, weighed⟩
      exact ⟨report.2, weighed, Prod.ext round.symm rfl⟩

/-- The reports from a higher round on are those of its backers. -/
theorem filterMap_reportOf (ahead : t.state.round < round) (entries : List (Bytes × Int)) :
    fromKey round (entries.filterMap t.reportOf) =
      (entries.filter fun entry => decide (round ≤ entry.2) &&
        decide (entry.1 ∈ t.vs.members)).map fun entry => (entry.2, t.vs.weightOf entry.1) := by
  induction entries with
  | nil => rfl
  | cons entry rest ih =>
    unfold fromKey at ih ⊢
    rw [List.filterMap_cons]
    cases report : t.reportOf entry with
    | none =>
      have dropped : ¬ (round ≤ entry.2 ∧ entry.1 ∈ t.vs.members) := by
        rintro ⟨later, member⟩
        obtain ⟨weight, weighed⟩ := Option.isSome_iff_exists.mp
          (ValidatorSet.mem_members_iff.mp member)
        have found : t.reportOf entry = some (entry.2, weight) :=
          reportOf_eq_some.mpr ⟨by omega, rfl, weighed⟩
        rw [found] at report
        cases report
      rw [List.filter_cons_of_neg (by simpa using dropped)]
      exact ih
    | some report' =>
      obtain ⟨-, same, weighed⟩ := reportOf_eq_some.mp report
      have member : entry.1 ∈ t.vs.members := ValidatorSet.mem_members_iff.mpr (by simp [weighed])
      have weight : t.vs.weightOf entry.1 = report'.2 := by simp [ValidatorSet.weightOf, weighed]
      by_cases later : round ≤ entry.2
      · rw [List.filter_cons_of_pos (by simpa [same] using later),
          List.filter_cons_of_pos (by simp [later, member]), List.map_cons, ih, weight, ← same]
      · rw [List.filter_cons_of_neg (by simpa [same] using later),
          List.filter_cons_of_neg (by simp [later])]
        exact ih

/-- Names of those whose recorded report is of the round or of a later one. -/
theorem toFinset_backers (t : Engine) (round : Int) :
    ((t.higherRoundEvidence.toList.filter fun entry =>
      decide (round ≤ entry.2) && decide (entry.1 ∈ t.vs.members)).map
        Prod.fst).toFinset = t.backers round := by
  ext addr
  rw [List.mem_toFinset, List.mem_map, backers, Finset.mem_filter]
  constructor
  · rintro ⟨⟨addr, reported⟩, listed, rfl⟩
    obtain ⟨present, kept⟩ := List.mem_filter.mp listed
    simp only [Bool.and_eq_true, decide_eq_true_eq] at kept
    exact ⟨kept.2, reported, Table.mem_toList.mp present, kept.1⟩
  · rintro ⟨member, reported, found, later⟩
    exact ⟨(addr, reported), List.mem_filter.mpr
      ⟨Table.mem_toList.mpr found, by simp [later, member]⟩, rfl⟩

/-- The reports from a higher round on reach the threshold when its backers
do. -/
theorem meets_iff_backed (ahead : t.state.round < round) :
    Thresholds.Meets (t.vs.roundSkipReachedAt t.policy t.state.height) Prod.snd
        (fromKey round t.sortedReports) ↔ t.Backed round := by
  have perm : (fromKey round t.sortedReports).Perm (fromKey round
      (t.higherRoundEvidence.toList.filterMap t.reportOf)) := by
    apply List.Perm.filter
    exact (List.perm_insertionSort _ _).trans (List.reverse_perm _)
  have distinct : ((t.higherRoundEvidence.toList.filter fun entry =>
      decide (round ≤ entry.2) && decide (entry.1 ∈ t.vs.members)).map Prod.fst).Nodup :=
    t.higherRoundEvidence.nodup_keys.sublist (List.filter_sublist.map Prod.fst)
  unfold Thresholds.Meets Backed
  rw [meetsFrom_perm perm, filterMap_reportOf ahead, MeetsFrom,
    ← toFinset_backers, List.toFinset_card_of_nodup distinct, List.sum_toFinset _ distinct]
  simp [Function.comp_def]

theorem sortedReports_falling (t : Engine) :
    t.sortedReports.Pairwise fun left right => right.1 ≤ left.1 := by
  have total : Std.Total fun left right : Int × Int => right.1 ≤ left.1 :=
    ⟨fun left right => le_total right.1 left.1⟩
  have transitive : IsTrans (Int × Int) fun left right => right.1 ≤ left.1 :=
    ⟨fun _ _ _ first second => second.trans first⟩
  exact List.pairwise_insertionSort _ _

theorem sortedReports_ahead (listed : report ∈ t.sortedReports) : t.state.round < report.1 := by
  obtain ⟨entry, -, reported⟩ := mem_sortedReports.mp listed
  obtain ⟨ahead, same, -⟩ := reportOf_eq_some.mp reported
  rwa [same]

theorem sortedReports_nonneg (sound : t.vs.Sound)
    (listed : report ∈ t.sortedReports) : 0 ≤ report.2 := by
  obtain ⟨entry, -, reported⟩ := mem_sortedReports.mp listed
  obtain ⟨-, -, weighed⟩ := reportOf_eq_some.mp reported
  exact (sound.weight_pos_of_lookup weighed).le

theorem lt_of_roundSkipTarget (target : t.roundSkipTarget = some round) :
    t.state.round < round := by
  rw [roundSkipTarget_eq] at target
  obtain ⟨report, listed, rfl⟩ := firstKey_mem target
  exact sortedReports_ahead listed

/-- A target is ahead and backed, and no later round is backed. -/
theorem greatest_of_roundSkipTarget (sound : t.vs.Sound) (target : t.roundSkipTarget = some round) :
    t.state.round < round ∧ t.Backed round ∧ ∀ later, round < later → ¬ t.Backed later := by
  obtain ⟨found, -⟩ := firstKey_spec
    (ValidatorSet.rising_roundSkipReachedAt t.policy t.state.height t.vs)
    t.sortedReports_falling (fun _ => sortedReports_nonneg sound)
    sound.roundSkipReachedAt_zero
  have ahead := lt_of_roundSkipTarget target
  rw [roundSkipTarget_eq] at target
  obtain ⟨meets, maximal⟩ := found round target
  refine ⟨ahead, (meets_iff_backed ahead).mp meets, fun later more backed => ?_⟩
  exact maximal later more ((meets_iff_backed (ahead.trans more)).mpr backed)

/-- There is no target exactly when no round ahead is backed. -/
theorem roundSkipTarget_eq_none_iff (sound : t.vs.Sound) :
    t.roundSkipTarget = none ↔ ∀ round, t.state.round < round → ¬ t.Backed round := by
  constructor
  · intro none round ahead backed
    obtain ⟨-, absent⟩ := firstKey_spec
      (ValidatorSet.rising_roundSkipReachedAt t.policy t.state.height t.vs)
      t.sortedReports_falling (fun _ => sortedReports_nonneg sound)
      sound.roundSkipReachedAt_zero
    rw [roundSkipTarget_eq] at none
    exact absent none round ((meets_iff_backed ahead).mpr backed)
  · intro unbacked
    cases target : t.roundSkipTarget with
    | none => rfl
    | some round =>
      obtain ⟨ahead, backed, -⟩ := greatest_of_roundSkipTarget sound target
      exact absurd backed (unbacked round ahead)

end Target
end Engine
end LiteNode
