import LiteNode.Data.Results
import LiteNode.Data.Writes

/-!
# Auxiliary journals

A journal names the anchor that a write starts from, the anchor that it leads
to, and every key that changes, with the cells before and after. It is sealed
only when its rows are in order and can be told from one another.
-/

namespace LiteNode
namespace AuxDelta

inductive Key
  | receipt (hash : Bytes)
  | rejected (hash : Bytes)
  | address (address value : Bytes)
  | epoch (epoch : Int) (hash : Bytes)
  | metadata (key : Bytes)

inductive Cell
  | value (value : Option Bytes)
  | member (value : Bool)
  deriving DecidableEq

structure Anchor where
  epoch : Int
  root : Bytes
  commitId : Bytes
  deriving DecidableEq

/-- The kind of a key, its epoch, and its texts. -/
def Key.rank : Key → ℕ ×ₗ ℤ ×ₗ Bytes ×ₗ Bytes
  | .receipt hash => toLex (0, toLex (0, toLex (hash, [])))
  | .rejected hash => toLex (1, toLex (0, toLex (hash, [])))
  | .address owner value => toLex (2, toLex (0, toLex (owner, value)))
  | .epoch number hash => toLex (3, toLex (number, toLex (hash, [])))
  | .metadata key => toLex (4, toLex (0, toLex (key, [])))

theorem Key.rank_injective : Function.Injective Key.rank := by
  intro left right same
  cases left <;> cases right <;> simp_all [Key.rank, toLex_inj, Prod.mk.injEq]

/-- Keys are compared by their kind, then by what they hold. -/
instance : LinearOrder Key := LinearOrder.lift' Key.rank Key.rank_injective

structure Row where
  key : Key
  prior : Cell
  next : Cell
  deriving DecidableEq

inductive Decision
  | restore
  | retire
  deriving DecidableEq

def require (reason : String) (check : Bool) : Except String Unit :=
  if check then .ok () else .error reason

@[simp] theorem require_bind_eq_ok_iff
    {reason : String} {check : Bool} {rest : Unit → Except String α} {value : α} :
    (require reason check >>= rest) = .ok value ↔ check = true ∧ rest () = .ok value := by
  cases check <;> simp [require]

def maxInt : Int := 4611686018427387903

def validAnchor (value : Anchor) : Bool := 0 ≤ value.epoch && value.root ≠ [] && value.commitId ≠ []

def validCell : Key × Cell → Bool
  | (.receipt _, .value _) | (.rejected _, .value _)
  | (.metadata _, .value _) => true
  | (.address _ _, .member _) | (.epoch _ _, .member _) => true
  | _ => false

def validKey : Key → Bool
  | .receipt key | .rejected key | .metadata key => key ≠ []
  | .address key value => key ≠ [] && value ≠ []
  | .epoch epoch key => 0 ≤ epoch && epoch ≤ 2147483647 && key ≠ []

def ordered (rows : List (Key × Cell)) : List (Key × Cell) :=
  rows.insertionSort fun left right => left.1 ≤ right.1

def unique : List (Key × Cell) → Bool
  | (left, _) :: (right, cell) :: rest => left ≠ right && unique ((right, cell) :: rest)
  | _ => true

/-- A target without a predecessor is the first one. -/
def follows (previous : Option Anchor) (target : Anchor) : Bool :=
  match previous with
  | none => target.epoch = 0
  | some head => validAnchor head && head.epoch < maxInt && target.epoch = head.epoch + 1

/-- One row for each key, with both of its cells. -/
def paired (before after : List (Key × Cell)) : List Row :=
  List.zipWith (fun prior next => Row.mk prior.1 prior.2 next.2) before after

/-- The rows whose cells differ. -/
def changes (before after : List (Key × Cell)) : List Row :=
  (paired before after).filter fun row => row.prior ≠ row.next

end AuxDelta

open AuxDelta

structure AuxDelta where
  previous : Option Anchor
  target : Anchor
  rows : List Row
  deriving DecidableEq

namespace AuxDelta

def «seal» (previous : Option Anchor) (target : Anchor)
    (before after : List (Key × Cell)) : Except String AuxDelta := do
  require "auxiliary target anchor is invalid" (validAnchor target)
  require "auxiliary predecessor anchor is invalid" (follows previous target)
  let before := ordered before
  let after := ordered after
  require "auxiliary write keys repeat" (unique before && unique after)
  require "auxiliary write keys differ" (before.map Prod.fst = after.map Prod.fst)
  require "auxiliary write key is invalid" (before.all fun row => validKey row.1)
  require "auxiliary cell type differs" (before.all validCell && after.all validCell)
  return ⟨previous, target, changes before after⟩

def decide (head : Option Anchor) (journal : AuxDelta) : Except String Decision :=
  if head = some journal.target then .ok .retire
  else if head = journal.previous then .ok .restore
  else .error "auxiliary journal does not match selected HEAD"

def restore (head : Option Anchor) (current : List (Key × Cell))
    (journal : AuxDelta) : Except String (List (Key × Cell)) := do
  let decision ← decide head journal
  require "committed auxiliary journal cannot be reversed" (decision = .restore)
  let expected := journal.rows.map fun row => (row.key, row.next)
  require "auxiliary values differ from journal" (ordered current = expected)
  return journal.rows.map fun row => (row.key, row.prior)

theorem ordered_eq_self {rows : List (Key × Cell)}
    (increasing : Ordered.Increasing Prod.fst rows) : ordered rows = rows :=
  List.Pairwise.insertionSort_eq (increasing.imp le_of_lt)

theorem unique_iff {rows : List (Key × Cell)}
    (sorted : rows.Pairwise fun left right => left.1 ≤ right.1) :
    unique rows = true ↔ Ordered.Increasing Prod.fst rows := by
  induction rows using unique.induct with
  | case1 left cell right cell' rest ih =>
    obtain ⟨least, later⟩ := List.pairwise_cons.mp sorted
    have below := least _ List.mem_cons_self
    rw [unique, Bool.and_eq_true, ih later, Ordered.Increasing, Ordered.Increasing,
      List.pairwise_cons (l := (right, cell') :: rest)]
    refine and_congr_left fun increasing => ?_
    rw [decide_eq_true_iff]
    constructor
    · intro apart other listed
      have above : right ≤ other.1 := by
        rcases List.mem_cons.mp listed with rfl | further
        · exact le_rfl
        · exact ((List.pairwise_cons.mp increasing).1 other further).le
      exact (below.lt_of_ne apart).trans_le above
    · intro all
      exact (all _ List.mem_cons_self).ne
  | case2 rows short =>
    cases rows with
    | nil => simp [unique, Ordered.Increasing]
    | cons only rest =>
      cases rest with
      | nil => simp [unique, Ordered.Increasing]
      | cons second rest => exact absurd rfl (short _ _ _ _ _)

theorem pairwise_ordered (rows : List (Key × Cell)) :
    (ordered rows).Pairwise fun left right => left.1 ≤ right.1 := by
  have : Std.Total fun left right : Key × Cell => left.1 ≤ right.1 :=
    ⟨fun left right => le_total left.1 right.1⟩
  have : IsTrans (Key × Cell) fun left right => left.1 ≤ right.1 :=
    ⟨fun _ _ _ first second => le_trans first second⟩
  exact List.pairwise_insertionSort _ rows

theorem unique_ordered_iff {rows : List (Key × Cell)} :
    unique (ordered rows) = true ↔ Ordered.Increasing Prod.fst (ordered rows) :=
  unique_iff (pairwise_ordered rows)

section Pairs

variable {before after : List (Key × Cell)} (same : before.map Prod.fst = after.map Prod.fst)

include same

theorem map_prior_paired :
    (paired before after).map (fun row => (row.key, row.prior)) = before := by
  induction before generalizing after with
  | nil => rfl
  | cons first rest ih =>
    cases after with
    | nil => cases same
    | cons first' rest' =>
      rw [List.map_cons, List.map_cons, List.cons.injEq] at same
      exact congrArg (List.cons first) (ih same.2)

theorem map_next_paired : (paired before after).map (fun row => (row.key, row.next)) = after := by
  induction before generalizing after with
  | nil => exact (List.map_eq_nil_iff.mp same.symm).symm
  | cons first rest ih =>
    cases after with
    | nil => cases same
    | cons first' rest' =>
      rw [List.map_cons, List.map_cons, List.cons.injEq] at same
      have head : (first.1, first'.2) = first' := Prod.ext same.1 rfl
      exact congrArg₂ List.cons head (ih same.2)

theorem increasing_changes (increasing : Ordered.Increasing Prod.fst before) :
    Ordered.Increasing Row.key (changes before after) := by
  have all : Ordered.Increasing Row.key (paired before after) := by
    rw [← map_prior_paired same] at increasing
    exact (List.pairwise_map (f := fun row : Row => (row.key, row.prior))).mp increasing
  exact List.Pairwise.sublist List.filter_sublist all

theorem mem_changes {row : Row} (listed : row ∈ changes before after) :
    (row.key, row.prior) ∈ before ∧ (row.key, row.next) ∈ after ∧ row.prior ≠ row.next := by
  obtain ⟨listed, changed⟩ := List.mem_filter.mp listed
  refine ⟨?_, ?_, of_decide_eq_true changed⟩
  · rw [← map_prior_paired same]
    exact List.mem_map.mpr ⟨row, listed, rfl⟩
  · rw [← map_next_paired same]
    exact List.mem_map.mpr ⟨row, listed, rfl⟩

end Pairs

/-- What `seal` has checked of a journal. -/
structure Sealed (journal : AuxDelta) : Prop where
  target : validAnchor journal.target = true
  chained : follows journal.previous journal.target = true
  increasing : Ordered.Increasing Row.key journal.rows
  keys : ∀ row ∈ journal.rows, validKey row.key = true
  priors : ∀ row ∈ journal.rows, validCell (row.key, row.prior) = true
  nexts : ∀ row ∈ journal.rows, validCell (row.key, row.next) = true
  changed : ∀ row ∈ journal.rows, row.prior ≠ row.next

theorem seal_eq_ok_iff {previous : Option Anchor} {target : Anchor}
    {before after : List (Key × Cell)} {journal : AuxDelta} :
    «seal» previous target before after = .ok journal ↔ validAnchor target = true ∧
      follows previous target = true ∧ Ordered.Increasing Prod.fst (ordered before) ∧
      Ordered.Increasing Prod.fst (ordered after) ∧
      (ordered before).map Prod.fst = (ordered after).map Prod.fst ∧
      (∀ row ∈ ordered before, validKey row.1 = true) ∧
      (∀ row ∈ ordered before, validCell row = true) ∧
      (∀ row ∈ ordered after, validCell row = true) ∧
      journal = ⟨previous, target, changes (ordered before) (ordered after)⟩ := by
  simp only [«seal», require_bind_eq_ok_iff, Bool.and_eq_true,
    unique_ordered_iff, decide_eq_true_iff, List.all_eq_true, and_assoc]
  refine Iff.rfl.and (Iff.rfl.and (Iff.rfl.and (Iff.rfl.and
    (Iff.rfl.and (Iff.rfl.and (Iff.rfl.and (Iff.rfl.and ?_)))))))
  exact ⟨fun done => (Except.ok.inj done).symm, fun done => done ▸ rfl⟩

theorem sealed_of_seal {previous : Option Anchor} {target : Anchor}
    {before after : List (Key × Cell)} {journal : AuxDelta}
    (done : «seal» previous target before after = .ok journal) : Sealed journal := by
  obtain ⟨validTarget, chained, increasing, -, same, keys, priors, nexts,
    rfl⟩ := seal_eq_ok_iff.mp done
  exact
    { target := validTarget
      chained := chained
      increasing := increasing_changes same increasing
      keys := fun row listed => keys _ (mem_changes same listed).1
      priors := fun row listed => priors _ (mem_changes same listed).1
      nexts := fun row listed => nexts _ (mem_changes same listed).2.1
      changed := fun row listed => (mem_changes same listed).2.2 }

/-- What a journal holds is sealed as the journal. -/
theorem Sealed.seal_eq {journal : AuxDelta} (sound : Sealed journal) :
    «seal» journal.previous journal.target
        (journal.rows.map fun row => (row.key, row.prior))
        (journal.rows.map fun row => (row.key, row.next)) = .ok journal := by
  have increasing : ∀ cell : Row → Cell, Ordered.Increasing Prod.fst
      (journal.rows.map fun row => (row.key, cell row)) :=
    fun cell => List.pairwise_map.mpr sound.increasing
  have rows : changes (journal.rows.map fun row => (row.key, row.prior))
      (journal.rows.map fun row => (row.key, row.next)) = journal.rows := by
    rw [changes, paired, List.zipWith_map, List.zipWith_self, List.map_id']
    exact List.filter_eq_self.mpr fun row listed => decide_eq_true (sound.changed row listed)
  rw [seal_eq_ok_iff, ordered_eq_self (increasing _), ordered_eq_self (increasing _)]
  refine ⟨sound.target, sound.chained, increasing _, increasing _, ?_, ?_, ?_, ?_, ?_⟩
  · rw [List.map_map, List.map_map]
    rfl
  · exact List.forall_mem_map.mpr sound.keys
  · exact List.forall_mem_map.mpr sound.priors
  · exact List.forall_mem_map.mpr sound.nexts
  · rw [rows]

/-- The anchors of a journal differ. -/
theorem Sealed.apart {journal : AuxDelta} (sound : Sealed journal) :
    some journal.target ≠ journal.previous := by
  intro same
  have chained := sound.chained
  rw [← same] at chained
  simp only [follows, Bool.and_eq_true, decide_eq_true_iff] at chained
  omega

end AuxDelta
end LiteNode
