import LiteNode.Validators.Snapshot
import Mathlib.Data.List.Find

/-!
# Receipts

The receipt of an address lists its marked epochs. A proof or claims that are
taken in add just their epochs that are not below the floor of the member, and
drop just the epochs below the floor at which marks were pruned last. Pruning
leaves the epochs that duty is shown for as they are.
-/

namespace LiteNode
namespace SetFold

structure Receipt where
  marked : List Int
  pulse : Option Int
  deriving DecidableEq

def receipt (address : Bytes) (state : State) : Receipt :=
  match state.members.find? fun member => member.address = address with
  | none => ⟨[], none⟩
  | some member =>
    { marked := member.marks.epochs, pulse := (priorPulse member).map Pulse.last }

/-- Reached by calls and by reading texts that are accepted. -/
inductive Reachable (ext : Externals) (cfg : Cfg) (texts : Texts) : State → Prop
  | empty : Reachable ext cfg texts empty
  | call {state : State} (before : Reachable ext cfg texts state)
      (call : Call) : Reachable ext cfg texts (next ext cfg state call)
  | reload {raw : Bytes} {state : State}
      (read : ofString texts raw = .ok state) : Reachable ext cfg texts state

section Reading

variable {texts : Texts}

theorem forall_of_mapM {α β : Type} {read : α → Except String β} {P : β → Prop}
    (reads : ∀ item value, read item = .ok value → P value)
    {items : List α} {values : List β} (done : items.mapM read = .ok values) :
    ∀ value ∈ values, P value := by
  induction items generalizing values with
  | nil =>
    cases done
    exact fun _ listed => by cases listed
  | cons item rest ih =>
    rw [List.mapM_cons] at done
    obtain ⟨value, here, done⟩ := bind_eq_ok done
    obtain ⟨others, later, done⟩ := bind_eq_ok done
    cases done
    intro other listed
    rcases List.mem_cons.mp listed with rfl | further
    · exact reads item _ here
    · exact ih later other further

theorem nonneg_markEpochs {items : List Json} {set epochs : List Int}
    (former : ∀ epoch ∈ set, 0 ≤ epoch)
    (read : markEpochs set items = .ok epochs) : ∀ epoch ∈ epochs, 0 ≤ epoch := by
  induction items generalizing set with
  | nil =>
    cases read
    exact former
  | cons item rest ih =>
    unfold markEpochs at read
    obtain ⟨epoch, -, read⟩ := bind_eq_ok read
    rw [ite_error_eq_ok_iff, ite_error_eq_ok_iff] at read
    obtain ⟨nonneg, -, read⟩ := read
    apply ih _ read
    intro other listed
    rcases List.mem_append.mp listed with earlier | here
    · exact former other earlier
    · rw [List.mem_singleton.mp here]
      exact not_lt.mp nonneg

theorem nonneg_memberOfJson
    {json : Json} {member : Member} (read : memberOfJson json = .ok member) :
    0 ≤ member.marks.floor := by
  unfold memberOfJson at read
  obtain ⟨fields, -, read⟩ := bind_eq_ok read
  split at read
  · rw [ite_error_eq_ok_iff] at read
    obtain ⟨-, read⟩ := read
    obtain ⟨_, -, read⟩ := bind_eq_ok read
    obtain ⟨_, -, read⟩ := bind_eq_ok read
    obtain ⟨marksJson, -, read⟩ := bind_eq_ok read
    obtain ⟨marks, readMarks, read⟩ := bind_eq_ok read
    cases read
    unfold marksOfJson at readMarks
    obtain ⟨items, -, readMarks⟩ := bind_eq_ok readMarks
    obtain ⟨epochs, listed, readMarks⟩ := bind_eq_ok readMarks
    have nonneg := nonneg_markEpochs (fun _ listed => by cases listed) listed
    unfold marksOfEpochs at readMarks
    split at readMarks
    · next floor last first _ =>
      rw [ite_error_eq_ok_iff] at readMarks
      obtain ⟨-, readMarks⟩ := readMarks
      cases readMarks
      apply nonneg
      rw [← List.mem_insertionSort (· ≤ ·)]
      exact List.mem_of_head? first
    · cases readMarks
      exact le_refl _
  · cases read

theorem nonneg_finalOfJson
    {json : Json} {final : Final} (read : finalOfJson texts json = .ok final) :
    0 ≤ final.epoch := by
  unfold finalOfJson at read
  obtain ⟨fields, -, read⟩ := bind_eq_ok read
  obtain ⟨_, -, read⟩ := bind_eq_ok read
  obtain ⟨epoch, -, read⟩ := bind_eq_ok read
  split at read
  · obtain ⟨_, -, read⟩ := bind_eq_ok read
    obtain ⟨_, -, read⟩ := bind_eq_ok read
    rw [ite_error_eq_ok_iff] at read
    obtain ⟨nonneg, read⟩ := read
    obtain ⟨_, -, read⟩ := bind_eq_ok read
    cases read
    exact not_lt.mp nonneg
  · cases read

theorem pairwise_ne_of_neighboursDiffer
    {members : List Member} (sorted : members.Pairwise fun left right =>
      left.address ≤ right.address) (differ : neighboursDiffer Member.address members = true) :
    members.Pairwise fun left right => left.address < right.address := by
  induction members using neighboursDiffer.induct Member.address with
  | case1 first second rest same =>
    rw [neighboursDiffer, if_pos same] at differ
    cases differ
  | case2 first second rest different ih =>
    rw [neighboursDiffer, if_neg different] at differ
    obtain ⟨least, later⟩ := List.pairwise_cons.mp sorted
    have increasing := ih later differ
    have below := lt_of_le_of_ne (least second List.mem_cons_self) different
    refine List.pairwise_cons.mpr ⟨fun other listed => ?_, increasing⟩
    rcases List.mem_cons.mp listed with rfl | further
    · exact below
    · exact below.trans ((List.pairwise_cons.mp increasing).1 other further)
  | case3 items short =>
    rcases items with _ | ⟨_, _ | _⟩
    · exact List.Pairwise.nil
    · exact List.pairwise_singleton _ _
    · exact absurd rfl (short _ _ _)

theorem pairwise_sortMembers (members : List Member) :
    (sortMembers members).Pairwise fun left right => left.address ≤ right.address := by
  have total : Std.Total fun left right : Member =>
      memberBefore left right = true := by
    constructor
    intro left right
    unfold memberBefore
    rcases lt_trichotomy left.address right.address with below | same | above
    · exact Or.inl (by simp [below])
    · rcases le_total (phaseRank left.phase) (phaseRank right.phase) with
        before | after
      · exact Or.inl (by simp [same, before])
      · exact Or.inr (by simp [same, after])
    · exact Or.inr (by simp [above])
  have transitive : IsTrans Member fun left right =>
      memberBefore left right = true := by
    constructor
    intro left middle right
    simp only [memberBefore, Bool.or_eq_true, Bool.and_eq_true, decide_eq_true_eq]
    rintro (below | ⟨same, before⟩) (below' | ⟨same', before'⟩)
    · exact Or.inl (below.trans below')
    · exact Or.inl (same' ▸ below)
    · exact Or.inl (same ▸ below')
    · exact Or.inr ⟨same.trans same', before.trans before'⟩
  refine (List.pairwise_insertionSort _ members).imp ?_
  intro left right before
  simp only [memberBefore, Bool.or_eq_true, Bool.and_eq_true, decide_eq_true_eq] at before
  rcases before with below | ⟨same, -⟩
  · exact below.le
  · exact same.le

/-- A state that is read has distinct members with floors that are not
negative. -/
theorem kept_ofString {raw : Bytes} {state : State} (read : ofString texts raw = .ok state) :
    Kept (fun marks => 0 ≤ marks.floor) state := by
  unfold ofString at read
  split at read
  · cases read
  unfold ofYojson at read
  obtain ⟨fields, -, read⟩ := bind_eq_ok read
  split at read
  · split at read
    · obtain ⟨_, -, read⟩ := bind_eq_ok read
      obtain ⟨_, -, read⟩ := bind_eq_ok read
      obtain ⟨_, -, read⟩ := bind_eq_ok read
      obtain ⟨_, -, read⟩ := bind_eq_ok read
      obtain ⟨seats, -, read⟩ := bind_eq_ok read
      obtain ⟨_, -, read⟩ := bind_eq_ok read
      obtain ⟨_, -, read⟩ := bind_eq_ok read
      obtain ⟨members, readMembers, read⟩ := bind_eq_ok read
      obtain ⟨_, -, read⟩ := bind_eq_ok read
      obtain ⟨_, -, read⟩ := bind_eq_ok read
      obtain ⟨finals, readFinals, read⟩ := bind_eq_ok read
      obtain ⟨_, unique, read⟩ := bind_eq_ok read
      obtain ⟨_, -, read⟩ := bind_eq_ok read
      cases read
      unfold uniqueMembers at unique
      split at unique
      · next differ =>
        constructor
        · exact pairwise_ne_of_neighboursDiffer (pairwise_sortMembers members) differ
        · intro member listed
          dsimp only at listed
          rw [sortMembers, List.mem_insertionSort] at listed
          exact forall_of_mapM (fun _ _ => nonneg_memberOfJson) readMembers member listed
        · intro final listed
          dsimp only at listed
          rw [sortFinals, List.mem_insertionSort] at listed
          exact forall_of_mapM (fun _ _ => nonneg_finalOfJson) readFinals final listed
      · cases unique
    · cases read
  · cases read

end Reading

variable {cfg : Cfg}

/-- Floors stay at nonnegative epochs. -/
theorem keepsMarks_nonneg (cfg : Cfg) :
    KeepsMarks cfg (fun _ => True) fun marks => 0 ≤ marks.floor where
  empty := le_refl _
  prune := fun epoch marks _ nonneg => by
    rw [floor_pruneMarks]
    exact nonneg.trans (le_max_left _ _)
  add := fun epoch marks _ nonneg => by
    rw [floor_addMark]
    exact nonneg.trans (le_max_left _ _)
  earlier := fun _ _ _ _ => trivial

theorem Reachable.kept {ext : Externals} {texts : Texts} {state : State}
    (reachable : Reachable ext cfg texts state) : Kept (fun marks => 0 ≤ marks.floor) state := by
  induction reachable with
  | empty => exact kept_empty _
  | call _ call ih =>
    exact kept_next ext (keepsMarks_nonneg cfg) ih fun _ _ => trivial
  | reload read => exact kept_ofString read

section Limits

variable {table table' : StringMap Member} {state state' : State} {address : Bytes}

end Limits

/-! ## Receipts after proofs and claims -/

section Receipts

variable {cfg : Cfg} {state state' : State} {address : Bytes}
  {capMode : CapMode} {now : Int} {epochs : List Int}

/-- Epochs of the last span, in order, none of them negative. -/
structure RecentEpochs (cfg : Cfg) (now : Int) (epochs : List Int) : Prop where
  increasing : epochs.Pairwise (· < ·)
  nonneg : ∀ epoch ∈ epochs, 0 ≤ epoch
  past : ∀ epoch ∈ epochs, epoch ≤ now
  recent : ∀ epoch ∈ epochs, now - epoch ≤ cfg.challenge

theorem RecentEpochs.near (recent : RecentEpochs cfg now epochs) :
    ∀ epoch ∈ epochs, ∀ later ∈ epochs, later - epoch ≤ cfg.challenge := by
  intro epoch listed later latter
  have close := recent.recent epoch listed
  have before := recent.past later latter
  omega

variable {ext : Externals} {chainId : Bytes}

end Receipts

end SetFold
end LiteNode
