import LiteNode.Duty.State

/-!
# Alike states

Two states are alike when they differ at most in the floors of marks. A call
takes alike states to alike states with the same reply, if the epochs that it
marks are at or above the marks that the member has; for a member without marks,
at or above the floor.
-/

namespace LiteNode
namespace SetFold

/-- Results that are the same refusal, or related values. -/
inductive SameResult {α β : Type} (R : α → β → Prop) : Except String α → Except String β → Prop
  | ok {left : α} {right : β} (related : R left right) : SameResult R (.ok left) (.ok right)
  | error (reason : String) : SameResult R (.error reason) (.error reason)

theorem SameResult.cases {α β : Type} {R : α → β → Prop} {left : Except String α}
    {right : Except String β} (same : SameResult R left right) :
    (∃ a b, left = .ok a ∧ right = .ok b ∧ R a b) ∨
      ∃ reason, left = .error reason ∧ right = .error reason := by
  cases same with
  | ok related => exact Or.inl ⟨_, _, rfl, rfl, related⟩
  | error reason => exact Or.inr ⟨reason, rfl, rfl⟩

theorem SameResult.map {α β γ δ : Type} {R : α → β → Prop} {S : γ → δ → Prop}
    {left : Except String α} {right : Except String β}
    (same : SameResult R left right) {f : α → γ} {g : β → δ}
    (keeps : ∀ a b, R a b → S (f a) (g b)) : SameResult S (left.map f) (right.map g) := by
  cases same with
  | ok related => exact .ok (keeps _ _ related)
  | error reason => exact .error reason

/-- The same epochs are marked; if there are none, the right floor is not
above the left one. -/
structure MarksAlike (marks marks' : Marks) : Prop where
  epochs : marks.epochs = marks'.epochs
  floor : marks.epochs = [] → marks'.floor ≤ marks.floor

/-- The first marked epoch, the floor if there is none. -/
def Marks.start (marks : Marks) : Int :=
  match marks.epochs with
  | [] => marks.floor
  | first :: _ => first

def AboveFloors (epoch : Int) (marks marks' : Marks) : Prop :=
  marks.floor ≤ epoch ∧ marks'.floor ≤ epoch

variable {cfg : Cfg} {marks marks' : Marks}

theorem MarksAlike.refl (marks : Marks) : MarksAlike marks marks := ⟨rfl, fun _ => le_refl _⟩

theorem MarksAlike.prune (alike : MarksAlike marks marks') (epoch : Int) :
    MarksAlike (pruneMarks cfg epoch marks) (pruneMarks cfg epoch marks') := by
  constructor
  · apply epochs_eq_of_mem_iff
    intro marked
    rw [mem_epochs_pruneMarks, mem_epochs_pruneMarks, alike.epochs]
  · intro none
    rw [floor_pruneMarks, floor_pruneMarks]
    cases listed : marks.epochs with
    | nil => exact max_le_max_right _ (alike.floor listed)
    | cons first rest =>
      -- the first epoch was dropped, so both floors were raised
      have left : first ∈ marks.epochs := by simp [listed]
      have right : first ∈ marks'.epochs := alike.epochs ▸ left
      have dropped : ¬ floorEpoch cfg epoch ≤ first := by
        intro kept
        have marked := (mem_epochs_pruneMarks cfg epoch first).mpr ⟨left, kept⟩
        rw [none] at marked
        cases marked
      have low' := (mem_epochs.mp right).1
      omega

variable {now : Int}

theorem AboveFloors.prune {epoch : Int} (above : AboveFloors epoch marks marks')
    (counts : floorEpoch cfg now ≤ epoch) :
    AboveFloors epoch (pruneMarks cfg now marks) (pruneMarks cfg now marks') := by
  unfold AboveFloors at above ⊢
  rw [floor_pruneMarks, floor_pruneMarks]
  omega

theorem MarksAlike.add (alike : MarksAlike marks marks') {epoch : Int}
    (above : AboveFloors epoch marks marks') :
    MarksAlike (addMark cfg epoch marks) (addMark cfg epoch marks') := by
  by_cases counts : floorEpoch cfg epoch ≤ epoch
  swap
  · -- both floors are raised above the epoch, which is then not marked
    rw [addMark_of_lt_floorEpoch (not_le.mp counts), addMark_of_lt_floorEpoch (not_le.mp counts)]
    exact alike.prune epoch
  have marked : epoch ∈ (addMark cfg epoch marks).epochs :=
    (mem_epochs_addMark cfg above.1 counts epoch).mpr (Or.inl rfl)
  constructor
  · apply epochs_eq_of_mem_iff
    intro other
    rw [mem_epochs_addMark cfg above.1 counts, mem_epochs_addMark cfg above.2 counts, alike.epochs]
  · intro none
    rw [none] at marked
    cases marked

theorem AboveFloors.add {epoch later : Int} (above : AboveFloors later marks marks')
    (counts : floorEpoch cfg epoch ≤ later) :
    AboveFloors later (addMark cfg epoch marks) (addMark cfg epoch marks') := by
  unfold AboveFloors at above ⊢
  rw [floor_addMark, floor_addMark]
  omega

theorem MarksAlike.bits_eq_zero (alike : MarksAlike marks marks') :
    marks.bits = 0 ↔ marks'.bits = 0 := by
  rw [bits_eq_zero_iff, bits_eq_zero_iff, alike.epochs]

structure MemberAlike (member member' : Member) : Prop where
  address : member.address = member'.address
  phase : member.phase = member'.phase
  marks : MarksAlike member.marks member'.marks

variable {member member' : Member}

theorem MemberAlike.refl (member : Member) : MemberAlike member member :=
  ⟨rfl, rfl, MarksAlike.refl _⟩

theorem MemberAlike.retain (alike : MemberAlike member member') (epoch : Int) :
    retainMember cfg epoch member = retainMember cfg epoch member' := by
  have zero : decide (member.marks.bits ≠ 0) = decide (member'.marks.bits ≠ 0) :=
    decide_eq_decide.mpr (not_congr alike.marks.bits_eq_zero)
  unfold retainMember
  rw [← alike.phase]
  cases member.phase with
  | live since => rfl
  | shadow pulse =>
    cases pulse with
    | none => exact zero
    | some pulse => exact congrArg (· || pulseFresh cfg epoch pulse) zero

theorem MemberAlike.shadowEpoch (alike : MemberAlike member member') :
    shadowEpoch member = shadowEpoch member' := by
  unfold SetFold.shadowEpoch
  rw [lastMark_eq_getLast?, lastMark_eq_getLast?, alike.marks.epochs, alike.phase]

theorem MemberAlike.prune (alike : MemberAlike member member') (epoch : Int) :
    MemberAlike (pruneMember cfg epoch member) (pruneMember cfg epoch member') :=
  ⟨alike.address, alike.phase, alike.marks.prune epoch⟩

theorem MemberAlike.sync
    (alike : MemberAlike member member') (epoch : Int) (active : List Bytes) :
    MemberAlike (syncMember cfg epoch active member) (syncMember cfg epoch active member') := by
  refine ⟨alike.address, ?_, alike.marks.prune epoch⟩
  unfold syncMember
  rw [alike.address, alike.phase]

variable {table table' : StringMap Member}

/-- States that differ at most in the floors of marks. -/
structure Alike (state state' : State) : Prop where
  members : List.Forall₂ MemberAlike state.members state'.members
  finals : state.finals = state'.finals
  safeAfter : state.safeAfter = state'.safeAfter
  applied : state.applied = state'.applied
  seats : state.seats = state'.seats

variable {state state' : State}

theorem Alike.withMembers (alike : Alike state state')
    (related : StringMap.Alike MemberAlike table table') :
    Alike { state with members := table.values } { state' with members := table'.values } :=
  ⟨related.values, alike.finals, alike.safeAfter, alike.applied, alike.seats⟩

/-- Alike members; a marked one has both floors at or below an epoch. -/
def MarkableAlike (marked : Bytes → Prop) (epoch : Int) (member member' : Member) : Prop :=
  MemberAlike member member' ∧
    (marked member.address → AboveFloors epoch member.marks member'.marks)

variable {marked : Bytes → Prop} {epoch : Int}

theorem MarkableAlike.sync (alike : MarkableAlike marked epoch member member')
    (counts : floorEpoch cfg now ≤ epoch) (active : List Bytes) :
    MarkableAlike marked epoch (syncMember cfg now active member)
      (syncMember cfg now active member') :=
  ⟨alike.1.sync now active, fun here => (alike.2 here).prune counts⟩

theorem span_of_validateCfg (valid : validateCfg cfg = .ok ()) :
    8 ≤ cfg.window ∧ 1 ≤ cfg.challenge := by
  unfold validateCfg at valid
  split at valid
  · cases valid
  split at valid
  · cases valid
  omega

def parentMarks : Option ParentCommit → List (Bytes × Int)
  | none => []
  | some parent => parent.certificate.precommits.map fun vote =>
    (vote.validator, parent.certificate.epochId)

/-- The marks that a call records, the first one where it records several for
one member. -/
def Call.recorded : Call → List (Bytes × Int)
  | .noteFinal _ _ _ final signers => signers.map fun signer => (signer, final.epoch)
  | .applyProof _ _ _ _ address proof => [(address, proof.vote.epochId)]
  | .applyMarkClaims _ _ _ _ address _ claims =>
    claims.head?.toList.map fun claim => (address, claim.epoch)
  | .advance _ _ _ _ _ parent => parentMarks parent
  | _ => []

end SetFold
end LiteNode
