import LiteNode.Data.Decimal

/-!
# Duty marks

The epochs that a member signed are the bits of a number above a floor. Marking
an epoch first raises the floor to the oldest epoch that still counts, and an
epoch below the floor is not marked. Apart from that the floor does not show:
marks are what their epochs are.
-/

namespace LiteNode
namespace SetFold

/-- Share of the epochs that a member has to sign. -/
inductive Minimum
  | any
  | share (numerator denominator : Int)

/-- Spans and limits of validator duty. -/
structure Cfg where
  window : Int
  challenge : Int
  rejoinSpan : Int
  pulseGap : Int
  cadence : Int
  delay : Int
  maxMembers : Int
  minimum : Minimum

def participating : Cfg where
  window := 32
  challenge := 16
  rejoinSpan := 64
  pulseGap := 8
  cadence := 4
  delay := 8
  maxMembers := 200
  minimum := .share 1 2

def Minimum.validate : Minimum → Except String Unit
  | .any => .ok ()
  | .share numerator denominator =>
    if 0 < numerator ∧ 0 < denominator ∧ numerator ≤ denominator then .ok ()
    else .error "validator participation share is invalid"

def validateCfg (cfg : Cfg) : Except String Unit :=
  if cfg.window < 8 ∨ 128 < cfg.window then .error "validator duty window is outside limits"
  else if cfg.challenge < 1 then .error "validator duty challenge is not positive"
  else if cfg.window ≤ cfg.challenge then .error "validator duty challenge is not below window"
  else if 128 < cfg.rejoinSpan then .error "validator duty rejoin span exceeds limit"
  else if cfg.pulseGap < 1 then .error "validator duty pulse gap is not positive"
  else if cfg.rejoinSpan < cfg.pulseGap then .error "validator duty pulse gap exceeds rejoin span"
  else if cfg.cadence < 1 then .error "validator duty cadence is not positive"
  else if cfg.delay < 1 then .error "validator duty activation delay is not positive"
  else if cfg.maxMembers < 4 ∨ 200 < cfg.maxMembers then
    .error "validator duty member limit is outside limits"
  else cfg.minimum.validate

structure Marks where
  floor : Int
  bits : Nat
  deriving DecidableEq

def emptyMarks : Marks := ⟨0, 0⟩

def numbits (bits : Nat) : Nat := if bits = 0 then 0 else bits.log2 + 1

def floorEpoch (cfg : Cfg) (epoch : Int) : Int :=
  let span := cfg.window + (cfg.challenge + 2)
  if epoch < span then 0 else epoch - span

def pruneMarks (cfg : Cfg) (epoch : Int) (marks : Marks) : Marks :=
  let floor := floorEpoch cfg epoch
  if floor ≤ marks.floor then marks
  else
    let shift := floor - marks.floor
    let bits :=
      if (numbits marks.bits : Int) ≤ shift then 0
      else marks.bits >>> shift.toNat
    { floor, bits }

def addMark (cfg : Cfg) (epoch : Int) (marks : Marks) : Marks :=
  let marks := pruneMarks cfg epoch marks
  let index := epoch - marks.floor
  if index < 0 then marks
  else { marks with bits := marks.bits ||| 1 <<< index.toNat }

def Marks.epochs (marks : Marks) : List Int :=
  (List.range (numbits marks.bits)).filterMap fun index =>
    if marks.bits.testBit index then some (marks.floor + index) else none

def lastMark (marks : Marks) : Option Int :=
  if marks.bits = 0 then none
  else some (marks.floor + (numbits marks.bits - 1))

theorem lt_numbits {bits index : Nat} (set : bits.testBit index = true) : index < numbits bits := by
  have nonzero : bits ≠ 0 := by
    rintro rfl
    simp at set
  unfold numbits
  rw [if_neg nonzero]
  exact Nat.lt_succ_of_le ((Nat.le_log2 nonzero).mpr (Nat.ge_two_pow_of_testBit set))

variable {marks marks' : Marks}

variable {epoch : Int}

theorem mem_epochs : epoch ∈ marks.epochs ↔ marks.floor ≤ epoch ∧
        marks.bits.testBit (epoch - marks.floor).toNat = true := by
  unfold Marks.epochs
  rw [List.mem_filterMap]
  constructor
  · rintro ⟨index, -, marked⟩
    split at marked
    · next set =>
      cases marked
      refine ⟨by omega, ?_⟩
      rwa [show (marks.floor + index - marks.floor).toNat = index by omega]
    · cases marked
  · rintro ⟨above, set⟩
    refine ⟨(epoch - marks.floor).toNat, List.mem_range.mpr (lt_numbits set), ?_⟩
    rw [if_pos set]
    congr 1
    omega

theorem pairwise_epochs (marks : Marks) : marks.epochs.Pairwise (· < ·) := by
  refine List.pairwise_filterMap.mpr (List.pairwise_lt_range.imp ?_)
  intro index later before epoch marked epoch' marked'
  split at marked
  · cases marked
    split at marked'
    · cases marked'
      omega
    · cases marked'
  · cases marked

/-- Marks with the same marked epochs list them alike. -/
theorem epochs_eq_of_mem_iff (same : ∀ epoch, epoch ∈ marks.epochs ↔ epoch ∈ marks'.epochs) :
    marks.epochs = marks'.epochs := by
  refine List.Perm.eq_of_pairwise ?_ (pairwise_epochs marks)
    (pairwise_epochs marks') ?_
  · intro left right _ _ below above
    omega
  · exact (List.perm_ext_iff_of_nodup ((pairwise_epochs marks).imp ne_of_lt)
      ((pairwise_epochs marks').imp ne_of_lt)).mpr same

theorem bits_eq_zero_iff : marks.bits = 0 ↔ marks.epochs = [] := by
  constructor
  · intro zero
    rw [Marks.epochs, zero]
    rfl
  · intro none
    by_contra nonzero
    obtain ⟨index, set⟩ := Nat.exists_testBit_of_ne_zero nonzero
    have marked : marks.floor + index ∈ marks.epochs := by
      rw [mem_epochs]
      refine ⟨by omega, ?_⟩
      rwa [show (marks.floor + index - marks.floor).toNat = index by omega]
    rw [none] at marked
    cases marked

theorem lastMark_eq_getLast? (marks : Marks) : lastMark marks = marks.epochs.getLast? := by
  unfold lastMark
  split
  · next zero => rw [bits_eq_zero_iff.mp zero, List.getLast?_nil]
  · next nonzero =>
    have size : numbits marks.bits = marks.bits.log2 + 1 := if_neg nonzero
    unfold Marks.epochs
    rw [size, List.range_succ, List.filterMap_append]
    have top : marks.bits.testBit marks.bits.log2 = true := Nat.testBit_log2 nonzero
    simp [top]

theorem floor_pruneMarks (cfg : Cfg) (epoch : Int) (marks : Marks) :
    (pruneMarks cfg epoch marks).floor = max marks.floor (floorEpoch cfg epoch) := by
  unfold pruneMarks
  dsimp only
  split
  · next kept => rw [max_eq_left kept]
  · next raised => rw [max_eq_right (not_le.mp raised).le]

/-- Raising the floor drops the epochs below it. -/
theorem mem_epochs_pruneMarks (cfg : Cfg) (epoch marked : Int) :
    marked ∈ (pruneMarks cfg epoch marks).epochs ↔
      marked ∈ marks.epochs ∧ floorEpoch cfg epoch ≤ marked := by
  by_cases kept : floorEpoch cfg epoch ≤ marks.floor
  · unfold pruneMarks
    rw [if_pos kept]
    refine ⟨fun present => ⟨present, ?_⟩, And.left⟩
    exact kept.trans (mem_epochs.mp present).1
  · have shifted : (pruneMarks cfg epoch marks).bits =
        marks.bits >>> (floorEpoch cfg epoch - marks.floor).toNat := by
      unfold pruneMarks
      rw [if_neg kept]
      dsimp only
      split
      · next beyond =>
        refine (Nat.eq_of_testBit_eq fun index => ?_).symm
        rw [Nat.testBit_shiftRight, Nat.zero_testBit]
        by_contra set
        rw [Bool.not_eq_false] at set
        have bound := lt_numbits set
        omega
      · rfl
    rw [mem_epochs, mem_epochs, shifted, floor_pruneMarks,
      max_eq_right (not_le.mp kept).le, Nat.testBit_shiftRight]
    constructor
    · rintro ⟨above, set⟩
      refine ⟨⟨by omega, ?_⟩, above⟩
      rwa [show (floorEpoch cfg epoch - marks.floor).toNat +
        (marked - floorEpoch cfg epoch).toNat = (marked - marks.floor).toNat by omega] at set
    · rintro ⟨⟨-, set⟩, above⟩
      refine ⟨above, ?_⟩
      rwa [show (floorEpoch cfg epoch - marks.floor).toNat +
        (marked - floorEpoch cfg epoch).toNat = (marked - marks.floor).toNat by omega]

theorem floor_addMark (cfg : Cfg) (epoch : Int) (marks : Marks) :
    (addMark cfg epoch marks).floor = max marks.floor (floorEpoch cfg epoch) := by
  unfold addMark
  dsimp only
  split <;> exact floor_pruneMarks cfg epoch marks

/-- An epoch at or above the floor is marked, and old ones are dropped. -/
theorem mem_epochs_addMark (cfg : Cfg) (above : marks.floor ≤ epoch)
    (counts : floorEpoch cfg epoch ≤ epoch) (marked : Int) :
    marked ∈ (addMark cfg epoch marks).epochs ↔
      marked = epoch ∨ marked ∈ marks.epochs ∧ floorEpoch cfg epoch ≤ marked := by
  have floor := floor_pruneMarks cfg epoch marks
  have added : addMark cfg epoch marks =
      { pruneMarks cfg epoch marks with
        bits := (pruneMarks cfg epoch marks).bits |||
          1 <<< (epoch - (pruneMarks cfg epoch marks).floor).toNat } := by
    unfold addMark
    rw [if_neg (by omega)]
  rw [← mem_epochs_pruneMarks, added, mem_epochs, mem_epochs]
  dsimp only
  rw [Nat.testBit_or, Bool.or_eq_true, Nat.one_shiftLeft, Nat.testBit_two_pow, decide_eq_true_eq]
  constructor
  · rintro ⟨low, set | here⟩
    · exact Or.inr ⟨low, set⟩
    · exact Or.inl (by omega)
  · rintro (rfl | ⟨low, set⟩)
    · exact ⟨by omega, Or.inr rfl⟩
    · exact ⟨low, Or.inl set⟩

theorem addMark_of_lt_floorEpoch {cfg : Cfg} (below : epoch < floorEpoch cfg epoch) :
    addMark cfg epoch marks = pruneMarks cfg epoch marks := by
  have floor := floor_pruneMarks cfg epoch marks
  unfold addMark
  rw [if_pos (by omega)]

end SetFold
end LiteNode
