import LiteNode.Validators.Handover

/-!
# What a taken set is

A set is taken at an epoch of the cadence, waits for the delay, and is dated by
the rules in force.
-/

namespace LiteNode
namespace BondedPolicy

/-- What a policy that is admitted holds: native epochs, and an activation no
earlier than the delay. -/
structure Admitted (policy : BondedPolicy) : Prop where
  activation : FitsBits intBits policy.activationEpoch
  delay : Fits64 policy.parameters.activationDelay
  positive : 0 < policy.parameters.activationDelay
  late : policy.parameters.activationDelay ≤ policy.activationEpoch

def cadenceAt (policy : BondedPolicy) : RuleMode → Int
  | .prior => policy.snapshotInterval
  | .active => SetFold.participating.cadence

def delayAt (policy : BondedPolicy) : RuleMode → Int
  | .prior => policy.parameters.activationDelay
  | .active => SetFold.participating.delay

/-- How long before its activation a set is dated. -/
def datedAt (policy : BondedPolicy) (fold : FoldContext) : Int :=
  match fold.mode with
  | .prior => policy.parameters.activationDelay
  | .active => policy.delayAt fold.standardMode

end BondedPolicy

/-- A rule that is not active yet was not active before. -/
theorem RuleGraph.mode_prior {rules : RuleGraph} {activation : Option RuleActivation}
    {epoch earlier : Int} (prior : rules.mode activation epoch = .ok .prior)
    (before : earlier ≤ epoch) {mode : RuleMode}
    (known : rules.mode activation earlier = .ok mode) : mode = .prior := by
  unfold RuleGraph.mode at prior known
  cases activation with
  | none =>
    cases known
    rfl
  | some plan =>
    dsimp only at prior known
    split at prior
    · next early =>
      rw [if_pos (Int.lt_of_le_of_lt before early)] at known
      cases known
      rfl
    · cases verified : rules.verifyAnchor plan with
      | error | ok =>
        rw [verified] at prior
        cases prior

theorem RuleGraph.resolve_mode
    {rules : RuleGraph} {readParent : Except String Unit} {epoch : Int} {fold : FoldContext}
    (resolved : rules.resolve readParent epoch = .ok fold) :
    rules.mode rules.setFold epoch = .ok fold.mode := by
  obtain ⟨live, -, resolved⟩ := bind_eq_ok resolved
  obtain ⟨seat, -, resolved⟩ := bind_eq_ok resolved
  obtain ⟨«open», -, resolved⟩ := bind_eq_ok resolved
  obtain ⟨standard, -, resolved⟩ := bind_eq_ok resolved
  obtain ⟨plan, -, resolved⟩ := bind_eq_ok resolved
  obtain ⟨mode, known, resolved⟩ := bind_eq_ok resolved
  cases mode with
  | prior =>
    cases resolved
    exact known
  | active =>
    obtain ⟨_, -, resolved⟩ := bind_eq_ok resolved
    cases resolved
    exact known

/-- What a set that is taken at an epoch is. -/
structure Taken (ctx : UpdateContext) (policy : BondedPolicy)
    (fold : FoldContext) (epoch : Int) (update : ValidatorSetUpdate) :
    Prop where
  sound : ValidatorSetUpdate.Sound ctx update
  delay : 0 < policy.delayAt fold.standardMode
  dated : 0 < policy.datedAt fold
  activate : update.activateEpoch = epoch + policy.delayAt fold.standardMode
  source : update.sourceEpoch = some (update.activateEpoch - policy.datedAt fold)
  cadence : policy.cadenceAt fold.standardMode ∣
    int64Sub epoch (int64Sub policy.activationEpoch (policy.delayAt fold.standardMode))

section Epoch

variable {ctx : UpdateContext} {fold : FoldContext} {epoch : Int}
  {input : EpochInput} {promoted : Option (List Bytes)}

theorem failwith_eq_ok {label : String} {result : Except String α} {value : α}
    (done : failwith label result = .ok value) : result = .ok value := by
  cases result with
  | error reason => cases done
  | ok found => exact done

variable {policy : BondedPolicy}

theorem validatorSnapshotInput_spec {registry : ValidatorRegistry}
    {parameters : ValidatorEntry.Parameters} {entries : List ValidatorEntry}
    {incumbents : List Bytes}
    (done : validatorSnapshotInput fold epoch input promoted policy registry =
      .ok (parameters, entries, incumbents)) :
    parameters.activationDelay = policy.datedAt fold ∧ entries ⊆ registry.entries := by
  unfold validatorSnapshotInput at done
  unfold BondedPolicy.datedAt
  cases known : fold.mode with
  | prior =>
    rw [known] at done
    cases done
    exact ⟨rfl, List.Subset.refl _⟩
  | active =>
    rw [known] at done
    obtain ⟨state, -, done⟩ := bind_eq_ok done
    obtain ⟨state', -, done⟩ := bind_eq_ok done
    obtain ⟨⟨limit, first⟩, -, done⟩ := bind_eq_ok done
    cases done
    refine ⟨?_, fun entry listed => List.mem_of_mem_filter listed⟩
    unfold FoldContext.stdValue FoldContext.setFoldCfg FoldContext.stdValue
    cases fold.standardMode <;> rfl

theorem loadValidatorRegistry_valid {stored : Option Bytes} {registry : ValidatorRegistry}
    (loaded : loadValidatorRegistry ctx stored = .ok registry) :
    ∀ entry ∈ registry.entries, isValidAddress entry.address = true := by
  unfold loadValidatorRegistry at loaded
  cases stored with
  | none =>
    cases loaded
    intro entry listed
    cases listed
  | some raw =>
    dsimp only at loaded
    unfold ValidatorRegistry.ofString at loaded
    split at loaded
    · cases loaded
    unfold ValidatorRegistry.ofYojson at loaded
    split at loaded
    · split at loaded
      · split at loaded
        · obtain ⟨entries, -, loaded⟩ := bind_eq_ok loaded
          obtain ⟨slashes, -, loaded⟩ := bind_eq_ok loaded
          obtain ⟨_, valid, loaded⟩ := bind_eq_ok loaded
          cases loaded
          intro entry listed
          exact ((ValidatorRegistry.validate_iff.mp valid).1 entry listed).1
        · cases loaded
      · cases loaded
      · cases loaded
    · cases loaded

theorem takeSnapshot_spec {activateEpoch : Int} {update : ValidatorSetUpdate}
    (taken : takeSnapshot ctx (.bonded policy) fold epoch activateEpoch input
      promoted = .ok (some update)) :
    ∃ members, 0 < policy.datedAt fold ∧ policy.datedAt fold ≤ activateEpoch ∧
      ValidatorSetUpdate.makeWeighted ctx
        (int64Sub activateEpoch (policy.datedAt fold)) activateEpoch members = .ok update ∧
      ∀ member ∈ members, isValidAddress member.address = true ∧
        member.pubkey.length = 32 ∧ 0 < member.weight := by
  obtain ⟨registry, loaded, taken⟩ := bind_eq_ok taken
  obtain ⟨⟨parameters, entries, incumbents⟩, given, taken⟩ := bind_eq_ok taken
  dsimp only at taken
  obtain ⟨delay, present⟩ := validatorSnapshotInput_spec given
  split at taken
  · split at taken <;> cases taken
  next snapshot done =>
  obtain ⟨made, weighted, taken⟩ := bind_eq_ok taken
  cases taken
  obtain ⟨positive, late, activates, sourced, members⟩ := ValidatorEntry.snapshot_spec done
  rw [delay] at positive late sourced
  have weighted := failwith_eq_ok weighted
  rw [activates, sourced] at weighted
  refine ⟨snapshot.validators, positive, late, weighted, ?_⟩
  intro member listed
  obtain ⟨entry, entered, valid, rfl⟩ := members member listed
  exact ⟨loadValidatorRegistry_valid (failwith_eq_ok loaded) entry
    (present entered), valid.pubkey, valid.bond⟩

/-- The spans of a snapshot are those of the rules in force. -/
theorem snapshotEpoch_spec {activateEpoch : Int} (due : snapshotEpoch (.bonded policy) fold epoch =
      .ok (some activateEpoch)) :
    activateEpoch = int64Add epoch (policy.delayAt fold.standardMode) ∧
      policy.cadenceAt fold.standardMode ∣
        int64Sub epoch (int64Sub policy.activationEpoch (policy.delayAt fold.standardMode)) := by
  have spans : ValidatorPolicy.snapshotAt (.bonded policy) epoch
      (policy.cadenceAt fold.standardMode)
      (policy.delayAt fold.standardMode) = .ok (some activateEpoch) := by
    rw [← due]
    unfold snapshotEpoch FoldContext.setFoldCfg FoldContext.stdValue
    cases fold.standardMode <;> rfl
  unfold ValidatorPolicy.snapshotAt at spans
  dsimp only at spans
  split at spans
  · cases spans
  split at spans
  · cases spans
  split at spans
  · cases spans
  next divides =>
  cases spans
  exact ⟨rfl, Int.dvd_of_tmod_eq_zero (not_not.mp divides)⟩

theorem delay_pos (dated : 0 < policy.datedAt fold) : 0 < policy.delayAt fold.standardMode := by
  cases standard : fold.standardMode with
  | active => exact (by decide : 0 < SetFold.participating.delay)
  | prior =>
    unfold BondedPolicy.datedAt at dated
    cases mode : fold.mode with
    | prior =>
      rw [mode] at dated
      exact dated
    | active =>
      rw [mode, standard] at dated
      exact dated

/-- A sum of native spans that is not negative is exact. -/
theorem int64Add_exact {epoch delay : Int} (native : FitsBits intBits epoch)
    (fits : Fits64 delay) (positive : 0 < delay) (nonneg : 0 ≤ int64Add epoch delay) :
    int64Add epoch delay = epoch + delay := by
  obtain ⟨least, most⟩ := native
  obtain ⟨-, below⟩ := fits
  unfold intBits at least most
  unfold int64Bits at below
  unfold int64Add at nonneg ⊢
  rw [Int.bmod_def] at nonneg ⊢
  split at nonneg <;> omega

theorem fits64_delayAt (admitted : policy.Admitted) (mode : RuleMode) :
    Fits64 (policy.delayAt mode) := by
  cases mode with
  | prior => exact admitted.delay
  | active => exact (by decide : Fits64 SetFold.participating.delay)

theorem scheduleValidatorSnapshot_spec (admitted : policy.Admitted)
    (faithful : ctx.texts.Faithful) (native : FitsBits intBits epoch)
    {pending : Option Bytes} {update : ValidatorSetUpdate}
    (scheduled : scheduleValidatorSnapshot ctx (.bonded policy) fold epoch
      input promoted pending = .ok (some update)) :
    pendingSlot ctx fold epoch pending = .ok true ∧ Taken ctx policy fold epoch update := by
  obtain ⟨due, spans, scheduled⟩ := bind_eq_ok scheduled
  cases due with
  | none => cases scheduled
  | some activateEpoch =>
    obtain ⟨slot, free, scheduled⟩ := bind_eq_ok scheduled
    cases slot with
    | false => cases scheduled
    | true =>
      obtain ⟨activate, divides⟩ := snapshotEpoch_spec spans
      obtain ⟨members, dated, late, made, valid⟩ := takeSnapshot_spec scheduled
      have delay := delay_pos dated
      rw [activate] at late made
      have exact_ := int64Add_exact native
        (fits64_delayAt admitted fold.standardMode) delay (by omega)
      have fits : Fits64 (int64Add epoch (policy.delayAt fold.standardMode)) := by
        rw [fits64_iff]
        unfold int64Add
        have least := @Int.le_bmod (epoch + policy.delayAt fold.standardMode) (2 ^ 64) (by decide)
        have most := @Int.bmod_lt (epoch + policy.delayAt fold.standardMode) (2 ^ 64) (by decide)
        omega
      have sourceFits : Fits64 (int64Add epoch
          (policy.delayAt fold.standardMode) - policy.datedAt fold) := by
        rw [fits64_iff] at fits ⊢
        omega
      rw [int64Sub_eq sourceFits] at made
      obtain ⟨sound, source, activates⟩ :=
        ValidatorSetUpdate.sound_makeWeighted faithful made sourceFits fits valid
      refine ⟨free, sound, delay, dated, ?_, ?_, divides⟩
      · rw [activates, exact_]
      · rw [source, activates]

/-- An epoch promotes the set that is due, and then takes the next one. -/
theorem advanceValidatorSet_spec
    {policy : ValidatorPolicy} {rules : RuleGraph} {slots slots' : SetSlots}
    {scheduled : Option ValidatorSetUpdate}
    (advanced : advanceValidatorSet ctx policy rules epoch input slots = .ok (slots', scheduled)) :
    ∃ fold promoted, rules.resolve input.readParent epoch = .ok fold ∧
      promoteActiveValidatorSet ctx epoch slots.pending = .ok promoted ∧
      scheduleValidatorSnapshot ctx policy fold epoch input
        (promoted.map Prod.snd) slots.pending = .ok scheduled ∧
      slots'.pending = (scheduled.map (ValidatorSetUpdate.toString ctx)).or slots.pending ∧
      slots'.active = (promoted.map Prod.fst).or slots.active := by
  obtain ⟨fold, resolved, advanced⟩ := bind_eq_ok advanced
  split at advanced
  all_goals
    obtain ⟨_, -, advanced⟩ := bind_eq_ok advanced
    obtain ⟨promoted, promotes, advanced⟩ := bind_eq_ok advanced
    obtain ⟨taken, takes, advanced⟩ := bind_eq_ok advanced
    cases advanced
    refine ⟨fold, promoted, failwith_eq_ok resolved, promotes, takes, ?_, ?_⟩
    · cases scheduled <;> rfl
    · cases promoted <;> rfl

end Epoch
end LiteNode
