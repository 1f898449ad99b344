import LiteNode.Validators.HandoverSteps

/-!
# Runs of the hand-over

Over consecutive epochs every set that is taken takes effect at its own epoch,
in the order of the epochs the sets were taken from.
-/

namespace LiteNode

/-- A set that was taken, and when. -/
structure Scheduled where
  epoch : Int
  update : ValidatorSetUpdate

/-- The sets, and all that were taken so far, the newest one first. -/
structure Handed where
  slots : SetSlots
  scheduled : List Scheduled

section Run

variable (ctx : UpdateContext) (policy : ValidatorPolicy) (rules : RuleGraph)

def Handed.advance (epoch : Int) (input : EpochInput) (handed : Handed) :
    Except String Handed := do
  let (slots, scheduled) ←
    advanceValidatorSet ctx policy rules epoch input handed.slots
  return ⟨slots, (scheduled.map (Scheduled.mk epoch)).toList ++ handed.scheduled⟩

/-- The sets after as many epochs from the first one on. -/
def runEpochs (inputs : Int → EpochInput) (first : Int) (start : SetSlots) :
    Nat → Except String Handed
  | 0 => .ok ⟨start, []⟩
  | count + 1 => do
    let handed ← runEpochs inputs first start count
    handed.advance ctx policy rules (first + count) (inputs (first + count))

def Scheduled.text (scheduled : Scheduled) : Bytes := scheduled.update.toString ctx

/-- The text of the newest set whose epoch came before an epoch. -/
def effective (initial : Option Bytes) (epoch : Int) : List Scheduled → Option Bytes
  | [] => initial
  | scheduled :: rest =>
    if scheduled.update.activateEpoch < epoch then some (scheduled.text ctx)
    else effective initial epoch rest

end Run

/-- The later set was taken when the earlier one was in effect, and from a
later epoch. -/
def Scheduled.Follows (later earlier : Scheduled) : Prop :=
  earlier.update.activateEpoch ≤ later.epoch ∧
    ∀ source ∈ earlier.update.sourceEpoch, ∀ source' ∈ later.update.sourceEpoch, source < source'

section Invariant

variable {ctx : UpdateContext} {policy : BondedPolicy} {rules : RuleGraph}
  {initial : Option Bytes} {first last epoch : Int} {handed : Handed}

/-- What holds before an epoch is executed. -/
structure HandedOver (ctx : UpdateContext) (policy : BondedPolicy)
    (rules : RuleGraph) (initial : Option Bytes) (first epoch : Int)
    (handed : Handed) : Prop where
  taken : ∀ scheduled ∈ handed.scheduled, first ≤ scheduled.epoch ∧ scheduled.epoch < epoch ∧
    ∃ readParent fold, rules.resolve readParent scheduled.epoch = .ok fold ∧
      Taken ctx policy fold scheduled.epoch scheduled.update
  ordered : handed.scheduled.Pairwise Scheduled.Follows
  pending : handed.slots.pending = handed.scheduled.head?.map (Scheduled.text ctx)
  active : handed.slots.active = effective ctx initial epoch handed.scheduled

variable {fold : FoldContext} {update : ValidatorSetUpdate}

theorem Taken.later (taken : Taken ctx policy fold epoch update) :
    epoch < update.activateEpoch := by
  rw [taken.activate]
  exact Int.lt_add_of_pos_right epoch taken.delay

theorem HandedOver.ofString_text
    (over_ : HandedOver ctx policy rules initial first epoch handed)
    (faithful : ctx.texts.Faithful) (reads : ∀ n, ctx.zOfString (intToString n) = some n)
    {scheduled : Scheduled} (listed : scheduled ∈ handed.scheduled) :
    ValidatorSetUpdate.ofString ctx (scheduled.text ctx) = .ok scheduled.update := by
  obtain ⟨-, -, readParent, fold, -, taken⟩ := over_.taken scheduled listed
  exact ValidatorSetUpdate.ofString_toString faithful reads taken.sound

/-- Every set before the newest one was due earlier. -/
theorem HandedOver.due (over_ : HandedOver ctx policy rules initial first epoch handed)
    {newest : Scheduled} {rest : List Scheduled} (history : handed.scheduled = newest :: rest) :
    ∀ scheduled ∈ rest, scheduled.update.activateEpoch < epoch := by
  intro scheduled listed
  have ordered := over_.ordered
  rw [history, List.pairwise_cons] at ordered
  have recent := (over_.taken newest (by rw [history]; simp)).2.1
  have due := (ordered.1 scheduled listed).1
  omega

/-- Sets that were in effect before an epoch are the same at its end. -/
theorem effective_succ_of_due {history : List Scheduled}
    (due : ∀ scheduled ∈ history, scheduled.update.activateEpoch < epoch) :
    effective ctx initial (epoch + 1) history = effective ctx initial epoch history := by
  cases history with
  | nil => rfl
  | cons newest rest =>
    have first := due newest List.mem_cons_self
    rw [effective, effective, if_pos first, if_pos (by omega)]

/-- A change of the effective set comes from a set that is due just then. -/
theorem effective_succ (history : List Scheduled) :
    effective ctx initial (epoch + 1) history = effective ctx initial epoch history ∨
      ∃ scheduled ∈ history, scheduled.update.activateEpoch = epoch ∧
        effective ctx initial (epoch + 1) history = some (scheduled.text ctx) := by
  induction history with
  | nil => exact Or.inl rfl
  | cons newest rest ih =>
    rw [effective, effective]
    by_cases before : newest.update.activateEpoch < epoch
    · rw [if_pos before, if_pos (by omega)]
      exact Or.inl rfl
    by_cases now : newest.update.activateEpoch = epoch
    · rw [if_pos (by omega)]
      exact Or.inr ⟨newest, List.mem_cons_self, now, rfl⟩
    · rw [if_neg before, if_neg (by omega)]
      rcases ih with same | ⟨scheduled, listed, due, text⟩
      · exact Or.inl same
      · exact Or.inr ⟨scheduled, List.mem_cons_of_mem _ listed, due, text⟩

/-- A set is in effect from its own epoch on, until the next one. -/
theorem effective_of_due {history : List Scheduled}
    (ordered : history.Pairwise Scheduled.Follows) (future : ∀ scheduled ∈ history,
      scheduled.epoch < scheduled.update.activateEpoch)
    {scheduled : Scheduled} (listed : scheduled ∈ history) :
    effective ctx initial (scheduled.update.activateEpoch + 1) history =
      some (scheduled.text ctx) := by
  induction history with
  | nil => cases listed
  | cons newest rest ih =>
    obtain ⟨follows, ordered⟩ := List.pairwise_cons.mp ordered
    rw [effective]
    rcases List.mem_cons.mp listed with rfl | earlier
    · rw [if_pos (by omega)]
    · have due := (follows scheduled earlier).1
      have future' := future newest List.mem_cons_self
      rw [if_neg (by omega)]
      exact ih ordered
        (fun other present => future other (List.mem_cons_of_mem _ present))
        earlier

/-! ## One epoch -/

theorem promoteActiveValidatorSet_spec
    (over_ : HandedOver ctx policy rules initial first epoch handed)
    (faithful : ctx.texts.Faithful) (reads : ∀ n, ctx.zOfString (intToString n) = some n)
    {promoted : Option (Bytes × List Bytes)}
    (done : promoteActiveValidatorSet ctx epoch handed.slots.pending = .ok promoted) :
    ((promoted.map Prod.fst).or handed.slots.active) =
      effective ctx initial (epoch + 1) handed.scheduled := by
  have pending := over_.pending
  have active := over_.active
  cases history : handed.scheduled with
  | nil =>
    rw [history] at pending active
    rw [pending] at done
    cases done
    exact active
  | cons newest rest =>
    have listed : newest ∈ handed.scheduled := by simp [history]
    have read := over_.ofString_text faithful reads listed
    obtain ⟨-, -, readParent, fold, -, taken⟩ := over_.taken newest listed
    rw [history] at pending active
    rw [pending] at done
    simp only [promoteActiveValidatorSet, List.head?_cons, Option.map_some, read] at done
    obtain ⟨update, same, done⟩ := bind_eq_ok done
    cases failwith_eq_ok same
    rw [effective]
    split at done
    · next due =>
      cases done
      rw [if_pos (by omega)]
      rfl
    · next early =>
      cases done
      have early : ¬ newest.update.activateEpoch ≤ epoch :=
        fun due => early ⟨taken.sound.weighted, due⟩
      rw [if_neg (by omega), effective_succ_of_due (over_.due history)]
      rw [effective, if_neg (by omega)] at active
      exact active

/-- Sets are planned one at a time: a set that waits is not replaced, or the
cadence is fixed and no shorter than the delay. -/
def Planned (policy : BondedPolicy) (rules : RuleGraph) (first last : Int) : Prop :=
  (∀ epoch readParent fold, first ≤ epoch → epoch ≤ last →
    rules.resolve readParent epoch = .ok fold → fold.planMode = .active) ∨
  ∃ mode, (∀ epoch readParent fold, first ≤ epoch → epoch ≤ last →
      rules.resolve readParent epoch = .ok fold → fold.standardMode = mode) ∧
    policy.delayAt mode ≤ policy.cadenceAt mode

/-- A free slot holds no set that still waits. -/
theorem due_of_free (over_ : HandedOver ctx policy rules initial first epoch handed)
    (faithful : ctx.texts.Faithful)
    (reads : ∀ n, ctx.zOfString (intToString n) = some n) (planned : fold.planMode = .active)
    (free : pendingSlot ctx fold epoch handed.slots.pending = .ok true) :
    ∀ scheduled ∈ handed.scheduled, scheduled.update.activateEpoch ≤ epoch := by
  intro scheduled listed
  cases history : handed.scheduled with
  | nil =>
    rw [history] at listed
    cases listed
  | cons newest rest =>
    have present : newest ∈ handed.scheduled := by simp [history]
    have read := over_.ofString_text faithful reads present
    rw [history] at listed
    rcases List.mem_cons.mp listed with rfl | earlier
    · rw [over_.pending, history] at free
      unfold pendingSlot at free
      rw [planned] at free
      dsimp only [List.head?_cons, Option.map_some] at free
      rw [read] at free
      obtain ⟨update, same, slot⟩ := bind_eq_ok free
      cases failwith_eq_ok same
      exact of_decide_eq_true (Except.ok.inj slot)
    · exact Int.le_of_lt (over_.due history scheduled earlier)

/-- Epochs of a cadence lie at least a cadence apart. -/
theorem Taken.apart {fold' : FoldContext} {earlier : Int}
    {update' : ValidatorSetUpdate} (admitted : policy.Admitted)
    (taken : Taken ctx policy fold earlier update) (taken' : Taken ctx policy fold' epoch update')
    (same : fold.standardMode = fold'.standardMode)
    (native : FitsBits intBits earlier) (native' : FitsBits intBits epoch)
    (before : earlier < epoch) (short : policy.delayAt fold'.standardMode ≤
      policy.cadenceAt fold'.standardMode) :
    update.activateEpoch ≤ epoch := by
  have delay := taken'.delay
  have divides := taken.cadence
  have divides' := taken'.cadence
  have activate := taken.activate
  have late := admitted.late
  have positive := admitted.positive
  obtain ⟨-, most⟩ := admitted.activation
  obtain ⟨least, most'⟩ := native
  obtain ⟨least', most''⟩ := native'
  rw [same] at divides activate
  have within : policy.delayAt fold'.standardMode ≤ policy.parameters.activationDelay ∨
      policy.delayAt fold'.standardMode = 8 := by
    cases fold'.standardMode with
    | prior => exact Or.inl le_rfl
    | active => exact Or.inr rfl
  generalize policy.delayAt fold'.standardMode = span at *
  unfold intBits at most least most' least' most''
  have start : int64Sub policy.activationEpoch span = policy.activationEpoch - span :=
    int64Sub_eq (by rw [fits64_iff]; omega)
  rw [start, int64Sub_eq (by rw [fits64_iff]; omega)] at divides divides'
  have apart := dvd_sub divides' divides
  have least := Int.le_of_dvd (by omega) apart
  omega

theorem due_of_planned (over_ : HandedOver ctx policy rules initial first epoch handed)
    (admitted : policy.Admitted) (planned : Planned policy rules first last)
    (faithful : ctx.texts.Faithful) (reads : ∀ n, ctx.zOfString (intToString n) = some n)
    (started : -(2 ^ 62) ≤ first) (after : first ≤ epoch)
    (within : epoch ≤ last) (native : epoch < 2 ^ 62)
    {readParent : Except String Unit} (resolved : rules.resolve readParent epoch = .ok fold) (taken : Taken ctx policy fold epoch update)
    (free : pendingSlot ctx fold epoch handed.slots.pending = .ok true) :
    ∀ scheduled ∈ handed.scheduled, scheduled.update.activateEpoch ≤ epoch := by
  rcases planned with plan | ⟨mode, standard, short⟩
  · exact due_of_free over_ faithful reads (plan epoch readParent fold after within resolved) free
  · intro scheduled listed
    obtain ⟨later, before, readParent', fold', resolved', taken'⟩ := over_.taken scheduled listed
    have mode' := standard epoch readParent fold after within resolved
    have mode'' := standard scheduled.epoch readParent' fold' later (by omega) resolved'
    apply taken'.apart admitted taken (mode''.trans mode'.symm) _ _ before
    · rw [mode']
      exact short
    · unfold FitsBits intBits
      omega
    · unfold FitsBits intBits
      omega

/-- A set that is taken when an earlier one is in effect is dated later. -/
theorem Taken.follows {fold' : FoldContext} {readParent readParent' : Except String Unit}
    {earlier : Int} {update' : ValidatorSetUpdate}
    (resolved : rules.resolve readParent earlier = .ok fold)
    (resolved' : rules.resolve readParent' epoch = .ok fold')
    (taken : Taken ctx policy fold earlier update) (taken' : Taken ctx policy fold' epoch update')
    (before : earlier < epoch) (due : update.activateEpoch ≤ epoch) :
    Scheduled.Follows ⟨epoch, update'⟩ ⟨earlier, update⟩ := by
  refine ⟨due, ?_⟩
  intro source sourced source' sourced'
  rw [taken.source] at sourced
  rw [taken'.source] at sourced'
  cases sourced
  cases sourced'
  have activate' := taken'.activate
  have delay := taken'.delay
  have dated := taken.dated
  have mode := RuleGraph.resolve_mode resolved'
  cases known : fold'.mode with
  | active =>
    have dated' : policy.datedAt fold' = policy.delayAt fold'.standardMode := by
      unfold BondedPolicy.datedAt
      rw [known]
    omega
  | prior =>
    rw [known] at mode
    have prior := RuleGraph.mode_prior mode (Int.le_of_lt before) (RuleGraph.resolve_mode resolved)
    have dated' : policy.datedAt fold' = policy.datedAt fold := by
      unfold BondedPolicy.datedAt
      rw [known, prior]
    omega

/-- An epoch keeps what holds before it. -/
theorem HandedOver.advance (over_ : HandedOver ctx policy rules initial first epoch handed)
    (admitted : policy.Admitted) (planned : Planned policy rules first last)
    (faithful : ctx.texts.Faithful) (reads : ∀ n, ctx.zOfString (intToString n) = some n)
    (started : -(2 ^ 62) ≤ first) (after : first ≤ epoch)
    (within : epoch ≤ last) (native : epoch < 2 ^ 62) {input : EpochInput} {handed' : Handed}
    (done : handed.advance ctx (.bonded policy) rules epoch input = .ok handed') :
    HandedOver ctx policy rules initial first (epoch + 1) handed' ∧
      handed.scheduled <:+ handed'.scheduled ∧
      handed'.slots.active = effective ctx initial (epoch + 1) handed.scheduled := by
  obtain ⟨⟨slots, scheduled⟩, advanced, done⟩ := bind_eq_ok done
  cases done
  obtain ⟨fold, promoted, resolved, promotes, takes, pending, active⟩ :=
    advanceValidatorSet_spec advanced
  have active := active.trans (promoteActiveValidatorSet_spec over_ faithful reads promotes)
  cases scheduled with
  | none =>
    refine ⟨⟨?_, over_.ordered, pending.trans over_.pending, active⟩, List.suffix_refl _, active⟩
    intro scheduled listed
    obtain ⟨later, before, taken⟩ := over_.taken scheduled listed
    exact ⟨later, by omega, taken⟩
  | some update =>
    have nativeEpoch : FitsBits intBits epoch := by
      unfold FitsBits intBits
      omega
    obtain ⟨free, taken⟩ := scheduleValidatorSnapshot_spec admitted faithful nativeEpoch takes
    have due := due_of_planned over_ admitted planned faithful reads started
      after within native resolved taken free
    refine ⟨⟨?_, ?_, pending, ?_⟩, List.suffix_cons _ _, active⟩
    · intro scheduled listed
      rcases List.mem_cons.mp listed with rfl | earlier
      · exact ⟨after, by dsimp only; omega, input.readParent, fold, resolved, taken⟩
      · obtain ⟨later, before, taken⟩ := over_.taken scheduled earlier
        exact ⟨later, by omega, taken⟩
    · refine List.pairwise_cons.mpr ⟨?_, over_.ordered⟩
      intro scheduled listed
      obtain ⟨-, before, readParent, fold', resolved', taken'⟩ := over_.taken scheduled listed
      exact taken'.follows resolved' resolved taken before (due scheduled listed)
    · have later := taken.later
      rw [active]
      exact (if_neg (by dsimp only; omega)).symm

variable {inputs : Int → EpochInput} {start : SetSlots}

theorem handedOver_of_run
    (admitted : policy.Admitted) (planned : Planned policy rules first last)
    (faithful : ctx.texts.Faithful) (reads : ∀ n, ctx.zOfString (intToString n) = some n)
    (started : -(2 ^ 62) ≤ first) (empty : start.pending = none)
    {count : Nat} (within : first + count ≤ last) (native : first + count ≤ 2 ^ 62)
    (ran : runEpochs ctx (.bonded policy) rules inputs first start count = .ok handed) :
    HandedOver ctx policy rules start.active first (first + count) handed := by
  induction count generalizing handed with
  | zero =>
    cases ran
    refine ⟨?_, List.Pairwise.nil, empty, rfl⟩
    intro scheduled listed
    cases listed
  | succ count ih =>
    obtain ⟨before, ran, advanced⟩ := bind_eq_ok ran
    rw [Nat.cast_succ] at within native ⊢
    rw [← Int.add_assoc]
    exact ((ih (by omega) (by omega) ran).advance admitted
      planned faithful reads started (by omega) (by omega) (by omega)
      advanced).1

/-- Over consecutive epochs without a waiting set at first, every text of a
waiting set is read back as its update, no set is replaced before it is in
effect, sets take effect in the order of the epochs they were taken from, and
the set in effect is the newest one that is due: it changes at the epoch of a
set, to that set. -/
theorem handover_of_run {count : Nat} (admitted : policy.Admitted)
    (planned : Planned policy rules first (first + count)) (faithful : ctx.texts.Faithful)
    (reads : ∀ n, ctx.zOfString (intToString n) = some n)
    (started : -(2 ^ 62) ≤ first) (empty : start.pending = none)
    (native : first + count < 2 ^ 62)
    (ran : runEpochs ctx (.bonded policy) rules inputs first start count = .ok handed) :
    (∀ scheduled ∈ handed.scheduled,
      ValidatorSetUpdate.ofString ctx (scheduled.text ctx) = .ok scheduled.update ∧
        scheduled.update.weighted = true ∧
        scheduled.epoch < scheduled.update.activateEpoch) ∧
    handed.scheduled.Pairwise Scheduled.Follows ∧
    handed.slots.pending = handed.scheduled.head?.map (Scheduled.text ctx) ∧
    handed.slots.active = effective ctx start.active (first + count) handed.scheduled ∧
    ∀ handed', runEpochs ctx (.bonded policy) rules inputs first start
        (count + 1) = .ok handed' →
      handed.scheduled <:+ handed'.scheduled ∧
      (∀ scheduled ∈ handed.scheduled,
        scheduled.update.activateEpoch = first + count →
        handed'.slots.active = some (scheduled.text ctx)) ∧
      (handed'.slots.active ≠ handed.slots.active →
        ∃ scheduled ∈ handed.scheduled,
          scheduled.update.activateEpoch = first + count ∧
          handed'.slots.active = some (scheduled.text ctx)) := by
  have over_ := handedOver_of_run admitted planned faithful reads started empty
    le_rfl (Int.le_of_lt native) ran
  have future : ∀ scheduled ∈ handed.scheduled,
      scheduled.epoch < scheduled.update.activateEpoch := by
    intro scheduled listed
    obtain ⟨-, -, readParent, fold, -, taken⟩ := over_.taken scheduled listed
    exact taken.later
  refine ⟨?_, over_.ordered, over_.pending, over_.active, ?_⟩
  · intro scheduled listed
    obtain ⟨-, -, readParent, fold, -, taken⟩ := over_.taken scheduled listed
    exact ⟨over_.ofString_text faithful reads listed, taken.sound.weighted, taken.later⟩
  · intro handed' further
    obtain ⟨before, ran', advanced⟩ := bind_eq_ok further
    rw [ran] at ran'
    cases ran'
    obtain ⟨-, kept, active⟩ := over_.advance admitted planned faithful reads
      started (by omega) le_rfl (by omega) advanced
    refine ⟨kept, ?_, ?_⟩
    · intro scheduled listed due
      rw [active, ← due]
      exact effective_of_due over_.ordered future listed
    · intro changed
      rcases @effective_succ ctx start.active (first + count) handed.scheduled
        with same | ⟨scheduled, listed, due, text⟩
      · rw [active, same, over_.active] at changed
        exact absurd rfl changed
      · exact ⟨scheduled, listed, due, active.trans text⟩

end Invariant

namespace FourMembers

/-- Four validators that are ready at epoch 0. -/
def entry (digit : UInt8) : ValidatorEntry where
  address := ValidatorRegistry.TwoSlashes.address digit
  pubkey := ValidatorRegistry.TwoSlashes.pubkey digit
  bond := 10
  bondedEpoch := 0
  readyEpoch := some 0
  exitEpoch := none

def registry : ValidatorRegistry where
  entries := [entry 65, entry 66, entry 67, entry 68]
  slashes := []

/-- The plan is active from the start, the other rules are not used. -/
def rules : RuleGraph where
  setFold := none
  setLive := none
  setFoldCap := none
  setOpen := none
  standard := none
  setPlan := some ⟨0, [], 0⟩
  verifyAnchor := fun _ => .ok ()
  start := 0
  profileStart := 0

def policy : BondedPolicy where
  activationEpoch := 64
  parameters := ⟨1, 4, 64, 64⟩
  snapshotInterval := 64
  evidenceEpochs := 64

def ctx : UpdateContext where
  texts := SetFold.plainTexts
  sha256 := id
  zOfString := readDecimal
  verifyAddressPubkey := fun _ _ => true

def input : EpochInput where
  readParent := .ok ()
  validatorAddrs := []
  registry := some (registry.toString SetFold.plainTexts)
  setFold := .ok SetFold.empty

/-- The set that epoch 0 takes for epoch 64. -/
def update : ValidatorSetUpdate :=
  let validators := registry.entries.map fun entry =>
    ValidatorSetUpdate.updateEntry ctx entry.member
  { activateEpoch := 64
    sourceEpoch := some 0
    validators := validators
    weighted := true
    fingerprint := ValidatorSetUpdate.weightedFingerprint ctx 0 64 validators }

theorem sound_registry : registry.Sound SetFold.plainTexts 0 where
  entries := by
    simp only [registry, List.forall_mem_cons, List.not_mem_nil,
      IsEmpty.forall_iff, implies_true, and_true]
    refine ⟨⟨?_, ?_⟩, ⟨?_, ?_⟩, ⟨?_, ?_⟩, ⟨?_, ?_⟩⟩
    all_goals first
      | decide
      | exact ValidatorEntry.validateEntry_iff.mp (by rfl)
  ordered := by decide
  pubkeys := by decide
  slashes := by simp [registry]
  slashesOrdered := by decide
  started := by
    intro entry listed
    simp only [registry, List.mem_cons, List.not_mem_nil, or_false] at listed
    rcases listed with rfl | rfl | rfl | rfl
    all_goals
      refine ⟨le_rfl, ?_, ?_⟩
      · rintro made ⟨⟩
        exact le_rfl
      · rintro made ⟨⟩
  applied := by simp [registry]

theorem loadValidatorRegistry_input : loadValidatorRegistry ctx input.registry = .ok registry :=
  ValidatorRegistry.ofString_toString SetFold.faithful_plainTexts
    readDecimal_intToString sound_registry (by decide)

theorem takeSnapshot_input
    {fold : FoldContext} (resolved : rules.resolve (.ok ()) 0 = .ok fold) :
    takeSnapshot ctx (.bonded policy) fold 0 64 input none = .ok (some update) := by
  cases resolved
  unfold takeSnapshot
  rw [loadValidatorRegistry_input]
  rfl

/-- The sets after epoch 0. -/
def handed : Handed := ⟨⟨some (update.toString ctx), none⟩, [⟨0, update⟩]⟩

theorem advanceValidatorSet_input :
    advanceValidatorSet ctx (.bonded policy) rules 0 input ⟨none, none⟩ =
      .ok (handed.slots, some update) := by
  obtain ⟨fold, resolved⟩ : ∃ fold, rules.resolve (.ok ()) 0 = .ok fold := ⟨_, rfl⟩
  have scheduled : scheduleValidatorSnapshot ctx (.bonded policy) fold 0 input
      none none = .ok (some update) := by
    have due : snapshotEpoch (.bonded policy) fold 0 = .ok (some 64) := by
      cases resolved
      rfl
    have free : pendingSlot ctx fold 0 none = .ok true := by
      cases resolved
      rfl
    unfold scheduleValidatorSnapshot
    rw [due, ok_bind]
    dsimp only
    rw [free, ok_bind]
    exact takeSnapshot_input resolved
  have prior : fold.mode = .prior := by
    cases resolved
    rfl
  unfold advanceValidatorSet
  rw [show rules.resolve input.readParent 0 = .ok fold from resolved]
  dsimp only [failwith, Except.mapError]
  rw [ok_bind, prior]
  dsimp only [promoteActiveValidatorSet]
  rw [ok_bind, ok_bind, Option.map_none, scheduled]
  rfl

/-- A set of four is taken, and later read back. -/
theorem runEpochs_input :
    runEpochs ctx (.bonded policy) rules (fun _ => input) 0 ⟨none, none⟩ 1 = .ok handed := by
  unfold runEpochs runEpochs
  rw [ok_bind, Nat.cast_zero, Int.add_zero]
  unfold Handed.advance
  rw [advanceValidatorSet_input]
  rfl

end FourMembers

open FourMembers in
theorem handover_of_run_fourMembers :
    ValidatorSetUpdate.ofString ctx (update.toString ctx) = .ok update ∧
      ∀ handed', runEpochs ctx (.bonded policy) rules (fun _ => input) 0
          ⟨none, none⟩ 2 = .ok handed' → handed'.slots.active = none := by
  have admitted : policy.Admitted := by
    constructor
    · simp [policy, FitsBits, intBits]
    · decide
    · decide
    · decide
  have planned : Planned policy rules 0 (0 + (1 : Nat)) := by
    left
    intro epoch readParent fold started within resolved
    have plan : rules.mode rules.setPlan epoch = .ok .active := if_neg (Int.not_lt.mpr started)
    unfold RuleGraph.resolve at resolved
    rw [plan] at resolved
    cases resolved
    rfl
  obtain ⟨listed, -, -, -, further⟩ := handover_of_run admitted planned
    SetFold.faithful_plainTexts readDecimal_intToString (by decide) rfl (by decide) runEpochs_input
  refine ⟨(listed _ List.mem_cons_self).1, ?_⟩
  intro handed' ran
  obtain ⟨-, -, changed⟩ := further handed' ran
  by_contra different
  obtain ⟨scheduled, listed, due, -⟩ := changed different
  cases List.mem_singleton.mp listed
  exact absurd due (by decide)

end LiteNode
