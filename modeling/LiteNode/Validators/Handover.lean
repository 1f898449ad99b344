import LiteNode.Validators.SetUpdate

/-!
# Handing the validator set over

At every epoch the set that is due takes effect, and then, at the epochs of the
cadence, the next set is taken from the registry and waits for its own epoch.
-/

namespace LiteNode

inductive RuleMode
  | prior
  | active
  deriving DecidableEq

structure RuleActivation where
  anchorEpoch : Int
  anchorStateRoot : Bytes
  activationEpoch : Int

/-- The rules that bear on validator sets, and whether an anchor is on the
chain. -/
structure RuleGraph where
  setFold : Option RuleActivation
  setLive : Option RuleActivation
  setFoldCap : Option RuleActivation
  setOpen : Option RuleActivation
  standard : Option RuleActivation
  setPlan : Option RuleActivation
  verifyAnchor : RuleActivation → Except String Unit
  start : Int
  profileStart : Int

/-- A rule is active from its epoch on. -/
def RuleGraph.mode (rules : RuleGraph) (activation : Option RuleActivation)
    (epoch : Int) : Except String RuleMode :=
  match activation with
  | none => .ok .prior
  | some plan =>
    if epoch < plan.activationEpoch then .ok .prior
    else (rules.verifyAnchor plan).map fun _ => .active

structure FoldContext where
  mode : RuleMode
  liveMode : RuleMode
  seatMode : RuleMode
  openMode : RuleMode
  standardMode : RuleMode
  planMode : RuleMode
  start : Int
  profileStart : Int

/-- The rules at an epoch. With the fold active the commit of the epoch before
has to be read. -/
def RuleGraph.resolve (rules : RuleGraph) (readParent : Except String Unit)
    (epoch : Int) : Except String FoldContext := do
  let liveMode ← rules.mode rules.setLive epoch
  let seatMode ← rules.mode rules.setFoldCap epoch
  let openMode ← rules.mode rules.setOpen epoch
  let standardMode ← rules.mode rules.standard epoch
  let planMode ← rules.mode rules.setPlan epoch
  let mode ← rules.mode rules.setFold epoch
  match mode with
  | .prior => .ok ()
  | .active => readParent
  return {
    mode := mode
    liveMode := liveMode
    seatMode := seatMode
    openMode := openMode
    standardMode := standardMode
    planMode := planMode
    start := rules.start
    profileStart := rules.profileStart }

namespace FoldContext

def stdValue (fold : FoldContext) (prior active : α) : α :=
  match fold.standardMode with
  | .prior => prior
  | .active => active

def setFoldCfg (fold : FoldContext) : SetFold.Cfg :=
  fold.stdValue SetFold.standard SetFold.participating

def setFoldStart (fold : FoldContext) : Int := fold.stdValue fold.start fold.profileStart

end FoldContext

structure BondedPolicy where
  activationEpoch : Int
  parameters : ValidatorEntry.Parameters
  snapshotInterval : Int
  evidenceEpochs : Int

inductive ValidatorPolicy
  | inactive
  | bonded (value : BondedPolicy)

namespace ValidatorPolicy

/-- The epoch at which a set taken now takes effect, if one is taken now. -/
def snapshotAt (policy : ValidatorPolicy) (sourceEpoch cadence delay : Int) :
    Except String (Option Int) :=
  match policy with
  | .inactive => .ok none
  | .bonded value =>
    let firstSource := int64Sub value.activationEpoch delay
    if sourceEpoch < firstSource then .ok none
    else if cadence = 0 then .error "Division_by_zero"
    else if (int64Sub sourceEpoch firstSource).tmod cadence ≠ 0 then .ok none
    else .ok (some (int64Add sourceEpoch delay))

def snapshotActivation (policy : ValidatorPolicy) (sourceEpoch : Int) :
    Except String (Option Int) :=
  match policy with
  | .inactive => .ok none
  | .bonded value =>
    policy.snapshotAt sourceEpoch value.snapshotInterval value.parameters.activationDelay

end ValidatorPolicy

/-- What an epoch finds besides the sets: the commit of the epoch before, the
validators, the stored registry, and the duty as it is folded at this epoch. -/
structure EpochInput where
  readParent : Except String Unit
  validatorAddrs : List Bytes
  registry : Option Bytes
  setFold : Except String SetFold.State

/-- The texts of the set that waits and of the set in effect. -/
structure SetSlots where
  pending : Option Bytes
  active : Option Bytes

/-- The epoch fails with a label before the reason. -/
def failwith (label : String) (result : Except String α) : Except String α :=
  result.mapError (label ++ ·)

section Epoch

variable (ctx : UpdateContext) (policy : ValidatorPolicy)

def loadValidatorRegistry (stored : Option Bytes) : Except String ValidatorRegistry :=
  match stored with
  | none => .ok .empty
  | some raw => ValidatorRegistry.ofString ctx.texts ctx.zOfString raw

def foldSet (cfg : SetFold.Cfg) (mode : RuleMode) (source : Int)
    (active : List Bytes) (state : SetFold.State) : Except String SetFold.State :=
  match mode with
  | .prior => .ok state
  | .active => SetFold.noteSet cfg source active state

/-- How many members a set may have, and which of them come first. -/
def seatLimit (fold : FoldContext) (cfg : SetFold.Cfg) (active : List Bytes)
    (state : SetFold.State) : Except String (Int × List Bytes) :=
  match fold.seatMode with
  | .prior => .ok (cfg.maxMembers, [])
  | .active =>
    match state.seats with
    | some seats =>
      match fold.openMode with
      | .prior => .ok (seats, active)
      | .active => .ok (cfg.maxMembers, [])
    | none => .error "validator seat limit is missing"

def validatorSnapshotInput (fold : FoldContext) (epoch : Int)
    (input : EpochInput) (promoted : Option (List Bytes))
    (policy : BondedPolicy) (registry : ValidatorRegistry) :
    Except String (ValidatorEntry.Parameters × List ValidatorEntry × List Bytes) :=
  let active :=
    match fold.liveMode with
    | .prior => input.validatorAddrs
    | .active => promoted.getD input.validatorAddrs
  match fold.mode with
  | .prior => .ok (policy.parameters, registry.entries, [])
  | .active => do
    let cfg := fold.setFoldCfg
    let state ← failwith "validator set fold state corrupt: " input.setFold
    let state ← failwith "validator set fold active set rejected: "
      (foldSet cfg fold.liveMode epoch active state)
    let entries := SetFold.filter cfg fold.setFoldStart epoch registry.entries state
    let (maxValidators, incumbents) ← seatLimit fold cfg active state
    return ({ policy.parameters with
      maxValidators := maxValidators
      activationDelay := fold.stdValue policy.parameters.activationDelay cfg.delay },
      entries, incumbents)

def snapshotEpoch (fold : FoldContext) (epoch : Int) : Except String (Option Int) :=
  match fold.standardMode with
  | .prior => policy.snapshotActivation epoch
  | .active => policy.snapshotAt epoch fold.setFoldCfg.cadence fold.setFoldCfg.delay

/-- With the plan active a set that still waits is not replaced. -/
def pendingSlot (fold : FoldContext) (epoch : Int) (pending : Option Bytes) : Except String Bool :=
  match fold.planMode with
  | .prior => .ok true
  | .active =>
    match pending with
    | none => .ok (ValidatorSetUpdate.snapshotSlot epoch none)
    | some raw => do
      let update ← failwith "pending validator set corrupt: "
        (ValidatorSetUpdate.ofString ctx raw)
      return ValidatorSetUpdate.snapshotSlot epoch (some update)

/-- The update for a set that is taken now. Too few members leave the slot as
it is. -/
def takeSnapshot (fold : FoldContext) (epoch activateEpoch : Int)
    (input : EpochInput) (promoted : Option (List Bytes)) :
    Except String (Option ValidatorSetUpdate) := do
  let registry ← failwith "validator registry corrupt: "
    (loadValidatorRegistry ctx input.registry)
  match policy with
  | .inactive => return none
  | .bonded policy => do
    let (parameters, entries, incumbents) ←
      validatorSnapshotInput fold epoch input promoted policy registry
    match ValidatorEntry.snapshot ctx.sha256 incumbents parameters activateEpoch entries with
    | .error reason =>
      if reason = ValidatorEntry.fewMembers then return none
      else .error ("validator snapshot rejected: " ++ reason)
    | .ok snapshot => do
      let update ← failwith "validator snapshot rejected: "
        (ValidatorSetUpdate.makeWeighted ctx snapshot.sourceEpoch
          snapshot.activateEpoch snapshot.validators)
      return some update

def scheduleValidatorSnapshot (fold : FoldContext) (epoch : Int)
    (input : EpochInput) (promoted : Option (List Bytes))
    (pending : Option Bytes) : Except String (Option ValidatorSetUpdate) := do
  match ← snapshotEpoch policy fold epoch with
  | none => return none
  | some activateEpoch =>
    if ← pendingSlot ctx fold epoch pending then
      takeSnapshot ctx policy fold epoch activateEpoch input promoted
    else return none

/-- The text of the waiting set and its members, once it is due. -/
def promoteActiveValidatorSet (epoch : Int) (pending : Option Bytes) :
    Except String (Option (Bytes × List Bytes)) :=
  match pending with
  | none => .ok none
  | some raw => do
    let update ← failwith "pending validator set corrupt: "
      (ValidatorSetUpdate.ofString ctx raw)
    if update.weighted ∧ update.activateEpoch ≤ epoch then
      return some (raw, update.validators.map UpdateEntry.address)
    else return none

def advanceValidatorSet (rules : RuleGraph) (epoch : Int) (input : EpochInput) (slots : SetSlots) :
    Except String (SetSlots × Option ValidatorSetUpdate) := do
  let fold ← failwith "validator set fold rule rejected: "
    (rules.resolve input.readParent epoch)
  match fold.mode with
  | .prior => .ok ()
  | .active => input.setFold.map fun _ => ()
  let promoted ← promoteActiveValidatorSet ctx epoch slots.pending
  let scheduled ← scheduleValidatorSnapshot ctx policy fold epoch input
    (promoted.map Prod.snd) slots.pending
  return (
    { pending :=
        match scheduled with
        | some update => some (ValidatorSetUpdate.toString ctx update)
        | none => slots.pending
      active :=
        match promoted with
        | some (raw, _) => some raw
        | none => slots.active }, scheduled)

end Epoch
end LiteNode
