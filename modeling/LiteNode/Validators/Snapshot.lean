import LiteNode.Validators.RegistryText
import LiteNode.Data.Ordered
import LiteNode.Types.Transaction

/-!
# Validator snapshots

The members of the next validator set are taken from the registry: those that
do their duty are ranked by whether they are in the set already and by their
bonds, and the first of them make the snapshot.
-/

namespace LiteNode
namespace SetFold

def standard : Cfg where
  window := 96
  challenge := 16
  rejoinSpan := 64
  pulseGap := 8
  cadence := 64
  delay := 64
  maxMembers := 200
  minimum := .any

def Minimum.required (minimum : Minimum) (epochs : Int) : Int :=
  if epochs ≤ 0 then 0
  else
    match minimum with
    | .any => 1
    | .share numerator denominator => (epochs * numerator + denominator - 1).tdiv denominator

def Minimum.admits (minimum : Minimum) (epochs signed : Int) : Bool :=
  minimum.required epochs ≤ signed

def warmEnd (cfg : Cfg) (start : Int) : Int := int64Add start (int64Add cfg.window cfg.challenge)

/-- The first and the last epoch that duty is shown for. -/
def evidenceRange (cfg : Cfg) (source : Int) : Int × Int :=
  let high := int64Sub source cfg.challenge
  (int64Sub (int64Add high 1) cfg.window, high)

def markCount (low high : Int) (marks : Marks) : Int :=
  let low := max low marks.floor
  ((List.range (high + 1 - low).toNat).filter fun offset =>
    marks.bits.testBit (low + offset - marks.floor).toNat).length

def participated (cfg : Cfg) (low high : Int) (marks : Marks) : Bool :=
  cfg.minimum.admits (int64Add (int64Sub high low) 1) (markCount low high marks)

def pulseReady (cfg : Cfg) (source : Int) (pulse : Pulse) : Bool :=
  decide (pulse.last ≤ source) &&
    decide (int64Sub source pulse.last ≤ cfg.pulseGap) &&
    decide (cfg.rejoinSpan ≤ int64Sub pulse.last pulse.first)

def memberAllows (cfg : Cfg) (start source safeAfter : Int) (member : Member) : Bool :=
  match member.phase with
  | .live since =>
    if source < safeAfter then true
    else if source < warmEnd cfg start then true
    else
      let (low, high) := evidenceRange cfg source
      decide (low < since) || participated cfg low high member.marks
  | .shadow none => false
  | .shadow (some pulse) => pulseReady cfg source pulse

/-- The entries whose members do their duty. -/
def filter (cfg : Cfg) (start source : Int) (entries : List ValidatorEntry)
    (state : State) : List ValidatorEntry :=
  entries.filter fun entry =>
    ((tableOfMembers state.members).find? entry.address).any
      (memberAllows cfg start source state.safeAfter)

end SetFold

structure ValidatorMember where
  address : Bytes
  pubkey : Bytes
  weight : Int
  deriving DecidableEq

structure ValidatorSnapshot where
  sourceEpoch : Int
  activateEpoch : Int
  validators : List ValidatorMember
  totalWeight : Int
  quorumWeight : Int
  fingerprint : Bytes
  deriving DecidableEq

namespace ValidatorEntry

def quorumWeight (totalWeight : Int) : Except String Int :=
  if totalWeight ≤ 0 then .error "validator total weight must be positive"
  else .ok ((totalWeight * 2).tdiv 3 + 1)

def compareEntry (left right : ValidatorEntry) : Ordering :=
  (compare right.bond left.bond).then
    ((compareBytes left.address right.address).then
      (compareBytes left.pubkey right.pubkey))

/-- Members of the set come before others. -/
def compareSelected (incumbents : List Bytes) (left right : ValidatorEntry) : Ordering :=
  match incumbents.contains left.address, incumbents.contains right.address with
  | true, false => .lt
  | false, true => .gt
  | _, _ => compareEntry left right

/-- Check entries against the addresses and keys that were seen. -/
def validateUnique (addresses pubkeys : List Bytes) : List ValidatorEntry → Except String Unit
  | [] => .ok ()
  | entry :: rest =>
    if addresses.contains entry.address then .error "duplicate validator address"
    else if pubkeys.contains entry.pubkey then .error "duplicate validator public key"
    else validateUnique (entry.address :: addresses) (entry.pubkey :: pubkeys) rest

def eligible (parameters : Parameters) (sourceEpoch : Int) (entry : ValidatorEntry) : Bool :=
  decide (parameters.minBond ≤ entry.bond) &&
    decide (entry.bondedEpoch ≤ sourceEpoch) &&
    entry.readyEpoch.any (fun readyEpoch => readyEpoch ≤ sourceEpoch) &&
    entry.exitEpoch.isNone

def snapshotFingerprint (sha256 : Bytes → Bytes)
    (sourceEpoch activateEpoch : Int) (validators : List ValidatorMember) : Bytes :=
  Transaction.toHex (sha256
    (ValidatorRegistry.putString (Bytes.ofAscii "octra:validator_snapshot:v1") ++
      ValidatorRegistry.putString (intToString sourceEpoch) ++
      ValidatorRegistry.putString (intToString activateEpoch) ++
      validators.flatMap fun validator =>
        ValidatorRegistry.putString validator.address ++
          ValidatorRegistry.putString validator.pubkey ++
          ValidatorRegistry.putString (intToString validator.weight)))

def sourceEpoch (parameters : Parameters) (activateEpoch : Int) : Except String Int :=
  if activateEpoch < parameters.activationDelay then
    .error "validator activation epoch precedes snapshot delay"
  else .ok (int64Sub activateEpoch parameters.activationDelay)

def validateAll : List ValidatorEntry → Except String Unit
  | [] => .ok ()
  | entry :: rest =>
    match entry.validateEntry with
    | .error reason => .error reason
    | .ok () => validateAll rest

def member (entry : ValidatorEntry) : ValidatorMember := ⟨entry.address, entry.pubkey, entry.bond⟩

def fewMembers : String := "validator snapshot has fewer than four eligible members"

def snapshot (sha256 : Bytes → Bytes) (incumbents : List Bytes)
    (parameters : Parameters) (activateEpoch : Int)
    (entries : List ValidatorEntry) : Except String ValidatorSnapshot := do
  validateParameters parameters
  let sourceEpoch ← sourceEpoch parameters activateEpoch
  validateAll entries
  validateUnique [] [] entries
  let validators := (((entries.filter (eligible parameters sourceEpoch))
    |>.insertionSort fun left right => compareSelected incumbents left right ≠ .gt)
    |>.take parameters.maxValidators.toNat).map member
  if validators.length < 4 then .error fewMembers
  else do
    let totalWeight := (validators.map ValidatorMember.weight).sum
    let quorumWeight ← quorumWeight totalWeight
    return {
      sourceEpoch := sourceEpoch
      activateEpoch := activateEpoch
      validators := validators
      totalWeight := totalWeight
      quorumWeight := quorumWeight
      fingerprint := snapshotFingerprint sha256 sourceEpoch activateEpoch validators }

theorem validateAll_iff {entries : List ValidatorEntry} :
    validateAll entries = .ok () ↔ ∀ entry ∈ entries, entry.Valid := by
  induction entries with
  | nil => simp [validateAll]
  | cons entry rest ih =>
    rw [validateAll, List.forall_mem_cons, ← ih, ← validateEntry_iff]
    cases entry.validateEntry <;> simp

/-- A snapshot is taken a delay before it activates, and holds entries that
were given. -/
theorem snapshot_spec {sha256 : Bytes → Bytes} {incumbents : List Bytes}
    {parameters : Parameters} {activateEpoch : Int}
    {entries : List ValidatorEntry} {taken : ValidatorSnapshot}
    (done : snapshot sha256 incumbents parameters activateEpoch entries = .ok taken) :
    0 < parameters.activationDelay ∧ parameters.activationDelay ≤ activateEpoch ∧
      taken.activateEpoch = activateEpoch ∧
      taken.sourceEpoch = int64Sub activateEpoch parameters.activationDelay ∧
      ∀ validator ∈ taken.validators, ∃ entry ∈ entries,
        entry.Valid ∧ validator = entry.member := by
  obtain ⟨_, checked, done⟩ := bind_eq_ok done
  obtain ⟨source, sourced, done⟩ := bind_eq_ok done
  obtain ⟨_, valid, done⟩ := bind_eq_ok done
  obtain ⟨_, -, done⟩ := bind_eq_ok done
  dsimp only at done
  split at done
  · cases done
  obtain ⟨quorum, -, done⟩ := bind_eq_ok done
  cases done
  unfold sourceEpoch at sourced
  split at sourced
  · cases sourced
  next late =>
  cases sourced
  have positive : 0 < parameters.activationDelay := by
    simp only [validateParameters, ite_error_eq_ok_iff, not_le] at checked
    exact checked.2.2.1
  refine ⟨positive, Int.not_lt.mp late, rfl, rfl, ?_⟩
  intro validator listed
  obtain ⟨entry, taken, rfl⟩ := List.mem_map.mp listed
  have sorted := List.mem_of_mem_take taken
  rw [List.mem_insertionSort] at sorted
  have present := List.mem_of_mem_filter sorted
  exact ⟨entry, present, validateAll_iff.mp valid entry present, rfl⟩

end ValidatorEntry
end LiteNode
