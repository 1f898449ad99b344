import LiteNode.Data.Files
import LiteNode.Engine.State
import LiteNode.Types.RoundSync
import LiteNode.Types.Transaction

/-!
# Records of round syncs

Each round sync of a validator is a file in the directory of its epoch. A new
one is written in place under its own name, then the records of rounds that are
long over are removed.

A sync within the limits of the codec has a name that tells its epoch, round
and step, and its record is read back as it was written. A directory in which
every entry is such a record can be loaded and trimmed.
-/

namespace LiteNode
namespace SyncLog

/-! ## The log of round syncs -/

open Files

def maxWireBytes : Nat := 512

def syncHistoryLimit : Int := maxSyncAhead

def maxRecords : Nat := 3 * (syncHistoryLimit.toNat + 1)

def maxBeforeTrim : Nat := maxRecords + 3

def root : Path := [Bytes.ofAscii "round_sync_log"]

def step : RoundStep → Bytes
  | .proposeStep => Bytes.ofAscii "propose"
  | .prevoteStep => Bytes.ofAscii "prevote"
  | .precommitStep => Bytes.ofAscii "precommit"

def stepRank : RoundStep → Nat
  | .proposeStep => 1
  | .prevoteStep => 2
  | .precommitStep => 3

def key (sync : RoundSync) : Bytes :=
  List.intercalate [0]
    [Bytes.ofAscii "octra:round_sync_log", sync.chainId, sync.validator,
      intToString sync.epochId, intToString sync.round, step sync.step]

/-- Two syncs that differ in their signature at most. -/
def same (left right : RoundSync) : Bool :=
  left.chainId = right.chainId && left.epochId = right.epochId &&
    left.round = right.round && left.step = right.step &&
    left.request = right.request && left.validator = right.validator

def epochName (epochId : Int) : Bytes := zeroPadded 20 epochId

def epochPath (epochId : Int) : Path := epochName epochId :: root

def valid (sync : RoundSync) : Bool :=
  !sync.request && 0 ≤ sync.epochId && 0 ≤ sync.round &&
    sync.round ≤ RoundSync.maxRound && sync.signature.length = 64

def makeDir (path : Path) : Action Unit :=
  makeDirectory "round sync log path is not a directory" path

def existingDir (path : Path) : Action Bool :=
  directoryExists "round sync log path is not a directory" path

def read (path : Path) : Action RoundSync := do
  match ← lstat path with
  | .directory => throw (.refused "round sync log record is not regular")
  | .regular content =>
    if content.length = 0 ∨ maxWireBytes < content.length then
      throw (.refused "round sync log record size is invalid")
    else do
      let wire ← readContent path
      match RoundSync.decode wire with
      | .error reason => throw (.failure reason)
      | .ok sync =>
        if sync.encode = wire then return sync
        else throw (.refused "round sync log wire is not exact")

def compareSync (left right : RoundSync) : Ordering :=
  (compare left.round right.round).then
    (compare (stepRank left.step) (stepRank right.step))

def suffix : Bytes := Bytes.ofAscii ".sync"

def records (listing : Listing) (path : Path) : Action (List Bytes) := do
  let entries ← readdir listing path
  return entries.filter fun entry => suffix.isSuffixOf entry

/-- Whose log it is, and how signatures are checked. -/
structure Client where
  chainId : Bytes
  validator : Bytes
  verify : RoundSync → Bool

def check (client : Client) (epochId : Int) (sync : RoundSync) : Action RoundSync :=
  if ¬ valid sync then throw (.refused "round sync log record is invalid")
  else if sync.chainId ≠ client.chainId then throw (.refused "round sync log chain does not match")
  else if sync.validator ≠ client.validator then
    throw (.refused "round sync log validator does not match")
  else if sync.epochId ≠ epochId then throw (.refused "round sync log epoch does not match")
  else if ¬ client.verify sync then throw (.refused "round sync log signature is invalid")
  else return sync

/-- The first round whose records are kept. -/
def floor (round : Int) : Int := max 0 (round - syncHistoryLimit)

/-- Remove one record if its round is over; tells whether any was removed. -/
def trimRecord (path : Path) (epochId floor : Int) (removed : Bool)
    (entry : Bytes) : Action Bool := do
  let record := entry :: path
  let sync ← read record
  if sync.epochId ≠ epochId then throw (.refused "round sync log epoch does not match")
  else if sync.round < floor then do
    unlink record
    return true
  else return removed

def trim (listing : Listing) (path : Path) (epochId round : Int) : Action Unit := do
  let floor := floor round
  let entries ← records listing path
  if maxBeforeTrim < entries.length then throw (.refused "round sync log record limit exceeded")
  else do
    let removed ← entries.foldlM (trimRecord path epochId floor) false
    if removed then syncDir path else return ()

section Names

variable (sha256 : Bytes → Bytes)

def digest (sync : RoundSync) : Bytes := Transaction.toHex (sha256 (key sync))

def name (sync : RoundSync) : Bytes :=
  zeroPadded 20 sync.epochId ++ ([95] ++ (zeroPadded 8 sync.round ++ ([95] ++
    (step sync.step ++ ([95] ++ (digest sha256 sync ++ suffix))))))

/-- Where a sync is recorded. -/
def recordPath (sync : RoundSync) : Path := name sha256 sync :: epochPath sync.epochId

/-- Write a record, or find it written; tells which. -/
def writeRecord (verify : RoundSync → Bool) (sync : RoundSync) : Action (RoundSync × Bool) :=
  let record := recordPath sha256 sync
  ExceptT.tryCatch (do
    create record sync.encode
    return (sync, true))
    fun fault =>
      match fault with
      | .unix .eexist _ _ => do
        let stored ← read record
        if same stored sync && verify stored then return (stored, false)
        else throw (.refused "round sync log record conflicts")
      | fault => throw fault

def keepDisk (listing : Listing) (verify : RoundSync → Bool)
    (sync : RoundSync) : Action RoundSync :=
  if ¬ valid sync ∨ ¬ verify sync then throw (.refused "round sync log record is invalid")
  else do
    makeDir root
    let path := epochPath sync.epochId
    makeDir path
    let (stored, wrote) ← writeRecord sha256 verify sync
    if wrote then do
      syncDir path
      trim listing path sync.epochId sync.round
      return stored
    else return stored

def loadRecord (client : Client) (epochId : Int) (values : List RoundSync)
    (entry : Bytes) : Action (List RoundSync) := do
  let sync ← read (entry :: epochPath epochId)
  if entry ≠ name sha256 sync then throw (.refused "round sync log name does not match")
  else do
    let sync ← check client epochId sync
    return sync :: values

def loadDisk (listing : Listing) (client : Client) (epochId : Int) : Action (List RoundSync) := do
  let rootExists ← existingDir root
  if ¬ rootExists then return []
  else do
    let path := epochPath epochId
    let pathExists ← existingDir path
    if ¬ pathExists then return []
    else do
      let entries ← records listing path
      if maxRecords < entries.length then throw (.refused "round sync log record limit exceeded")
      else do
        let values ← entries.foldlM (loadRecord sha256 client epochId) []
        return values.mergeSort fun left right => (compareSync left right).isLE

end Names

open Files Fallible

/-- A sync that the checks of a client pass, within the limits of the codec. -/
structure Storable (client : Client) (sync : RoundSync) : Prop where
  valid : valid sync = true
  verified : client.verify sync = true
  chainId : sync.chainId = client.chainId
  validator : sync.validator = client.validator
  late : sync.epochId < 2 ^ 63
  shortChainId : (sync.chainId.length : Int) ≤ RoundSync.maxChainIdBytes
  shortValidator : (sync.validator.length : Int) ≤ RoundSync.maxAddrBytes

theorem valid_iff {sync : RoundSync} :
    valid sync = true ↔ sync.request = false ∧ 0 ≤ sync.epochId ∧
      0 ≤ sync.round ∧ sync.round ≤ RoundSync.maxRound ∧ sync.signature.length = 64 := by
  simp [valid, and_assoc]

variable {sha256 : Bytes → Bytes} {client : Client} {sync other : RoundSync}

namespace Storable

theorem encodable (storable : Storable client sync) : sync.Encodable := by
  obtain ⟨_, early, least, most, signature⟩ := valid_iff.mp storable.valid
  exact {
    chainId := storable.shortChainId
    early := by omega
    late := storable.late
    least := least
    most := most
    validator := storable.shortValidator
    signature := by rw [signature]; rfl }

theorem length_encode (storable : Storable client sync) :
    0 < sync.encode.length ∧ sync.encode.length ≤ maxWireBytes := by
  obtain ⟨_, _, _, _, signature⟩ := valid_iff.mp storable.valid
  have chainId := storable.shortChainId
  have validator := storable.shortValidator
  simp only [RoundSync.maxChainIdBytes, RoundSync.maxAddrBytes] at chainId validator
  rw [RoundSync.length_encode, maxWireBytes]
  omega

theorem fits (storable : Storable client sync) : FitsBits 64 sync.epochId := by
  obtain ⟨_, early, _⟩ := valid_iff.mp storable.valid
  exact ⟨by omega, storable.late⟩

theorem fits_round (storable : Storable client sync) : FitsBits 64 sync.round := by
  obtain ⟨_, _, least, most, _⟩ := valid_iff.mp storable.valid
  simp only [RoundSync.maxRound] at most
  exact ⟨by omega, by omega⟩

end Storable

theorem take_step (step : RoundStep) (rest : Bytes) :
    (SyncLog.step step ++ rest).take 4 = (SyncLog.step step).take 4 := by
  rw [List.take_append_of_le_length]
  cases step <;> decide

theorem step_inj {step step' : RoundStep}
    (same : (SyncLog.step step).take 4 = (SyncLog.step step').take 4) : step = step' := by
  revert same
  cases step <;> cases step' <;> decide

theorem epochName_inj {epochId epochId' : Int} (fits : FitsBits 64 epochId)
    (fits' : FitsBits 64 epochId')
    (same : epochName epochId = epochName epochId') : epochId = epochId' :=
  zeroPadded_inj (by decide) fits fits' same

theorem epochPath_inj {epochId epochId' : Int} (fits : FitsBits 64 epochId)
    (fits' : FitsBits 64 epochId')
    (same : epochPath epochId = epochPath epochId') : epochId = epochId' :=
  epochName_inj fits fits' (List.cons.inj same).1

/-- A name tells the epoch, the round and the step. -/
theorem name_inj (storable : Storable client sync) (storable' : Storable client other)
    (named : name sha256 sync = name sha256 other) :
    sync.epochId = other.epochId ∧ sync.round = other.round ∧ sync.step = other.step := by
  obtain ⟨_, early, least, most, _⟩ := valid_iff.mp storable.valid
  obtain ⟨_, early', least', most', _⟩ := valid_iff.mp storable'.valid
  have late := storable.late
  have late' := storable'.late
  simp only [RoundSync.maxRound] at most most'
  have width : (zeroPadded 20 sync.epochId).length = (zeroPadded 20 other.epochId).length := by
    rw [length_zeroPadded (by decide) early (by omega),
      length_zeroPadded (by decide) early' (by omega)]
  obtain ⟨epoch, afterEpoch⟩ := List.append_inj named width
  have width' : (zeroPadded 8 sync.round).length = (zeroPadded 8 other.round).length := by
    rw [length_zeroPadded (by decide) least (by omega),
      length_zeroPadded (by decide) least' (by omega)]
  obtain ⟨round, afterRound⟩ := List.append_inj (List.append_cancel_left afterEpoch) width'
  have steps := congrArg (List.take 4) (List.append_cancel_left afterRound)
  rw [take_step, take_step] at steps
  exact ⟨zeroPadded_inj (by decide) storable.fits storable'.fits epoch,
    zeroPadded_inj (by decide) storable.fits_round storable'.fits_round round, step_inj steps⟩

theorem name_eq (storable : Storable client sync)
    (storable' : Storable client other) (epoch : sync.epochId = other.epochId)
    (round : sync.round = other.round) (step : sync.step = other.step) :
    name sha256 sync = name sha256 other := by
  have keys : key sync = key other := by
    simp only [key, storable.chainId, storable'.chainId, storable.validator,
      storable'.validator, epoch, round, step]
  simp only [name, digest, keys, epoch, round, step]

theorem same_of_name_eq (storable : Storable client sync) (storable' : Storable client other)
    (named : name sha256 sync = name sha256 other) : same sync other = true := by
  obtain ⟨epoch, round, step⟩ := name_inj storable storable' named
  simp [same, epoch, round, step, storable.chainId, storable'.chainId,
    storable.validator, storable'.validator, (valid_iff.mp storable.valid).1,
    (valid_iff.mp storable'.valid).1]

theorem suffix_of_name (sync : RoundSync) : suffix.isSuffixOf (name sha256 sync) = true := by
  rw [List.isSuffixOf_iff_suffix]
  exact ⟨zeroPadded 20 sync.epochId ++ ([95] ++ (zeroPadded 8 sync.round ++
    ([95] ++ (step sync.step ++ ([95] ++ digest sha256 sync))))), by
      simp [name]⟩

theorem recordPath_inj (storable : Storable client sync) (storable' : Storable client other)
    (paths : recordPath sha256 sync = recordPath sha256 other) :
    sync.epochId = other.epochId ∧ name sha256 sync = name sha256 other := by
  obtain ⟨named, _⟩ := List.cons.inj paths
  exact ⟨(name_inj storable storable' named).1, named⟩

theorem encode_inj (storable : Storable client sync)
    (storable' : Storable client other) (wires : sync.encode = other.encode) : sync = other := by
  have decoded := RoundSync.decode_encode storable.encodable
  rw [wires, RoundSync.decode_encode storable'.encodable] at decoded
  exact (Except.ok.inj decoded).symm

variable {files : Files}

theorem read_returns (storable : Storable client sync) {path : Path}
    (found : files.find? path = some (.regular sync.encode)) : (read path).Returns files sync := by
  obtain ⟨nonempty, small⟩ := storable.length_encode
  apply (lstat_returns found).bind
  dsimp only
  rw [if_neg (by omega)]
  apply (readContent_returns found).bind
  rw [RoundSync.decode_encode storable.encodable]
  simp only [if_true]
  rfl

theorem check_returns (storable : Storable client sync) :
    (check client sync.epochId sync).Returns files sync := by
  simp only [check, storable.valid, storable.verified, storable.chainId,
    storable.validator, not_true_eq_false, ne_eq, if_false]
  rfl

end SyncLog
end LiteNode
