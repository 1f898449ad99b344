import LiteNode.Data.Files
import LiteNode.Types.RoundSync
import LiteNode.Types.Transaction

/-!
# The log of relief marks

There is one mark for a height. It is kept in a table, or in a file of its own:
the file is written under another name and linked to its name when it is whole.
-/

/-!
## Relief marks

A mark says which change of the validator set a round of a height brings
forward. It is stored as JSON with its hashes in hexadecimal digits and the
syncs of its proof in base64, and reads back as it was written.
-/

namespace LiteNode
namespace Relief

structure Mark where
  height : Int
  round : Int
  activateEpoch : Int
  sourceHash : Bytes
  targetHash : Bytes
  fingerprint : Bytes
  proof : List RoundSync
  deriving DecidableEq

/-- Marks of one change, whatever round and proof they have. -/
def samePlan (left right : Mark) : Bool :=
  left.height = right.height && left.activateEpoch = right.activateEpoch &&
    left.sourceHash = right.sourceHash &&
    left.targetHash = right.targetHash &&
    left.fingerprint = right.fingerprint

def hex (raw : Bytes) : Bytes := Transaction.toHex raw

/-- The bytes that pairs of digits are read as. -/
def rawPairs : Bytes → Option Bytes
  | high :: low :: rest => do
    let value ← intOfString intBits [48, 120, high, low]
    if 0 ≤ value ∧ value ≤ 255 then
      let others ← rawPairs rest
      return UInt8.ofNat value.toNat :: others
    else none
  | _ => some []

def raw (value : Bytes) : Except Fault Bytes :=
  if value.length ≠ 64 then .error (.refused "relief log hash length is invalid")
  else
    match rawPairs value with
    | some bytes => .ok bytes
    | none => .error (.refused "relief log hash encoding is invalid")

section Codec

variable (texts : Texts)

def syncJson (sync : RoundSync) : Json := .string (texts.encode sync.encode)

def markJson (mark : Mark) : Json :=
  .assoc [("standard", .string (Bytes.ofAscii "octra-consensus-relief")),
    ("height", .string (intToString mark.height)), ("round", .int mark.round),
    ("activate_epoch", .string (intToString mark.activateEpoch)),
    ("source_hash", .string (hex mark.sourceHash)), ("target_hash", .string (hex mark.targetHash)),
    ("fingerprint", .string mark.fingerprint), ("proof", .list (mark.proof.map (syncJson texts)))]

def encode (mark : Mark) : Bytes := texts.print (markJson texts mark)

def field (name : String) (fields : List (String × Json)) : Except Fault Json :=
  match fields.lookup name with
  | some value => .ok value
  | none => .error (.refused ("relief log field is missing: " ++ name))

def text (name : String) : Json → Except Fault Bytes
  | .string value => .ok value
  | _ => .error (.refused ("relief log field must be text: " ++ name))

def int64 (name : String) (json : Json) : Except Fault Int := do
  let value ← text name json
  match intOfString int64Bits value with
  | some n => .ok n
  | none => .error (.refused ("relief log integer is invalid: " ++ name))

def int (name : String) : Json → Except Fault Int
  | .int value => .ok value
  | _ => .error (.refused ("relief log field must be integer: " ++ name))

/-- A sync that is written exactly as it was read. -/
def syncOfWire (wire : Bytes) : Except Fault RoundSync :=
  match RoundSync.decode wire with
  | .error reason => .error (.failure reason)
  | .ok sync =>
    if sync.encode = wire then .ok sync
    else .error (.refused "relief log proof wire is not exact")

/-- Read one sync and put it in front of those read before. -/
def proofStep (proof : List RoundSync) (value : Json) : Except Fault (List RoundSync) := do
  let wire ← text "proof" value
  match texts.decode wire with
  | none => .error (.failure "base64")
  | some wire => do
    let sync ← syncOfWire wire
    .ok (sync :: proof)

def proofOfJson : Json → Except Fault (List RoundSync)
  | .list values => (values.foldlM (proofStep texts) []).map List.reverse
  | _ => .error (.refused "relief log proof must be a list")

def markOfFields (fields : List (String × Json)) : Except Fault Mark := do
  let standard ← field "standard" fields
  let standard ← text "standard" standard
  if standard ≠ Bytes.ofAscii "octra-consensus-relief" then
    .error (.refused "relief log standard is invalid")
  else
    let height ← field "height" fields
    let height ← int64 "height" height
    let round ← field "round" fields
    let round ← int "round" round
    let activateEpoch ← field "activate_epoch" fields
    let activateEpoch ← int64 "activate_epoch" activateEpoch
    let sourceHash ← field "source_hash" fields
    let sourceHash ← text "source_hash" sourceHash
    let sourceHash ← raw sourceHash
    let targetHash ← field "target_hash" fields
    let targetHash ← text "target_hash" targetHash
    let targetHash ← raw targetHash
    let fingerprint ← field "fingerprint" fields
    let fingerprint ← text "fingerprint" fingerprint
    let proof ← field "proof" fields
    let proof ← proofOfJson texts proof
    .ok { height, round, activateEpoch, sourceHash, targetHash, fingerprint, proof }

def decode (wire : Bytes) : Except Fault Mark :=
  match texts.parse wire with
  | some (.assoc fields) => do
    let mark ← markOfFields texts fields
    if encode texts mark = wire then .ok mark
    else .error (.refused "relief log wire is not exact")
  | some _ => .error (.refused "relief log record must be an object")
  | none => .error (.failure "JSON")

end Codec

/-- A mark whose fields are within the limits of the codec. -/
structure Encodable (mark : Mark) : Prop where
  height : FitsBits int64Bits mark.height
  activateEpoch : FitsBits int64Bits mark.activateEpoch
  sourceHash : mark.sourceHash.length = 32
  targetHash : mark.targetHash.length = 32
  proof : ∀ sync ∈ mark.proof, sync.Encodable

/-! ## Reading what was written -/

theorem intOfString_hexPair (byte : UInt8) :
    intOfString intBits [48, 120, Json.hexDigit (byte.toNat / 16),
      Json.hexDigit (byte.toNat % 16)] = some (byte.toNat : Int) := by
  have each : ∀ high < 16, ∀ low < 16, intOfString intBits
      [48, 120, Json.hexDigit high, Json.hexDigit low] = some ((16 * high + low : Nat) : Int) := by
    decide +kernel
  have small := byte.toNat_lt
  rw [each _ (by omega) _ (by omega), Nat.div_add_mod]

theorem rawPairs_hex (bytes : Bytes) : rawPairs (hex bytes) = some bytes := by
  induction bytes with
  | nil => rfl
  | cons byte rest ih =>
    have small := byte.toNat_lt
    have unfolded : hex (byte :: rest) =
        Json.hexDigit (byte.toNat / 16) :: Json.hexDigit (byte.toNat % 16) ::
          hex rest := rfl
    rw [unfolded, rawPairs, intOfString_hexPair, ih]
    simp only [Option.bind_eq_bind, Option.bind_some]
    rw [if_pos (by omega)]
    simp

theorem length_hex (bytes : Bytes) : (hex bytes).length = 2 * bytes.length := by
  simp [hex, Transaction.toHex, List.length_flatMap, mul_comm]

theorem raw_hex {bytes : Bytes} (size : bytes.length = 32) : raw (hex bytes) = .ok bytes := by
  rw [raw, if_neg (by rw [length_hex, size]; decide), rawPairs_hex]

variable {texts : Texts} {mark : Mark}

theorem syncOfWire_encode {sync : RoundSync} (encodable : sync.Encodable) :
    syncOfWire sync.encode = .ok sync := by
  rw [syncOfWire, RoundSync.decode_encode encodable]
  exact if_pos rfl

theorem proofStep_syncJson (faithful : texts.Faithful) {sync : RoundSync}
    (encodable : sync.Encodable) (proof : List RoundSync) :
    proofStep texts proof (syncJson texts sync) = .ok (sync :: proof) := by
  have wire : text "proof" (syncJson texts sync) = .ok (texts.encode sync.encode) := rfl
  simp only [proofStep, wire, ok_bind, faithful.decode_encode, syncOfWire_encode encodable]

theorem foldlM_proofStep (faithful : texts.Faithful) {syncs : List RoundSync}
    (encodable : ∀ sync ∈ syncs, sync.Encodable) (proof : List RoundSync) :
    (syncs.map (syncJson texts)).foldlM (proofStep texts) proof = .ok (syncs.reverse ++ proof) := by
  induction syncs generalizing proof with
  | nil => rfl
  | cons sync rest ih =>
    rw [List.forall_mem_cons] at encodable
    have step := proofStep_syncJson faithful encodable.1 proof
    rw [List.map_cons, List.foldlM_cons, step, ok_bind,
      ih encodable.2, List.reverse_cons, List.append_assoc]
    rfl

theorem proofOfJson_map (faithful : texts.Faithful) {syncs : List RoundSync}
    (encodable : ∀ sync ∈ syncs, sync.Encodable) :
    proofOfJson texts (.list (syncs.map (syncJson texts))) = .ok syncs := by
  rw [proofOfJson, foldlM_proofStep faithful encodable]
  simp [Except.map]

theorem int64_intToString {name : String} {n : Int} (fits : FitsBits int64Bits n) :
    int64 name (.string (intToString n)) = .ok n := by
  simp only [int64, text, ok_bind]
  rw [intOfString_intToString (by decide) fits]

theorem exact_markJson (mark : Mark) : (markJson texts mark).Exact := by
  apply Json.Exact.assoc
  intro field member
  simp only [List.mem_cons, List.not_mem_nil, or_false] at member
  rcases member with rfl | rfl | rfl | rfl | rfl | rfl | rfl | rfl
  case inr.inr.inl => exact .int _
  case inr.inr.inr.inr.inr.inr.inr =>
    apply Json.Exact.list
    intro item listed
    obtain ⟨sync, _, rfl⟩ := List.mem_map.mp listed
    exact .string _
  all_goals exact .string _

/-- A mark within the limits of the codec reads as it was written. -/
theorem decode_encode (faithful : texts.Faithful) (encodable : Encodable mark) :
    decode texts (encode texts mark) = .ok mark := by
  have parsed : texts.parse (encode texts mark) = some (markJson texts mark) :=
    faithful.parse_print _ (exact_markJson mark)
  have read : markOfFields texts
      [("standard", .string (Bytes.ofAscii "octra-consensus-relief")),
        ("height", .string (intToString mark.height)), ("round", .int mark.round),
        ("activate_epoch", .string (intToString mark.activateEpoch)),
        ("source_hash", .string (hex mark.sourceHash)),
        ("target_hash", .string (hex mark.targetHash)), ("fingerprint", .string mark.fingerprint),
        ("proof", .list (mark.proof.map (syncJson texts)))] = .ok mark := by
    simp [markOfFields, field, text, int, List.lookup_cons, int64_intToString encodable.height,
      int64_intToString encodable.activateEpoch, raw_hex encodable.sourceHash,
      raw_hex encodable.targetHash, proofOfJson_map faithful encodable.proof]
  simp only [decode, parsed, markJson, read, ok_bind, if_true]

open Files

def maxWireBytes : Nat := 262144

def maxMarks : Nat := 64

def root : Path := [Bytes.ofAscii "relief_log"]

def makeDir (path : Path) : Action Unit := makeDirectory "relief log path is not a directory" path

def dirExists (path : Path) : Action Bool :=
  directoryExists "relief log path is not a directory" path

def suffix : Bytes := Bytes.ofAscii ".mark"

def name (height : Int) : Bytes := zeroPadded 20 height ++ suffix

/-- Where the mark of a height is recorded. -/
def recordPath (height : Int) : Path := name height :: root

def heightOfName (value : Bytes) : Option Int :=
  if suffix.isSuffixOf value then
    match intOfString int64Bits (value.take (value.length - suffix.length)) with
    | some height => if value = name height then some height else none
    | none => none
  else none

def stagedPath (height pid : Int) (attempt : Nat) : Path :=
  (name height ++ (Bytes.ofAscii ".staged." ++
    (intToString pid ++ (46 :: intToString attempt)))) :: root

/-- Write a file under the first name that is free. -/
def stageFrom (height pid : Int) (wire : Bytes) : Nat → Nat → Action Path
  | 0, _ => throw (.refused "relief log stage limit exceeded")
  | left + 1, attempt =>
    let staged := stagedPath height pid attempt
    ExceptT.tryCatch (do
      create staged wire
      return staged)
      fun fault =>
        match fault with
        | .unix .eexist _ _ => stageFrom height pid wire left (attempt + 1)
        | fault => throw fault

def stage (height pid : Int) (wire : Bytes) : Action Path := stageFrom height pid wire maxMarks 0

def removeStage (staged : Path) : Action Unit :=
  ExceptT.tryCatch (unlink staged) fun fault =>
    match fault with
    | .unix .enoent _ _ => return ()
    | fault => throw fault

def laterMark (throughHeight : Int) (best : Option Mark) (mark : Mark) : Option Mark :=
  if throughHeight < mark.height then best
  else
    match best with
    | none => some mark
    | some prior => if prior.height < mark.height then some mark else best

/-- The mark of greatest height that is not above a height. -/
def latestMarks (marks : List Mark) (throughHeight : Int) : Option Mark :=
  marks.foldl (laterMark throughHeight) none

def expired (throughEpoch : Int) (mark : Mark) : Bool :=
  int64Sub mark.activateEpoch 1 ≤ throughEpoch

/-- The marks of a table, by their heights. -/
abbrev Memory := Table Int Mark

def keepMemory (marks : Memory) (mark : Mark) : Memory × Except Fault Mark :=
  match marks.find? mark.height with
  | some saved =>
    if samePlan saved mark then (marks, .ok saved)
    else (marks, .error (.refused "relief log plan conflicts"))
  | none =>
    if maxMarks ≤ marks.length then (marks, .error (.refused "relief log record limit exceeded"))
    else (marks.replace mark.height mark, .ok mark)

def latestMemory (marks : Memory) (throughHeight : Int) : Except Fault (Option Mark) :=
  .ok (latestMarks marks.values throughHeight)

def pruneMemory (marks : Memory) (throughEpoch : Int) : Memory :=
  marks.filterValues fun mark => !expired throughEpoch mark

section Disk

variable (texts : Texts)

def read (path : Path) : Action Mark := do
  match ← lstat path with
  | .directory => throw (.refused "relief log record is not regular")
  | .regular content =>
    if content.length = 0 ∨ maxWireBytes < content.length then
      throw (.refused "relief log record size is invalid")
    else do
      let wire ← readContent path
      match decode texts wire with
      | .ok mark => return mark
      | .error fault => throw fault

def readOpt (path : Path) : Action (Option Mark) := do
  let there ← ExceptT.tryCatch (do
    let _ ← lstat path
    return true)
    fun fault =>
      match fault with
      | .unix .enoent _ _ => return false
      | fault => throw fault
  if there then do
    let mark ← read texts path
    return some mark
  else return none

/-- Give a staged file its name, unless the name is taken. -/
def finish (height : Int) (staged : Path) (stored : Mark) : Action Mark := do
  let record := recordPath height
  let linked ← attempt (ExceptT.tryCatch (do
    link staged record
    return stored)
    fun fault =>
      match fault with
      | .unix .eexist _ _ => do
        let saved ← read texts record
        if samePlan saved stored then return saved
        else throw (.refused "relief log plan conflicts")
      | fault => throw fault)
  let removed ← attempt (removeStage staged)
  let synced ← attempt (syncDir root)
  match linked, removed, synced with
  | .error fault, _, _ => throw fault
  | _, .error fault, _ => throw fault
  | _, _, .error fault => throw fault
  | .ok saved, .ok (), .ok () => return saved

def keepDisk (pid : Int) (mark : Mark) : Action Mark := do
  makeDir root
  let record := recordPath mark.height
  match ← readOpt texts record with
  | some saved =>
    if samePlan saved mark then return saved
    else throw (.refused "relief log plan conflicts")
  | none => do
    let wire := encode texts mark
    let staged ← stage mark.height pid wire
    finish texts mark.height staged mark

def readMark (marks : List Mark) (entry : Bytes × Int) : Action (List Mark) := do
  let mark ← read texts (entry.1 :: root)
  if mark.height = entry.2 then return mark :: marks
  else throw (.refused "relief log name differs from record")

def diskMarks (listing : Listing) : Action (List Mark) := do
  let there ← dirExists root
  if ¬ there then return []
  else do
    let entries ← readdir listing root
    let names := entries.filterMap fun entry =>
      (heightOfName entry).map fun height => (entry, height)
    if maxMarks < names.length then throw (.refused "relief log record limit exceeded")
    else names.foldlM (readMark texts) []

def latestDisk (listing : Listing) (throughHeight : Int) : Action (Option Mark) := do
  let marks ← diskMarks texts listing
  return latestMarks marks throughHeight

/-- Remove one record if its mark is expired; tells whether any was. -/
def pruneMark (throughEpoch : Int) (removed : Bool) (mark : Mark) : Action Bool :=
  if expired throughEpoch mark then do
    unlink (recordPath mark.height)
    return true
  else return removed

def pruneDisk (listing : Listing) (throughEpoch : Int) : Action Unit := do
  let marks ← diskMarks texts listing
  let removed ← marks.foldlM (pruneMark throughEpoch) false
  if removed then syncDir root else return ()

end Disk
end Relief
end LiteNode
