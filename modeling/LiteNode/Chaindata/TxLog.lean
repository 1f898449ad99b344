import LiteNode.Data.Chained
import LiteNode.Data.Decimal
import LiteNode.Data.Framing
import LiteNode.Data.Table

/-!
# The transaction log

Transactions are appended to segment files, each with its epoch and a checksum.
The position is kept in memory and checked against the file; a full segment is
followed by a new one, and the log may be cut at an earlier position.
-/

namespace LiteNode
namespace TxLog

def magic : Bytes := Bytes.ofAscii "OTXL"

def version : Nat := 1

def headerSize : Nat := 16

def maxSegmentSize : Nat := 1073741824

def maxRecordLen : Nat := 128000000

/-- The files in the directory of the log. -/
abbrev Folder := Table Bytes Bytes

def segPath (segId : Nat) : Bytes :=
  Bytes.ofAscii "seg" ++ (zeroPadded 6 segId ++ Bytes.ofAscii ".dat")

def looksLikeSegmentFilename (filename : Bytes) : Bool :=
  7 < filename.length && filename.take 3 = Bytes.ofAscii "seg" &&
    filename.drop (filename.length - 4) = Bytes.ofAscii ".dat"

def parseSegmentId (filename : Bytes) : Option Nat :=
  let digits := (filename.drop 3).take (filename.length - 7)
  if looksLikeSegmentFilename filename = false then none
  else if digits.all fun byte => 48 ≤ byte && byte ≤ 57 then
    (intOfString intBits digits).map Int.toNat
  else none

def header (segId : Nat) : Bytes :=
  magic ++ (putLittle 2 version ++ (putLittle 4 segId ++ List.replicate 6 0))

def readU32 (bytes : Bytes) (offset : Nat) : Nat := ofLittleEndian ((bytes.drop offset).take 4)

def readVersion (bytes : Bytes) : Nat := ofLittleEndian ((bytes.drop 4).take 2)

def validateHeader (content : Bytes) : Except String Nat :=
  if content.length < headerSize then .error "txlog: truncated header"
  else if content.take 4 ≠ magic then .error "txlog: bad magic"
  else if readVersion content ≠ version then
    .error s!"txlog: version {readVersion content} != {version}"
  else .ok (readU32 content 6)

structure ScanRecord where
  segment : Nat
  offset : Nat
  length : Nat
  epoch : Nat
  payload : Bytes
  deriving DecidableEq

inductive ScanError
  | segmentMissing (segment : Nat)
  | headerTruncated (segment : Nat)
  | headerMarker (segment : Nat)
  | headerVersion (segment actual : Nat)
  | headerSegment (expected actual : Nat)
  | prefixTruncated (segment offset : Nat)
  | lengthInvalid (segment offset length : Nat)
  | recordTruncated (segment offset : Nat)
  | checksumMismatch (segment offset : Nat)
  | recordRejected (segment offset : Nat) (reason : String)
  | scanIo (reason : String)
  deriving DecidableEq

namespace ScanError

def message : ScanError → String
  | .segmentMissing segment => s!"txlog segment is missing: {segment}"
  | .headerTruncated segment => s!"txlog header is truncated: {segment}"
  | .headerMarker segment => s!"txlog header marker is invalid: segment = {segment}"
  | .headerVersion segment actual =>
    s!"txlog header format is invalid: segment = {segment} value = {actual}"
  | .headerSegment expected actual =>
    s!"txlog header segment mismatch: expected = {expected} actual = {actual}"
  | .prefixTruncated segment offset =>
    s!"txlog record prefix is truncated: segment = {segment} " ++ s!"offset = {offset}"
  | .lengthInvalid segment offset length =>
    s!"txlog record length is invalid: segment = {segment} " ++
      s!"offset = {offset} length = {length}"
  | .recordTruncated segment offset =>
    s!"txlog record is truncated: segment = {segment} offset = {offset}"
  | .checksumMismatch segment offset =>
    s!"txlog checksum mismatch: segment = {segment} offset = {offset}"
  | .recordRejected segment offset reason =>
    s!"txlog record rejected: segment = {segment} offset = {offset} " ++ s!"reason = {reason}"
  | .scanIo reason => "txlog scan failed: " ++ reason

end ScanError

/-- Where a record stands and the number of its bytes. -/
structure Location where
  segId : Nat
  offset : Nat
  len : Nat
  deriving DecidableEq

def recordLengthValid (remaining length : Nat) : Bool :=
  8 ≤ length && length ≤ maxRecordLen && length ≤ remaining

section Records

variable (sha256 : Bytes → Bytes)

def checksum (epochBytes payload : Bytes) : Bytes := (sha256 (epochBytes ++ payload)).take 4

def recordBytes (epochId : Int) (payload : Bytes) : Bytes :=
  putLittle 4 (4 + payload.length + 4 : Nat) ++ (putLittle 4 epochId ++
    (payload ++ checksum sha256 (putLittle 4 epochId) payload))

def readScanRecord (content : Bytes) (segment offset size : Nat)
    (checkChecksum : Bool) : Except ScanError ScanRecord :=
  if size - offset < 4 then .error (.prefixTruncated segment offset)
  else
    match exactBytes content offset 4 with
    | none => .error (.prefixTruncated segment offset)
    | some lengthBytes =>
      let length := ofLittleEndian lengthBytes
      if recordLengthValid (size - offset - 4) length = false then
        .error (.lengthInvalid segment offset length)
      else
        match exactBytes content (offset + 4) length with
        | none => .error (.recordTruncated segment offset)
        | some bytes =>
          let payload := (bytes.drop 4).take (length - 8)
          let stored := (bytes.drop (4 + (length - 8))).take 4
          if checkChecksum ∧ stored ≠ checksum sha256 (bytes.take 4) payload then
            .error (.checksumMismatch segment offset)
          else .ok ⟨segment, offset, length, readU32 bytes 0, payload⟩

structure Log where
  readonly : Bool
  currentSeg : Nat
  /-- Name of the file that is open. -/
  currentFd : Bytes
  currentOffset : Nat
  cut : Option (Nat × Nat)
  deriving DecidableEq

structure State where
  folder : Folder
  log : Log

/-- The content of a file; opening one that is not there raises. -/
def openFile (folder : Folder) (name : Bytes) : Except String Bytes :=
  match folder.find? name with
  | none => .error "open: No such file or directory"
  | some content => .ok content

def createSegment (folder : Folder) (segId : Nat) : Folder × Nat :=
  (folder.replace (segPath segId) (header segId), headerSize)

def openSegment (readonly : Bool) (folder : Folder) (segId : Nat) : Except String (Folder × Nat) :=
  match folder.find? (segPath segId) with
  | none =>
    if readonly then .error "txlog: read-only segment is missing"
    else .ok (createSegment folder segId)
  | some content => do
    if (← validateHeader content) ≠ segId then .error "txlog: segment header identity differs"
    else .ok (folder, content.length)

def nameText (name : Bytes) : String := String.ofList (name.map fun byte => Char.ofNat byte.toNat)

/-- A directory that is missing is made. -/
def findLatestSegment (readonly : Bool) : Option Folder → Except String (Nat × Folder)
  | none =>
    if readonly then .error "txlog: read-only directory is missing"
    else .ok (0, ∅)
  | some folder =>
    let names := folder.toList.map Prod.fst
    let malformed := names.filter fun name =>
      (parseSegmentId name).isNone && looksLikeSegmentFilename name
    if malformed ≠ [] then
      .error ("txlog: malformed segment filename(s): " ++ ", ".intercalate (malformed.map nameText))
    else .ok ((names.filterMap parseSegmentId).foldl max 0, folder)

/-- The place of a cut that left its segment without a whole header. -/
def retainedCut (folder : Folder) (segId : Nat) :
    Option (Nat × Nat) → Except String (Option (Nat × Nat))
  | none => .ok none
  | some (segment, offset) =>
    if segment < segId ∧ headerSize ≤ offset then do
      let content ← openFile folder (segPath segId)
      .ok (if content.length < headerSize then some (segment, offset) else none)
    else .ok none

def openLog (retained : Option (Nat × Nat)) (readonly : Bool)
    (dir : Option Folder) : Except String State := do
  let (segId, folder) ← findLatestSegment readonly dir
  let cut ← retainedCut folder segId retained
  match cut with
  | none =>
    let (folder, offset) ← openSegment readonly folder segId
    .ok ⟨folder, readonly, segId, segPath segId, offset, none⟩
  | some cut =>
    let content ← openFile folder (segPath segId)
    .ok ⟨folder, readonly, segId, segPath segId, content.length, some cut⟩

/-- The current segment is open already. -/
def segmentFile (s : State) (segId : Nat) : Except String Bytes :=
  if segId = s.log.currentSeg then openFile s.folder s.log.currentFd
  else openFile s.folder (segPath segId)

def readAt (s : State) (segId offset length : Nat) : Except String Bytes := do
  let content ← segmentFile s segId
  match exactBytes content offset length with
  | none => .error "txlog: unexpected EOF"
  | some bytes => .ok bytes

def readRecord (s : State) (location : Location) : Except String (Nat × Bytes) := do
  let bytes ← readAt s location.segId location.offset (4 + location.len)
  let payload := (bytes.drop 8).take (location.len - 4 - 4)
  let stored := (bytes.drop (8 + (location.len - 4 - 4))).take 4
  if readU32 bytes 0 ≠ location.len then .error "txlog: record_len mismatch"
  else if stored ≠ checksum sha256 ((bytes.drop 4).take 4) payload then
    .error "txlog: checksum mismatch"
  else .ok (readU32 bytes 4, payload)

def readLocation (folder : Folder) (location : Location) : Except String (Nat × Bytes) :=
  if location.offset < headerSize ∨ location.len < 8 ∨ maxRecordLen < location.len then
    .error "txlog: invalid read location"
  else do
    let content ← openFile folder (segPath location.segId)
    if (← validateHeader content) ≠ location.segId then
      .error "txlog: segment header identity differs"
    else if content.length < location.offset ∨ content.length - location.offset < 4 ∨
        content.length - location.offset - 4 < location.len then
      .error "txlog: read location exceeds segment"
    else if (exactBytes content location.offset 4).map ofLittleEndian ≠ some location.len then
      .error "txlog: record_len mismatch"
    else
      match readScanRecord sha256 content location.segId location.offset content.length true with
      | .error error => .error error.message
      | .ok record =>
        if record.length = location.len then .ok (record.epoch, record.payload)
        else .error "txlog: record_len mismatch"

section Folding

variable {σ : Type} (visit : σ → ScanRecord → Except String σ)

/-- Visit one record; tells where the next one stands. -/
def visitRecord (content : Bytes) (segment size : Nat) (state : σ)
    (offset : Nat) : Except ScanError (σ × Nat) :=
  match readScanRecord sha256 content segment offset size true with
  | .error error => .error error
  | .ok record =>
    match visit state record with
    | .error reason => .error (.recordRejected segment offset reason)
    | .ok after => .ok (after, offset + 4 + record.length)

/-- Where a segment is cut, if it is the last one of a cut. -/
def segmentSize (endAt : Option (Nat × Nat)) (segment physical : Nat) : Nat :=
  match endAt with
  | some (last, offset) => if segment = last then offset else physical
  | none => physical

def inspectSegment (folder : Folder) (endAt : Option (Nat × Nat)) (state : σ)
    (segment : Nat) : Except ScanError σ :=
  match folder.find? (segPath segment) with
  | none => .error (.segmentMissing segment)
  | some content =>
    let size := segmentSize endAt segment content.length
    if content.length < size then .error (.scanIo "transaction cut exceeds file length")
    else if size < headerSize then .error (.headerTruncated segment)
    else if content.take 4 ≠ magic then .error (.headerMarker segment)
    else if readVersion content ≠ version then
      .error (.headerVersion segment (readVersion content))
    else if readU32 content 6 ≠ segment then .error (.headerSegment segment (readU32 content 6))
    else
      scanRecords (visitRecord sha256 visit content segment size)
        (.scanIo "no end") size size state headerSize

/-- Every segment up to the last one is inspected. -/
def foldStrict (s : State) (endAt : Option (Nat × Nat)) (init : σ) : Except ScanError σ :=
  let last := (endAt.map Prod.fst).getD s.log.currentSeg
  if s.log.currentSeg < last then .error (.segmentMissing last)
  else (List.range (last + 1)).foldlM (inspectSegment sha256 visit s.folder endAt) init

end Folding

def currentPosition (s : State) : Nat × Nat := (s.log.currentSeg, s.log.currentOffset)

abbrev Action (α : Type) := Chained.Free State String α

open Chained (modify given)

def endOfFile : Action Nat := do
  let s ← read
  let content ← given (openFile s.folder s.log.currentFd)
  return content.length

def ensurePhysicalEofMatches : Action Unit := do
  let actual ← endOfFile
  let s ← read
  let seg := s.log.currentSeg
  let expected := s.log.currentOffset
  if actual ≠ expected then
    throw (s!"txlog: physical EOF drift seg = {seg} " ++
      s!"expected = {expected} actual = {actual}")
  else pure ()

def rotate : Action Unit := do
  let s ← read
  if s.log.readonly then throw "txlog: rotate on read-only log"
  else if s.log.cut ≠ none then throw "txlog: cut is incomplete"
  else
    let newSeg := s.log.currentSeg + 1
    let (folder, offset) ← given (openSegment false s.folder newSeg)
    modify fun s => ⟨folder, { s.log with
      currentSeg := newSeg, currentFd := segPath newSeg
      currentOffset := offset }⟩

/-- Check the end of the file against the position, before and after a new
segment is started for a full one. -/
def makeRoom : Action Unit := do
  ensurePhysicalEofMatches
  if maxSegmentSize ≤ (← read).log.currentOffset then rotate else pure ()
  ensurePhysicalEofMatches

def writeRecord (bytes : Bytes) : Action Unit := do
  let actual ← endOfFile
  let s ← read
  let seg := s.log.currentSeg
  let expected := s.log.currentOffset
  if actual ≠ expected then
    throw (s!"txlog: append offset drift seg = {seg} " ++
      s!"expected = {expected} actual = {actual}")
  else
    let content ← given (openFile s.folder s.log.currentFd)
    modify fun s => { s with
      folder := s.folder.replace s.log.currentFd (writeBytes content expected bytes) }
    let actualEnd ← endOfFile
    let expectedEnd := expected + bytes.length
    if actualEnd ≠ expectedEnd then
      throw (s!"txlog: append end drift seg = {seg} " ++
        s!"expected_end = {expectedEnd} actual_end = {actualEnd}")
    else
      modify fun s => { s with
        log := { s.log with currentOffset := expectedEnd } }

/-- The record is there before it is read back. -/
def append (epochId : Int) (payload : Bytes) : Action Location := do
  let s ← read
  if s.log.readonly then throw "txlog: append on read-only log"
  else if s.log.cut ≠ none then throw "txlog: cut is incomplete"
  else
    makeRoom
    let s ← read
    let location : Location := ⟨s.log.currentSeg, s.log.currentOffset, 4 + payload.length + 4⟩
    let seg := location.segId
    let offset := location.offset
    writeRecord (recordBytes sha256 epochId payload)
    let (storedEpoch, storedPayload) ←
      given (readRecord sha256 (← read) location)
    if (storedEpoch : Int) ≠ epochId ∨ storedPayload ≠ payload then
      throw (s!"txlog: append readback mismatch seg = {seg} " ++
        s!"offset = {offset} epoch = {epochId} stored_epoch = {storedEpoch}")
    else return location

/-- The later segments, each under the name that its number has. -/
def laterSegments (folder : Folder) (segId : Nat) : Except String (List Bytes) :=
  let later := (folder.toList.map Prod.fst).filter fun name =>
    (parseSegmentId name).any fun segment => segId < segment
  if later.all fun name => (parseSegmentId name).map segPath = some name then .ok later
  else .error "txlog: invalid segment path"

def truncateTo (segId offset : Nat) : Action Unit := do
  let s ← read
  if s.log.readonly then throw "txlog: truncate on read-only log"
  else if s.log.cut.any fun cut => cut ≠ (segId, offset) then
    throw "txlog: a different cut is incomplete"
  else
    match foldStrict sha256 (fun _ _ => .ok ()) s (some (segId, offset)) () with
    | .error error => throw error.message
    | .ok () =>
      let later ← given (laterSegments s.folder segId)
      let content ← given (openFile s.folder (segPath segId))
      modify fun s => { s with
        folder := later.foldl Table.remove (s.folder.replace (segPath segId) (content.take offset))
        log := { s.log with
          currentFd := segPath segId, currentSeg := segId
          currentOffset := offset, cut := none } }

end Records
end TxLog
end LiteNode
