import LiteNode.Chaindata.EpochHeader
import LiteNode.Data.Chained
import LiteNode.Data.Framing
import LiteNode.Data.Table

/-!
# The epoch log

Headers of epochs are appended to one file, each with a checksum. Where each
stands and the newest of them are kept in memory, and found again by a scan
that passes over what it cannot read.
-/

namespace LiteNode
namespace EpochLog

def magic : Bytes := Bytes.ofAscii "OEPL"

def version : Nat := 2

def headerSize : Nat := 16

def maxRecordLen : Nat := 16 * 1024 * 1024

inductive ReadError
  | logHeaderTruncated
  | logHeaderMarker
  | logHeaderVersion (actual : Nat)
  | logPrefixTruncated (offset : Nat)
  | logLengthInvalid (offset length : Nat)
  | logRecordTruncated (offset : Nat)
  | logChecksumMismatch (offset : Nat)
  | logPayloadInvalid (offset : Nat)
  | logEpochMissing (epoch : Int)
  | logEpochIdentity (offset : Nat) (expected actual : Int)
  | logEpochDuplicate (epoch : Int)
  | logRecordRejected (offset : Nat) (reason : String)
  | logIo (reason : String)
  deriving DecidableEq

namespace ReadError

def message : ReadError → String
  | .logHeaderTruncated => "epochlog header is truncated"
  | .logHeaderMarker => "epochlog header marker is invalid"
  | .logHeaderVersion actual => s!"epochlog header format is invalid: {actual}"
  | .logPrefixTruncated offset => s!"epochlog record prefix is truncated: offset = {offset}"
  | .logLengthInvalid offset length =>
    s!"epochlog record length is invalid: offset = {offset} " ++ s!"length = {length}"
  | .logRecordTruncated offset => s!"epochlog record is truncated: offset = {offset}"
  | .logChecksumMismatch offset => s!"epochlog checksum mismatch: offset = {offset}"
  | .logPayloadInvalid offset => s!"epochlog payload is invalid: offset = {offset}"
  | .logEpochMissing epoch => s!"epochlog offset is missing: epoch = {epoch}"
  | .logEpochIdentity offset expected actual =>
    s!"epochlog record identity differs: offset = {offset} " ++
      s!"expected = {expected} actual = {actual}"
  | .logEpochDuplicate epoch => s!"epochlog contains duplicate epoch: {epoch}"
  | .logRecordRejected offset reason =>
    s!"epochlog record rejected: offset = {offset} reason = {reason}"
  | .logIo reason => "epochlog scan failed: " ++ reason

end ReadError

def recordLengthValid (remaining recordLen : Nat) : Bool :=
  4 ≤ recordLen && recordLen ≤ maxRecordLen && recordLen ≤ remaining

def fileHeader : Bytes := magic ++ (putLittle 2 version ++ List.replicate 10 0)

def readVersion (content : Bytes) : Nat := ofLittleEndian ((content.drop 4).take 2)

def validateFileHeader (content : Bytes) : Except String Unit :=
  let v := readVersion content
  if content.length < headerSize then .error "epochlog: truncated header"
  else if content.take 4 ≠ magic then .error "epochlog: bad magic"
  else if v ≠ 1 ∧ v ≠ version then .error s!"epochlog: version {v} not in [1,{version}]"
  else .ok ()

structure Log (F : Type) where
  readonly : Bool
  offsets : Table Int Nat
  tip : Option (StoredHeader F)
  cut : Option Nat

/-- The file and what is kept in memory about it. -/
structure State (F : Type) where
  content : Bytes
  log : Log F

/-- What the log is written and read with. -/
structure Codec (F : Type) where
  texts : HeaderTexts
  floats : Floats F
  sha256 : Bytes → Bytes

variable {F : Type} (codec : Codec F)

namespace Codec

def checksum (payload : Bytes) : Bytes := (codec.sha256 payload).take 4

def epochToJson (header : StoredHeader F) : Except String Bytes :=
  header.epochToJson codec.texts codec.floats

def epochOfJson (text : Bytes) : Option (StoredHeader F) :=
  StoredHeader.epochOfJson codec.texts codec.floats text

end Codec

/-- Offsets of the headers that were read, and the last of them. -/
abbrev Found (F : Type) := Table Int Nat × Option (StoredHeader F)

/-- Note a header whose checksum is right. -/
def noteRecord (found : Found F) (pos : Nat) (bytes : Bytes) : Found F :=
  let payload := bytes.take (bytes.length - 4)
  if bytes.drop (bytes.length - 4) = codec.checksum payload then
    match codec.epochOfJson payload with
    | some header => (found.1.replace header.id pos, some header)
    | none => found
  else found

/-- The scan ends where it cannot go on. -/
def scanFrom (content : Bytes) : Nat → Found F → Nat → Found F
  | 0, found, _ => found
  | fuel + 1, found, pos =>
    if pos < content.length then
      match exactBytes content pos 4 with
      | none => found
      | some lengthBytes =>
        let recordLen := ofLittleEndian lengthBytes
        if recordLengthValid (content.length - pos - 4) recordLen then
          match exactBytes content (pos + 4) recordLen with
          | none => found
          | some bytes =>
            scanFrom content fuel (noteRecord codec found pos bytes) (pos + 4 + recordLen)
        else found
    else found

def scanFile (content : Bytes) : Found F :=
  scanFrom codec content content.length (∅, none) headerSize

/-- The directory of a log, if it is there, with the file, if that is there. -/
def openLog (readonly : Bool) : Option (Option Bytes) → Except String (State F)
  | none =>
    if readonly then .error "epochlog: read-only directory is missing"
    else .ok ⟨fileHeader, readonly, ∅, none, none⟩
  | some none =>
    if readonly then .error "epochlog: read-only file is missing"
    else .ok ⟨fileHeader, readonly, ∅, none, none⟩
  | some (some content) => do
    validateFileHeader content
    let found := scanFile codec content
    .ok ⟨content, readonly, found.1, found.2, none⟩

section Folds

variable {σ : Type} (visit : σ → StoredHeader F → Except String σ)

/-- Read one record; tells the number of its bytes. -/
def inspectRecord (content : Bytes) (size offset : Nat) : Except ReadError (StoredHeader F × Nat) :=
  if size - offset < 4 then .error (.logPrefixTruncated offset)
  else
    match exactBytes content offset 4 with
    | none => .error (.logPrefixTruncated offset)
    | some lengthBytes =>
      let length := ofLittleEndian lengthBytes
      if recordLengthValid (size - offset - 4) length = false then
        .error (.logLengthInvalid offset length)
      else
        match exactBytes content (offset + 4) length with
        | none => .error (.logRecordTruncated offset)
        | some bytes =>
          let payload := bytes.take (length - 4)
          if (bytes.drop (length - 4)).take 4 ≠ codec.checksum payload then
            .error (.logChecksumMismatch offset)
          else
            match codec.epochOfJson payload with
            | none => .error (.logPayloadInvalid offset)
            | some epoch => .ok (epoch, length)

/-- Visit one header with an epoch that was not seen before; tells where the
next record stands. -/
def visitRecord (content : Bytes) (size : Nat) (state : σ × List Int)
    (offset : Nat) : Except ReadError ((σ × List Int) × Nat) :=
  match inspectRecord codec content size offset with
  | .error error => .error error
  | .ok (epoch, length) =>
    if epoch.id ∈ state.2 then .error (.logEpochDuplicate epoch.id)
    else
      match visit state.1 epoch with
      | .error reason => .error (.logRecordRejected offset reason)
      | .ok after => .ok ((after, epoch.id :: state.2), offset + 4 + length)

def foldStrict (s : State F) (endAt : Option Nat) (init : σ) : Except ReadError σ :=
  let size := endAt.getD s.content.length
  let actual := readVersion s.content
  if s.content.length < size then .error (.logIo "epoch cut exceeds file length")
  else if size < headerSize then .error .logHeaderTruncated
  else if s.content.take 4 ≠ magic then .error .logHeaderMarker
  else if actual ≠ 1 ∧ actual ≠ version then .error (.logHeaderVersion actual)
  else
    (scanRecords (visitRecord codec visit s.content size) (.logIo "no end")
      size size (init, []) headerSize).map Prod.fst

end Folds

/-- Every header of the log. -/
def readAllStrict (s : State F) (endAt : Option Nat) : Except ReadError (List (StoredHeader F)) :=
  (foldStrict codec (fun items epoch => .ok (epoch :: items)) s endAt []).map List.reverse

def last (s : State F) : Option (StoredHeader F) := s.log.tip

def currentOffset (s : State F) : Nat := s.content.length

/-- A header with where it stands and the number of its bytes. -/
def readRecord (s : State F) (epochId : Int) : Except ReadError (Nat × Nat × StoredHeader F) :=
  match s.log.offsets.find? epochId with
  | none => .error (.logEpochMissing epochId)
  | some off =>
    match exactBytes s.content off 4 with
    | none => .error (.logPrefixTruncated off)
    | some lengthBytes =>
      let recordLen := ofLittleEndian lengthBytes
      if recordLengthValid (s.content.length - off - 4) recordLen = false
        then .error (.logLengthInvalid off recordLen)
      else
        match exactBytes s.content (off + 4) recordLen with
        | none => .error (.logRecordTruncated off)
        | some bytes =>
          let payload := bytes.take (recordLen - 4)
          if codec.checksum payload ≠ (bytes.drop (recordLen - 4)).take 4
            then .error (.logChecksumMismatch off)
          else
            match codec.epochOfJson payload with
            | none => .error (.logPayloadInvalid off)
            | some header =>
              if header.id = epochId then .ok (off, recordLen, header)
              else .error (.logEpochIdentity off epochId header.id)

def get (s : State F) (epochId : Int) : Option (StoredHeader F) :=
  (readRecord codec s epochId).toOption.map fun found => found.2.2

def offsetAfter (s : State F) (epochId : Int) : Option Nat :=
  if epochId < 0 then some headerSize
  else
    (readRecord codec s epochId).toOption.map fun found => found.1 + 4 + found.2.1

abbrev Action (F : Type) (α : Type) := Chained.Free (State F) String α

open Chained (modify given)

def recordBytes (payload : Bytes) : Bytes :=
  putLittle 4 (payload.length + 4 : Nat) ++ (payload ++ codec.checksum payload)

def append (header : StoredHeader F) : Action F Unit := do
  let s ← read
  if s.log.readonly then throw "epochlog: append on read-only log"
  else if s.log.cut ≠ none then throw "epochlog: cut is incomplete"
  else
    let payload ← given (codec.epochToJson header)
    if maxRecordLen < payload.length + 4 then throw "epochlog: record exceeds size limit"
    else
      modify fun s => {
        content := s.content ++ recordBytes codec payload
        log := { s.log with
          offsets := s.log.offsets.replace header.id s.content.length
          tip := some header } }

def truncateTo (offset : Nat) : Action F Unit := do
  let s ← read
  if s.log.readonly then throw "epochlog: truncate on read-only log"
  else if s.log.cut.any fun cut => cut ≠ offset then
    throw "epochlog: a different cut is incomplete"
  else
    match foldStrict codec (fun _ _ => .ok ()) s (some offset) () with
    | .error error => throw error.message
    | .ok () =>
      modify fun s =>
        let content := s.content.take offset
        let found := scanFile codec content
        { content := content
          log := { s.log with
            offsets := found.1, tip := found.2, cut := none } }

end EpochLog
end LiteNode
