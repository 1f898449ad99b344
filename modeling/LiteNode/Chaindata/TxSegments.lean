import LiteNode.Chaindata.TxLog

/-!
# Segments of the transaction log

A segment is a header and the framed records of its transactions. Every record
is read back where it stands, and a fold over the segments of a log visits the
records in order.
-/

namespace LiteNode
namespace TxLog

/-- The numbers that segments can have. -/
def maxSegments : Nat := 4294967296

theorem digits_zeroPadded (segId : Nat) : ∀ byte ∈ zeroPadded 6 segId, 48 ≤ byte ∧ byte ≤ 57 := by
  intro byte member
  unfold zeroPadded at member
  rw [if_neg (by omega)] at member
  rcases List.mem_append.mp member with padding | digit
  · rw [List.eq_of_mem_replicate padding]
    decide
  · exact digit_of_mem_decimal _ byte digit

theorem zeroPadded_ne_nil (segId : Nat) : zeroPadded 6 segId ≠ [] := by
  unfold zeroPadded
  rw [if_neg (by omega)]
  exact fun empty => decimal_ne_nil _ (List.append_eq_nil_iff.mp empty).2

theorem parseSegmentId_segPath {segId : Nat} (small : segId < maxSegments) :
    parseSegmentId (segPath segId) = some segId := by
  have positive := List.length_pos_of_ne_nil (zeroPadded_ne_nil segId)
  have size : (segPath segId).length = 7 + (zeroPadded 6 segId).length := by
    unfold segPath
    simp only [List.length_append]
    change 3 + (_ + 4) = _
    omega
  have front : (segPath segId).take 3 = Bytes.ofAscii "seg" := List.take_left' (by decide)
  have behind : (segPath segId).drop 3 = zeroPadded 6 segId ++ Bytes.ofAscii ".dat" :=
    List.drop_left' (by decide)
  have end' : (segPath segId).drop ((segPath segId).length - 4) = Bytes.ofAscii ".dat" := by
    have split : (segPath segId).length - 4 = 3 + (zeroPadded 6 segId).length := by omega
    rw [split, ← List.drop_drop, behind, List.drop_left]
  have digits : ((segPath segId).drop 3).take ((segPath segId).length - 7) =
      zeroPadded 6 segId := by
    have split : (segPath segId).length - 7 = (zeroPadded 6 segId).length := by omega
    rw [split, behind, List.take_left]
  have looks : looksLikeSegmentFilename (segPath segId) = true := by
    unfold looksLikeSegmentFilename
    rw [front, end']
    simp only [decide_true, Bool.and_true, decide_eq_true_eq]
    omega
  have fits : FitsBits intBits segId := by
    unfold maxSegments at small
    unfold FitsBits intBits
    omega
  have all : (zeroPadded 6 segId).all (fun byte => 48 ≤ byte && byte ≤ 57) = true := by
    rw [List.all_eq_true]
    intro byte member
    obtain ⟨least, most⟩ := digits_zeroPadded segId byte member
    simp [least, most]
  unfold parseSegmentId
  rw [if_neg (by simp [looks]), digits, if_pos all, intOfString_zeroPadded (by decide) 6 fits]
  rfl

theorem segPath_inj {segId other : Nat} (small : segId < maxSegments)
    (small' : other < maxSegments) (same : segPath segId = segPath other) : segId = other := by
  have parsed := parseSegmentId_segPath small
  rw [same, parseSegmentId_segPath small'] at parsed
  exact (Option.some.inj parsed).symm

theorem length_header (segId : Nat) : (header segId).length = headerSize := by
  rfl

theorem take_header (segId : Nat) (rest : Bytes) : (header segId ++ rest).take 4 = magic := by
  unfold header
  rw [List.append_assoc]
  exact List.take_left' (by decide)

theorem readVersion_header (segId : Nat) (rest : Bytes) :
    readVersion (header segId ++ rest) = version := by
  unfold readVersion header
  rw [List.append_assoc]
  have behind : (magic ++ (putLittle 2 version ++
      (putLittle 4 segId ++ List.replicate 6 0) ++ rest)).drop 4 =
        putLittle 2 version ++ (putLittle 4 segId ++ List.replicate 6 0) ++ rest :=
    List.drop_left' (by decide)
  rw [behind, List.append_assoc]
  rfl

/-- A number is read where it was written. -/
theorem readU32_append {before after : Bytes} {offset v : Nat}
    (stands : offset = before.length) (small : v < 4294967296) :
    readU32 (before ++ (putLittle 4 v ++ after)) offset = v := by
  subst stands
  have fits : FitsBytes 4 v := by
    constructor
    · omega
    · norm_num
      omega
  have read := ofLittleEndian_putLittle fits
  unfold readU32
  rw [List.drop_left, List.take_left' (length_putLittle 4 v)]
  exact_mod_cast read

theorem readU32_header {segId : Nat} (small : segId < maxSegments)
    (rest : Bytes) : readU32 (header segId ++ rest) 6 = segId := by
  have shape : header segId ++ rest = (magic ++ putLittle 2 version) ++
      (putLittle 4 segId ++ (List.replicate 6 0 ++ rest)) := by
    unfold header
    simp only [List.append_assoc]
  rw [shape]
  exact readU32_append rfl small

theorem validateHeader_header {segId : Nat} (small : segId < maxSegments)
    (rest : Bytes) : validateHeader (header segId ++ rest) = .ok segId := by
  have size := length_header segId
  unfold validateHeader
  rw [if_neg (by rw [List.length_append]; omega), take_header,
    readVersion_header, readU32_header small]
  rfl

/-- A transaction that was appended. -/
structure Entry where
  epoch : Int
  payload : Bytes

/-- The epoch is stored whole, and readers accept the length. -/
structure Entry.Fits (entry : Entry) : Prop where
  epoch : FitsBytes 4 entry.epoch
  length : entry.payload.length + 8 ≤ maxRecordLen

section Segments

variable (sha256 : Bytes → Bytes)

def body (entry : Entry) : Bytes :=
  putLittle 4 entry.epoch ++
    (entry.payload ++ checksum sha256 (putLittle 4 entry.epoch) entry.payload)

def segmentContent (segId : Nat) (entries : List Entry) : Bytes :=
  header segId ++ frames (body sha256) entries

def recordOf (segId : Nat) (stands : Nat × Entry) : ScanRecord where
  segment := segId
  offset := stands.1
  length := stands.2.payload.length + 8
  epoch := stands.2.epoch.toNat
  payload := stands.2.payload

def segmentRecords (segId : Nat) (entries : List Entry) : List ScanRecord :=
  (placed (body sha256) headerSize entries).map (recordOf segId)

/-- The records of segments with consecutive numbers. -/
def recordsFrom (first : Nat) : List (List Entry) → List ScanRecord
  | [] => []
  | entries :: rest => segmentRecords sha256 first entries ++ recordsFrom (first + 1) rest

variable {sha256}
variable (sized : ∀ bytes, (sha256 bytes).length = 32)

include sized

theorem length_checksum (epochBytes payload : Bytes) :
    (checksum sha256 epochBytes payload).length = 4 := by
  unfold checksum
  rw [List.length_take, sized]
  rfl

theorem length_body (entry : Entry) : (body sha256 entry).length = entry.payload.length + 8 := by
  unfold body
  simp only [List.length_append, length_putLittle, length_checksum sized]
  omega

theorem recordBytes_eq_frame (entry : Entry) :
    recordBytes sha256 entry.epoch entry.payload = frame (body sha256 entry) := by
  have size : 4 + entry.payload.length + 4 = (body sha256 entry).length := by
    rw [length_body sized]
    omega
  unfold recordBytes frame
  rw [size]
  rfl

variable {segId offset size : Nat} {entry : Entry} {entries : List Entry} {rest : Bytes}

omit sized in
/-- The number of bytes of a record is stored whole. -/
theorem ofLittleEndian_length {length : Nat} (small : length < 4294967296) :
    ofLittleEndian (putLittle 4 (length : Int)) = length := by
  have read := @readU32_append [] [] _ _ rfl small
  unfold readU32 at read
  rw [List.nil_append, List.append_nil, List.length_nil, List.drop_zero,
    List.take_of_length_le (by rw [length_putLittle])] at read
  exact read

omit sized in
theorem toNat_epoch (fits : entry.Fits) : readU32 (body sha256 entry) 0 = entry.epoch.toNat := by
  have nonneg := fits.epoch.1
  have small := fits.epoch.2
  have natural : ((entry.epoch.toNat : Nat) : Int) = entry.epoch := Int.toNat_of_nonneg nonneg
  have read := @readU32_append [] (entry.payload ++
    checksum sha256 (putLittle 4 entry.epoch) entry.payload) _
    entry.epoch.toNat rfl (by norm_num at small; omega)
  rw [List.nil_append, natural] at read
  exact read

omit sized in
theorem take_body (entry : Entry) : (body sha256 entry).take 4 = putLittle 4 entry.epoch := by
  exact List.take_left' (length_putLittle 4 _)

omit sized in
theorem drop_body (entry : Entry) :
    (body sha256 entry).drop 4 = entry.payload ++
      checksum sha256 (putLittle 4 entry.epoch) entry.payload := by
  exact List.drop_left' (length_putLittle 4 _)

omit sized in
theorem payload_body (entry : Entry) :
    ((body sha256 entry).drop 4).take entry.payload.length = entry.payload := by
  rw [drop_body, List.take_left]

theorem checksum_body (entry : Entry) :
    ((body sha256 entry).drop (4 + entry.payload.length)).take 4 =
      checksum sha256 (putLittle 4 entry.epoch) entry.payload := by
  have whole := length_checksum sized (putLittle 4 entry.epoch) entry.payload
  rw [← List.drop_drop, drop_body, List.drop_left, List.take_of_length_le (by omega)]

theorem readScanRecord_placed (fits : entry.Fits)
    (stands : (offset, entry) ∈ placed (body sha256) headerSize entries)
    (within : headerSize + (frames (body sha256) entries).length ≤ size) :
    readScanRecord sha256
        (header segId ++ (frames (body sha256) entries ++ rest)) segId offset
        size true = .ok (recordOf segId (offset, entry)) := by
  rw [← length_header segId] at stands within
  obtain ⟨length, whole, inside⟩ := @exactBytes_placed _ _ _ _ _ _ rest stands
  have bound := fits.length
  have bytes := length_body sized entry
  unfold maxRecordLen at bound
  have valid : recordLengthValid (size - offset - 4) (entry.payload.length + 8) = true := by
    unfold recordLengthValid maxRecordLen
    simp only [Bool.and_eq_true, decide_eq_true_eq]
    omega
  have payload : entry.payload.length + 8 - 8 = entry.payload.length := by omega
  rw [bytes] at length whole
  unfold readScanRecord
  rw [if_neg (by omega), length]
  dsimp only
  rw [ofLittleEndian_length (by omega), valid, if_neg (by simp), whole]
  dsimp only
  rw [payload, payload_body, checksum_body sized, take_body, toNat_epoch fits, if_neg (by simp)]
  rfl

section Folds

variable {σ : Type} (visit : σ → ScanRecord → Except String σ)

/-- Visit a record, and name it where it is rejected. -/
def visitOrReject (state : σ) (record : ScanRecord) : Except ScanError σ :=
  (visit state record).mapError (ScanError.recordRejected record.segment record.offset)

variable {visit} {folder : Folder} {endAt : Option (Nat × Nat)} {state : σ}

/-- A fold visits the records of a segment up to where it is cut. -/
theorem inspectSegment_eq (small : segId < maxSegments) (fits : ∀ entry ∈ entries, entry.Fits)
    (stored : folder.find? (segPath segId) =
      some (header segId ++ (frames (body sha256) entries ++ rest)))
    (cut : segmentSize endAt segId
      (header segId ++ (frames (body sha256) entries ++ rest)).length =
        headerSize + (frames (body sha256) entries).length) :
    inspectSegment sha256 visit folder endAt state segId =
      (segmentRecords sha256 segId entries).foldlM (visitOrReject visit) state := by
  have whole := length_header segId
  unfold inspectSegment
  rw [stored]
  dsimp only
  rw [cut, take_header, readVersion_header, readU32_header small,
    if_neg (by simp only [List.length_append]; omega), if_neg (by omega),
    if_neg (by simp), if_neg (by simp), if_neg (by simp), segmentRecords, List.foldlM_map]
  refine scanRecords_placed ?_ rfl (by omega) state
  intro state' offset entry stands
  have listed := placed_mem stands
  have read := @readScanRecord_placed _ sized segId _ _ _ _ rest (fits entry listed) stands le_rfl
  have bytes := length_body sized entry
  unfold visitRecord visitOrReject
  rw [read, length_frame, bytes]
  dsimp only [recordOf]
  generalize visit state' _ = outcome
  cases outcome with
  | error reason => rfl
  | ok after =>
    dsimp only [Except.map, Except.mapError]
    rw [Nat.add_assoc]

omit sized in
theorem recordsFrom_append (first : Nat) (segments later : List (List Entry)) :
    recordsFrom sha256 first (segments ++ later) =
      recordsFrom sha256 first segments ++ recordsFrom sha256 (first + segments.length) later := by
  induction segments generalizing first with
  | nil => rfl
  | cons entries segments ih =>
    rw [List.cons_append, recordsFrom, ih, recordsFrom, List.append_assoc, List.length_cons]
    congr 3
    omega

omit sized in
/-- Segments are visited one after the other. -/
theorem foldlM_inspectSegment {parts : List (List Entry)}
    (inspected : ∀ segId entries state, parts[segId]? = some entries →
      inspectSegment sha256 visit folder endAt state segId =
        (segmentRecords sha256 segId entries).foldlM (visitOrReject visit) state) (init : σ) :
    (List.range parts.length).foldlM
        (inspectSegment sha256 visit folder endAt) init =
      (recordsFrom sha256 0 parts).foldlM (visitOrReject visit) init := by
  induction parts using List.reverseRecOn with
  | nil => rfl
  | append_singleton parts entries ih =>
    have former := ih fun segId other state found =>
      inspected segId other state (by
        rw [List.getElem?_append_left (List.getElem?_eq_some_iff.mp found).1]
        exact found)
    have last : ∀ state, inspectSegment sha256 visit folder endAt state
        parts.length = (segmentRecords sha256 parts.length entries).foldlM
          (visitOrReject visit) state := fun state =>
      inspected parts.length entries state (by simp)
    rw [List.length_append, List.length_singleton, List.range_succ,
      List.foldlM_append, former, recordsFrom_append, List.foldlM_append, Nat.zero_add]
    congr 1
    funext state
    rw [List.foldlM_cons, last, recordsFrom, recordsFrom, List.append_nil]
    exact bind_pure _

end Folds
end Segments
end TxLog
end LiteNode
