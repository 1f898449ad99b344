import LiteNode.Chaindata.TxSegments

/-!
# What operations on the transaction log do

An open log holds its full segments and a current one. An append adds a record
to the current segment or starts another one, a cut drops what lies behind it,
and opening the log again finds it as it was.
-/

namespace LiteNode
namespace TxLog

variable {sha256 : Bytes → Bytes} {full : List (List Entry)} {current : List Entry} {s : State}

/-- A log that is open at the end of its current segment. -/
def openAt (sha256 : Bytes → Bytes) (full : List (List Entry)) (current : List Entry) : Log where
  readonly := false
  currentSeg := full.length
  currentFd := segPath full.length
  currentOffset := (segmentContent sha256 full.length current).length
  cut := none

/-- The segments that a log holds: full ones and the current one. -/
structure Holds (sha256 : Bytes → Bytes) (full : List (List Entry))
    (current : List Entry) (s : State) : Prop where
  few : full.length < maxSegments
  fits : ∀ entries ∈ full ++ [current], ∀ entry ∈ entries, entry.Fits
  stored : ∀ segId entries, (full ++ [current])[segId]? = some entries →
    s.folder.find? (segPath segId) = some (segmentContent sha256 segId entries)
  only : ∀ name content, s.folder.find? name = some content →
    ∃ segId, segId ≤ full.length ∧ name = segPath segId
  log : s.log = openAt sha256 full current

/-- A position at which a log can be cut: the end of a record or of a header. -/
def Boundary (sha256 : Bytes → Bytes) (segments : List (List Entry))
    (position : Nat × Nat) : Prop :=
  ∃ kept dropped, segments[position.1]? = some (kept ++ dropped) ∧
    position.2 = (segmentContent sha256 position.1 kept).length

/-- Whether a position lies before another one. -/
def precedes (position other : Nat × Nat) : Bool :=
  position.1 < other.1 || (position.1 = other.1 && position.2 < other.2)

theorem precedes_iff {position other : Nat × Nat} :
    precedes position other = true ↔ position.1 < other.1 ∨
      position.1 = other.1 ∧ position.2 < other.2 := by
  simp [precedes]

theorem length_segmentContent (segId : Nat) (entries : List Entry) :
    (segmentContent sha256 segId entries).length =
      headerSize + (frames (body sha256) entries).length := by
  unfold segmentContent
  rw [List.length_append, length_header]

theorem mem_recordsFrom {first : Nat} {segments : List (List Entry)} {record : ScanRecord} :
    record ∈ recordsFrom sha256 first segments ↔
      ∃ segId entries offset entry, segments[segId]? = some entries ∧
        (offset, entry) ∈ placed (body sha256) headerSize entries ∧
        record = recordOf (first + segId) (offset, entry) := by
  induction segments generalizing first with
  | nil => simp [recordsFrom]
  | cons entries segments ih =>
    rw [recordsFrom, List.mem_append, ih, segmentRecords, List.mem_map]
    constructor
    · rintro (⟨⟨offset, entry⟩, stands, rfl⟩ |
        ⟨segId, others, offset, entry, found, stands, rfl⟩)
      · exact ⟨0, entries, offset, entry, rfl, stands, rfl⟩
      · refine ⟨segId + 1, others, offset, entry, found, stands, ?_⟩
        rw [Nat.add_assoc, Nat.add_comm 1]
    · rintro ⟨segId, others, offset, entry, found, stands, rfl⟩
      cases segId with
      | zero =>
        cases found
        exact .inl ⟨(offset, entry), stands, rfl⟩
      | succ segId =>
        refine .inr ⟨segId, others, offset, entry, found, stands, ?_⟩
        rw [Nat.add_assoc, Nat.add_comm 1]

theorem run_endOfFile_of {content : Bytes} (found : s.folder.find? s.log.currentFd = some content) :
    endOfFile.run s = (.ok content.length, s) := by
  unfold endOfFile
  rw [Chained.run_bind, Chained.run_read]
  dsimp only
  rw [Chained.run_bind, Chained.run_given, openFile, found]
  rfl

namespace Holds

theorem writable (holds : Holds sha256 full current s) : ¬ s.log.readonly = true := by
  simp [holds.log, openAt]

theorem uncut (holds : Holds sha256 full current s) : s.log.cut = none := by
  rw [holds.log]
  rfl

theorem currentSeg (holds : Holds sha256 full current s) : s.log.currentSeg = full.length := by
  rw [holds.log]
  rfl

theorem stored_current (holds : Holds sha256 full current s) :
    s.folder.find? s.log.currentFd = some (segmentContent sha256 full.length current) := by
  rw [holds.log]
  exact holds.stored full.length current (by simp)

/-- The file ends where the log expects it to. -/
theorem run_endOfFile (holds : Holds sha256 full current s) :
    endOfFile.run s = (.ok s.log.currentOffset, s) := by
  rw [run_endOfFile_of holds.stored_current, holds.log]
  rfl

theorem run_ensurePhysicalEofMatches (holds : Holds sha256 full current s) :
    ensurePhysicalEofMatches.run s = (.ok (), s) := by
  unfold ensurePhysicalEofMatches
  rw [Chained.run_bind, holds.run_endOfFile]
  dsimp only
  rw [Chained.run_bind, Chained.run_read]
  dsimp only
  rw [if_neg (by simp)]
  rfl

/-- The next segment is not there before it is started. -/
theorem next_absent (holds : Holds sha256 full current s) (small : full.length + 1 < maxSegments) :
    s.folder.find? (segPath (full.length + 1)) = none := by
  cases found : s.folder.find? (segPath (full.length + 1)) with
  | none => rfl
  | some content =>
    obtain ⟨segId, bounded, same⟩ := holds.only _ _ found
    have equal := segPath_inj small (by omega) same
    omega

/-- The current segment is stored as well as the full ones. -/
theorem of_find {folder : Folder} (few : full.length < maxSegments)
    (fits : ∀ entries ∈ full ++ [current], ∀ entry ∈ entries, entry.Fits)
    (others : ∀ (segId : Nat) entries, full[segId]? = some entries →
      folder.find? (segPath segId) =
        some (segmentContent sha256 segId entries)) (last : folder.find? (segPath full.length) =
      some (segmentContent sha256 full.length current))
    (only : ∀ name content, folder.find? name = some content →
      ∃ segId, segId ≤ full.length ∧ name = segPath segId) :
    Holds sha256 full current ⟨folder, openAt sha256 full current⟩ := by
  refine ⟨few, fits, ?_, only, rfl⟩
  intro segId entries found
  rcases lt_trichotomy segId full.length with before | rfl | behind
  · rw [List.getElem?_append_left before] at found
    exact others segId entries found
  · rw [List.getElem?_append_right le_rfl, Nat.sub_self] at found
    cases found
    exact last
  · rw [List.getElem?_eq_none (by
      rw [List.length_append, List.length_singleton]
      omega)] at found
    cases found

/-- The full segments stay where they are when another file is written. -/
theorem of_replace (holds : Holds sha256 full current s)
    {full' : List (List Entry)} {current' : List Entry} (few : full'.length < maxSegments)
    (fits : ∀ entries ∈ full' ++ [current'], ∀ entry ∈ entries, entry.Fits)
    (same : ∀ (segId : Nat) entries, full'[segId]? = some entries →
      (full ++ [current])[segId]? = some entries)
    (only : ∀ segId, segId ≤ full.length → segId ≤ full'.length) :
    Holds sha256 full' current'
      ⟨s.folder.replace (segPath full'.length)
        (segmentContent sha256 full'.length current'), openAt sha256 full' current'⟩ := by
  refine of_find few fits ?_ (Table.find?_replace _ _ _) ?_
  · intro segId entries found
    have before := (List.getElem?_eq_some_iff.mp found).1
    have apart : segPath segId ≠ segPath full'.length := fun equal =>
      before.ne (segPath_inj (by omega) few equal)
    rw [Table.find?_replace_ne apart]
    exact holds.stored segId entries (same segId entries found)
  · intro name content found
    rw [Table.find?_replace_eq_ite] at found
    split at found
    · next equal => exact ⟨full'.length, le_rfl, equal⟩
    · obtain ⟨segId, bounded, named⟩ := holds.only name content found
      exact ⟨segId, only segId bounded, named⟩

/-- A new segment has a header and no records. -/
theorem run_rotate (holds : Holds sha256 full current s) (small : full.length + 1 < maxSegments) :
    ∃ t, rotate.run s = (.ok (), t) ∧ Holds sha256 (full ++ [current]) [] t := by
  have absent := holds.next_absent small
  have log := holds.log
  have count : (full ++ [current]).length = full.length + 1 := by
    rw [List.length_append, List.length_singleton]
  have fresh : segmentContent sha256 (full.length + 1) [] =
      header (full.length + 1) := List.append_nil _
  have opened : Holds sha256 (full ++ [current]) [] _ :=
    holds.of_replace (by omega) (by
      intro entries listed
      rcases List.mem_append.mp listed with former | last
      · exact holds.fits entries former
      · rw [List.mem_singleton.mp last]
        exact fun entry none => absurd none List.not_mem_nil)
      (fun _ _ found => found) (by omega)
  refine ⟨_, ?_, opened⟩
  unfold rotate
  rw [Chained.run_bind, Chained.run_read]
  dsimp only
  rw [if_neg holds.writable, if_neg (not_not.mpr holds.uncut),
    Chained.run_bind, Chained.run_given, openSegment, holds.currentSeg, absent]
  dsimp only [createSegment]
  rw [if_neg (by simp), openAt, count, fresh, length_header]
  dsimp only
  rw [Chained.run_modify, log]
  rfl

/-- Before an append a full segment is followed by a new one. -/
theorem run_makeRoom (holds : Holds sha256 full current s)
    (room : maxSegmentSize ≤ s.log.currentOffset → full.length + 1 < maxSegments) :
    ∃ full' current' t, makeRoom.run s = (.ok (), t) ∧ Holds sha256 full' current' t ∧
      (full' = full ∧ current' = current ∨ full' = full ++ [current] ∧ current' = []) := by
  unfold makeRoom
  rw [Chained.run_bind, holds.run_ensurePhysicalEofMatches]
  dsimp only
  rw [Chained.run_bind, Chained.run_read]
  dsimp only
  by_cases exceeded : maxSegmentSize ≤ s.log.currentOffset
  · obtain ⟨t, rotated, opened⟩ := holds.run_rotate (room exceeded)
    refine ⟨full ++ [current], [], t, ?_, opened, .inr ⟨rfl, rfl⟩⟩
    rw [if_pos exceeded, Chained.run_bind, rotated]
    exact opened.run_ensurePhysicalEofMatches
  · refine ⟨full, current, s, ?_, holds, .inl ⟨rfl, rfl⟩⟩
    rw [if_neg exceeded]
    exact holds.run_ensurePhysicalEofMatches

theorem run_writeRecord (holds : Holds sha256 full current s) {entry : Entry} (fits : entry.Fits) :
    ∃ t, (writeRecord (frame (body sha256 entry))).run s = (.ok (), t) ∧
      Holds sha256 full (current ++ [entry]) t := by
  have stored := holds.stored_current
  have log := holds.log
  have content : segmentContent sha256 full.length (current ++ [entry]) =
      segmentContent sha256 full.length current ++ frame (body sha256 entry) := by
    unfold segmentContent
    rw [frames_append, List.append_assoc]
    simp
  have offset : s.log.currentOffset = (segmentContent sha256 full.length current).length := by
    rw [log]
    rfl
  have written : Holds sha256 full (current ++ [entry]) _ :=
    holds.of_replace holds.few (by
      intro entries listed other present
      rcases List.mem_append.mp listed with former | last
      · exact holds.fits entries (List.mem_append_left _ former) other present
      · rw [List.mem_singleton.mp last] at present
        rcases List.mem_append.mp present with former | new
        · exact holds.fits current (by simp) other former
        · rw [List.mem_singleton.mp new]
          exact fits) (by
      intro segId entries found
      rw [List.getElem?_append_left (List.getElem?_eq_some_iff.mp found).1]
      exact found) (fun _ bounded => bounded)
  refine ⟨_, ?_, written⟩
  unfold writeRecord
  rw [Chained.run_bind, holds.run_endOfFile]
  dsimp only
  rw [Chained.run_bind, Chained.run_read]
  dsimp only
  rw [if_neg (by simp), Chained.run_bind, Chained.run_given, openFile, stored]
  dsimp only
  rw [Chained.run_bind, Chained.run_modify, offset, writeBytes_length, ← content]
  dsimp only
  rw [Chained.run_bind, run_endOfFile_of (Table.find?_replace _ _ _), content, List.length_append]
  dsimp only
  rw [if_neg (by simp), Chained.run_modify, log, openAt, openAt, content, List.length_append]

variable {segId offset : Nat} {entries : List Entry} {entry : Entry}

theorem segmentFile_eq (holds : Holds sha256 full current s)
    (found : (full ++ [current])[segId]? = some entries) :
    segmentFile s segId = .ok (segmentContent sha256 segId entries) := by
  have stored := holds.stored segId entries found
  unfold segmentFile openFile
  split
  · next same =>
    rw [holds.currentSeg] at same
    rw [holds.log]
    dsimp only [openAt]
    rw [← same, stored]
  · rw [stored]

section Reading

variable (sized : ∀ bytes, (sha256 bytes).length = 32)

include sized

theorem readAt_eq (holds : Holds sha256 full current s)
    (found : (full ++ [current])[segId]? = some entries)
    (stands : (offset, entry) ∈ placed (body sha256) headerSize entries) :
    readAt s segId offset (4 + (entry.payload.length + 8)) = .ok (frame (body sha256 entry)) := by
  rw [← length_header segId] at stands
  have read := @exactBytes_frame _ _ _ _ _ _ [] stands
  rw [List.append_nil, length_body sized] at read
  unfold readAt
  rw [holds.segmentFile_eq found, segmentContent]
  dsimp only [bind, Except.bind]
  rw [read]

theorem readRecord_placed (holds : Holds sha256 full current s)
    (found : (full ++ [current])[segId]? = some entries)
    (stands : (offset, entry) ∈ placed (body sha256) headerSize entries) :
    readRecord sha256 s ⟨segId, offset, entry.payload.length + 8⟩ =
      .ok (entry.epoch.toNat, entry.payload) := by
  have fits := holds.fits entries (List.mem_of_getElem? found) entry (placed_mem stands)
  have bound := fits.length
  unfold maxRecordLen at bound
  have payload : entry.payload.length + 8 - 4 - 4 = entry.payload.length := by omega
  have behind : (frame (body sha256 entry)).drop 4 = body sha256 entry :=
    List.drop_left' (length_putLittle 4 _)
  have shift : ∀ count, (frame (body sha256 entry)).drop (4 + count) =
      (body sha256 entry).drop count := by
    intro count
    rw [← List.drop_drop, behind]
  have number : readU32 (frame (body sha256 entry)) 0 = entry.payload.length + 8 := by
    rw [← length_body sized]
    refine @readU32_append [] _ _ _ rfl ?_
    rw [length_body sized]
    omega
  have epoch : readU32 (frame (body sha256 entry)) 4 = entry.epoch.toNat := by
    rw [← toNat_epoch fits]
    unfold readU32
    rw [behind, List.drop_zero]
  have split : 8 + entry.payload.length = 4 + (4 + entry.payload.length) := by omega
  unfold readRecord
  rw [holds.readAt_eq sized found stands]
  dsimp only [bind, Except.bind]
  rw [payload, number, epoch, split, shift, checksum_body sized, behind,
    take_body, if_neg (by simp), shift 4, payload_body, if_neg (by simp)]

theorem readLocation_placed (holds : Holds sha256 full current s)
    (found : (full ++ [current])[segId]? = some entries)
    (stands : (offset, entry) ∈ placed (body sha256) headerSize entries) :
    readLocation sha256 s.folder ⟨segId, offset, entry.payload.length + 8⟩ =
      .ok (entry.epoch.toNat, entry.payload) := by
  have fits := holds.fits entries (List.mem_of_getElem? found) entry (placed_mem stands)
  have bound := fits.length
  have bytes := length_body sized entry
  have small : segId < maxSegments := by
    have within := (List.getElem?_eq_some_iff.mp found).1
    rw [List.length_append, List.length_singleton] at within
    have few := holds.few
    omega
  have stored := holds.stored segId entries found
  have size := @length_segmentContent sha256 segId entries
  have read := @readScanRecord_placed _ sized segId _
    (segmentContent sha256 segId entries).length _ _ [] fits stands size.ge
  have late : headerSize ≤ offset := by
    obtain ⟨_, _, -, rfl⟩ := mem_placed.mp stands
    omega
  rw [← length_header segId] at stands
  obtain ⟨number, -, inside⟩ := @exactBytes_placed _ _ _ _ _ _ [] stands
  rw [List.append_nil] at read number
  rw [bytes, length_header] at inside
  have length : (exactBytes (segmentContent sha256 segId entries) offset 4).map
      ofLittleEndian = some (entry.payload.length + 8) := by
    unfold maxRecordLen at bound
    unfold segmentContent
    rw [number, Option.map_some, bytes, ofLittleEndian_length (by omega)]
  unfold readLocation openFile
  dsimp only
  rw [if_neg (by omega), stored]
  dsimp only [bind, Except.bind]
  rw [length, segmentContent, validateHeader_header small]
  dsimp only
  rw [if_neg (by simp), ← segmentContent, if_neg (by omega), if_neg (by simp)]
  unfold segmentContent
  unfold segmentContent at read
  rw [read]
  dsimp only [recordOf]
  rw [if_pos rfl]

/-- Every record of the log is read at its place. -/
theorem read_eq (holds : Holds sha256 full current s) {record : ScanRecord}
    (listed : record ∈ recordsFrom sha256 0 (full ++ [current])) :
    readRecord sha256 s ⟨record.segment, record.offset, record.length⟩ =
        .ok (record.epoch, record.payload) ∧
      readLocation sha256 s.folder
          ⟨record.segment, record.offset, record.length⟩ =
        .ok (record.epoch, record.payload) := by
  obtain ⟨segId, entries, offset, entry, found, stands, rfl⟩ := mem_recordsFrom.mp listed
  rw [Nat.zero_add]
  exact ⟨holds.readRecord_placed sized found stands, holds.readLocation_placed sized found stands⟩

section Folds

variable {σ : Type} {visit : σ → ScanRecord → Except String σ} {init : σ}

omit sized in
theorem segmentId_lt (holds : Holds sha256 full current s)
    (found : (full ++ [current])[segId]? = some entries) :
    segId < maxSegments ∧ segId ≤ s.log.currentSeg := by
  have within := (List.getElem?_eq_some_iff.mp found).1
  have few := holds.few
  rw [List.length_append, List.length_singleton] at within
  rw [holds.currentSeg]
  omega

theorem inspectSegment_whole (holds : Holds sha256 full current s)
    {endAt : Option (Nat × Nat)} {state : σ} (found : (full ++ [current])[segId]? = some entries)
    (uncut : ∀ physical, segmentSize endAt segId physical = physical) :
    inspectSegment sha256 visit s.folder endAt state segId =
      (segmentRecords sha256 segId entries).foldlM (visitOrReject visit) state := by
  have stored := holds.stored segId entries found
  refine @inspectSegment_eq _ sized _ _ [] _ _ _ _ _
    (holds.segmentId_lt found).1
    (holds.fits entries (List.mem_of_getElem? found)) ?_ ?_
  · rw [List.append_nil]
    exact stored
  · rw [uncut, List.append_nil]
    exact length_segmentContent segId entries

/-- A fold visits every record of the log in order. -/
theorem foldStrict_eq (holds : Holds sha256 full current s) :
    foldStrict sha256 visit s none init =
      (recordsFrom sha256 0 (full ++ [current])).foldlM (visitOrReject visit) init := by
  have count : s.log.currentSeg + 1 = (full ++ [current]).length := by
    rw [holds.currentSeg, List.length_append, List.length_singleton]
  unfold foldStrict
  dsimp only [Option.map_none, Option.getD_none]
  rw [if_neg (lt_irrefl _), count]
  apply foldlM_inspectSegment
  intro segId entries state found
  exact holds.inspectSegment_whole sized found fun _ => rfl

theorem foldStrict_cut (holds : Holds sha256 full current s) {kept dropped : List Entry}
    (found : (full ++ [current])[segId]? = some (kept ++ dropped)) :
    foldStrict sha256 visit s
        (some (segId, (segmentContent sha256 segId kept).length)) init =
      (recordsFrom sha256 0 ((full ++ [current]).take segId ++ [kept])).foldlM
        (visitOrReject visit) init := by
  obtain ⟨small, within⟩ := holds.segmentId_lt found
  have inside := (List.getElem?_eq_some_iff.mp found).1
  have before : ((full ++ [current]).take segId).length = segId := by
    rw [List.length_take]
    omega
  have count : segId + 1 = ((full ++ [current]).take segId ++ [kept]).length := by
    rw [List.length_append, before, List.length_singleton]
  unfold foldStrict
  dsimp only [Option.map_some, Option.getD_some]
  rw [if_neg (by omega), count]
  apply foldlM_inspectSegment
  intro other entries state listed
  rcases lt_trichotomy other segId with early | rfl | late
  · rw [List.getElem?_append_left (by omega), List.getElem?_take_of_lt early] at listed
    refine holds.inspectSegment_whole sized listed fun physical => ?_
    exact if_neg early.ne
  · rw [List.getElem?_append_right before.le, before, Nat.sub_self] at listed
    cases listed
    have stored := holds.stored other _ found
    unfold segmentContent at stored
    rw [frames_append] at stored
    refine inspectSegment_eq sized small ?_ stored ?_
    · intro entry listed
      exact holds.fits _ (List.mem_of_getElem? found) entry (List.mem_append_left _ listed)
    · exact (if_pos rfl).trans (length_segmentContent other kept)
  · rw [List.getElem?_eq_none (by omega)] at listed
    cases listed

end Folds

theorem run_append (holds : Holds sha256 full current s) (fits : entry.Fits)
    (room : maxSegmentSize ≤ s.log.currentOffset → full.length + 1 < maxSegments) :
    ∃ full' current' t, (append sha256 entry.epoch entry.payload).run s =
        (.ok ⟨full'.length, (segmentContent sha256 full'.length current').length,
          entry.payload.length + 8⟩, t) ∧
      Holds sha256 full' (current' ++ [entry]) t ∧
      (full' = full ∧ current' = current ∨ full' = full ++ [current] ∧ current' = []) := by
  obtain ⟨full', current', t, made, opened, extended⟩ := holds.run_makeRoom room
  obtain ⟨u, written, appended⟩ := opened.run_writeRecord fits
  have log := opened.log
  have seg : t.log.currentSeg = full'.length := opened.currentSeg
  have offset : t.log.currentOffset = (segmentContent sha256 full'.length current').length := by
    rw [log]
    rfl
  have size : 4 + entry.payload.length + 4 = entry.payload.length + 8 := by omega
  have natural : ((entry.epoch.toNat : Nat) : Int) = entry.epoch := Int.toNat_of_nonneg fits.epoch.1
  have read := @readRecord_placed _ _ _ _ full'.length _
    (current' ++ [entry]) _ sized appended (by simp)
    (mem_placed.mpr ⟨current', [], rfl, rfl⟩)
  refine ⟨full', current', u, ?_, appended, extended⟩
  rw [← @length_segmentContent sha256 full'.length] at read
  unfold append
  rw [Chained.run_bind, Chained.run_read]
  dsimp only
  rw [if_neg holds.writable, if_neg (not_not.mpr holds.uncut), Chained.run_bind, made]
  dsimp only
  rw [Chained.run_bind, Chained.run_read]
  dsimp only
  rw [recordBytes_eq_frame sized, Chained.run_bind, written]
  dsimp only
  rw [Chained.run_bind, Chained.run_read]
  dsimp only
  rw [Chained.run_bind, Chained.run_given, seg, offset, size, read]
  dsimp only
  rw [natural, if_neg (by simp)]
  rfl

end Reading
end Holds
end TxLog
end LiteNode
