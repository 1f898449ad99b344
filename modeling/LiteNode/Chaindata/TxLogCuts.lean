import LiteNode.Chaindata.TxLogSteps

/-!
# Cutting and reopening the transaction log

A cut at a boundary leaves the records that lie before it. Opening the files of
a log gives the log that wrote them.
-/

namespace LiteNode
namespace TxLog

section Records

variable {sha256 : Bytes → Bytes} {segments : List (List Entry)}

def ScanRecord.start (record : ScanRecord) : Nat × Nat := (record.segment, record.offset)

def recordsBefore (position : Nat × Nat) (records : List ScanRecord) : List ScanRecord :=
  records.filter fun record => precedes record.start position

theorem recordsBefore_eq_nil {position : Nat × Nat} {records : List ScanRecord}
    (behind : ∀ record ∈ records, precedes record.start position = false) :
    recordsBefore position records = [] := by
  refine List.filter_eq_nil_iff.mpr ?_
  intro record listed
  rw [behind record listed]
  exact Bool.false_ne_true

theorem mem_segmentRecords {segId : Nat} {entries : List Entry}
    {record : ScanRecord} (listed : record ∈ segmentRecords sha256 segId entries) :
    record.segment = segId ∧ record.offset < (segmentContent sha256 segId entries).length := by
  obtain ⟨⟨offset, entry⟩, stands, rfl⟩ := List.mem_map.mp listed
  obtain ⟨before, after, rfl, rfl⟩ := mem_placed.mp stands
  refine ⟨rfl, ?_⟩
  rw [length_segmentContent, frames_append, frames_cons]
  simp only [recordOf, List.length_append, length_frame]
  omega

theorem segmentRecords_append (segId : Nat) (kept dropped : List Entry) :
    segmentRecords sha256 segId (kept ++ dropped) =
      segmentRecords sha256 segId kept ++
        (placed (body sha256) (segmentContent sha256 segId kept).length
          dropped).map (recordOf segId) := by
  unfold segmentRecords
  rw [placed_append, List.map_append, length_segmentContent]

theorem recordsBefore_boundary {segId : Nat} {kept dropped : List Entry}
    (found : segments[segId]? = some (kept ++ dropped)) :
    recordsBefore (segId, (segmentContent sha256 segId kept).length)
        (recordsFrom sha256 0 segments) =
      recordsFrom sha256 0 (segments.take segId ++ [kept]) := by
  obtain ⟨within, same⟩ := List.getElem?_eq_some_iff.mp found
  have split : segments = segments.take segId ++
      ((kept ++ dropped) :: segments.drop (segId + 1)) := by
    rw [← same, List.getElem_cons_drop, List.take_append_drop]
  have count : (segments.take segId).length = segId := by
    rw [List.length_take]
    omega
  have early : ∀ record ∈ recordsFrom sha256 0 (segments.take segId),
      precedes record.start (segId, (segmentContent sha256 segId kept).length) = true := by
    intro record listed
    obtain ⟨other, entries, offset, entry, present, -, rfl⟩ := mem_recordsFrom.mp listed
    have before := (List.getElem?_eq_some_iff.mp present).1
    rw [precedes_iff]
    dsimp only [ScanRecord.start, recordOf]
    omega
  have here : ∀ record ∈ segmentRecords sha256 segId kept,
      precedes record.start (segId, (segmentContent sha256 segId kept).length) = true := by
    intro record listed
    obtain ⟨same, before⟩ := mem_segmentRecords listed
    exact precedes_iff.mpr (.inr ⟨same, before⟩)
  have cut : ∀ record ∈ (placed (body sha256)
      (segmentContent sha256 segId kept).length dropped).map (recordOf segId),
      precedes record.start (segId, (segmentContent sha256 segId kept).length) = false := by
    intro record listed
    obtain ⟨⟨offset, entry⟩, stands, rfl⟩ := List.mem_map.mp listed
    obtain ⟨_, _, -, rfl⟩ := mem_placed.mp stands
    rw [Bool.eq_false_iff, Ne, precedes_iff]
    dsimp only [ScanRecord.start, recordOf]
    omega
  have late : ∀ record ∈ recordsFrom sha256 (segId + 1) (segments.drop (segId + 1)),
      precedes record.start (segId, (segmentContent sha256 segId kept).length) = false := by
    intro record listed
    obtain ⟨other, entries, offset, entry, -, -, rfl⟩ := mem_recordsFrom.mp listed
    rw [Bool.eq_false_iff, Ne, precedes_iff]
    dsimp only [ScanRecord.start, recordOf]
    omega
  conv_lhs => rw [split]
  rw [recordsFrom_append, recordsFrom_append, count, Nat.zero_add, recordsFrom,
    recordsFrom, recordsFrom, List.append_nil, segmentRecords_append]
  unfold recordsBefore at *
  rw [List.filter_append, List.filter_append, List.filter_append,
    List.filter_eq_self.mpr early, List.filter_eq_self.mpr here]
  have none := recordsBefore_eq_nil cut
  have none' := recordsBefore_eq_nil late
  unfold recordsBefore at none none'
  rw [none, none', List.append_nil, List.append_nil]

end Records

namespace Holds

variable {sha256 : Bytes → Bytes} {full : List (List Entry)} {current : List Entry} {s : State}

theorem parse_name (holds : Holds sha256 full current s) {name content : Bytes}
    (found : s.folder.find? name = some content) :
    ∃ segId, segId ≤ full.length ∧ name = segPath segId ∧ parseSegmentId name = some segId := by
  obtain ⟨segId, bounded, rfl⟩ := holds.only name content found
  have few := holds.few
  exact ⟨segId, bounded, rfl, parseSegmentId_segPath (by omega)⟩

theorem mem_names (holds : Holds sha256 full current s) {name : Bytes}
    (listed : name ∈ s.folder.toList.map Prod.fst) :
    ∃ segId, segId ≤ full.length ∧ name = segPath segId ∧ parseSegmentId name = some segId := by
  obtain ⟨⟨name, content⟩, present, rfl⟩ := List.mem_map.mp listed
  exact holds.parse_name (Table.mem_toList.mp present)

theorem foldl_max_eq {numbers : List Nat} {most first : Nat}
    (bounded : ∀ n ∈ numbers, n ≤ most) (small : first ≤ most)
    (reached : most ∈ numbers ∨ first = most) : numbers.foldl max first = most := by
  induction numbers generalizing first with
  | nil =>
    rcases reached with none | same
    · cases none
    · exact same
  | cons n numbers ih =>
    have bound := bounded n List.mem_cons_self
    refine ih
      (fun m listed => bounded m (List.mem_cons_of_mem _ listed))
      (max_le small bound) ?_
    rcases reached with listed | rfl
    · rcases List.mem_cons.mp listed with rfl | listed
      · exact .inr (max_eq_right small)
      · exact .inl listed
    · exact .inr (max_eq_left bound)

theorem findLatestSegment_eq (holds : Holds sha256 full current s) :
    findLatestSegment false (some s.folder) = .ok (full.length, s.folder) := by
  have formed : (s.folder.toList.map Prod.fst).filter (fun name =>
      (parseSegmentId name).isNone && looksLikeSegmentFilename name) = [] := by
    refine List.filter_eq_nil_iff.mpr ?_
    intro name listed
    obtain ⟨segId, -, -, parsed⟩ := holds.mem_names listed
    simp [parsed]
  have stored := holds.stored_current
  have latest : ((s.folder.toList.map Prod.fst).filterMap
      parseSegmentId).foldl max 0 = full.length := by
    refine foldl_max_eq ?_ (Nat.zero_le _) (.inl ?_)
    · intro n listed
      obtain ⟨name, present, parsed⟩ := List.mem_filterMap.mp listed
      obtain ⟨segId, bounded, -, same⟩ := holds.mem_names present
      rw [same] at parsed
      cases parsed
      exact bounded
    · have named : s.log.currentFd = segPath full.length := by
        rw [holds.log]
        rfl
      rw [named] at stored
      refine List.mem_filterMap.mpr ⟨segPath full.length, ?_, parseSegmentId_segPath holds.few⟩
      exact List.mem_map.mpr ⟨_, Table.mem_toList.mpr stored, rfl⟩
  unfold findLatestSegment
  dsimp only
  rw [if_neg (by rw [formed]; simp), latest]

theorem openLog_eq (holds : Holds sha256 full current s) :
    openLog none false (some s.folder) = .ok s := by
  have stored := holds.stored full.length current (by simp)
  have valid := validateHeader_header holds.few (frames (body sha256) current)
  have log := holds.log
  unfold openLog
  rw [holds.findLatestSegment_eq]
  dsimp only [bind, Except.bind, retainedCut]
  unfold openSegment
  rw [stored]
  dsimp only [bind, Except.bind]
  unfold segmentContent
  rw [valid]
  dsimp only
  rw [if_neg (by simp)]
  cases s
  dsimp only at log
  rw [log]
  rfl

theorem find?_removed (names : List Bytes) (folder : Folder) (name : Bytes) :
    (names.foldl Table.remove folder).find? name =
      if name ∈ names then none else folder.find? name := by
  induction names generalizing folder with
  | nil => simp
  | cons other names ih =>
    rw [List.foldl_cons, ih, Table.find?_remove_eq_ite]
    by_cases later : name ∈ names
    · rw [if_pos later, if_pos (List.mem_cons_of_mem _ later)]
    · rw [if_neg later]
      by_cases same : name = other
      · rw [if_pos same, if_pos (same ▸ List.mem_cons_self)]
      · rw [if_neg same, if_neg]
        intro listed
        rcases List.mem_cons.mp listed with equal | listed
        · exact same equal
        · exact later listed

theorem laterSegments_eq (holds : Holds sha256 full current s) (segId : Nat) :
    ∃ later, laterSegments s.folder segId = .ok later ∧
      ∀ other content, other ≤ full.length → s.folder.find? (segPath other) = some content →
        (segPath other ∈ later ↔ segId < other) := by
  have few := holds.few
  unfold laterSegments
  rw [if_pos]
  · refine ⟨_, rfl, ?_⟩
    intro other content bounded found
    have listed : segPath other ∈ s.folder.toList.map Prod.fst :=
      List.mem_map.mpr ⟨_, Table.mem_toList.mpr found, rfl⟩
    rw [List.mem_filter, parseSegmentId_segPath (by omega)]
    simp [listed]
  · rw [List.all_eq_true]
    intro name listed
    obtain ⟨other, -, named, parsed⟩ := holds.mem_names (List.mem_filter.mp listed).1
    rw [parsed, named]
    simp

theorem foldlM_ok {items : List ScanRecord} :
    items.foldlM (visitOrReject fun (_ : Unit) _ => .ok ()) () = .ok () := by
  induction items with
  | nil => rfl
  | cons item items ih => exact ih

/-- A cut at a boundary leaves the segments up to it. -/
theorem run_truncateTo (sized : ∀ bytes, (sha256 bytes).length = 32)
    (holds : Holds sha256 full current s) {segId : Nat} {kept dropped : List Entry}
    (found : (full ++ [current])[segId]? = some (kept ++ dropped)) :
    ∃ t, (truncateTo sha256 segId
        (segmentContent sha256 segId kept).length).run s = (.ok (), t) ∧
      Holds sha256 ((full ++ [current]).take segId) kept t := by
  obtain ⟨later, listed, greater⟩ := holds.laterSegments_eq segId
  have stored := holds.stored segId _ found
  have few := holds.few
  have within := (List.getElem?_eq_some_iff.mp found).1
  rw [List.length_append, List.length_singleton] at within
  have count : ((full ++ [current]).take segId).length = segId := by
    rw [List.length_take, List.length_append, List.length_singleton]
    omega
  have shorter : (segmentContent sha256 segId (kept ++ dropped)).take
      (segmentContent sha256 segId kept).length = segmentContent sha256 segId kept := by
    unfold segmentContent
    rw [frames_append, ← List.append_assoc, List.take_left]
  have own : segPath segId ∉ later := fun member =>
    absurd ((greater segId _ (by omega) stored).mp member) (lt_irrefl _)
  have cut : Holds sha256 ((full ++ [current]).take segId) kept
      ⟨later.foldl Table.remove (s.folder.replace (segPath segId)
        (segmentContent sha256 segId kept)),
        openAt sha256 ((full ++ [current]).take segId) kept⟩ := by
    refine of_find (by omega) ?_ ?_ ?_ ?_
    · intro entries listed entry present
      rcases List.mem_append.mp listed with former | last
      · exact holds.fits entries (List.mem_of_mem_take former) entry present
      · rw [List.mem_singleton.mp last] at present
        exact holds.fits _ (List.mem_of_getElem? found) entry (List.mem_append_left _ present)
    · intro other entries listed
      have early := (List.getElem?_eq_some_iff.mp listed).1
      rw [List.getElem?_take_of_lt (by omega)] at listed
      have stored' := holds.stored other entries listed
      have kept' : segPath other ∉ later := fun member => by
        have late := (greater other _ (by omega) stored').mp member
        omega
      have apart : segPath other ≠ segPath segId := fun same => by
        have equal := segPath_inj (by omega) (by omega) same
        omega
      rw [find?_removed, if_neg kept', Table.find?_replace_ne apart]
      exact stored'
    · rw [count, find?_removed, if_neg own, Table.find?_replace]
    · intro name content present
      rw [find?_removed] at present
      split at present
      · cases present
      · next kept' =>
        rw [Table.find?_replace_eq_ite] at present
        split at present
        · next same => exact ⟨segId, by omega, same⟩
        · obtain ⟨other, bounded, rfl⟩ := holds.only name content present
          have early := (greater other content bounded present).not.mp kept'
          exact ⟨other, by omega, rfl⟩
  refine ⟨_, ?_, cut⟩
  unfold truncateTo
  rw [Chained.run_bind, Chained.run_read]
  dsimp only
  rw [if_neg holds.writable, if_neg (by rw [holds.uncut]; simp),
    holds.foldStrict_cut sized found, foldlM_ok]
  rw [Chained.run_bind, Chained.run_given, listed]
  dsimp only
  rw [Chained.run_bind, Chained.run_given, openFile, stored]
  dsimp only
  rw [Chained.run_modify, shorter, holds.log, openAt, openAt, count]

end Holds
end TxLog
end LiteNode
