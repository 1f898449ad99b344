import LiteNode.Chaindata.TxLogCuts

/-!
# Runs of the transaction log

A log is appended to, cut where it ended before, and opened again. As long as
every epoch is stored whole and readers accept every length, what is found in
the log are the records that were appended and not cut.
-/

namespace LiteNode
namespace TxLog

inductive Operation
  | append (epochId : Int) (payload : Bytes)
  | truncate (position : Nat × Nat)
  | reopen

/-- A log with what was appended and not cut, where it ends, and the positions
that it was at and that were not cut since. -/
structure History where
  state : State
  kept : List ScanRecord
  position : Nat × Nat
  positions : List (Nat × Nat)

namespace History

def opened (state : State) : History where
  state := state
  kept := []
  position := (0, headerSize)
  positions := [currentPosition state]

/-- The log goes on from a state, whose position may be asked for. -/
def continued (h : History) (state : State) : History :=
  { h with state, positions := currentPosition state :: h.positions }

def appended (h : History) (location : Location) (epochId : Int) (payload : Bytes) : History :=
  { h with
    kept := h.kept ++ [⟨location.segId, location.offset, location.len, epochId.toNat, payload⟩]
    position := (location.segId, location.offset + 4 + location.len) }

def truncated (h : History) (position : Nat × Nat) : History :=
  { h with
    kept := recordsBefore position h.kept
    position := position
    positions := h.positions.filter fun other => !precedes position other }

section Run

variable (sha256 : Bytes → Bytes)

def step (h : History) : Operation → Except String Unit × History
  | .append epochId payload =>
    match (append sha256 epochId payload).run h.state with
    | (.error reason, state) => (.error reason, h.continued state)
    | (.ok location, state) => (.ok (), (h.appended location epochId payload).continued state)
  | .truncate position =>
    match (truncateTo sha256 position.1 position.2).run h.state with
    | (.error reason, state) => (.error reason, h.continued state)
    | (.ok (), state) => (.ok (), (h.truncated position).continued state)
  | .reopen =>
    match openLog none false (some h.state.folder) with
    | .error reason => (.error reason, h)
    | .ok state => (.ok (), h.continued state)

/-- A log is cut only where it was and was not cut since. -/
def Offered (h : History) : Operation → Prop
  | .truncate position => position ∈ h.positions
  | _ => True

/-- The epoch is stored whole, readers accept the length, and no segment needs
a number that does not fit. -/
def Storable (h : History) : Operation → Prop
  | .append epochId payload =>
    FitsBytes 4 epochId ∧ payload.length + 8 ≤ maxRecordLen ∧
      (maxSegmentSize ≤ h.state.log.currentOffset → h.state.log.currentSeg + 1 < maxSegments)
  | _ => True

/-- A log that started without records, and what was done with it. -/
inductive Reaches : History → Prop
  | start {dir : Option Folder} {state : State} (empty : dir = none ∨ dir = some ∅)
      (opened : openLog none false dir = .ok state) :
      Reaches (.opened state)
  | step {h : History} (reached : Reaches h) (operation : Operation)
      (offered : h.Offered operation) (storable : h.Storable operation) :
      Reaches (h.step sha256 operation).2

end Run

/-! ## What holds in every run -/

/-- The log holds what was kept, and may be cut at its positions. -/
structure Kept (sha256 : Bytes → Bytes) (full : List (List Entry))
    (current : List Entry) (h : History) : Prop where
  holds : Holds sha256 full current h.state
  kept : h.kept = recordsFrom sha256 0 (full ++ [current])
  position : currentPosition h.state = h.position
  boundaries : ∀ position ∈ h.positions, Boundary sha256 (full ++ [current]) position

variable {sha256 : Bytes → Bytes} {full : List (List Entry)}
  {current : List Entry} {s : State} {h : History}

theorem currentPosition_eq (holds : Holds sha256 full current s) :
    currentPosition s = (full.length, (segmentContent sha256 full.length current).length) := by
  unfold currentPosition
  rw [holds.log]
  rfl

theorem boundary_currentPosition (holds : Holds sha256 full current s) :
    Boundary sha256 (full ++ [current]) (currentPosition s) := by
  rw [currentPosition_eq holds]
  exact ⟨current, [], by simp, rfl⟩

theorem kept_opened {dir : Option Folder} (empty : dir = none ∨ dir = some ∅)
    (opened : openLog none false dir = .ok s) : Kept sha256 [] [] (.opened s) := by
  have same : s = ⟨Table.replace ∅ (segPath 0) (header 0), openAt sha256 [] []⟩ := by
    rcases empty with rfl | rfl
    · cases opened
      rfl
    · cases opened
      rfl
  have holds : Holds sha256 [] [] s := by
    rw [same]
    refine Holds.of_find (by decide) (by simp) (by simp) ?_ ?_
    · rw [List.length_nil, Table.find?_replace]
      exact congrArg some (List.append_nil _).symm
    · intro name content found
      rw [Table.find?_replace_eq_ite] at found
      split at found
      · next named => exact ⟨0, le_rfl, named⟩
      · cases found
  refine ⟨holds, rfl, currentPosition_eq holds, ?_⟩
  intro position listed
  rw [List.mem_singleton.mp listed]
  exact boundary_currentPosition holds

/-- An append keeps the positions at which the log can be cut. -/
theorem boundary_append {full' : List (List Entry)} {current' : List Entry}
    {position : Nat × Nat} (entry : Entry) (extended : full' = full ∧ current' = current ∨
      full' = full ++ [current] ∧ current' = [])
    (boundary : Boundary sha256 (full ++ [current]) position) :
    Boundary sha256 (full' ++ [current' ++ [entry]]) position := by
  obtain ⟨kept, dropped, found, ends⟩ := boundary
  have within := (List.getElem?_eq_some_iff.mp found).1
  rw [List.length_append, List.length_singleton] at within
  rcases extended with ⟨rfl, rfl⟩ | ⟨rfl, rfl⟩
  · by_cases early : position.1 < full'.length
    · refine ⟨kept, dropped, ?_, ends⟩
      rw [List.getElem?_append_left early] at found ⊢
      exact found
    · have last : position.1 = full'.length := by omega
      refine ⟨kept, dropped ++ [entry], ?_, ends⟩
      rw [last, List.getElem?_append_right le_rfl, Nat.sub_self] at found ⊢
      cases found
      rw [List.append_assoc]
      rfl
  · refine ⟨kept, dropped, ?_, ends⟩
    rw [List.getElem?_append_left (by
      rw [List.length_append, List.length_singleton]
      omega)]
    exact found

theorem recordsFrom_entry (full : List (List Entry)) (current : List Entry) (entry : Entry) :
    recordsFrom sha256 0 (full ++ [current ++ [entry]]) =
      recordsFrom sha256 0 (full ++ [current]) ++
        [recordOf full.length ((segmentContent sha256 full.length current).length, entry)] := by
  rw [recordsFrom_append, recordsFrom_append, recordsFrom, recordsFrom,
    recordsFrom, recordsFrom, segmentRecords_append, List.append_nil,
    List.append_nil, List.append_assoc, Nat.zero_add]
  rfl

theorem recordsFrom_extended {full' : List (List Entry)} {current' : List Entry}
    (extended : full' = full ∧ current' = current ∨ full' = full ++ [current] ∧ current' = []) :
    recordsFrom sha256 0 (full' ++ [current']) = recordsFrom sha256 0 (full ++ [current]) := by
  rcases extended with ⟨rfl, rfl⟩ | ⟨rfl, rfl⟩
  · rfl
  · rw [recordsFrom_append]
    exact List.append_nil _

/-- A cut keeps the positions that do not lie behind it. -/
theorem boundary_cut {segments : List (List Entry)} {cut position : Nat × Nat}
    {kept dropped : List Entry} (found : segments[cut.1]? = some (kept ++ dropped))
    (ends : cut.2 = (segmentContent sha256 cut.1 kept).length)
    (boundary : Boundary sha256 segments position) (left : precedes cut position = false) :
    Boundary sha256 (segments.take cut.1 ++ [kept]) position := by
  obtain ⟨first, rest, found', ends'⟩ := boundary
  have within := (List.getElem?_eq_some_iff.mp found).1
  have count : (segments.take cut.1).length = cut.1 := by
    rw [List.length_take]
    omega
  have notBehind := Bool.eq_false_iff.mp left
  rw [Ne, precedes_iff] at notBehind
  by_cases early : position.1 < cut.1
  · refine ⟨first, rest, ?_, ends'⟩
    rw [List.getElem?_append_left (by omega), List.getElem?_take_of_lt early]
    exact found'
  · have same : position.1 = cut.1 := by omega
    rw [same] at found' ends'
    rw [found] at found'
    have split := Option.some.inj found'
    rw [ends, ends', length_segmentContent, length_segmentContent] at notBehind
    have shorter : (frames (body sha256) first).length ≤
        (frames (body sha256) kept).length := by omega
    obtain ⟨between, rfl⟩ : ∃ between, kept = first ++ between := by
      rcases List.append_eq_append_iff.mp split with
        ⟨between, rfl, -⟩ | ⟨between, rfl, -⟩
      · cases between with
        | nil => exact ⟨[], by rw [List.append_nil, List.append_nil]⟩
        | cons entry between =>
          rw [frames_append, frames_cons, List.length_append,
            List.length_append, length_frame] at shorter
          omega
      · exact ⟨between, rfl⟩
    refine ⟨first, between, ?_, ?_⟩
    · rw [same, List.getElem?_append_right count.le, count, Nat.sub_self]
      rfl
    · rw [same]
      exact ends'

section Steps

variable (sized : ∀ bytes, (sha256 bytes).length = 32)

include sized

theorem Kept.append (holds : Kept sha256 full current h) {epochId : Int}
    {payload : Bytes} (storable : h.Storable (.append epochId payload)) :
    (h.step sha256 (.append epochId payload)).1 = .ok () ∧
      ∃ full' current', Kept sha256 full' current'
        (h.step sha256 (.append epochId payload)).2 := by
  obtain ⟨epoch, length, room⟩ := storable
  have seg := holds.holds.currentSeg
  have fits : (Entry.mk epochId payload).Fits := ⟨epoch, length⟩
  rw [seg] at room
  obtain ⟨full', current', t, done, opened, extended⟩ := holds.holds.run_append sized fits room
  unfold step
  dsimp only
  rw [done]
  refine ⟨rfl, full', current' ++ [⟨epochId, payload⟩], opened, ?_, ?_, ?_⟩
  · rw [recordsFrom_entry, recordsFrom_extended extended, ← holds.kept]
    rfl
  · refine (currentPosition_eq opened).trans ?_
    have bytes := length_body sized ⟨epochId, payload⟩
    dsimp only [appended, continued] at bytes ⊢
    rw [length_segmentContent, length_segmentContent, frames_append,
      List.length_append, frames_cons, frames_nil, List.append_nil, length_frame, bytes]
    congr 1
    omega
  · intro position listed
    rcases List.mem_cons.mp listed with rfl | former
    · exact boundary_currentPosition opened
    · exact boundary_append _ extended (holds.boundaries position former)

theorem Kept.truncate (holds : Kept sha256 full current h)
    {position : Nat × Nat} (offered : position ∈ h.positions) :
    (h.step sha256 (.truncate position)).1 = .ok () ∧
      ∃ full' current', Kept sha256 full' current' (h.step sha256 (.truncate position)).2 := by
  obtain ⟨kept, dropped, found, ends⟩ := holds.boundaries position offered
  obtain ⟨t, done, cut⟩ := holds.holds.run_truncateTo sized found
  have within := (List.getElem?_eq_some_iff.mp found).1
  have count : ((full ++ [current]).take position.1).length = position.1 := by
    rw [List.length_take]
    omega
  unfold step
  dsimp only
  rw [ends, done]
  refine ⟨rfl, _, kept, cut, ?_, ?_, ?_⟩
  · rw [← recordsBefore_boundary found, ← holds.kept, ← ends]
    rfl
  · refine (currentPosition_eq cut).trans ?_
    rw [count, ← ends]
    rfl
  · intro other listed
    rcases List.mem_cons.mp listed with rfl | former
    · exact boundary_currentPosition cut
    · obtain ⟨former, left⟩ := List.mem_filter.mp former
      refine boundary_cut found ends (holds.boundaries other former) ?_
      simpa using left

omit sized in
theorem Kept.reopen (holds : Kept sha256 full current h) :
    (h.step sha256 .reopen).1 = .ok () ∧ Kept sha256 full current (h.step sha256 .reopen).2 := by
  unfold step
  rw [holds.holds.openLog_eq]
  refine ⟨rfl, holds.holds, holds.kept, holds.position, ?_⟩
  intro position listed
  rcases List.mem_cons.mp listed with rfl | former
  · exact boundary_currentPosition holds.holds
  · exact holds.boundaries position former

theorem Kept.step (holds : Kept sha256 full current h) {operation : Operation}
    (offered : h.Offered operation) (storable : h.Storable operation) :
    (h.step sha256 operation).1 = .ok () ∧
      ∃ full' current', Kept sha256 full' current' (h.step sha256 operation).2 := by
  cases operation with
  | append epochId payload => exact holds.append sized storable
  | truncate position => exact holds.truncate sized offered
  | reopen => exact ⟨holds.reopen.1, full, current, holds.reopen.2⟩

theorem kept_of_reaches (reached : Reaches sha256 h) :
    ∃ full current, Kept sha256 full current h := by
  induction reached with
  | start empty opened => exact ⟨[], [], kept_opened empty opened⟩
  | step reached operation offered storable ih =>
    obtain ⟨full, current, holds⟩ := ih
    exact (holds.step sized offered storable).2

end Steps

/-- A fold that collects what it visits. -/
def collect (records : List ScanRecord) (record : ScanRecord) : Except String (List ScanRecord) :=
  .ok (records ++ [record])

theorem foldlM_collect (before records : List ScanRecord) :
    records.foldlM (visitOrReject collect) before = .ok (before ++ records) := by
  induction records generalizing before with
  | nil => exact congrArg Except.ok (List.append_nil before).symm
  | cons record records ih =>
    rw [List.foldlM_cons, List.append_cons]
    exact ih _

/-- In every run whose records can be stored, a fold visits what was appended
and not cut, each record is read at its place, the position is the end of the
last record or of the cut, and no operation raises. -/
theorem log_of_reaches (sized : ∀ bytes, (sha256 bytes).length = 32)
    (reached : Reaches sha256 h) :
    foldStrict sha256 collect h.state none [] = .ok h.kept ∧
      (∀ (σ : Type) (visit : σ → ScanRecord → Except String σ) (init : σ),
        foldStrict sha256 visit h.state none init = h.kept.foldlM (visitOrReject visit) init) ∧
      (∀ record ∈ h.kept,
        readRecord sha256 h.state
            ⟨record.segment, record.offset, record.length⟩ =
          .ok (record.epoch, record.payload) ∧
        readLocation sha256 h.state.folder
            ⟨record.segment, record.offset, record.length⟩ =
          .ok (record.epoch, record.payload)) ∧
      currentPosition h.state = h.position ∧
      ∀ operation, h.Offered operation → h.Storable operation →
        (h.step sha256 operation).1 = .ok () := by
  obtain ⟨full, current, holds⟩ := kept_of_reaches sized reached
  refine ⟨?_, ?_, ?_, holds.position, ?_⟩
  · rw [holds.holds.foldStrict_eq sized, holds.kept]
    exact foldlM_collect [] _
  · intro σ visit init
    rw [holds.holds.foldStrict_eq sized, holds.kept]
  · intro record listed
    rw [holds.kept] at listed
    exact holds.holds.read_eq sized listed
  · intro operation offered storable
    exact (holds.step sized offered storable).1

namespace TwoAppends

def zeros (_ : Bytes) : Bytes := List.replicate 32 0

def begun : History := .opened ⟨Table.replace ∅ (segPath 0) (header 0), openAt zeros [] []⟩

def first : History := (begun.step zeros (.append 7 [1, 2])).2

def second : History := (first.step zeros (.append 8 [])).2

/-- The second record is cut off. -/
def cut : History := (second.step zeros (.truncate (0, 30))).2

end TwoAppends

open TwoAppends in
theorem log_of_reaches_twoAppends :
    second.kept = [⟨0, 16, 10, 7, [1, 2]⟩, ⟨0, 30, 8, 8, []⟩] ∧
      foldStrict zeros collect cut.state none [] = .ok [⟨0, 16, 10, 7, [1, 2]⟩] ∧
      readRecord zeros cut.state ⟨0, 16, 10⟩ = .ok (7, [1, 2]) ∧
      currentPosition cut.state = (0, 30) := by
  have started : Reaches zeros begun := .start (.inl rfl) rfl
  have reached : Reaches zeros first :=
    started.step _ trivial ⟨⟨by decide, by decide⟩, by decide, by decide⟩
  have reached : Reaches zeros second :=
    reached.step _ trivial ⟨⟨by decide, by decide⟩, by decide, by decide +kernel⟩
  have offered : (0, 30) ∈ second.positions := by decide +kernel
  have reached : Reaches zeros cut := reached.step _ offered trivial
  obtain ⟨fold, -, read, position, -⟩ := log_of_reaches (fun _ => rfl) reached
  have kept : cut.kept = [⟨0, 16, 10, 7, [1, 2]⟩] := by decide +kernel
  rw [kept] at fold read
  refine ⟨by decide +kernel, fold, (read _ List.mem_cons_self).1, ?_⟩
  rw [position]
  decide +kernel

open TwoAppends in
/-- An epoch that does not fit is written before it is refused. -/
theorem append_raises_after_writing :
    (begun.step zeros (.append 4294967296 [])).1 =
        .error (s!"txlog: append readback mismatch seg = 0 " ++
          s!"offset = 16 epoch = 4294967296 stored_epoch = 0") ∧
      foldStrict zeros collect
          (begun.step zeros (.append 4294967296 [])).2.state none [] =
        .ok [⟨0, 16, 8, 0, []⟩] ∧
      (begun.step zeros (.append 4294967296 [])).2.kept = [] := by
  refine ⟨?_, ?_, ?_⟩
  · rfl
  · rfl
  · rfl

end History
end TxLog
end LiteNode
