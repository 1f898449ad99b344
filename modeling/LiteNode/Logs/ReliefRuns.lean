import LiteNode.Duty.Transparency
import LiteNode.Logs.ReliefRecords

/-!
# Runs of the log of relief marks

The store on disk replies as the one in memory does, as long as a first mark of
a height is only kept while there is room for it and its record can be read.
-/

namespace LiteNode
namespace Relief

open Files Fallible

inductive Call
  | keep (mark : Mark)
  | latest (listing : Listing) (throughHeight : Int)
  | prune (listing : Listing) (throughEpoch : Int)

inductive Reply
  | kept (result : Except Fault Mark)
  | latest (result : Except Fault (Option Mark))
  | pruned (result : Except Fault Unit)

def stepMemory (marks : Memory) : Call → Memory × Reply
  | .keep mark =>
    let (after, result) := keepMemory marks mark
    (after, .kept result)
  | .latest _ throughHeight => (marks, .latest (latestMemory marks throughHeight))
  | .prune _ throughEpoch => (pruneMemory marks throughEpoch, .pruned (.ok ()))

/-- The table after some calls. -/
def runMemory (marks : Memory) (calls : List Call) : Memory :=
  calls.foldl (fun marks call => (stepMemory marks call).1) marks

def repliesMemory : Memory → List Call → List Reply
  | _, [] => []
  | marks, call :: rest =>
    (stepMemory marks call).2 :: repliesMemory (stepMemory marks call).1 rest

section Disk

variable (texts : Texts) (pid : Int)

def stepDisk (files : Files) : Call → Files × Reply
  | .keep mark =>
    (final (keepDisk texts pid mark) files, .kept (outcome (keepDisk texts pid mark) files))
  | .latest listing throughHeight =>
    (final (latestDisk texts listing throughHeight) files,
      .latest (outcome (latestDisk texts listing throughHeight) files))
  | .prune listing throughEpoch =>
    (final (pruneDisk texts listing throughEpoch) files,
      .pruned (outcome (pruneDisk texts listing throughEpoch) files))

/-- The files after some calls. -/
def runDisk (files : Files) (calls : List Call) : Files :=
  calls.foldl (fun files call => (stepDisk texts pid files call).1) files

def repliesDisk : Files → List Call → List Reply
  | _, [] => []
  | files, call :: rest =>
    (stepDisk texts pid files call).2 :: repliesDisk (stepDisk texts pid files call).1 rest

/-- Marks of heights that are not negative, within the limits of the codec. -/
def Admissible : Call → Prop
  | .keep mark => 0 ≤ mark.height ∧ Encodable mark
  | .latest _ _ => True
  | .prune _ _ => True

/-- There is room for the first mark of a height, and its record can be
read. -/
def Spared (marks : Memory) : Call → Prop
  | .keep mark => marks.find? mark.height = none →
      marks.length < maxMarks ∧ (encode texts mark).length ≤ maxWireBytes
  | .latest _ _ => True
  | .prune _ _ => True

/-- Calls that each meet a condition on the table before them. -/
def Meets (condition : Memory → Call → Prop) : Memory → List Call → Prop
  | _, [] => True
  | marks, call :: rest =>
    Admissible call ∧ condition marks call ∧ Meets condition (stepMemory marks call).1 rest

theorem Meets.mono {condition : Memory → Call → Prop} {marks : Memory}
    {calls : List Call} (meets : Meets condition marks calls) :
    Meets (fun _ _ => True) marks calls := by
  induction calls generalizing marks with
  | nil => exact trivial
  | cons call rest ih => exact ⟨meets.1, trivial, ih meets.2.2⟩

/-- Calls that do not prune a mark. -/
def Spares (mark : Mark) (calls : List Call) : Prop :=
  ∀ listing throughEpoch, Call.prune listing throughEpoch ∈ calls →
    expired throughEpoch mark = false

/-- A mark within the limits of the codec that is stored on disk. -/
structure Stored (files : Files) (mark : Mark) : Prop where
  nonneg : 0 ≤ mark.height
  encodable : Encodable mark
  found : files.find? (recordPath mark.height) = some (.regular (encode texts mark))

/-- What the two stores have in common after the same calls, of which the
further ones meet the condition as well. -/
structure Agree (condition : Memory → Call → Prop) (marks : Memory) (files : Files) : Prop where
  /-- They reply alike. -/
  replies : ∀ calls, Meets condition marks calls →
    repliesDisk texts pid files calls = repliesMemory marks calls
  /-- A height has one mark until that is pruned. -/
  once : ∀ mark saved, Admissible (.keep mark) → condition marks (.keep mark) →
    (stepMemory marks (.keep mark)).2 = .kept (.ok saved) →
    ∀ later, Meets condition (stepMemory marks (.keep mark)).1 later →
      Spares saved later → ∀ other, other.height = mark.height → Admissible (.keep other) →
        (stepMemory (runMemory marks (.keep mark :: later)) (.keep other)).2 =
            .kept (if samePlan saved other then .ok saved
              else .error (.refused "relief log plan conflicts")) ∧
          (stepDisk texts pid (runDisk texts pid files (.keep mark :: later))
            (.keep other)).2 =
            .kept (if samePlan saved other then .ok saved
              else .error (.refused "relief log plan conflicts"))
  /-- The latest mark has the greatest height that is not above the one in
  question. -/
  latest : ∀ listing throughHeight, ∃ best,
    (stepDisk texts pid files (.latest listing throughHeight)).2 = .latest (.ok best) ∧
      (stepMemory marks (.latest listing throughHeight)).2 = .latest (.ok best) ∧
      IsLatest (Stored texts files) throughHeight best
  /-- Exactly the expired marks are pruned. -/
  pruned : ∀ listing throughEpoch mark,
    (Stored texts (stepDisk texts pid files (.prune listing throughEpoch)).1
        mark ↔
      Stored texts files mark ∧ expired throughEpoch mark = false) ∧
    ((stepMemory marks (.prune listing throughEpoch)).1.find? mark.height = some mark ↔
      marks.find? mark.height = some mark ∧ expired throughEpoch mark = false)
  /-- The stored marks are the marks of the table, and can be read back. -/
  stored : ∀ mark, Stored texts files mark ↔ marks.find? mark.height = some mark
  exact : ∀ mark, Stored texts files mark → decode texts (encode texts mark) = .ok mark

end Disk

section Agreement

variable {texts : Texts} {marks : Memory} {files : Files} {mark : Mark} {pid : Int}

theorem stored_iff (printing : Printing texts) (same : Matches texts marks files) :
    Stored texts files mark ↔ marks.find? mark.height = some mark := by
  constructor
  · intro stored
    rcases same.entry _ _ stored.found with top | ⟨other, known, place⟩
    · exact absurd top recordPath_ne_root
    · obtain ⟨_, storable, record⟩ := same.mark _ _ known
      have heights := name_inj stored.encodable.height
        storable.encodable.height (List.cons.inj place).1
      rw [← heights, stored.found] at record
      have wires := Node.regular.inj (Option.some.inj record)
      have decoded := decode_encode printing.faithful stored.encodable
      rw [wires, decode_encode printing.faithful storable.encodable] at decoded
      rwa [← Except.ok.inj decoded]
  · intro found
    obtain ⟨_, storable, record⟩ := same.mark _ _ found
    exact ⟨storable.nonneg, storable.encodable, record⟩

/-- Stores that stand for each other, with few enough marks to be listed. -/
structure Safe (texts : Texts) (marks : Memory) (files : Files) : Prop where
  same : Matches texts marks files
  few : marks.length ≤ maxMarks

theorem safe_start : Safe texts ∅ ∅ where
  same := {
    root := Or.inr ⟨by simp, by simp⟩
    entry := by simp
    mark := by simp }
  few := by simp

/-- The reply about a height that has a mark. -/
def replyFound (saved mark : Mark) : Reply :=
  .kept (if samePlan saved mark then .ok saved else .error (.refused "relief log plan conflicts"))

theorem Safe.step_found (printing : Printing texts) (safe : Safe texts marks files) {saved : Mark}
    (found : marks.find? mark.height = some saved) (pid : Int) :
    stepDisk texts pid files (.keep mark) = (files, replyFound saved mark) ∧
      stepMemory marks (.keep mark) = (marks, replyFound saved mark) := by
  have run := keepDisk_found printing safe.same found pid
  have outcome : outcome (keepDisk texts pid mark) files =
      if samePlan saved mark then .ok saved
      else .error (.refused "relief log plan conflicts") := by
    rw [Fallible.outcome, Durable.outcome, ExceptT.run, run]
  have final : final (keepDisk texts pid mark) files = files := by
    rw [Fallible.final, Durable.final, ExceptT.run, run]
    rfl
  constructor
  · simp only [stepDisk, outcome, final, replyFound]
  · simp only [stepMemory, keepMemory, found, replyFound]
    split <;> rfl

/-- One call has one reply and keeps the stores alike. -/
theorem Safe.step (printing : Printing texts) (safe : Safe texts marks files)
    {call : Call} (admissible : Admissible call) (spared : Spared texts marks call) :
    (stepDisk texts pid files call).2 = (stepMemory marks call).2 ∧
      Safe texts (stepMemory marks call).1 (stepDisk texts pid files call).1 := by
  cases call with
  | keep mark =>
    cases found : marks.find? mark.height with
    | none =>
      obtain ⟨room, small⟩ := spared found
      have storable : Storable texts mark := ⟨admissible.2, admissible.1, small⟩
      obtain ⟨⟨saved, done, rfl, matching⟩, _⟩ :=
        keepDisk_succeeds safe.same storable found pid _ rfl
      have kept : keepMemory marks saved = (marks.replace saved.height saved, .ok saved) := by
        rw [keepMemory, found]
        exact if_neg (by omega)
      simp only [stepDisk, stepMemory, kept, done]
      refine ⟨trivial, matching, ?_⟩
      rw [Table.length_replace_of_find?_eq_none found]
      omega
    | some saved =>
      obtain ⟨disk, memory⟩ := safe.step_found printing found pid
      rw [disk, memory]
      exact ⟨rfl, safe⟩
  | latest listing throughHeight =>
    obtain ⟨best, returns, memory, _⟩ := latestDisk_returns printing safe.same
      safe.few listing throughHeight
    simp only [stepDisk, stepMemory, returns.outcome, returns.final, memory]
    exact ⟨trivial, safe⟩
  | prune listing throughEpoch =>
    obtain ⟨⟨_, done, matching⟩, _⟩ := pruneDisk_succeeds printing safe.same
      safe.few listing throughEpoch _ rfl
    simp only [stepDisk, stepMemory, done]
    refine ⟨trivial, matching, ?_⟩
    exact le_trans (Table.length_filterValues_le _ _) safe.few

theorem Safe.run (printing : Printing texts) {calls : List Call}
    (safe : Safe texts marks files) (meets : Meets (Spared texts) marks calls) :
    repliesDisk texts pid files calls = repliesMemory marks calls ∧
      Safe texts (runMemory marks calls) (runDisk texts pid files calls) := by
  induction calls generalizing marks files with
  | nil => exact ⟨rfl, safe⟩
  | cons call rest ih =>
    obtain ⟨admissible, spared, later⟩ := meets
    obtain ⟨alike, after⟩ := safe.step printing admissible spared
    obtain ⟨replies, last⟩ := ih after later
    refine ⟨?_, last⟩
    rw [repliesDisk, repliesMemory, alike, replies]

/-- A mark stays as long as it is not pruned. -/
theorem find?_runMemory {height : Int} {calls : List Call}
    (found : marks.find? height = some mark) (place : mark.height = height)
    (spares : Spares mark calls) : (runMemory marks calls).find? height = some mark := by
  induction calls generalizing marks with
  | nil => exact found
  | cons call rest ih =>
    have later : Spares mark rest := fun listing throughEpoch member =>
      spares listing throughEpoch (List.mem_cons_of_mem _ member)
    apply ih _ later
    cases call with
    | keep other =>
      simp only [stepMemory, keepMemory]
      split
      · next saved known => split <;> exact found
      · next unknown =>
        split
        · exact found
        · rw [Table.find?_replace_ne, found]
          rintro rfl
          rw [unknown] at found
          cases found
    | latest listing throughHeight => exact found
    | prune listing throughEpoch =>
      have alive := spares listing throughEpoch List.mem_cons_self
      simp only [stepMemory, pruneMemory]
      rw [Table.find?_filterValues, found]
      simp [alive]

theorem find?_of_kept {saved : Mark} (valid : ∀ height mark, marks.find? height = some mark →
      mark.height = height) (kept : (stepMemory marks (.keep mark)).2 = .kept (.ok saved)) :
    (stepMemory marks (.keep mark)).1.find? mark.height = some saved ∧
      saved.height = mark.height := by
  simp only [stepMemory, keepMemory] at kept ⊢
  split at kept
  · next prior known =>
    split at kept
    · next plan =>
      cases kept
      rw [if_pos plan]
      exact ⟨known, valid _ _ known⟩
    · cases kept
  · next unknown =>
    split at kept
    · cases kept
    · next room =>
      cases kept
      rw [if_neg room]
      exact ⟨Table.find?_replace _ _ _, rfl⟩

theorem Safe.agree (printing : Printing texts) (safe : Safe texts marks files) :
    Agree texts pid (Spared texts) marks files where
  replies := fun calls meets => (safe.run printing meets).1
  once := by
    intro mark saved admissible spared kept later meets spares other height _
    obtain ⟨found, place⟩ := find?_of_kept
      (fun height mark known => (safe.same.mark height mark known).1) kept
    have after := (@Safe.run texts marks files pid printing
      (.keep mark :: later) safe ⟨admissible, spared, meets⟩).2
    have stays := find?_runMemory found place spares
    rw [← height] at stays
    obtain ⟨disk, memory⟩ := after.step_found printing stays pid
    exact ⟨congrArg Prod.snd memory, congrArg Prod.snd disk⟩
  latest := by
    intro listing throughHeight
    obtain ⟨best, returns, memory, isLatest⟩ := latestDisk_returns printing
      safe.same safe.few listing throughHeight
    refine ⟨best, by simp only [stepDisk, returns.outcome], by simp only [stepMemory, memory], ?_⟩
    have members : Stored texts files =
        fun mark => marks.find? mark.height = some mark :=
      funext fun mark => propext (stored_iff printing safe.same)
    rwa [members]
  pruned := by
    intro listing throughEpoch mark
    obtain ⟨⟨_, _, matching⟩, _⟩ := pruneDisk_succeeds printing safe.same
      safe.few listing throughEpoch _ rfl
    have kept : (pruneMemory marks throughEpoch).find? mark.height =
        some mark ↔ marks.find? mark.height = some mark ∧ expired throughEpoch mark = false := by
      rw [pruneMemory, Table.find?_filterValues, Option.filter_eq_some_iff]
      simp
    refine ⟨?_, kept⟩
    rw [stored_iff printing safe.same, ← kept]
    exact stored_iff printing matching
  stored := fun mark => stored_iff printing safe.same
  exact := fun mark stored => decode_encode printing.faithful stored.encodable

/-- As long as first marks are kept only while there is room and their records
can be read, memory and disk agree. -/
theorem agree_of_run (printing : Printing texts) (pid : Int)
    (calls : List Call) (meets : Meets (Spared texts) ∅ calls) :
    repliesDisk texts pid ∅ calls = repliesMemory ∅ calls ∧
      Agree texts pid (Spared texts) (runMemory ∅ calls) (runDisk texts pid ∅ calls) := by
  obtain ⟨replies, safe⟩ := safe_start.run printing meets
  exact ⟨replies, safe.agree printing⟩

end Agreement

namespace Crowded

def texts : Texts := SetFold.plainTexts

def mark (height : Nat) : Mark where
  height := height
  round := 100
  activateEpoch := 200
  sourceHash := List.replicate 32 1
  targetHash := List.replicate 32 2
  fingerprint := [102]
  proof := []

/-- The first marks of heights in a row. -/
def keeps (start count : Nat) : List Call :=
  (List.range' start count).map fun height => .keep (mark height)

theorem encodable {height : Nat} (fits : height < 100) : Encodable (mark height) where
  height := ⟨by simp [mark, int64Bits], by simp [mark, int64Bits]; omega⟩
  activateEpoch := ⟨by simp [mark, int64Bits], by simp [mark, int64Bits]⟩
  sourceHash := by simp [mark]
  targetHash := by simp [mark]
  proof := by simp [mark]

theorem printing : Printing texts where
  faithful := SetFold.faithful_plainTexts
  nonempty := by
    intro json exact
    cases exact with
    | null => simp [texts, SetFold.plainTexts, Json.write, Bytes.ofAscii]
    | bool value => cases value <;> simp [texts, SetFold.plainTexts, Json.write, Bytes.ofAscii]
    | int value =>
      simp only [texts, SetFold.plainTexts, Json.write, intToString]
      split
      · simp
      · exact decimal_ne_nil _
    | string value => simp [texts, SetFold.plainTexts, Json.write, Json.writeString]
    | list | assoc => simp [texts, SetFold.plainTexts, Json.write]

def fieldTexts (height : Nat) : List Bytes :=
  [Json.writeString (Json.nameBytes "standard") ++
      58 :: Json.writeString (Bytes.ofAscii "octra-consensus-relief"),
    Json.writeString (Json.nameBytes "height") ++ 58 :: Json.writeString (intToString height),
    Json.writeString (Json.nameBytes "round") ++ 58 :: intToString 100,
    Json.writeString (Json.nameBytes "activate_epoch") ++ 58 :: Json.writeString (intToString 200),
    Json.writeString (Json.nameBytes "source_hash") ++
      58 :: Json.writeString (hex (List.replicate 32 1)),
    Json.writeString (Json.nameBytes "target_hash") ++
      58 :: Json.writeString (hex (List.replicate 32 2)),
    Json.writeString (Json.nameBytes "fingerprint") ++ 58 :: Json.writeString [102],
    Json.writeString (Json.nameBytes "proof") ++ 58 :: 91 :: (Json.joined [] ++ [93])]

theorem small {height : Nat} (fits : height < 100) :
    (encode texts (mark height)).length ≤ maxWireBytes := by
  have text : encode texts (mark height) = 123 :: (Json.joined (fieldTexts height) ++ [125]) := by
    simp [encode, markJson, texts, SetFold.plainTexts, Json.write, mark, fieldTexts]
  have bounded : ∀ height < 100, (123 :: (Json.joined (fieldTexts height) ++ [125])).length ≤
        maxWireBytes := by
    decide +kernel
  rw [text]
  exact bounded height fits

theorem meets {start count : Nat} {marks : Memory}
    (room : marks.length + count ≤ maxMarks) (few : start + count ≤ 100)
    (fresh : ∀ height : Nat, start ≤ height → marks.find? height = none) :
    Meets (Spared texts) marks (keeps start count) := by
  induction count generalizing start marks with
  | zero => exact trivial
  | succ count ih =>
    have unmarked : marks.find? (mark start).height = none := fresh start (le_refl _)
    have kept : (stepMemory marks (.keep (mark start))).1 =
        marks.replace (mark start).height (mark start) := by
      simp only [stepMemory, keepMemory, unmarked]
      rw [if_neg (by omega)]
    refine ⟨⟨by simp [mark], encodable (by omega)⟩, fun _ => ⟨by omega, small (by omega)⟩, ?_⟩
    rw [kept]
    apply ih
    · rw [Table.length_replace_of_find?_eq_none unmarked]
      omega
    · omega
    · intro height later
      rw [Table.find?_replace_ne, fresh height (by omega)]
      simp [mark]
      omega

end Crowded

open Crowded in
/-- Memory refuses the mark that is one too many, and disk keeps it. -/
theorem not_agree :
    ∃ calls extra, Meets (fun _ _ => True) ∅ calls ∧ Admissible (.keep extra) ∧
      (stepMemory (runMemory ∅ calls) (.keep extra)).2 =
        .kept (.error (.refused "relief log record limit exceeded")) ∧
      (stepDisk texts 1 (runDisk texts 1 ∅ calls) (.keep extra)).2 = .kept (.ok extra) ∧
      ¬ Agree texts 1 (fun _ _ => True) (runMemory ∅ calls) (runDisk texts 1 ∅ calls) := by
  have spared : Meets (Spared texts) ∅ (keeps 0 64) :=
    meets (by simp [maxMarks]) (by decide) (by simp)
  have safe := (@Safe.run texts ∅ ∅ 1 printing _ safe_start spared).2
  have full : maxMarks ≤ (runMemory ∅ (keeps 0 64)).length := by decide +kernel
  have unmarked : (runMemory ∅ (keeps 0 64)).find? (mark 64).height = none := by decide +kernel
  have memory : (stepMemory (runMemory ∅ (keeps 0 64))
      (.keep (mark 64))).2 = .kept (.error (.refused "relief log record limit exceeded")) := by
    simp only [stepMemory, keepMemory, unmarked]
    rw [if_pos full]
  have storable : Storable texts (mark 64) :=
    ⟨encodable (by decide), by simp [mark], small (by decide)⟩
  obtain ⟨⟨saved, done, kept, _⟩, _⟩ := keepDisk_succeeds safe.same storable unmarked 1 _ rfl
  have disk : (stepDisk texts 1 (runDisk texts 1 ∅ (keeps 0 64))
      (.keep (mark 64))).2 = .kept (.ok (mark 64)) := by
    rw [kept] at done
    exact congrArg Reply.kept done
  have admissible : Admissible (.keep (mark 64)) := ⟨storable.nonneg, storable.encodable⟩
  refine ⟨keeps 0 64, mark 64, spared.mono, admissible, memory, disk, ?_⟩
  intro agree
  have replies := agree.replies [.keep (mark 64)] ⟨admissible, trivial, trivial⟩
  rw [repliesDisk, repliesMemory, disk, memory] at replies
  cases replies

namespace OneMark

open Crowded

def inOrder : Listing := ⟨id, List.Perm.refl⟩

/-- A mark is kept, found and pruned. -/
def calls : List Call := [.keep (mark 7), .latest inOrder 9, .prune inOrder 300]

end OneMark

open Crowded OneMark in
theorem agree_of_run_oneMark :
    repliesDisk texts 1 ∅ calls = repliesMemory ∅ calls ∧
      Agree texts 1 (Spared texts) (runMemory ∅ calls) (runDisk texts 1 ∅ calls) :=
  agree_of_run printing 1 calls
    ⟨⟨by simp [mark], encodable (by decide)⟩,
      fun _ => ⟨by simp [maxMarks], small (by decide)⟩,
      trivial, trivial, trivial, trivial, trivial⟩

end Relief
end LiteNode
