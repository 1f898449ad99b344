import LiteNode.Logs.SyncKeeping
import LiteNode.Types.Hashing

/-!
# Histories of the log of round syncs

A history is made of calls that keep syncs, some of which end in a crash. As
long as no crash leaves a cut record or more records than can be loaded, the log
can be loaded after each of them, it has what was kept, and the next syncs can
be kept.
-/

namespace LiteNode
namespace SyncLog

open Files Fallible

/-- The log, the syncs that were to be kept, and those that were. -/
structure History where
  files : Files
  calls : List RoundSync
  kept : List RoundSync

/-- A call that keeps a sync, or that a crash cuts short. -/
inductive Event
  | keep (listing : Listing) (sync : RoundSync)
  | crash (listing : Listing) (sync : RoundSync) (left : Files)

def Event.sync : Event → RoundSync
  | .keep _ sync => sync
  | .crash _ sync _ => sync

section Histories

variable (sha256 : Bytes → Bytes) (client : Client)

def History.step (history : History) : Event → History
  | .keep listing sync =>
    let run := keepDisk sha256 listing client.verify sync
    { files := run.final history.files
      calls := sync :: history.calls
      kept :=
        match run.outcome history.files with
        | .ok stored => stored :: history.kept
        | .error _ => history.kept }
  | .crash _ sync left => { history with files := left, calls := sync :: history.calls }

/-- Syncs of one validator whose rounds do not decrease within an epoch; a
crash leaves a state that the call passes through. -/
structure Admissible (history : History) (event : Event) : Prop where
  chainId : event.sync.chainId = client.chainId
  validator : event.sync.validator = client.validator
  fits : FitsBits 64 event.sync.epochId
  inOrder : ∀ call ∈ history.calls, call.epochId = event.sync.epochId →
    call.round ≤ event.sync.round
  possible : ∀ listing sync left, event = .crash listing sync left →
    left ∈ (keepDisk sha256 listing client.verify sync).crashes history.files

/-- Ids that the codec can read back. -/
structure Readable (sync : RoundSync) : Prop where
  chainId : (sync.chainId.length : Int) ≤ RoundSync.maxChainIdBytes
  validator : (sync.validator.length : Int) ≤ RoundSync.maxAddrBytes

/-- A crash that leaves a record whole or as it was, and no more records than
can be loaded. -/
structure Clean (files : Files) (sync : RoundSync) (left : Files) : Prop where
  whole : ∀ content, left.find? (recordPath sha256 sync) = some (.regular content) →
      files.find? (recordPath sha256 sync) = some (.regular content) ∨ content = sync.encode
  few : (left.names (epochPath sync.epochId)).length ≤ maxRecords

structure Spared (history : History) (event : Event) : Prop where
  readable : valid event.sync = true → client.verify event.sync = true → Readable event.sync
  clean : ∀ listing sync left, event = .crash listing sync left →
    Clean sha256 history.files sync left

/-- Histories whose events meet a condition. -/
inductive Reached (condition : History → Event → Prop) : History → Prop
  | start : Reached condition ⟨∅, [], []⟩
  | next {history : History} {event : Event} (reached : Reached condition history)
      (admissible : Admissible sha256 client history event) (meets : condition history event) :
      Reached condition (history.step sha256 client event)

/-- A log that can be loaded, that has every sync whose round is kept, and
where the next syncs can be kept. -/
structure Recovers (history : History) : Prop where
  loads : ∀ listing epochId, FitsBits 64 epochId → ∃ syncs,
    (loadDisk sha256 listing client epochId).outcome history.files = .ok syncs ∧
      syncs.Pairwise (fun left right => (compareSync left right).isLE) ∧
      ∀ stored ∈ history.kept, stored.epochId = epochId →
        (∀ last ∈ syncs, floor last.round ≤ stored.round) → stored ∈ syncs
  keeps : ∀ listing sync, Admissible sha256 client history (.keep listing sync) →
      valid sync = true → client.verify sync = true → Readable sync →
      ∃ stored, (keepDisk sha256 listing client.verify sync).outcome
          history.files = .ok stored ∧ same stored sync = true

/-- What every step keeps. -/
structure Safe (history : History) : Prop where
  sound : Sound sha256 client history.calls history.files
  room : ∀ epochId, FitsBits 64 epochId →
    (history.files.names (epochPath epochId)).length ≤ maxRecords
  kept : ∀ stored ∈ history.kept, Recorded sha256 client history.files stored ∨
      ∃ last, Recorded sha256 client history.files last ∧
        last.epochId = stored.epochId ∧ stored.round < floor last.round

end Histories

section Recovery

variable {sha256 : Bytes → Bytes} {client : Client} {history : History}
  {files left : Files} {calls : List RoundSync} {sync : RoundSync}

theorem floor_le {round : Int} (nonneg : 0 ≤ round) : floor round ≤ round := by
  simp only [floor, syncHistoryLimit, maxSyncAhead]
  omega

theorem floor_mono {round round' : Int} (before : round ≤ round') : floor round ≤ floor round' := by
  simp only [floor]
  omega

/-- A sync is not over in its own round. -/
theorem Trimming.recorded_self {treated : List Bytes} (storable : Storable client sync)
    (trimming : Trimming sha256 client (written sha256 files sync sync.encode)
      sync.epochId sync.round treated left) :
    Recorded sha256 client left sync := by
  have whole : Recorded sha256 client (written sha256 files sync sync.encode)
      sync := ⟨storable, Table.find?_replace _ _ _⟩
  rcases trimming.others (recordPath sha256 sync) with same |
    ⟨_, old, recorded, _, ended, _, paths⟩
  · exact ⟨storable, by rw [same, whole.found]⟩
  · rw [← whole.eq recorded paths] at ended
    have low := floor_le (valid_iff.mp storable.valid).2.2.1
    omega

theorem Left.sound (kind : Left sha256 client files sync left)
    (sound : Sound sha256 client calls files) (storable : Storable client sync)
    (whole : ∀ content, left.find? (recordPath sha256 sync) = some (.regular content) →
        files.find? (recordPath sha256 sync) = some (.regular content) ∨ content = sync.encode) :
    Sound sha256 client (sync :: calls) left := by
  have more : ∀ call ∈ calls, call ∈ sync :: calls := fun _ => List.mem_cons_of_mem _
  cases kind with
  | untouched same => exact same ▸ sound.mono more
  | rooted same => exact same ▸ sound.ensured_root.mono more
  | opened same => exact same ▸ (sound.opened sync).1.mono more
  | cut content same absent =>
    have found : left.find? (recordPath sha256 sync) = some (.regular content) := by
      rw [same]
      exact Table.find?_replace _ _ _
    rcases whole content found with former | rfl
    · rw [absent] at former
      cases former
    · exact same ▸ sound.written storable absent
  | trimmed treated absent trimming => exact (sound.written storable absent).trimmed trimming

theorem Recorded.written {other : RoundSync} (recorded : Recorded sha256 client files other)
    (absent : files.find? (recordPath sha256 sync) = none) (content : Bytes) :
    Recorded sha256 client (written sha256 files sync content) other := by
  refine ⟨recorded.storable, ?_⟩
  rw [SyncLog.written, Table.find?_replace_ne, find?_opened_record, recorded.found]
  intro same
  have found := recorded.found
  rw [same, absent] at found
  cases found

/-- A record stays, or its round is over. -/
theorem Left.recorded {other : RoundSync} (kind : Left sha256 client files sync left)
    (storable : Storable client sync) (recorded : Recorded sha256 client files other) :
    Recorded sha256 client left other ∨
      Recorded sha256 client left sync ∧ other.epochId = sync.epochId ∧
        other.round < floor sync.round := by
  cases kind with
  | untouched same => exact Or.inl (same ▸ recorded)
  | rooted same =>
    refine Or.inl ⟨recorded.storable, ?_⟩
    rw [same, recordPath, find?_ensured, if_neg fun made => entry_ne_root made.1]
    exact recorded.found
  | opened same =>
    refine Or.inl ⟨recorded.storable, ?_⟩
    rw [same, find?_opened_record, recorded.found]
  | cut content same absent => exact Or.inl (same ▸ recorded.written absent content)
  | trimmed treated absent trimming =>
    have before := recorded.written absent sync.encode
    rcases trimming.others (recordPath sha256 other) with same |
      ⟨_, old, found, epoch, ended, _, paths⟩
    · exact Or.inl ⟨recorded.storable, by rw [same, before.found]⟩
    · have equal := before.eq found paths
      subst equal
      exact Or.inr ⟨trimming.recorded_self storable, epoch, ended⟩

theorem Left.mem_names {epochId : Int} {entry : Bytes} (kind : Left sha256 client files sync left)
    (member : entry ∈ left.names (epochPath epochId)) :
    epochPath epochId = epochPath sync.epochId ∧ entry = name sha256 sync ∨
      entry ∈ files.names (epochPath epochId) := by
  cases kind with
  | untouched same => exact Or.inr (same ▸ member)
  | rooted same =>
    obtain ⟨node, found⟩ := Files.mem_names.mp member
    rw [same, find?_ensured, if_neg fun made => entry_ne_root made.1] at found
    exact Or.inr (Files.mem_names.mpr ⟨node, found⟩)
  | opened same =>
    obtain ⟨node, found⟩ := Files.mem_names.mp member
    rw [same, find?_opened] at found
    exact Or.inr (Files.mem_names.mpr ⟨node, found⟩)
  | cut content same absent =>
    rw [same] at member
    exact mem_names_written member
  | trimmed treated absent trimming =>
    obtain ⟨node, found⟩ := Files.mem_names.mp member
    rcases trimming.others (entry :: epochPath epochId) with same |
      ⟨gone, _⟩
    · rw [same] at found
      exact mem_names_written (Files.mem_names.mpr ⟨node, found⟩)
    · rw [gone] at found
      cases found

theorem Safe.crashed (safe : Safe sha256 client history) (storable : Storable client sync)
    (kind : Left sha256 client history.files sync left)
    (clean : Clean sha256 history.files sync left) :
    Safe sha256 client ⟨left, sync :: history.calls, history.kept⟩ where
  sound := kind.sound safe.sound storable clean.whole
  room := by
    intro epochId fits
    by_cases here : epochPath epochId = epochPath sync.epochId
    · rw [here]
      exact clean.few
    · have subset : ∀ entry ∈ left.names (epochPath epochId),
          entry ∈ history.files.names (epochPath epochId) := by
        intro entry member
        rcases kind.mem_names member with ⟨same, _⟩ | former
        · exact absurd same here
        · exact former
      exact le_trans (length_names_le_of_subset subset) (safe.room epochId fits)
  kept := by
    intro stored member
    rcases safe.kept stored member with recorded | ⟨last, recorded, epoch, ended⟩
    · rcases kind.recorded storable recorded with stays |
        ⟨itself, epoch, ended⟩
      · exact Or.inl stays
      · exact Or.inr ⟨sync, itself, epoch.symm, ended⟩
    · rcases kind.recorded storable recorded with stays |
        ⟨itself, epoch', ended'⟩
      · exact Or.inr ⟨last, stays, epoch, ended⟩
      · refine Or.inr ⟨sync, itself, by rw [← epoch', epoch], ?_⟩
        have low := floor_le (valid_iff.mp storable.valid).2.2.1
        exact lt_of_lt_of_le ended (floor_mono (by omega))

theorem Safe.keep {stored : RoundSync} (safe : Safe sha256 client history)
    (recorded : Recorded sha256 client history.files stored) :
    Safe sha256 client { history with kept := stored :: history.kept } where
  sound := safe.sound
  room := safe.room
  kept := List.forall_mem_cons.mpr ⟨Or.inl recorded, safe.kept⟩

/-! ## One call -/

theorem storable_of_admissible {event : Event} (admissible : Admissible sha256 client history event)
    (passes : valid event.sync = true) (verified : client.verify event.sync)
    (readable : Readable event.sync) : Storable client event.sync where
  valid := passes
  verified := verified
  chainId := admissible.chainId
  validator := admissible.validator
  late := admissible.fits.2
  shortChainId := readable.chainId
  shortValidator := readable.validator

/-- A record that was there already. -/
theorem Safe.found {node : Node} (safe : Safe sha256 client history)
    (storable : Storable client sync)
    (found : history.files.find? (recordPath sha256 sync) = some node) :
    ∃ stored, Recorded sha256 client history.files stored ∧
      recordPath sha256 stored = recordPath sha256 sync ∧ same stored sync = true := by
  obtain ⟨stored, _, recorded, epoch, named, _⟩ := safe.sound.recorded storable.fits found
  refine ⟨stored, recorded, ?_, ?_⟩
  · rw [recordPath, recordPath, named, epoch]
  · exact same_of_name_eq recorded.storable storable named.symm

/-- The records of the rounds that are kept can be loaded. -/
theorem Trimming.clean {listing : Listing} (storable : Storable client sync)
    (sound : Sound sha256 client calls (written sha256 files sync sync.encode))
    (latest : ∀ call ∈ calls, call.epochId = sync.epochId → call.round ≤ sync.round)
    (trimming : Trimming sha256 client (written sha256 files sync sync.encode)
      sync.epochId sync.round (listing.list (names (written sha256 files sync sync.encode)
        (epochPath sync.epochId))) left) :
    Clean sha256 files sync left where
  whole := by
    intro content found
    rw [(trimming.recorded_self storable).found] at found
    exact Or.inr (Node.regular.inj (Option.some.inj found)).symm
  few := by
    refine @Sound.length_names_le sha256 client calls left sync.epochId
      sync.round (sound.trimmed trimming) storable.fits ?_ latest
    intro old recorded epoch
    apply trimming.ended old recorded epoch
    have member := (trimming.recorded recorded).mem_names
    rw [epoch] at member
    exact (listing.perm _).mem_iff.mpr member

/-- What a call does in a safe log, and where it can be cut short. -/
theorem Safe.keepDisk_succeeds (safe : Safe sha256 client history) {listing : Listing}
    (admissible : Admissible sha256 client history (.keep listing sync))
    (storable : Storable client sync) :
    Succeeds (· = history.files) (keepDisk sha256 listing client.verify sync)
      (fun stored after => same stored sync = true ∧
        Safe sha256 client ⟨after, sync :: history.calls, stored :: history.kept⟩)
      (Left sha256 client history.files sync) := by
  have room := safe.room sync.epochId storable.fits
  cases found : history.files.find? (recordPath sha256 sync) with
  | none =>
    apply (SyncLog.keepDisk_succeeds safe.sound storable room found
      listing).weaken (fun _ same => same) _ fun _ kind => kind
    rintro stored after ⟨itself, trimming⟩
    rw [itself]
    have latest : ∀ call ∈ sync :: history.calls,
        call.epochId = sync.epochId → call.round ≤ sync.round := by
      intro call member epoch
      rcases List.mem_cons.mp member with rfl | earlier
      · exact le_refl _
      · exact admissible.inOrder call earlier epoch
    have clean := trimming.clean storable (safe.sound.written storable found) latest
    refine ⟨by simp [same], ?_⟩
    exact (safe.crashed storable (.trimmed _ found trimming) clean).keep
      (trimming.recorded_self storable)
  | some node =>
    obtain ⟨stored, recorded, paths, alike⟩ := safe.found storable found
    apply (keepDisk_found safe.sound storable recorded paths
      listing).weaken (fun _ same => same) _ fun _ kind => kind
    rintro _ _ ⟨rfl, rfl⟩
    have kind : Left sha256 client history.files sync (opened history.files sync) := .opened rfl
    have clean : Clean sha256 history.files sync (opened history.files sync) := by
      constructor
      · intro content there
        rw [find?_opened_record] at there
        exact Or.inl there
      · apply le_trans (length_names_le_of_subset _) room
        intro entry member
        rcases kind.mem_names member with ⟨_, rfl⟩ | former
        · exact Files.mem_names.mpr ⟨node, found⟩
        · exact former
    refine ⟨alike, (safe.crashed storable kind clean).keep ?_⟩
    exact ⟨recorded.storable, by rw [find?_opened_record, recorded.found]⟩

/-- A call that is refused changes nothing. -/
theorem Safe.refused (safe : Safe sha256 client history) (sync : RoundSync) :
    Safe sha256 client ⟨history.files, sync :: history.calls, history.kept⟩ where
  sound := safe.sound.mono fun _ => List.mem_cons_of_mem _
  room := safe.room
  kept := safe.kept

theorem Safe.step {event : Event} (safe : Safe sha256 client history)
    (admissible : Admissible sha256 client history event)
    (spared : Spared sha256 client history event) :
    Safe sha256 client (history.step sha256 client event) := by
  by_cases passes : valid event.sync ∧ client.verify event.sync
  · have storable := storable_of_admissible admissible passes.1 passes.2
      (spared.readable passes.1 passes.2)
    cases event with
    | keep listing sync =>
      obtain ⟨⟨stored, done, _, after⟩, _⟩ := safe.keepDisk_succeeds admissible storable _ rfl
      simp only [History.step, done]
      exact after
    | crash listing sync left =>
      have possible := admissible.possible listing sync left rfl
      have kept : Admissible sha256 client history (.keep listing sync) :=
        { admissible with possible := by simp }
      exact safe.crashed storable
        ((safe.keepDisk_succeeds kept storable _ rfl).2 left possible)
        (spared.clean listing sync left rfl)
  · cases event with
    | keep listing sync =>
      have refused := @keepDisk_refuses sha256 client history.files sync passes listing
      simp only [History.step, refused.outcome, refused.final]
      exact safe.refused sync
    | crash listing sync left =>
      have refused := @keepDisk_refuses sha256 client history.files sync passes listing
      have possible := admissible.possible listing sync left rfl
      rw [refused.crashes, List.mem_singleton] at possible
      rw [History.step, possible]
      exact safe.refused sync

theorem safe_start : Safe sha256 client ⟨∅, [], []⟩ where
  sound := by
    intro path node found
    simp at found
  room := by
    intro epochId _
    simp [names]
  kept := by simp

theorem Safe.recovers (safe : Safe sha256 client history) : Recovers sha256 client history where
  loads := by
    intro listing epochId fits
    obtain ⟨syncs, loaded, sorted, members⟩ :=
      loadDisk_returns safe.sound fits (safe.room epochId fits) listing
    refine ⟨syncs, loaded.outcome, sorted, ?_⟩
    intro stored member epoch within
    rw [members]
    rcases safe.kept stored member with recorded | ⟨last, recorded, epoch', ended⟩
    · exact ⟨recorded, epoch⟩
    · have low := within last ((members last).mpr ⟨recorded, by
        rw [epoch', epoch]⟩)
      omega
  keeps := by
    intro listing sync admissible passes verified readable
    have storable := storable_of_admissible admissible passes verified readable
    obtain ⟨⟨stored, done, alike, _⟩, _⟩ := safe.keepDisk_succeeds admissible storable _ rfl
    exact ⟨stored, done, alike⟩

/-- The log recovers from every crash that leaves no cut record and no more
records than can be loaded. -/
theorem recovers_of_reached (reached : Reached sha256 client (Spared sha256 client) history) :
    Recovers sha256 client history := by
  have safe : Safe sha256 client history := by
    induction reached with
    | start => exact safe_start
    | next reached admissible spared ih => exact ih.step admissible spared
  exact safe.recovers

end Recovery

namespace CutRecord

def inOrder : Listing := ⟨id, List.Perm.refl⟩

def sync (round : Int) (step : RoundStep) : RoundSync where
  chainId := [67]
  epochId := 5
  round := round
  step := step
  request := false
  validator := [65]
  signature := List.replicate 64 1

def client : Client := ⟨[67], [65], fun _ => true⟩

/-- The hash, known for the syncs in question. -/
def sha256 : Bytes → Bytes := tableHash [
  (key (sync 7 .proposeStep),
    [191, 128, 110, 143, 138, 17, 121, 79, 125, 185, 45, 125, 200, 151, 44,
      240, 175, 223, 160, 171, 159, 77, 116, 97, 57, 199, 24, 223, 91, 78, 205, 155]),
  (key (sync 8 .prevoteStep),
    [245, 228, 127, 197, 39, 196, 199, 249, 9, 193, 162, 180, 133, 118, 76, 59,
      247, 227, 23, 116, 182, 231, 152, 123, 182, 193, 183, 164, 106, 159, 28, 61])]

/-- The log after a crash between creating a record and writing its bytes. -/
def cut : Files := written sha256 ∅ (sync 7 .proposeStep) []

end CutRecord

open CutRecord in
/-- A cut record makes loading and keeping fail for ever. -/
theorem not_recovers :
    ∃ history,
      Reached sha256 client (fun _ _ => True) history ∧
        (loadDisk sha256 inOrder client 5).outcome history.files =
          .error (.refused "round sync log record size is invalid") ∧
        (keepDisk sha256 inOrder client.verify
            (sync 7 .proposeStep)).outcome history.files =
          .error (.refused "round sync log record size is invalid") ∧
        ¬ Recovers sha256 client history := by
  have failed : (loadDisk sha256 inOrder client 5).outcome cut =
      .error (.refused "round sync log record size is invalid") := by
    decide +kernel
  have admissible : Admissible sha256 client ⟨∅, [], []⟩
      (.crash inOrder (sync 7 .proposeStep) cut) := by
    refine ⟨rfl, rfl, ⟨by decide, by decide⟩, by simp, ?_⟩
    rintro _ _ _ ⟨⟩
    exact @List.mem_of_getElem? _ _ 3 _ rfl
  refine ⟨_, .next .start admissible trivial, failed, ?_, ?_⟩
  · decide +kernel
  · intro recovers
    obtain ⟨syncs, loaded, _⟩ := recovers.loads inOrder 5 ⟨by decide, by decide⟩
    have outcome := failed.symm.trans loaded
    cases outcome

namespace WholeRecord

open CutRecord

/-- The log after a crash between writing a record and trimming. -/
def whole : Files := written sha256 ∅ (sync 7 .proposeStep) (sync 7 .proposeStep).encode

def crashed : Event := .crash inOrder (sync 7 .proposeStep) whole

def retried : Event := .keep inOrder (sync 7 .proposeStep)

def followed : Event := .keep inOrder (sync 8 .prevoteStep)

def history : History := [crashed, retried, followed].foldl (History.step sha256 client) ⟨∅, [], []⟩

theorem readable (round : Int) (step : RoundStep) : Readable (sync round step) := by
  constructor <;> simp [sync, RoundSync.maxChainIdBytes, RoundSync.maxAddrBytes]

theorem admissible {listing : Listing} {round : Int} {step : RoundStep} {before : History}
    (inOrder : ∀ call ∈ before.calls, call.round ≤ round) :
    Admissible sha256 client before (.keep listing (sync round step)) where
  chainId := rfl
  validator := rfl
  fits := ⟨by simp [Event.sync, sync], by simp [Event.sync, sync]⟩
  inOrder := fun call member _ => inOrder call member
  possible := by simp

theorem spared {listing : Listing} {round : Int} {step : RoundStep} {before : History} :
    Spared sha256 client before (.keep listing (sync round step)) where
  readable := fun _ _ => readable round step
  clean := by simp

end WholeRecord

open CutRecord WholeRecord in
/-- A whole record is found again, and the next sync is kept. -/
theorem recovers_of_whole_record : Recovers sha256 client history := by
  have first : Admissible sha256 client ⟨∅, [], []⟩ crashed := by
    refine ⟨rfl, rfl, ⟨by decide, by decide⟩, by simp, ?_⟩
    rintro _ _ _ ⟨⟩
    exact @List.mem_of_getElem? _ _ 95 _ rfl
  have clean : Spared sha256 client ⟨∅, [], []⟩ crashed := by
    refine ⟨fun _ _ => readable _ _, ?_⟩
    rintro _ _ _ ⟨⟩
    constructor
    · intro content found
      have kept : whole.find? (recordPath sha256 (sync 7 .proposeStep)) =
          some (.regular (sync 7 .proposeStep).encode) := by
        apply Table.find?_replace
      rw [kept] at found
      exact Or.inr (Node.regular.inj (Option.some.inj found)).symm
    · decide +kernel
  apply recovers_of_reached
  apply Reached.next (Reached.next (Reached.next .start first clean) _ spared)
    _ spared
  · apply admissible
    simp [History.step, crashed, sync]
  · apply admissible
    simp [History.step, crashed, sync]

end SyncLog
end LiteNode
