import LiteNode.Logs.SyncRecords

/-!
# Keeping a round sync

What a log holds is made of the root, the directories of epochs and whole
records. Keeping a sync passes through states that are explained one by one:
directories are made, the record is written, and records that are over are
removed.
-/

namespace LiteNode
namespace SyncLog

open Files Fallible

section Keeping

variable (sha256 : Bytes → Bytes) (client : Client)

/-- A sync whose record is whole. -/
structure Recorded (files : Files) (sync : RoundSync) : Prop where
  storable : Storable client sync
  found : files.find? (recordPath sha256 sync) = some (.regular sync.encode)

/-- What may stand at a path, when these syncs were to be kept. -/
inductive Entry (calls : List RoundSync) (files : Files) (path : Path) (node : Node) : Prop
  | root (place : path = root) (kind : node = .directory)
  | epoch (epochId : Int) (place : path = epochPath epochId)
      (kind : node = .directory) (inside : files.find? root = some .directory)
  | record (sync : RoundSync) (storable : Storable client sync)
      (called : sync ∈ calls) (place : path = recordPath sha256 sync)
      (kind : node = .regular sync.encode)
      (inside : files.find? (epochPath sync.epochId) = some .directory)

/-- A log without cut records. -/
def Sound (calls : List RoundSync) (files : Files) : Prop :=
  ∀ path node, files.find? path = some node → Entry sha256 client calls files path node

/-- A directory after some of its records were treated: those whose rounds are
over are gone. -/
structure Trimming (files : Files) (epochId round : Int)
    (treated : List Bytes) (after : Files) : Prop where
  others : ∀ path, after.find? path = files.find? path ∨
    after.find? path = none ∧ ∃ old, Recorded sha256 client files old ∧
      old.epochId = epochId ∧ old.round < floor round ∧
      name sha256 old ∈ treated ∧ path = recordPath sha256 old
  ended : ∀ old, Recorded sha256 client after old → old.epochId = epochId →
    name sha256 old ∈ treated → floor round ≤ old.round

/-- The log with the directories that a sync is recorded in. -/
def opened (files : Files) (sync : RoundSync) : Files :=
  ensured (ensured files root) (epochPath sync.epochId)

/-- The log with a record of a sync. -/
def written (files : Files) (sync : RoundSync) (content : Bytes) : Files :=
  (opened files sync).replace (recordPath sha256 sync) (.regular content)

/-- What a crash can leave while a sync is kept. -/
inductive Left (files : Files) (sync : RoundSync) (left : Files) : Prop
  | untouched (same : left = files)
  | rooted (same : left = ensured files root)
  | opened (same : left = opened files sync)
  | cut (content : Bytes) (same : left = written sha256 files sync content)
      (absent : files.find? (recordPath sha256 sync) = none)
  | trimmed (treated : List Bytes) (absent : files.find? (recordPath sha256 sync) = none)
      (trimming : Trimming sha256 client
        (written sha256 files sync sync.encode) sync.epochId sync.round treated
        left)

end Keeping

variable {sha256 : Bytes → Bytes} {client : Client} {calls : List RoundSync}
  {files after : Files} {sync other : RoundSync} {epochId round : Int}

theorem epochPath_ne_root : epochPath epochId ≠ root := by simp [epochPath, root]

variable {entry : Bytes} {node : Node} {path : Path} {treated : List Bytes}

theorem entry_ne_root : entry :: epochPath epochId ≠ root := by simp [epochPath, root]

theorem entry_ne_epochPath {epochId' : Int} : entry :: epochPath epochId ≠ epochPath epochId' := by
  simp [epochPath, root]

theorem Sound.root_eq (sound : Sound sha256 client calls files)
    (found : files.find? root = some node) : node = .directory := by
  cases sound _ _ found with
  | root place kind => exact kind
  | epoch epochId place kind inside => exact kind
  | record sync storable called place kind inside => exact absurd place.symm entry_ne_root

theorem Sound.epoch_eq (sound : Sound sha256 client calls files)
    (found : files.find? (epochPath epochId) = some node) :
    node = .directory ∧ files.find? root = some .directory := by
  cases sound _ _ found with
  | root place kind => exact absurd place epochPath_ne_root
  | epoch epochId place kind inside => exact ⟨kind, inside⟩
  | record sync storable called place kind inside => exact absurd place.symm entry_ne_epochPath

/-- What stands in the directory of an epoch is a whole record. -/
theorem Sound.recorded (sound : Sound sha256 client calls files) (fits : FitsBits 64 epochId)
    (found : files.find? (entry :: epochPath epochId) = some node) :
    ∃ sync ∈ calls, Recorded sha256 client files sync ∧
      sync.epochId = epochId ∧ entry = name sha256 sync ∧ node = .regular sync.encode := by
  cases sound _ _ found with
  | root place kind => exact absurd place entry_ne_root
  | epoch epochId place kind inside => exact absurd place entry_ne_epochPath
  | record sync storable called place kind inside =>
    obtain ⟨named, paths⟩ := List.cons.inj place
    refine ⟨sync, called, ⟨storable, ?_⟩, ?_, named, kind⟩
    · rw [← place, found, kind]
    · exact (epochPath_inj fits storable.fits paths).symm

theorem Sound.mem_names (sound : Sound sha256 client calls files) (fits : FitsBits 64 epochId)
    (member : entry ∈ files.names (epochPath epochId)) :
    ∃ sync ∈ calls, Recorded sha256 client files sync ∧
      sync.epochId = epochId ∧ entry = name sha256 sync := by
  obtain ⟨node, found⟩ := Files.mem_names.mp member
  obtain ⟨sync, called, recorded, epoch, named, _⟩ := sound.recorded fits found
  exact ⟨sync, called, recorded, epoch, named⟩

theorem Recorded.mem_names (recorded : Recorded sha256 client files sync) :
    name sha256 sync ∈ files.names (epochPath sync.epochId) :=
  Files.mem_names.mpr ⟨_, recorded.found⟩

theorem Recorded.eq (recorded : Recorded sha256 client files sync)
    (recorded' : Recorded sha256 client files other)
    (paths : recordPath sha256 sync = recordPath sha256 other) : sync = other := by
  have found := recorded.found
  rw [paths, recorded'.found] at found
  exact encode_inj recorded.storable recorded'.storable
    (Node.regular.inj (Option.some.inj found)).symm

theorem Entry.mono {calls' : List RoundSync} (entry : Entry sha256 client calls files path node)
    (grows : ∀ path, files.find? path = some .directory →
      after.find? path = some .directory) (more : ∀ sync ∈ calls, sync ∈ calls') :
    Entry sha256 client calls' after path node := by
  cases entry with
  | root place kind => exact .root place kind
  | epoch epochId place kind inside => exact .epoch epochId place kind (grows _ inside)
  | record sync storable called place kind inside =>
    exact .record sync storable (more sync called) place kind (grows _ inside)

theorem Sound.mono (sound : Sound sha256 client calls files)
    {calls' : List RoundSync} (more : ∀ sync ∈ calls, sync ∈ calls') :
    Sound sha256 client calls' files :=
  fun path node found => (sound path node found).mono (fun _ same => same) more

theorem Sound.ensured_root (sound : Sound sha256 client calls files) :
    Sound sha256 client calls (ensured files root) := by
  intro path node found
  rw [find?_ensured] at found
  split at found
  · next made => exact .root made.1 (Option.some.inj found).symm
  · exact (sound path node found).mono (fun _ => directory_ensured) fun _ member => member

theorem Sound.placeable_root (sound : Sound sha256 client calls files) : Placeable files root where
  parent := by simp [isDirectory, root]
  free := by
    cases found : files.find? root with
    | none => exact Or.inl rfl
    | some node => exact Or.inr (by rw [sound.root_eq found])

theorem Sound.placeable_epoch (sound : Sound sha256 client calls files)
    (inside : files.find? root = some .directory) :
    Placeable files (epochPath epochId) where
  parent := by
    have tail : (epochPath epochId).tail = root := rfl
    simp [isDirectory, tail, inside]
  free := by
    cases found : files.find? (epochPath epochId) with
    | none => exact Or.inl rfl
    | some node => exact Or.inr (by rw [(sound.epoch_eq found).1])

theorem Sound.ensured_epoch (sound : Sound sha256 client calls files)
    (inside : files.find? root = some .directory) :
    Sound sha256 client calls (ensured files (epochPath epochId)) := by
  intro path node found
  rw [find?_ensured] at found
  split at found
  · next made =>
    exact .epoch epochId made.1 (Option.some.inj found).symm (directory_ensured inside)
  · exact (sound path node found).mono (fun _ => directory_ensured) fun _ member => member

theorem Sound.opened (sound : Sound sha256 client calls files) (sync : RoundSync) :
    Sound sha256 client calls (opened files sync) ∧
      (SyncLog.opened files sync).find? (epochPath sync.epochId) = some .directory := by
  have rooted := sound.ensured_root
  have inside := sound.placeable_root.find?_ensured
  exact ⟨rooted.ensured_epoch inside, (rooted.placeable_epoch inside).find?_ensured⟩

theorem find?_opened (files : Files) (sync : RoundSync) (entry : Bytes) (epochId : Int) :
    (opened files sync).find? (entry :: epochPath epochId) =
      files.find? (entry :: epochPath epochId) := by
  rw [opened, find?_ensured, if_neg fun made => entry_ne_epochPath made.1,
    find?_ensured, if_neg fun made => entry_ne_root made.1]

theorem find?_opened_record :
    (opened files sync).find? (recordPath sha256 other) = files.find? (recordPath sha256 other) :=
  find?_opened ..

/-- A whole record more. -/
theorem Sound.written (sound : Sound sha256 client calls files)
    (storable : Storable client sync) (absent : files.find? (recordPath sha256 sync) = none) :
    Sound sha256 client (sync :: calls) (written sha256 files sync sync.encode) := by
  obtain ⟨opened, folder⟩ := sound.opened sync
  have unused := absent
  rw [← find?_opened_record] at unused
  intro path node found
  rw [SyncLog.written, Table.find?_replace_eq_ite] at found
  split at found
  · next place =>
    exact .record sync storable List.mem_cons_self place
      (Option.some.inj found).symm (directory_replace unused folder)
  · exact (opened path node found).mono (fun _ => directory_replace unused)
      fun _ member => List.mem_cons_of_mem _ member

theorem Trimming.directory
    (trimming : Trimming sha256 client files epochId round treated after) (found : files.find? path = some .directory) :
    after.find? path = some .directory := by
  rcases trimming.others path with same | ⟨_, old, recorded, _, _, _, rfl⟩
  · rw [same, found]
  · rw [recorded.found] at found
    cases found

theorem Sound.trimmed (sound : Sound sha256 client calls files)
    (trimming : Trimming sha256 client files epochId round treated after) :
    Sound sha256 client calls after := by
  intro path node found
  rcases trimming.others path with same | ⟨gone, _⟩
  · rw [same] at found
    exact (sound path node found).mono (fun _ => trimming.directory) fun _ member => member
  · rw [gone] at found
    cases found

theorem Trimming.recorded (trimming : Trimming sha256 client files epochId round treated after)
    (recorded : Recorded sha256 client after sync) : Recorded sha256 client files sync := by
  rcases trimming.others (recordPath sha256 sync) with same | ⟨gone, _⟩
  · exact ⟨recorded.storable, by rw [← same, recorded.found]⟩
  · have found := recorded.found
    rw [gone] at found
    cases found

theorem Trimming.start : Trimming sha256 client files epochId round [] files :=
  ⟨fun _ => Or.inl rfl, fun _ _ _ member => by cases member⟩

theorem records_returns (sound : Sound sha256 client calls files) (fits : FitsBits 64 epochId)
    (there : files.find? (epochPath epochId) = some .directory) (listing : Listing) :
    (records listing (epochPath epochId)).Returns files
      (listing.list (files.names (epochPath epochId))) := by
  have directory : files.isDirectory (epochPath epochId) = true := by simp [isDirectory, there]
  have whole : (listing.list (files.names (epochPath epochId))).filter
      (fun entry => suffix.isSuffixOf entry) = listing.list (files.names (epochPath epochId)) := by
    apply List.filter_eq_self.mpr
    intro entry member
    obtain ⟨sync, _, _, _, rfl⟩ := sound.mem_names fits ((listing.perm _).mem_iff.mp member)
    exact suffix_of_name sync
  apply (readdir_returns directory listing).bind
  rw [Fallible.Returns]
  exact congrArg (fun entries => Trace.mk (Except.ok entries) []) whole

/-- One record is treated. -/
theorem trimRecord_succeeds {before : List Bytes} (recorded : Recorded sha256 client files sync)
    (epoch : sync.epochId = epochId) (fresh : name sha256 sync ∉ before) (removed : Bool) :
    Succeeds (Trimming sha256 client files epochId round before)
      (trimRecord (epochPath epochId) epochId (floor round) removed (name sha256 sync))
      (fun _ => Trimming sha256 client files epochId round (before ++ [name sha256 sync]))
      (fun left => ∃ treated, Trimming sha256 client files epochId round treated left) := by
  subst epoch
  apply Succeeds.of_states
  intro state trimming
  have kept : state.find? (recordPath sha256 sync) = some (.regular sync.encode) := by
    rcases trimming.others (recordPath sha256 sync) with same |
      ⟨_, old, _, _, _, treated, paths⟩
    · rw [same, recorded.found]
    · rw [(List.cons.inj paths).1] at fresh
      exact absurd treated fresh
  apply (read_returns recorded.storable kept).succeeds_bind
  rw [if_neg (by simp)]
  by_cases ended : sync.round < floor round
  · rw [if_pos ended]
    have removal : Trimming sha256 client files sync.epochId round
        (before ++ [name sha256 sync])
        (state.remove (recordPath sha256 sync)) := by
      constructor
      · intro path
        rw [Table.find?_remove_eq_ite]
        split
        · next place =>
          exact Or.inr ⟨rfl, sync, recorded, rfl, ended, by simp, place⟩
        · rcases trimming.others path with same |
            ⟨gone, old, found, epoch, before', treated, place⟩
          · exact Or.inl same
          · exact Or.inr ⟨gone, old, found, epoch, before', by simp [treated], place⟩
      · intro old found epoch treated
        have stays := found.found
        rw [Table.find?_remove_eq_ite] at stays
        split at stays
        · cases stays
        · next apart =>
          apply trimming.ended old ⟨found.storable, stays⟩ epoch
          rcases List.mem_append.mp treated with earlier | last
          · exact earlier
          · rw [List.mem_singleton] at last
            exact absurd (by rw [recordPath, recordPath, last, epoch]) apart
    apply Succeeds.bind ((unlink_succeeds kept).weaken (fun _ same => same)
      (fun _ _ same => same) _)
    · intro _
      apply Succeeds.pure
      · rintro _ rfl
        exact removal
      · rintro _ rfl
        exact ⟨_, removal⟩
    · rintro _ (rfl | rfl)
      · exact ⟨_, trimming⟩
      · exact ⟨_, removal⟩
  · rw [if_neg ended]
    have passed : Trimming sha256 client files sync.epochId round
        (before ++ [name sha256 sync]) state := by
      constructor
      · intro path
        rcases trimming.others path with same |
          ⟨gone, old, found, epoch, before', treated, place⟩
        · exact Or.inl same
        · exact Or.inr ⟨gone, old, found, epoch, before', by simp [treated], place⟩
      · intro old found epoch treated
        rcases List.mem_append.mp treated with earlier | last
        · exact trimming.ended old found epoch earlier
        · rw [List.mem_singleton] at last
          have paths : recordPath sha256 old = recordPath sha256 sync := by
            rw [recordPath, recordPath, last, epoch]
          rw [found.eq ⟨recorded.storable, kept⟩ paths]
          omega
    apply Succeeds.pure
    · rintro _ rfl
      exact passed
    · rintro _ rfl
      exact ⟨_, passed⟩

theorem trim_succeeds (sound : Sound sha256 client calls files) (fits : FitsBits 64 epochId)
    (there : files.find? (epochPath epochId) = some .directory)
    (room : (files.names (epochPath epochId)).length ≤ maxBeforeTrim)
    (listing : Listing) (round : Int) :
    Succeeds (· = files) (trim listing (epochPath epochId) epochId round)
      (fun _ => Trimming sha256 client files epochId round
        (listing.list (files.names (epochPath epochId))))
      (fun left => ∃ treated, Trimming sha256 client files epochId round treated left) := by
  have perm := listing.perm (files.names (epochPath epochId))
  apply (records_returns sound fits there listing).succeeds_bind
  rw [if_neg (by rw [perm.length_eq]; omega)]
  have loop := @Succeeds.foldlM Fault Files Bool Bytes
    (fun left => ∃ treated, Trimming sha256 client files epochId round treated left)
    (trimRecord (epochPath epochId) epochId (floor round))
    (listing.list (files.names (epochPath epochId)))
    (fun treated _ => Trimming sha256 client files epochId round treated)
    (by
      intro before entry rest removed split
      have distinct := perm.nodup_iff.mpr (nodup_names files _)
      have member : entry ∈ listing.list (files.names (epochPath epochId)) := by simp [split]
      obtain ⟨sync, _, recorded, epoch, rfl⟩ := sound.mem_names fits (perm.mem_iff.mp member)
      apply trimRecord_succeeds recorded epoch
      intro earlier
      rw [split] at distinct
      exact List.disjoint_of_nodup_append distinct earlier List.mem_cons_self)
    (fun before _ _ _ _ trimming => ⟨before, trimming⟩) false
  apply Succeeds.bind (loop.weaken _ (fun _ _ same => same) fun _ same => same)
  · intro removed
    have done : (if removed then syncDir (epochPath epochId)
        else pure () : Action Unit) = pure () := by
      cases removed <;> rfl
    rw [done]
    exact Succeeds.pure (fun _ same => same) fun _ same => ⟨_, same⟩
  · rintro _ rfl
    exact Trimming.start

/-- Place of a sync among those of the rounds that are kept. -/
def code (round : Int) (sync : RoundSync) : Nat :=
  3 * (sync.round - floor round).toNat + (stepRank sync.step - 1)

theorem stepRank_bounds (step : RoundStep) : 1 ≤ stepRank step ∧ stepRank step ≤ 3 := by
  cases step <;> decide

theorem stepRank_inj {step step' : RoundStep}
    (same : stepRank step = stepRank step') : step = step' := by
  revert same
  cases step <;> cases step' <;> decide

theorem Sound.listed (sound : Sound sha256 client calls files)
    (fits : FitsBits 64 epochId) {entries : List Bytes}
    (perm : entries.Perm (files.names (epochPath epochId))) :
    ∃ syncs : List RoundSync, entries = syncs.map (name sha256) ∧
      ∀ sync ∈ syncs, sync ∈ calls ∧ Recorded sha256 client files sync ∧
        sync.epochId = epochId := by
  apply exists_map_eq
  intro entry member
  obtain ⟨sync, called, recorded, epoch, named⟩ := sound.mem_names fits (perm.mem_iff.mp member)
  exact ⟨sync, ⟨called, recorded, epoch⟩, named⟩

/-- Rounds that are kept have at most three records each. -/
theorem Sound.length_names_le (sound : Sound sha256 client calls files)
    (fits : FitsBits 64 epochId) (cleared : ∀ old, Recorded sha256 client files old →
      old.epochId = epochId → floor round ≤ old.round)
    (latest : ∀ call ∈ calls, call.epochId = epochId → call.round ≤ round) :
    (files.names (epochPath epochId)).length ≤ maxRecords := by
  obtain ⟨syncs, named, each⟩ := sound.listed fits (List.Perm.refl _)
  have distinct := nodup_names files (epochPath epochId)
  rw [named] at distinct
  have bounds : ∀ sync ∈ syncs, floor round ≤ sync.round ∧ sync.round ≤ round := fun sync member =>
    have known := each sync member
    ⟨cleared sync known.2.1 known.2.2, latest sync known.1 known.2.2⟩
  have lowest : round - syncHistoryLimit ≤ floor round := le_max_right ..
  simp only [syncHistoryLimit, maxSyncAhead] at lowest
  have codes : (syncs.map (code round)).Nodup := by
    apply List.Nodup.map_on _ (List.Nodup.of_map _ distinct)
    intro sync member other member' same
    obtain ⟨low, _⟩ := bounds sync member
    obtain ⟨low', _⟩ := bounds other member'
    have ranks := stepRank_bounds sync.step
    have ranks' := stepRank_bounds other.step
    simp only [code] at same
    obtain ⟨_, recorded, epoch⟩ := each sync member
    obtain ⟨_, recorded', epoch'⟩ := each other member'
    apply List.inj_on_of_nodup_map distinct member member'
    apply name_eq recorded.storable recorded'.storable
    · rw [epoch, epoch']
    · omega
    · apply stepRank_inj
      omega
  have small : ∀ place ∈ syncs.map (code round), place ∈ List.range maxRecords := by
    intro place member
    obtain ⟨sync, known, rfl⟩ := List.mem_map.mp member
    obtain ⟨low, high⟩ := bounds sync known
    have ranks := stepRank_bounds sync.step
    rw [List.mem_range, code, maxRecords, syncHistoryLimit, maxSyncAhead]
    omega
  have fewer := (List.subperm_of_subset codes small).length_le
  rw [List.length_map, List.length_range] at fewer
  rw [named, List.length_map]
  exact fewer

theorem length_names_le_of_subset {before after : Files}
    (subset : ∀ entry ∈ after.names path, entry ∈ before.names path) :
    (after.names path).length ≤ (before.names path).length :=
  (List.subperm_of_subset (nodup_names after path) subset).length_le

theorem mem_names_written {content : Bytes}
    (member : entry ∈ names (written sha256 files sync content) (epochPath epochId)) :
    epochPath epochId = epochPath sync.epochId ∧ entry = name sha256 sync ∨
      entry ∈ files.names (epochPath epochId) := by
  obtain ⟨node, found⟩ := Files.mem_names.mp member
  rw [written, Table.find?_replace_eq_ite] at found
  split at found
  · next place =>
    obtain ⟨named, paths⟩ := List.cons.inj place
    exact Or.inl ⟨paths, named⟩
  · rw [find?_opened] at found
    exact Or.inr (Files.mem_names.mpr ⟨node, found⟩)

theorem length_names_written {content : Bytes} :
    (names (written sha256 files sync content) (epochPath epochId)).length ≤
      (files.names (epochPath epochId)).length + 1 := by
  have subset : ∀ entry ∈ names (written sha256 files sync content)
      (epochPath epochId), entry ∈ name sha256 sync :: files.names (epochPath epochId) := by
    intro entry member
    rcases mem_names_written member with ⟨_, named⟩ | former
    · rw [named]
      exact List.mem_cons_self
    · exact List.mem_cons_of_mem _ former
  exact (List.subperm_of_subset (nodup_names _ _) subset).length_le

theorem writeRecord_succeeds (absent : files.find? (recordPath sha256 sync) = none)
    (folder : files.find? (epochPath sync.epochId) = some .directory) (verify : RoundSync → Bool) :
    Succeeds (· = files) (writeRecord sha256 verify sync)
      (fun result after => result = (sync, true) ∧
        after = files.replace (recordPath sha256 sync) (.regular sync.encode))
      (fun left => left = files ∨ ∃ content,
        left = files.replace (recordPath sha256 sync) (.regular content)) := by
  have parent : files.isDirectory (recordPath sha256 sync).tail = true := by
    have tail : (recordPath sha256 sync).tail = epochPath sync.epochId := rfl
    simp [isDirectory, tail, folder]
  apply Succeeds.unhandled
  apply (create_succeeds absent parent sync.encode).bind
  intro _
  exact Succeeds.pure (fun _ same => ⟨rfl, same⟩) fun _ same => Or.inr ⟨_, same⟩

/-- A record that is there already is what is kept. -/
theorem writeRecord_returns (recorded : Recorded sha256 client files other)
    (storable : Storable client sync) (paths : recordPath sha256 other = recordPath sha256 sync) :
    (writeRecord sha256 client.verify sync).Returns files (other, false) := by
  have found := recorded.found
  rw [paths] at found
  rw [Fallible.Returns, writeRecord, ((create_refuses found _).bind _).tryCatch]
  apply (read_returns recorded.storable found).bind
  rw [same_of_name_eq recorded.storable storable (List.cons.inj paths).1,
    recorded.storable.verified]
  rfl

/-- Keeping a sync for the first time. -/
theorem keepDisk_succeeds (sound : Sound sha256 client calls files)
    (storable : Storable client sync)
    (room : (files.names (epochPath sync.epochId)).length ≤ maxRecords)
    (absent : files.find? (recordPath sha256 sync) = none) (listing : Listing) :
    Succeeds (· = files) (keepDisk sha256 listing client.verify sync)
      (fun stored after => stored = sync ∧
        Trimming sha256 client (written sha256 files sync sync.encode)
          sync.epochId sync.round
          (listing.list (names (written sha256 files sync sync.encode)
            (epochPath sync.epochId))) after)
      (Left sha256 client files sync) := by
  obtain ⟨sound', folder⟩ := sound.opened sync
  have unused := absent
  rw [← find?_opened_record] at unused
  rw [keepDisk, if_neg (by simp [storable.valid, storable.verified])]
  apply Succeeds.bind ((makeDirectory_succeeds sound.placeable_root _).weaken
    (fun _ same => same) (fun _ _ same => same) _)
  · intro _
    apply Succeeds.bind ((makeDirectory_succeeds
      (sound.ensured_root.placeable_epoch sound.placeable_root.find?_ensured) _).weaken
      (fun _ same => same) (fun _ _ same => same) _)
    · intro _
      apply Succeeds.bind ((writeRecord_succeeds unused folder _).weaken
        (fun _ same => same) (fun _ _ same => same) _)
      · intro result
        apply Succeeds.of_states
        rintro _ ⟨rfl, rfl⟩
        have trims := trim_succeeds (sound.written storable absent)
          storable.fits (directory_replace unused folder)
          (le_trans length_names_written (by simp only [maxBeforeTrim]; omega)) listing sync.round
        apply Succeeds.bind (trims.weaken (fun _ same => same)
          (fun _ _ same => same) _)
        · intro _
          exact Succeeds.pure (fun _ trimming => ⟨rfl, trimming⟩)
            fun _ trimming => .trimmed _ absent trimming
        · rintro _ ⟨treated, trimming⟩
          exact .trimmed treated absent trimming
      · rintro _ (rfl | ⟨content, rfl⟩)
        · exact .opened rfl
        · exact .cut content rfl absent
    · rintro _ (rfl | rfl)
      · exact .rooted rfl
      · exact .opened rfl
  · rintro _ (rfl | rfl)
    · exact .untouched rfl
    · exact .rooted rfl

/-- Keeping a sync again gives what was kept. -/
theorem keepDisk_found (sound : Sound sha256 client calls files)
    (storable : Storable client sync) (recorded : Recorded sha256 client files other)
    (paths : recordPath sha256 other = recordPath sha256 sync) (listing : Listing) :
    Succeeds (· = files) (keepDisk sha256 listing client.verify sync)
      (fun stored after => stored = other ∧ after = opened files sync)
      (Left sha256 client files sync) := by
  have recorded' : Recorded sha256 client (opened files sync) other :=
    ⟨recorded.storable, by rw [find?_opened_record, recorded.found]⟩
  rw [keepDisk, if_neg (by simp [storable.valid, storable.verified])]
  apply Succeeds.bind ((makeDirectory_succeeds sound.placeable_root _).weaken
    (fun _ same => same) (fun _ _ same => same) _)
  · intro _
    apply Succeeds.bind ((makeDirectory_succeeds
      (sound.ensured_root.placeable_epoch sound.placeable_root.find?_ensured) _).weaken
      (fun _ same => same) (fun _ _ same => same) _)
    · intro _
      apply Succeeds.of_states
      rintro _ rfl
      apply (writeRecord_returns recorded' storable paths).succeeds_bind
      apply Succeeds.pure
      · rintro _ rfl
        exact ⟨rfl, rfl⟩
      · rintro _ rfl
        exact .opened rfl
    · rintro _ (rfl | rfl)
      · exact .rooted rfl
      · exact .opened rfl
  · rintro _ (rfl | rfl)
    · exact .untouched rfl
    · exact .rooted rfl

theorem keepDisk_refuses (failed : ¬ (valid sync ∧ client.verify sync)) (listing : Listing) :
    (keepDisk sha256 listing client.verify sync).Refuses files
      (.refused "round sync log record is invalid") := by
  rw [keepDisk, if_pos (by tauto)]
  rfl

theorem compareSync_isLE {left right : RoundSync} :
    (compareSync left right).isLE = true ↔
      left.round < right.round ∨ left.round = right.round ∧
        stepRank left.step ≤ stepRank right.step := by
  rw [compareSync]
  rcases lt_trichotomy left.round right.round with below | level | above
  · have order : compare left.round right.round = .lt := compare_lt_iff_lt.mpr below
    simp [order, below, Ordering.then]
  · simp [level, Ordering.then, Nat.isLE_compare]
  · have order : compare left.round right.round = .gt := compare_gt_iff_gt.mpr above
    simp [order, Ordering.then]
    omega

theorem loadRecord_returns (recorded : Recorded sha256 client files sync)
    (epoch : sync.epochId = epochId) (values : List RoundSync) :
    (loadRecord sha256 client epochId values (name sha256 sync)).Returns files
      (sync :: values) := by
  subst epoch
  apply (read_returns recorded.storable recorded.found).bind
  rw [if_neg (by simp)]
  apply (check_returns recorded.storable).bind
  rfl

theorem foldlM_loadRecord {syncs : List RoundSync}
    (each : ∀ sync ∈ syncs, Recorded sha256 client files sync ∧
      sync.epochId = epochId) (values : List RoundSync) :
    ((syncs.map (name sha256)).foldlM (loadRecord sha256 client epochId)
      values).Returns files (syncs.reverse ++ values) := by
  induction syncs generalizing values with
  | nil => rfl
  | cons sync rest ih =>
    rw [List.forall_mem_cons] at each
    apply (loadRecord_returns each.1.1 each.1.2 values).bind
    have loaded := ih each.2 (sync :: values)
    rwa [List.reverse_cons, List.append_assoc]

/-- Loading gives the syncs that are recorded, in order. -/
theorem loadDisk_returns (sound : Sound sha256 client calls files) (fits : FitsBits 64 epochId)
    (room : (files.names (epochPath epochId)).length ≤ maxRecords) (listing : Listing) :
    ∃ syncs, (loadDisk sha256 listing client epochId).Returns files syncs ∧
      syncs.Pairwise (fun left right => (compareSync left right).isLE) ∧
      ∀ sync, sync ∈ syncs ↔ Recorded sha256 client files sync ∧ sync.epochId = epochId := by
  have within : ∀ sync, Recorded sha256 client files sync → sync.epochId = epochId →
      files.find? (epochPath epochId) = some .directory := by
    rintro sync recorded rfl
    cases sound _ _ recorded.found with
    | root place kind => exact absurd place entry_ne_root
    | epoch epochId place kind inside => exact absurd place entry_ne_epochPath
    | record other storable called place kind inside =>
      rwa [(recordPath_inj recorded.storable storable place).1]
  cases top : files.find? root with
  | none =>
    refine ⟨[], (directoryExists_returns_false top _).bind rfl, by simp, ?_⟩
    intro sync
    simp only [List.not_mem_nil, false_iff, not_and]
    intro recorded epoch
    have inside := (sound.epoch_eq (within sync recorded epoch)).2
    rw [top] at inside
    cases inside
  | some node =>
    rw [sound.root_eq top] at top
    cases there : files.find? (epochPath epochId) with
    | none =>
      refine ⟨[], (directoryExists_returns_true top _).bind
        ((directoryExists_returns_false there _).bind rfl), by simp, ?_⟩
      intro sync
      simp only [List.not_mem_nil, false_iff, not_and]
      intro recorded epoch
      rw [within sync recorded epoch] at there
      cases there
    | some node' =>
      rw [(sound.epoch_eq there).1] at there
      have perm := listing.perm (files.names (epochPath epochId))
      obtain ⟨syncs, named, each⟩ := sound.listed fits perm
      have loaded := foldlM_loadRecord (fun sync member => (each sync member).2) []
      rw [← named, List.append_nil] at loaded
      refine ⟨syncs.reverse.mergeSort fun left right =>
        (compareSync left right).isLE, ?_, ?_, ?_⟩
      · apply (directoryExists_returns_true top _).bind
        apply (directoryExists_returns_true there _).bind
        apply (records_returns sound fits there listing).bind
        rw [if_neg (by rw [perm.length_eq]; omega)]
        apply loaded.bind
        rfl
      · apply List.pairwise_mergeSort
        · intro first second third
          simp only [compareSync_isLE]
          omega
        · intro first second
          rw [Bool.or_eq_true, compareSync_isLE, compareSync_isLE]
          omega
      · intro sync
        rw [List.mem_mergeSort, List.mem_reverse]
        constructor
        · exact fun member => (each sync member).2
        · rintro ⟨recorded, rfl⟩
          have member := perm.mem_iff.mpr recorded.mem_names
          rw [named] at member
          obtain ⟨other, known, same⟩ := List.mem_map.mp member
          obtain ⟨_, recorded', epoch⟩ := each other known
          have paths : recordPath sha256 other = recordPath sha256 sync := by
            rw [recordPath, recordPath, same, epoch]
          rwa [← recorded'.eq recorded paths]

end SyncLog
end LiteNode
