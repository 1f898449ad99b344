import LiteNode.Logs.ReliefLog

/-!
# Records of relief marks

A directory of whole records stands for a table of marks. Keeping, listing and
pruning on disk are followed through the files, and end in the directory that
stands for the table which the same operation leaves in memory.
-/

namespace LiteNode
namespace Relief

open Files Fallible

section Definitions

variable (texts : Texts)

/-- A mark that can be read back from its record. -/
structure Storable (mark : Mark) : Prop where
  encodable : Encodable mark
  nonneg : 0 ≤ mark.height
  small : (encode texts mark).length ≤ maxWireBytes

/-- What a printer of values is relied on for. -/
structure Printing : Prop where
  faithful : texts.Faithful
  nonempty : ∀ json : Json, json.Exact → texts.print json ≠ []

/-- Files that stand for a table of marks. -/
structure Matches (marks : Memory) (files : Files) : Prop where
  root : files.find? root = some .directory ∨
    files.find? root = none ∧ ∀ height, marks.find? height = none
  entry : ∀ path node, files.find? path = some node → path = Relief.root ∨
    ∃ mark, marks.find? mark.height = some mark ∧ path = recordPath mark.height
  mark : ∀ height mark, marks.find? height = some mark →
    mark.height = height ∧ Storable texts mark ∧
      files.find? (recordPath height) = some (.regular (encode texts mark))

end Definitions

variable {texts : Texts} {marks : Memory} {files : Files} {mark : Mark} {height height' pid : Int}

theorem heightOfName_name (fits : FitsBits int64Bits height) :
    heightOfName (name height) = some height := by
  have suffixed : suffix.isSuffixOf (name height) = true := by
    rw [List.isSuffixOf_iff_suffix]
    exact ⟨_, rfl⟩
  have digits : (name height).take
      ((name height).length - suffix.length) = zeroPadded 20 height := by
    rw [name, List.length_append, Nat.add_sub_cancel, List.take_left]
  rw [heightOfName, if_pos suffixed, digits, intOfString_zeroPadded (by decide) 20 fits]
  exact if_pos rfl

theorem name_inj (fits : FitsBits int64Bits height)
    (fits' : FitsBits int64Bits height') (same : name height = name height') :
    height = height' := by
  have named := heightOfName_name fits
  rw [same, heightOfName_name fits'] at named
  exact (Option.some.inj named).symm

theorem length_name (nonneg : 0 ≤ height) (fits : FitsBits int64Bits height) :
    (name height).length = 25 := by
  have most : height < 2 ^ 63 := fits.2
  rw [name, List.length_append, length_zeroPadded (by decide) nonneg (by omega)]
  rfl

theorem recordPath_ne_root : recordPath height ≠ root := by simp [recordPath, root]

theorem stagedPath_ne_root {attempt : Nat} : stagedPath height pid attempt ≠ root := by
  simp [stagedPath, root]

/-- A staged file has a longer name than a record. -/
theorem stagedPath_ne_recordPath {attempt : Nat} (nonneg : 0 ≤ height)
    (fits : FitsBits int64Bits height) (nonneg' : 0 ≤ height')
    (fits' : FitsBits int64Bits height') : stagedPath height pid attempt ≠ recordPath height' := by
  intro same
  have lengths := congrArg List.length (List.cons.inj same).1
  rw [List.length_append, length_name nonneg fits,
    length_name nonneg' fits', List.length_append] at lengths
  have marked : (Bytes.ofAscii ".staged.").length = 8 := by decide
  omega

variable {path : Path} {listed : List Mark}

theorem read_returns (printing : Printing texts) (storable : Storable texts mark)
    (found : files.find? path = some (.regular (encode texts mark))) :
    (read texts path).Returns files mark := by
  have nonempty : (encode texts mark).length ≠ 0 := fun empty =>
    printing.nonempty _ (exact_markJson mark) (List.length_eq_zero_iff.mp empty)
  have small := storable.small
  apply (lstat_returns found).bind
  dsimp only
  rw [if_neg (by omega)]
  apply (readContent_returns found).bind
  rw [decode_encode printing.faithful storable.encodable]
  rfl

/-- Whether something is there, told by a handler of what is missing. -/
theorem lstat_returns_false {handler : Fault → Action Bool} (absent : files.find? path = none)
    (caught : handler (.unix .enoent "lstat" path) files = (pure false : Action Bool) files) :
    Fallible.Returns (ExceptT.tryCatch (do
      let _ ← lstat path
      return true) handler) files false := by
  rw [Fallible.Returns, ((lstat_refuses absent).bind _).tryCatch]
  exact caught

theorem lstat_returns_true {node : Node}
    {handler : Fault → Action Bool} (found : files.find? path = some node) :
    Fallible.Returns (ExceptT.tryCatch (do
      let _ ← lstat path
      return true) handler) files true := by
  apply Returns.unhandled
  apply (lstat_returns found).bind
  rfl

theorem readOpt_returns_none (absent : files.find? path = none) :
    (readOpt texts path).Returns files none := by
  apply (lstat_returns_false absent rfl).bind
  rfl

theorem readOpt_returns_some (printing : Printing texts) (storable : Storable texts mark)
    (found : files.find? path = some (.regular (encode texts mark))) :
    (readOpt texts path).Returns files (some mark) := by
  apply (lstat_returns_true found).bind
  apply (read_returns printing storable found).bind
  rfl

namespace Matches

theorem storable (same : Matches texts marks files)
    (found : marks.find? height = some mark) : Storable texts mark :=
  (same.mark height mark found).2.1

theorem placeable (same : Matches texts marks files) : Placeable files Relief.root where
  parent := by simp [isDirectory, Relief.root]
  free := by
    rcases same.root with there | ⟨absent, _⟩
    · exact Or.inr there
    · exact Or.inl absent

theorem directory (same : Matches texts marks files) (found : marks.find? height = some mark) :
    files.find? Relief.root = some .directory := by
  rcases same.root with there | ⟨_, empty⟩
  · exact there
  · rw [empty] at found
    cases found

theorem absent (same : Matches texts marks files) (fits : FitsBits int64Bits height)
    (unmarked : marks.find? height = none) : files.find? (recordPath height) = none := by
  cases found : files.find? (recordPath height) with
  | none => rfl
  | some node =>
    rcases same.entry _ _ found with top | ⟨mark, known, place⟩
    · exact absurd top recordPath_ne_root
    · have kept := (same.storable known).encodable.height
      rw [← name_inj fits kept (List.cons.inj place).1, unmarked] at known
      cases known

theorem unstaged (same : Matches texts marks files) (nonneg : 0 ≤ height)
    (fits : FitsBits int64Bits height) (attempt : Nat) :
    files.find? (stagedPath height pid attempt) = none := by
  cases found : files.find? (stagedPath height pid attempt) with
  | none => rfl
  | some node =>
    rcases same.entry _ _ found with top | ⟨mark, known, place⟩
    · exact absurd top stagedPath_ne_root
    · have storable := same.storable known
      exact absurd place (stagedPath_ne_recordPath nonneg fits
        storable.nonneg storable.encodable.height)

/-- One record more. -/
theorem insert (same : Matches texts marks files) {after : Files}
    (storable : Storable texts mark) (found : ∀ path, after.find? path =
      if path = recordPath mark.height then some (.regular (encode texts mark))
      else (ensured files Relief.root).find? path) :
    Matches texts (marks.replace mark.height mark) after where
  root := by
    rw [found, if_neg recordPath_ne_root.symm]
    exact Or.inl same.placeable.find?_ensured
  entry := by
    intro path node there
    rw [found] at there
    split at there
    · next place =>
      exact Or.inr ⟨mark, by rw [Table.find?_replace], place⟩
    · rw [find?_ensured] at there
      split at there
      · next made => exact Or.inl made.1
      · rcases same.entry _ _ there with top | ⟨other, known, place⟩
        · exact Or.inl top
        · refine Or.inr ⟨other, ?_, place⟩
          rw [Table.find?_replace_ne, known]
          intro equal
          rw [equal] at place
          contradiction
  mark := by
    intro height other known
    rw [Table.find?_replace_eq_ite] at known
    split at known
    · next equal =>
      cases known
      rw [equal]
      exact ⟨rfl, storable, by rw [found, if_pos rfl]⟩
    · next apart =>
      obtain ⟨at', kept, there⟩ := same.mark height other known
      refine ⟨at', kept, ?_⟩
      have fits := kept.encodable.height
      rw [at'] at fits
      rw [found, if_neg, find?_ensured, if_neg fun made => recordPath_ne_root made.1, there]
      intro paths
      exact apart (name_inj fits storable.encodable.height (List.cons.inj paths).1)

end Matches

theorem stage_succeeds (there : files.find? root = some .directory)
    (absent : files.find? (stagedPath height pid 0) = none) (wire : Bytes) :
    Succeeds (· = files) (stage height pid wire)
      (fun staged after => staged = stagedPath height pid 0 ∧
        after = files.replace (stagedPath height pid 0) (.regular wire))
      (fun _ => True) := by
  have parent : files.isDirectory (stagedPath height pid 0).tail = true := by
    have tail : (stagedPath height pid 0).tail = root := rfl
    simp [isDirectory, tail, there]
  apply Succeeds.unhandled
  apply Succeeds.bind ((create_succeeds absent parent wire).weaken
    (fun _ same => same) (fun _ _ same => same) fun _ _ => trivial)
  intro _
  exact Succeeds.pure (fun _ same => ⟨rfl, same⟩) fun _ _ => trivial

theorem finish_succeeds {staged : Path} (apart : staged ≠ recordPath height)
    (absent : files.find? (recordPath height) = none)
    (found : files.find? staged = some (.regular (encode texts mark))) :
    Succeeds (· = files) (finish texts height staged mark)
      (fun saved after => saved = mark ∧ ∀ path, after.find? path =
        if path = recordPath height then some (.regular (encode texts mark))
        else if path = staged then none else files.find? path)
      (fun _ => True) := by
  have linked := (link_succeeds found absent).weaken (fun _ same => same)
    (fun _ _ same => same) (fun _ _ => trivial)
  have kept : (files.replace (recordPath height)
      (.regular (encode texts mark))).find? staged = some (.regular (encode texts mark)) := by
    rw [Table.find?_replace_ne apart, found]
  have removed := (unlink_succeeds kept).weaken (fun _ same => same)
    (fun _ _ same => same) (fun _ _ => trivial)
  have stored : Succeeds (· = files) (do
      link staged (recordPath height)
      return mark : Action Mark)
      (fun saved after => saved = mark ∧ after = files.replace
        (recordPath height) (.regular (encode texts mark)))
      (fun _ => True) :=
    linked.bind fun _ => Succeeds.pure (fun _ same => ⟨rfl, same⟩) fun _ _ => trivial
  apply Succeeds.bind (attempt_succeeds (stored.unhandled _) fun _ _ _ => trivial)
  intro result
  apply Succeeds.of_states
  rintro _ ⟨_, rfl, rfl, rfl⟩
  apply Succeeds.bind (attempt_succeeds (removed.unhandled _) fun _ _ _ => trivial)
  intro result
  apply Succeeds.of_states
  rintro _ ⟨_, rfl, rfl⟩
  apply (attempt_syncDir_returns root).succeeds_bind
  apply Succeeds.pure
  · rintro _ rfl
    refine ⟨rfl, fun path => ?_⟩
    rw [Table.find?_remove_eq_ite, Table.find?_replace_eq_ite]
    by_cases place : path = recordPath height
    · rw [if_pos place, if_pos place, if_neg (by rw [place]; exact apart.symm)]
    · rw [if_neg place, if_neg place]
  · exact fun _ _ => trivial

/-- Keeping the first mark of a height. -/
theorem keepDisk_succeeds (same : Matches texts marks files) (storable : Storable texts mark)
    (unmarked : marks.find? mark.height = none) (pid : Int) :
    Succeeds (· = files) (keepDisk texts pid mark)
      (fun saved after => saved = mark ∧ Matches texts (marks.replace mark.height mark) after)
      (fun _ => True) := by
  have fits := storable.encodable.height
  have top := same.placeable.find?_ensured
  have absent : (ensured files root).find? (recordPath mark.height) = none := by
    rw [find?_ensured, if_neg fun made => recordPath_ne_root made.1]
    exact same.absent fits unmarked
  have unstaged : (ensured files root).find?
      (stagedPath mark.height pid 0) = none := by
    rw [find?_ensured, if_neg fun made => stagedPath_ne_root made.1]
    exact same.unstaged storable.nonneg fits 0
  have apart : stagedPath mark.height pid 0 ≠ recordPath mark.height :=
    stagedPath_ne_recordPath storable.nonneg fits storable.nonneg fits
  apply Succeeds.bind ((makeDirectory_succeeds same.placeable _).weaken
    (fun _ same => same) (fun _ _ same => same) fun _ _ => trivial)
  intro _
  apply Succeeds.of_states
  rintro _ rfl
  apply (readOpt_returns_none absent).succeeds_bind
  apply (stage_succeeds top unstaged (encode texts mark)).bind
  intro staged
  apply Succeeds.of_states
  rintro _ ⟨rfl, rfl⟩
  apply (finish_succeeds apart
    (by rw [Table.find?_replace_ne apart.symm, absent])
    (Table.find?_replace _ _ _)).weaken (fun _ same => same) _
    fun _ _ => trivial
  rintro saved after ⟨kept, found⟩
  refine ⟨kept, same.insert storable fun path => ?_⟩
  rw [found, Table.find?_replace_eq_ite]
  by_cases staged : path = stagedPath mark.height pid 0
  · rw [staged, if_neg apart, if_pos rfl, if_neg apart, unstaged]
  · rw [if_neg staged, if_neg staged]

theorem makeDir_returns (there : files.find? root = some .directory) :
    (makeDir root).Returns files () := by
  apply Returns.unhandled
  apply (lstat_returns there).bind
  rfl

/-- Keeping another mark of a height. -/
theorem keepDisk_found (printing : Printing texts) (same : Matches texts marks files) {saved : Mark}
    (found : marks.find? mark.height = some saved) (pid : Int) :
    keepDisk texts pid mark files =
      ⟨if samePlan saved mark then .ok saved
        else .error (.refused "relief log plan conflicts"), []⟩ := by
  obtain ⟨_, storable, record⟩ := same.mark _ _ found
  by_cases plan : samePlan saved mark = true
  · rw [if_pos plan]
    apply (makeDir_returns (same.directory found)).bind
    apply (readOpt_returns_some printing storable record).bind
    dsimp only
    rw [if_pos plan]
    rfl
  · rw [if_neg plan]
    apply (makeDir_returns (same.directory found)).refuses_bind
    apply (readOpt_returns_some printing storable record).refuses_bind
    dsimp only
    rw [if_neg plan]
    rfl

/-- Records and the marks that they stand for. -/
theorem listed_names (same : Matches texts marks files) (listing : Listing) :
    ∃ listed : List Mark, ((listing.list (files.names root)).filterMap fun entry =>
        (heightOfName entry).map fun height => (entry, height)) =
          listed.map (fun mark => (name mark.height, mark.height)) ∧
      (listed.map Mark.height).Nodup ∧
      ∀ mark, mark ∈ listed ↔ marks.find? mark.height = some mark := by
  have perm := listing.perm (files.names root)
  have each : ∀ entry ∈ listing.list (files.names root),
      ∃ mark : Mark, marks.find? mark.height = some mark ∧ entry = name mark.height := by
    intro entry member
    obtain ⟨node, found⟩ := Files.mem_names.mp (perm.mem_iff.mp member)
    rcases same.entry _ _ found with top | ⟨mark, known, place⟩
    · simp [root] at top
    · exact ⟨mark, known, (List.cons.inj place).1⟩
  obtain ⟨listed, named, known⟩ := exists_map_eq each
  refine ⟨listed, ?_, ?_, ?_⟩
  · rw [named, List.filterMap_map, ← List.filterMap_eq_map]
    apply List.filterMap_congr
    intro mark member
    have fits := (same.storable (known mark member)).encodable.height
    simp [heightOfName_name fits]
  · have distinct := perm.nodup_iff.mpr (nodup_names files root)
    rw [named] at distinct
    apply List.Nodup.of_map name
    rwa [List.map_map]
  · intro mark
    constructor
    · exact known mark
    · intro found
      obtain ⟨_, storable, record⟩ := same.mark _ _ found
      have member : name mark.height ∈ listing.list (files.names root) :=
        perm.mem_iff.mpr (Files.mem_names.mpr ⟨_, record⟩)
      rw [named] at member
      obtain ⟨other, listedToo, names⟩ := List.mem_map.mp member
      have there := known other listedToo
      rw [name_inj (same.storable there).encodable.height
        storable.encodable.height names, found] at there
      rwa [Option.some.inj there]

theorem length_listed (distinct : (listed.map Mark.height).Nodup)
    (known : ∀ mark ∈ listed, marks.find? mark.height = some mark) :
    listed.length ≤ marks.length := by
  have subset : ∀ height ∈ listed.map Mark.height, height ∈ marks.toList.map Prod.fst := by
    intro height member
    obtain ⟨mark, there, rfl⟩ := List.mem_map.mp member
    exact List.mem_map.mpr ⟨_, Table.mem_toList.mpr (known mark there), rfl⟩
  have fewer := (List.subperm_of_subset distinct subset).length_le
  rwa [List.length_map, List.length_map] at fewer

theorem foldlM_readMark (printing : Printing texts) (same : Matches texts marks files)
    (known : ∀ mark ∈ listed, marks.find? mark.height = some mark) (read : List Mark) :
    ((listed.map fun mark => (name mark.height, mark.height)).foldlM
      (readMark texts) read).Returns files (listed.reverse ++ read) := by
  induction listed generalizing read with
  | nil => rfl
  | cons mark rest ih =>
    rw [List.forall_mem_cons] at known
    obtain ⟨_, storable, record⟩ := same.mark _ _ known.1
    have step : (readMark texts read (name mark.height, mark.height)).Returns
        files (mark :: read) := by
      apply (read_returns printing storable record).bind
      rw [if_pos rfl]
      rfl
    have rest := ih known.2 (mark :: read)
    apply step.bind
    rwa [List.reverse_cons, List.append_assoc]

/-- Listing gives the marks that are stored. -/
theorem diskMarks_returns (printing : Printing texts)
    (same : Matches texts marks files) (few : marks.length ≤ maxMarks) (listing : Listing) :
    ∃ listed, (diskMarks texts listing).Returns files listed ∧ (listed.map Mark.height).Nodup ∧
      ∀ mark, mark ∈ listed ↔ marks.find? mark.height = some mark := by
  rcases same.root with there | ⟨absent, empty⟩
  · obtain ⟨listed, named, distinct, known⟩ := listed_names same listing
    have fewer := length_listed distinct fun mark => (known mark).mp
    have directory : files.isDirectory root = true := by simp [isDirectory, there]
    refine ⟨listed.reverse, ?_, ?_, fun mark => by rw [List.mem_reverse, known]⟩
    · apply (directoryExists_returns_true there _).bind
      apply (readdir_returns directory listing).bind
      rw [named]
      dsimp only
      rw [List.length_map, if_neg (by omega)]
      have read := foldlM_readMark printing same (fun mark => (known mark).mp) []
      rwa [List.append_nil] at read
    · rw [List.map_reverse]
      exact List.nodup_reverse.mpr distinct
  · refine ⟨[], (directoryExists_returns_false absent _).bind rfl, by simp, ?_⟩
    simp [empty]

/-- The mark of greatest height that is not above a height, if any. -/
structure IsLatest (members : Mark → Prop) (throughHeight : Int) (best : Option Mark) : Prop where
  chosen : ∀ mark, best = some mark → members mark ∧ mark.height ≤ throughHeight
  greatest : ∀ mark, members mark → mark.height ≤ throughHeight →
    ∃ prior, best = some prior ∧ mark.height ≤ prior.height

theorem IsLatest.laterMark {throughHeight : Int} {members : Mark → Prop}
    {best : Option Mark} (latest : IsLatest members throughHeight best) (mark : Mark) :
    IsLatest (fun other => members other ∨ other = mark) throughHeight
      (laterMark throughHeight best mark) := by
  obtain ⟨chosen, greatest⟩ := latest
  unfold Relief.laterMark
  by_cases above : throughHeight < mark.height
  · rw [if_pos above]
    constructor
    · intro other same
      exact ⟨Or.inl (chosen other same).1, (chosen other same).2⟩
    · rintro other (known | rfl) below
      · exact greatest other known below
      · omega
  · rw [if_neg above]
    cases best with
    | none =>
      constructor
      · rintro _ ⟨⟩
        exact ⟨Or.inr rfl, by omega⟩
      · rintro other (known | rfl) below
        · obtain ⟨prior, impossible, _⟩ := greatest other known below
          cases impossible
        · exact ⟨other, rfl, le_refl _⟩
    | some prior =>
      obtain ⟨known, low⟩ := chosen prior rfl
      dsimp only
      by_cases later : prior.height < mark.height
      · rw [if_pos later]
        constructor
        · rintro _ ⟨⟩
          exact ⟨Or.inr rfl, by omega⟩
        · rintro other (known | rfl) below
          · obtain ⟨_, ⟨⟩, bound⟩ := greatest other known below
            exact ⟨mark, rfl, by omega⟩
          · exact ⟨other, rfl, le_refl _⟩
      · rw [if_neg later]
        constructor
        · rintro _ ⟨⟩
          exact ⟨Or.inl known, low⟩
        · rintro other (known | rfl) below
          · exact greatest other known below
          · exact ⟨prior, rfl, by omega⟩

theorem isLatest_latestMarks (listed : List Mark) (throughHeight : Int) :
    IsLatest (· ∈ listed) throughHeight (latestMarks listed throughHeight) := by
  suffices loop : ∀ (rest : List Mark) (members : Mark → Prop)
      (best : Option Mark), IsLatest members throughHeight best →
      IsLatest (fun mark => members mark ∨ mark ∈ rest) throughHeight
        (rest.foldl (laterMark throughHeight) best) by
    have start : IsLatest (fun _ => False) throughHeight none := ⟨by simp, by simp⟩
    simpa [latestMarks] using loop listed _ none start
  intro rest
  induction rest with
  | nil =>
    intro members best latest
    simpa using latest
  | cons mark rest ih =>
    intro members best latest
    have further := ih _ _ (latest.laterMark mark)
    simpa [or_assoc] using further

/-- Marks of distinct heights have one latest mark. -/
theorem IsLatest.eq {members : Mark → Prop} {throughHeight : Int} {best best' : Option Mark}
    (apart : ∀ mark mark', members mark → members mark' →
      mark.height = mark'.height → mark = mark') (latest : IsLatest members throughHeight best)
    (latest' : IsLatest members throughHeight best') : best = best' := by
  cases found : best with
  | none =>
    cases found' : best' with
    | none => rfl
    | some mark =>
      obtain ⟨known, low⟩ := latest'.chosen mark found'
      obtain ⟨prior, impossible, _⟩ := latest.greatest mark known low
      rw [found] at impossible
      cases impossible
  | some mark =>
    obtain ⟨known, low⟩ := latest.chosen mark found
    obtain ⟨prior, found', below⟩ := latest'.greatest mark known low
    obtain ⟨known', low'⟩ := latest'.chosen prior found'
    obtain ⟨other, same, below'⟩ := latest.greatest prior known' low'
    rw [found] at same
    cases same
    rw [found', apart mark prior known known' (by omega)]

theorem latestDisk_returns (printing : Printing texts)
    (same : Matches texts marks files) (few : marks.length ≤ maxMarks)
    (listing : Listing) (throughHeight : Int) :
    ∃ best, (latestDisk texts listing throughHeight).Returns files best ∧
      latestMemory marks throughHeight = .ok best ∧
      IsLatest (fun mark => marks.find? mark.height = some mark) throughHeight best := by
  obtain ⟨listed, returns, _, known⟩ := diskMarks_returns printing same few listing
  have members : (fun mark => marks.find? mark.height = some mark) =
      (· ∈ listed) := funext fun mark => propext (known mark).symm
  have stored : (fun mark => marks.find? mark.height = some mark) = (· ∈ marks.values) := by
    funext mark
    rw [Table.mem_values]
    apply propext
    constructor
    · exact fun found => ⟨_, found⟩
    · rintro ⟨height, found⟩
      rwa [(same.mark _ _ found).1]
  have disk := isLatest_latestMarks listed throughHeight
  have memory := isLatest_latestMarks marks.values throughHeight
  rw [← members] at disk
  rw [← stored] at memory
  refine ⟨latestMarks listed throughHeight, returns.bind rfl, ?_, disk⟩
  rw [latestMemory, memory.eq _ disk]
  intro mark mark' found found' heights
  rw [heights, found'] at found
  exact (Option.some.inj found).symm

/-- Files after the records of expired marks were removed. -/
structure Pruned (files : Files) (throughEpoch : Int) (treated : List Mark)
    (after : Files) : Prop where
  gone : ∀ mark ∈ treated, expired throughEpoch mark = true →
    after.find? (recordPath mark.height) = none
  others : ∀ path, (∀ mark ∈ treated, expired throughEpoch mark = true →
    path ≠ recordPath mark.height) → after.find? path = files.find? path

theorem pruneMark_succeeds {throughEpoch : Int} {before : List Mark} {content : Bytes}
    (found : files.find? (recordPath mark.height) = some (.regular content))
    (apart : ∀ other ∈ before, recordPath mark.height ≠ recordPath other.height) (removed : Bool) :
    Succeeds (Pruned files throughEpoch before)
      (pruneMark throughEpoch removed mark)
      (fun _ => Pruned files throughEpoch (before ++ [mark]))
      (fun _ => True) := by
  apply Succeeds.of_states
  intro state pruned
  unfold pruneMark
  by_cases ended : expired throughEpoch mark = true
  · rw [if_pos ended]
    have there : state.find? (recordPath mark.height) = some (.regular content) := by
      rw [pruned.others _ fun other member _ => apart other member, found]
    apply Succeeds.bind ((unlink_succeeds there).weaken (fun _ same => same)
      (fun _ _ same => same) fun _ _ => trivial)
    intro _
    apply Succeeds.pure
    · rintro _ rfl
      constructor
      · intro other member ended'
        rw [Table.find?_remove_eq_ite]
        split
        · rfl
        · next different =>
          rcases List.mem_append.mp member with earlier | last
          · exact pruned.gone other earlier ended'
          · rw [List.mem_singleton.mp last] at different
            exact absurd rfl different
      · intro path different
        rw [Table.find?_remove_eq_ite, if_neg (different mark (by simp) ended)]
        apply pruned.others
        intro other member
        exact different other (List.mem_append_left _ member)
    · exact fun _ _ => trivial
  · rw [if_neg ended]
    apply Succeeds.pure
    · rintro _ rfl
      constructor
      · intro other member ended'
        rcases List.mem_append.mp member with earlier | last
        · exact pruned.gone other earlier ended'
        · rw [List.mem_singleton.mp last] at ended'
          exact absurd ended' ended
      · intro path different
        apply pruned.others
        intro other member
        exact different other (List.mem_append_left _ member)
    · exact fun _ _ => trivial

theorem Matches.pruned {throughEpoch : Int} {after : Files} (same : Matches texts marks files)
    (known : ∀ mark, mark ∈ listed ↔ marks.find? mark.height = some mark)
    (pruned : Pruned files throughEpoch listed after) :
    Matches texts (pruneMemory marks throughEpoch) after where
  root := by
    rw [pruned.others Relief.root fun _ _ _ => recordPath_ne_root.symm]
    rcases same.root with there | ⟨absent, empty⟩
    · exact Or.inl there
    · exact Or.inr ⟨absent, fun height => by
        rw [pruneMemory, Table.find?_filterValues, empty]
        rfl⟩
  entry := by
    intro path node found
    by_cases ended : ∃ mark ∈ listed, expired throughEpoch mark = true ∧
        path = recordPath mark.height
    · obtain ⟨mark, member, ended, rfl⟩ := ended
      rw [pruned.gone mark member ended] at found
      cases found
    · rw [pruned.others path fun mark member expires place =>
        ended ⟨mark, member, expires, place⟩] at found
      rcases same.entry path node found with top | ⟨mark, kept, place⟩
      · exact Or.inl top
      · refine Or.inr ⟨mark, ?_, place⟩
        have alive : expired throughEpoch mark ≠ true := fun expires =>
          ended ⟨mark, (known mark).mpr kept, expires, place⟩
        rw [pruneMemory, Table.find?_filterValues, kept]
        simp [alive]
  mark := by
    intro height mark found
    rw [pruneMemory, Table.find?_filterValues, Option.filter_eq_some_iff] at found
    obtain ⟨found, alive⟩ := found
    obtain ⟨place, storable, record⟩ := same.mark height mark found
    refine ⟨place, storable, ?_⟩
    rw [pruned.others, record]
    intro other member expires paths
    have stored := (known other).mp member
    have fits := storable.encodable.height
    rw [place] at fits
    rw [← name_inj fits (same.storable stored).encodable.height
      (List.cons.inj paths).1, found] at stored
    rw [← Option.some.inj stored] at expires
    simp [expires] at alive

theorem pruneDisk_succeeds (printing : Printing texts)
    (same : Matches texts marks files) (few : marks.length ≤ maxMarks)
    (listing : Listing) (throughEpoch : Int) :
    Succeeds (· = files) (pruneDisk texts listing throughEpoch)
      (fun _ after => Matches texts (pruneMemory marks throughEpoch) after)
      (fun _ => True) := by
  obtain ⟨listed, returns, distinct, known⟩ := diskMarks_returns printing same few listing
  apply returns.succeeds_bind
  have loop := @Succeeds.foldlM Fault Files Bool Mark (fun _ => True)
    (pruneMark throughEpoch) listed
    (fun treated _ => Pruned files throughEpoch treated)
    (by
      intro before mark rest removed split
      have member : mark ∈ listed := by simp [split]
      have stored := (known mark).mp member
      obtain ⟨_, storable, record⟩ := same.mark _ _ stored
      apply pruneMark_succeeds record
      intro other earlier paths
      have storedToo := (known other).mp (by simp [split, earlier])
      have heights := name_inj storable.encodable.height
        (same.storable storedToo).encodable.height (List.cons.inj paths).1
      rw [split, List.map_append, List.map_cons] at distinct
      apply List.disjoint_of_nodup_append distinct (List.mem_map_of_mem earlier)
      rw [← heights]
      exact List.mem_cons_self)
    (fun _ _ _ _ _ _ => trivial) false
  have start : Pruned files throughEpoch [] files := ⟨by simp, fun _ _ => rfl⟩
  have first := @Succeeds.weaken Fault Files Bool _ (· = files) _ _ _ _ _ loop
    (by rintro _ rfl; exact start) (fun _ _ pruned => pruned)
    (fun _ _ => trivial)
  apply first.bind
  intro removed
  have done : (if removed then syncDir root else pure () : Action Unit) = pure () := by
    cases removed <;> rfl
  rw [done]
  exact Succeeds.pure (fun _ pruned => same.pruned known pruned) fun _ _ => trivial

end Relief
end LiteNode
