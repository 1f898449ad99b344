import LiteNode.Ledger.Moves
import LiteNode.Ledger.Overlay
import Mathlib.Data.List.TakeWhile

/-!
# Journals are savepoints

Journals are nested savepoints of a ledger. Every write records what it
replaces in all open journals that have no record of it yet; aborting the
innermost journal puts its records back.

While a journal is open, whatever it has no record of is as it was when the
journal was begun, and whatever it has a record of is recorded as it was then.
Hence an abort restores what the ledger showed at the matching begin.
-/

namespace LiteNode
namespace Ledger

/-- A journal that has recorded no account yet. -/
def newJournal (l : Ledger) : EpochJournal where
  accounts := ∅
  kats := ∅
  dirtyAddrs := l.dirtyAddrs
  dirty := l.dirty
  totalSupply := l.totalSupply
  activeAccounts := l.activeAccounts
  spentNonces := l.spentNonces

def beginJournal (l : Ledger) : Ledger × Except LedgerError Unit :=
  ({ l with epochJournals := l.newJournal :: l.epochJournals }, .ok ())

def commitJournal (l : Ledger) : Ledger × Except LedgerError Unit :=
  match l.epochJournals with
  | [] => (l, .error (.rejected "ledger journal is not active"))
  | _ :: rest => ({ l with epochJournals := rest }, .ok ())

def restoreKat (store : LedgerStore) (entry : Bytes × Option Bytes) : LedgerStore :=
  match entry.2 with
  | some kat => store.setPvacKat entry.1 kat
  | none => store.removePvacKat entry.1

/-- The store with the recorded attestations written back. -/
def restoreKats (store : LedgerStore) (kats : Table Bytes (Option Bytes)) : LedgerStore :=
  kats.toList.foldl restoreKat store

def abortJournal (l : Ledger) : Ledger × Except LedgerError Unit :=
  match l.epochJournals with
  | [] => (l, .ok ())
  | journal :: rest =>
    ({ l with
      store := restoreKats l.store journal.kats
      cache := l.cache.restore journal.accounts
      dirtyAddrs := journal.dirtyAddrs.copyOf
      spentNonces := journal.spentNonces.copyOf
      dirty := journal.dirty
      totalSupply := journal.totalSupply
      activeAccounts := journal.activeAccounts
      epochJournals := rest }, .ok ())

/-- Record the attestation of an address, unless that is done. -/
def recordKat (store : LedgerStore) (addr : Bytes) (journal : EpochJournal) : EpochJournal :=
  if journal.kats.mem addr then journal
  else
    { journal with
      kats := journal.kats.replace addr (store.getPvacKat addr) }

def setPvacKat (l : Ledger) (addr kat : Bytes) : Ledger :=
  { l with
    epochJournals := l.epochJournals.map (recordKat l.store addr)
    store := l.store.setPvacKat addr kat }

/-- Calls of a ledger with journals. An overlay is promoted into the ledger it
was staged over. -/
inductive JournalCall
  | perform (call : LedgerCall)
  | setPvacKat (addr kat : Bytes)
  | promote (staged : Overlay)
  | begin
  | commit
  | abort

def journalCall (l : Ledger) : JournalCall → Ledger × Except LedgerError Unit
  | .perform call => l.perform call
  | .setPvacKat addr kat => (l.setPvacKat addr kat, .ok ())
  | .promote staged =>
    let (o, answer) := { staged with base := l }.promote
    (o.base, answer)
  | .begin => l.beginJournal
  | .commit => l.commitJournal
  | .abort => l.abortJournal

/-- The ledger after some calls. -/
def journalRun (l : Ledger) : List JournalCall → Ledger
  | [] => l
  | call :: calls => (l.journalCall call).1.journalRun calls

/-- Every journal that the calls open is closed by them, and they close no
other; so many are open at the start. -/
def WellNested : Nat → List JournalCall → Prop
  | depth, [] => depth = 0
  | depth, .begin :: calls => WellNested (depth + 1) calls
  | depth, .commit :: calls => 0 < depth ∧ WellNested (depth - 1) calls
  | depth, .abort :: calls => 0 < depth ∧ WellNested (depth - 1) calls
  | depth, _ :: calls => WellNested depth calls

/-- What a journal is a savepoint of. -/
structure Savepoint where
  account : Bytes → Option Account
  kat : Bytes → Option Bytes
  dirtyAddrs : Bytes → Bool
  dirty : Bool
  totalSupply : Int
  activeAccounts : Int
  spentNonces : Bytes × Int → Bool

def savepoint (l : Ledger) : Savepoint where
  account := l.findOpt
  kat := l.store.getPvacKat
  dirtyAddrs := l.dirtyAddrs.mem
  dirty := l.dirty
  totalSupply := l.totalSupply
  activeAccounts := l.activeAccounts
  spentNonces := l.spentNonces.mem

/-- A journal records a ledger as it was. -/
structure Records (journal : EpochJournal) (start l : Ledger) : Prop where
  stored : l.store.accounts = start.store.accounts
  account : ∀ addr recorded, journal.accounts.find? addr = some recorded →
    recorded.or (start.store.accounts.find? addr) = start.findOpt addr
  unchanged : ∀ addr, journal.accounts.find? addr = none → l.findOpt addr = start.findOpt addr
  kat : ∀ addr recorded, journal.kats.find? addr = some recorded →
    recorded = start.store.getPvacKat addr
  unchangedKat : ∀ addr, journal.kats.find? addr = none →
    l.store.katFiles.find? addr = start.store.katFiles.find? addr
  dirtyAddrs : journal.dirtyAddrs = start.dirtyAddrs
  dirty : journal.dirty = start.dirty
  totalSupply : journal.totalSupply = start.totalSupply
  activeAccounts : journal.activeAccounts = start.activeAccounts
  spentNonces : journal.spentNonces = start.spentNonces

/-- What an inner journal records, the outer one records. -/
structure Within (inner outer : EpochJournal) : Prop where
  accounts : ∀ addr, inner.accounts.mem addr = true → outer.accounts.mem addr = true
  kats : ∀ addr, inner.kats.mem addr = true → outer.kats.mem addr = true

/-- The journal of a begin is open, under so many that were begun later. -/
structure Saving (start : Ledger) (depth : Nat) (l : Ledger) : Prop where
  split : ∃ inner journal outer, l.epochJournals = inner ++ journal :: outer ∧
    inner.length = depth ∧ Records journal start l ∧ ∀ later ∈ inner, Within later journal

variable {start l l' : Ledger} {depth : Nat} {journal inner : EpochJournal}

theorem accounts_record (cache : Table Bytes Account) (addr other : Bytes) :
    (EpochJournal.record cache addr journal).accounts.find? other =
      if other = addr ∧ journal.accounts.find? addr = none then some (cache.find? addr)
      else journal.accounts.find? other := by
  unfold EpochJournal.record
  cases found : journal.accounts.find? addr with
  | none =>
    have absent : journal.accounts.mem addr = false := by simp [Table.mem, found]
    rw [absent, if_neg Bool.false_ne_true, Table.find?_replace_eq_ite]
    simp
  | some recorded =>
    have present : journal.accounts.mem addr = true := by simp [Table.mem, found]
    rw [present]
    simp

theorem mem_accounts_record (cache : Table Bytes Account) (addr other : Bytes) :
    (EpochJournal.record cache addr journal).accounts.mem other =
      (decide (other = addr) || journal.accounts.mem other) := by
  unfold Table.mem
  rw [accounts_record]
  by_cases same : other = addr
  · subst same
    cases journal.accounts.find? other <;> simp
  · simp [same]

/-- Recording an account leaves the rest of a journal. -/
theorem record_eq (cache : Table Bytes Account) (addr : Bytes) :
    EpochJournal.record cache addr journal =
      { journal with
        accounts := (EpochJournal.record cache addr journal).accounts } := by
  unfold EpochJournal.record
  split <;> rfl

theorem kats_record (cache : Table Bytes Account) (addr : Bytes) :
    (EpochJournal.record cache addr journal).kats = journal.kats := by
  rw [record_eq]

theorem kats_recordKat (store : LedgerStore) (addr other : Bytes) :
    (recordKat store addr journal).kats.find? other =
      if other = addr ∧ journal.kats.find? addr = none then some (store.getPvacKat addr)
      else journal.kats.find? other := by
  unfold recordKat
  cases found : journal.kats.find? addr with
  | none =>
    have absent : journal.kats.mem addr = false := by simp [Table.mem, found]
    rw [absent, if_neg Bool.false_ne_true, Table.find?_replace_eq_ite]
    simp
  | some recorded =>
    have present : journal.kats.mem addr = true := by simp [Table.mem, found]
    rw [present]
    simp

theorem mem_kats_recordKat (store : LedgerStore) (addr other : Bytes) :
    (recordKat store addr journal).kats.mem other =
      (decide (other = addr) || journal.kats.mem other) := by
  unfold Table.mem
  rw [kats_recordKat]
  by_cases same : other = addr
  · subst same
    cases journal.kats.find? other <;> simp
  · simp [same]

theorem recordKat_eq (store : LedgerStore) (addr : Bytes) :
    recordKat store addr journal =
      { journal with kats := (recordKat store addr journal).kats } := by
  unfold recordKat
  split <;> rfl

theorem accounts_recordKat (store : LedgerStore) (addr : Bytes) :
    (recordKat store addr journal).accounts = journal.accounts := by
  rw [recordKat_eq]

theorem find?_eq_none_of_within {ν : Type} {inner outer : Table Bytes ν} {addr : Bytes}
    (within : inner.mem addr = true → outer.mem addr = true)
    (absent : outer.find? addr = none) : inner.find? addr = none := by
  rw [Table.find?_eq_none_iff] at absent ⊢
  rw [← Bool.not_eq_true] at absent ⊢
  exact mt within absent

theorem Within.record (within : Within inner journal) (cache : Table Bytes Account) (addr : Bytes) :
    Within (EpochJournal.record cache addr inner) (EpochJournal.record cache addr journal) where
  accounts := by
    intro other
    rw [mem_accounts_record, mem_accounts_record]
    simp only [Bool.or_eq_true]
    exact Or.imp id (within.accounts other)
  kats := by
    rw [kats_record, kats_record]
    exact within.kats

theorem Within.recordKat (within : Within inner journal) (store : LedgerStore) (addr : Bytes) :
    Within (recordKat store addr inner) (recordKat store addr journal) where
  accounts := by
    rw [accounts_recordKat, accounts_recordKat]
    exact within.accounts
  kats := by
    intro other
    rw [mem_kats_recordKat, mem_kats_recordKat]
    simp only [Bool.or_eq_true]
    exact Or.imp id (within.kats other)

/-! ## What each step keeps -/

/-- Steps that show the same accounts and attestations, and keep the
journals. -/
theorem Saving.of_same (saving : Saving start depth l) (stored : l'.store.accounts =
      l.store.accounts) (kats : l'.store.katFiles = l.store.katFiles)
    (find : ∀ addr, l'.findOpt addr = l.findOpt addr)
    (journals : l'.epochJournals = l.epochJournals) : Saving start depth l' := by
  obtain ⟨later, journal, outer, split, length, records, within⟩ := saving.split
  refine ⟨later, journal, outer, journals.trans split, length, ?_, within⟩
  exact { records with
    stored := stored.trans records.stored
    unchanged := fun addr absent => (find addr).trans (records.unchanged addr absent)
    unchangedKat := fun addr absent =>
      (congrArg (fun files => files.find? addr) kats).trans (records.unchangedKat addr absent) }

/-- Recording an account in every journal, whatever becomes of it. -/
theorem Saving.recordAccount (saving : Saving start depth l) (addr : Bytes)
    (stored : l'.store = l.store)
    (find : ∀ other, other ≠ addr → l'.findOpt other = l.findOpt other)
    (journals : l'.epochJournals = l.epochJournals.map (EpochJournal.record l.cache addr)) :
    Saving start depth l' := by
  obtain ⟨later, journal, outer, split, length, records, within⟩ := saving.split
  refine ⟨later.map (EpochJournal.record l.cache addr), EpochJournal.record l.cache addr journal,
    outer.map (EpochJournal.record l.cache addr), ?_, by simpa using length, ?_, ?_⟩
  · rw [journals, split, List.map_append, List.map_cons]
  · rw [record_eq]
    refine { records with
      stored := (congrArg LedgerStore.accounts stored).trans records.stored
      account := ?_
      unchanged := ?_
      unchangedKat := fun other absent => by
        rw [stored]
        exact records.unchangedKat other absent }
    · intro other recorded found
      rw [accounts_record] at found
      split at found
      · next first =>
        obtain ⟨rfl, absent⟩ := first
        cases found
        rw [← records.stored, ← findOpt_eq]
        exact records.unchanged other absent
      · exact records.account other recorded found
    · intro other absent
      rw [accounts_record] at absent
      split at absent
      · cases absent
      · next unrecorded =>
        have apart : other ≠ addr := by
          rintro rfl
          exact unrecorded ⟨rfl, absent⟩
        rw [find other apart]
        exact records.unchanged other absent
  · intro recorded present
    obtain ⟨former, listed, rfl⟩ := List.mem_map.mp present
    exact (within former listed).record l.cache addr

theorem Saving.setAccountInternal
    (saving : Saving start depth l) (addr : Bytes) (account : Account) :
    Saving start depth (l.setAccountInternal addr account) :=
  saving.recordAccount addr rfl
    (fun other apart => by rw [findOpt_setAccountInternal, if_neg apart]) rfl

theorem Saving.forget (saving : Saving start depth l) (addr : Bytes) :
    Saving start depth (Overlay.forget l addr) := by
  refine saving.recordAccount addr rfl (fun other apart => ?_) rfl
  rw [findOpt_eq, findOpt_eq]
  unfold Overlay.forget Ledger.recordAccount
  rw [Table.find?_remove_eq_ite, if_neg apart]

theorem Saving.setPvacKat (saving : Saving start depth l) (addr kat : Bytes) :
    Saving start depth (l.setPvacKat addr kat) := by
  obtain ⟨later, journal, outer, split, length, records, within⟩ := saving.split
  refine ⟨later.map (recordKat l.store addr), recordKat l.store addr journal,
    outer.map (recordKat l.store addr), ?_, by simpa using length, ?_, ?_⟩
  · unfold Ledger.setPvacKat
    rw [split, List.map_append, List.map_cons]
  · have find : ∀ other, (l.setPvacKat addr kat).findOpt other = l.findOpt other := by
      intro other
      rw [findOpt_eq, findOpt_eq]
      rfl
    rw [recordKat_eq]
    refine { records with
      unchanged := fun other absent => (find other).trans (records.unchanged other absent)
      kat := ?_
      unchangedKat := ?_ }
    · intro other recorded found
      rw [kats_recordKat] at found
      split at found
      · next first =>
        obtain ⟨rfl, absent⟩ := first
        cases found
        unfold LedgerStore.getPvacKat
        rw [records.unchangedKat other absent]
      · exact records.kat other recorded found
    · intro other absent
      rw [kats_recordKat] at absent
      split at absent
      · cases absent
      · next unrecorded =>
        have apart : other ≠ addr := by
          rintro rfl
          exact unrecorded ⟨rfl, absent⟩
        change (l.store.katFiles.replace addr kat).find? other = _
        rw [Table.find?_replace_ne apart]
        exact records.unchangedKat other absent
  · intro recorded present
    obtain ⟨former, listed, rfl⟩ := List.mem_map.mp present
    exact (within former listed).recordKat l.store addr

/-- Every call of a ledger records what it changes. -/
theorem Saving.perform (saving : Saving start depth l) (call : LedgerCall) :
    Saving start depth (l.perform call).1 := by
  refine (moves_perform l call).keeps (Saving start depth) ?_ saving
  intro before after saving move
  cases move with
  | load addr =>
    have same := sameBooks_getAccountInternal before addr
    exact saving.of_same (congrArg LedgerStore.accounts same.store)
      (congrArg LedgerStore.katFiles same.store) same.find
      same.epochJournals
  | write addr account => exact saving.setAccountInternal addr account
  | adjust =>
    refine saving.of_same rfl rfl (fun addr => ?_) rfl
    rw [findOpt_eq, findOpt_eq]

theorem Saving.promotedBase (staged : Overlay) (saving : Saving start depth staged.base) :
    Saving start depth staged.promotedBase := by
  have written : ∀ (entries : List (Bytes × Account)) (base : Ledger),
      Saving start depth base → Saving start depth (entries.foldl
        (fun base entry => base.setAccountInternal entry.1 entry.2) base) := by
    intro entries
    induction entries with
    | nil => exact fun _ saving => saving
    | cons entry rest ih =>
      exact fun base saving => ih _ (saving.setAccountInternal entry.1 entry.2)
  have forgotten : ∀ (addrs : List Bytes) (base : Ledger), Saving start depth base →
        Saving start depth (addrs.foldl Overlay.forget base) := by
    intro addrs
    induction addrs with
    | nil => exact fun _ saving => saving
    | cons addr rest ih => exact fun base saving => ih _ (saving.forget addr)
  refine (forgotten staged.sortedDeletedAddrs _
    (written staged.sortedPromotePairs _ saving)).of_same rfl rfl
    (fun addr => ?_) rfl
  rw [findOpt_eq, findOpt_eq]
  rfl

theorem Saving.promote (saving : Saving start depth l) (staged : Overlay) :
    Saving start depth (l.journalCall (.promote staged)).1 := by
  unfold journalCall Overlay.promote Overlay.whenActive
  dsimp only
  split
  · exact saving
  · exact Saving.promotedBase { staged with base := l } saving

theorem Saving.beginJournal (saving : Saving start depth l) :
    Saving start (depth + 1) l.beginJournal.1 := by
  obtain ⟨later, journal, outer, split, length, records, within⟩ := saving.split
  have find : ∀ addr, l.beginJournal.1.findOpt addr = l.findOpt addr := by
    intro addr
    rw [findOpt_eq, findOpt_eq]
    rfl
  refine ⟨l.newJournal :: later, journal, outer, ?_, by simpa using length, ?_, ?_⟩
  · change l.newJournal :: l.epochJournals = _
    rw [split, List.cons_append]
  · exact { records with
      unchanged := fun addr absent => (find addr).trans (records.unchanged addr absent) }
  · intro recorded present
    rcases List.mem_cons.mp present with rfl | former
    · exact { accounts := fun addr bound => absurd bound Bool.false_ne_true
              kats := fun addr bound => absurd bound Bool.false_ne_true }
    · exact within recorded former

theorem Saving.commitJournal (saving : Saving start (depth + 1) l) :
    Saving start depth l.commitJournal.1 := by
  obtain ⟨later, journal, outer, split, length, records, within⟩ := saving.split
  cases later with
  | nil => simp at length
  | cons first later =>
    have committed : l.commitJournal.1 =
        { l with epochJournals := later ++ journal :: outer } := by
      unfold Ledger.commitJournal
      rw [split]
      rfl
    have find : ∀ addr, l.commitJournal.1.findOpt addr = l.findOpt addr := by
      intro addr
      rw [committed, findOpt_eq, findOpt_eq]
    refine ⟨later, journal, outer, by rw [committed], by simpa using length,
      ?_, fun recorded present => within recorded (List.mem_cons_of_mem _ present)⟩
    have store : l.commitJournal.1.store = l.store := by rw [committed]
    exact { records with
      stored := by rw [store]; exact records.stored
      unchanged := fun addr absent => (find addr).trans (records.unchanged addr absent)
      unchangedKat := by rw [store]; exact records.unchangedKat }

theorem accounts_restoreKats (store : LedgerStore) (kats : Table Bytes (Option Bytes)) :
    (restoreKats store kats).accounts = store.accounts := by
  have kept : ∀ (entries : List (Bytes × Option Bytes)) (store : LedgerStore),
      (entries.foldl restoreKat store).accounts = store.accounts := by
    intro entries
    induction entries with
    | nil => exact fun _ => rfl
    | cons entry rest ih =>
      intro store
      rw [List.foldl_cons, ih]
      unfold restoreKat
      split <;> rfl
  exact kept kats.toList store

theorem katFiles_restoreKats (store : LedgerStore) (kats : Table Bytes (Option Bytes)) :
    (restoreKats store kats).katFiles = store.katFiles.restore kats := by
  have written : ∀ (entries : List (Bytes × Option Bytes))
      (store : LedgerStore), (entries.foldl restoreKat store).katFiles =
        entries.foldl Table.alter store.katFiles := by
    intro entries
    induction entries with
    | nil => exact fun _ => rfl
    | cons entry rest ih =>
      intro store
      have one : (restoreKat store entry).katFiles = store.katFiles.alter entry := by
        unfold restoreKat Table.alter
        split
        · next replaced => rw [replaced]; rfl
        · next removed => rw [removed]; rfl
      rw [List.foldl_cons, List.foldl_cons, ih, one]
  exact written kats.toList store

/-- What a ledger shows once its innermost journal is aborted. -/
structure Aborted (journal : EpochJournal) (l aborted : Ledger) : Prop where
  stored : aborted.store.accounts = l.store.accounts
  find : ∀ addr, aborted.findOpt addr =
    ((journal.accounts.find? addr).getD (l.cache.find? addr)).or (l.store.accounts.find? addr)
  kat : ∀ addr, aborted.store.katFiles.find? addr =
    (journal.kats.find? addr).getD (l.store.katFiles.find? addr)
  dirtyAddrs : ∀ addr, aborted.dirtyAddrs.find? addr = journal.dirtyAddrs.find? addr
  dirty : aborted.dirty = journal.dirty
  totalSupply : aborted.totalSupply = journal.totalSupply
  activeAccounts : aborted.activeAccounts = journal.activeAccounts
  spentNonces : ∀ key, aborted.spentNonces.find? key = journal.spentNonces.find? key

theorem aborted_abortJournal
    {rest : List EpochJournal} (journals : l.epochJournals = journal :: rest) :
    Aborted journal l l.abortJournal.1 ∧ l.abortJournal.1.epochJournals = rest := by
  unfold Ledger.abortJournal
  rw [journals]
  refine ⟨⟨accounts_restoreKats _ _, fun addr => ?_, fun addr => ?_,
    fun addr => Table.find?_copyOf _ _, rfl, rfl, rfl, fun key => Table.find?_copyOf _ _⟩, rfl⟩
  · rw [findOpt_eq]
    rw [Table.find?_restore, accounts_restoreKats]
  · dsimp only
    rw [katFiles_restoreKats, Table.find?_restore]

theorem Saving.abortJournal (saving : Saving start (depth + 1) l) :
    Saving start depth l.abortJournal.1 := by
  obtain ⟨later, journal, outer, split, length, records, within⟩ := saving.split
  cases later with
  | nil => simp at length
  | cons first later =>
    obtain ⟨aborted, rest⟩ := aborted_abortJournal split
    have unrecorded := within first List.mem_cons_self
    refine ⟨later, journal, outer, rest, by simpa using length, ?_,
      fun recorded present => within recorded (List.mem_cons_of_mem _ present)⟩
    refine { records with
      stored := aborted.stored.trans records.stored
      unchanged := fun addr absent => ?_
      unchangedKat := fun addr absent => ?_ }
    · have absentInner : first.accounts.find? addr = none :=
        find?_eq_none_of_within (unrecorded.accounts addr) absent
      rw [aborted.find, absentInner, ← records.unchanged addr absent, findOpt_eq]
      rfl
    · have absentInner : first.kats.find? addr = none :=
        find?_eq_none_of_within (unrecorded.kats addr) absent
      rw [aborted.kat, absentInner, ← records.unchangedKat addr absent]
      rfl

/-- The journal of a begin is open after it. -/
theorem saving_beginJournal (l : Ledger) : Saving l 0 l.beginJournal.1 := by
  refine ⟨[], l.newJournal, l.epochJournals, rfl, rfl, ?_, fun later present => by cases present⟩
  have find : ∀ addr, l.beginJournal.1.findOpt addr = l.findOpt addr := by
    intro addr
    rw [findOpt_eq, findOpt_eq]
    rfl
  exact {
    stored := rfl
    account := fun addr recorded found => by cases found
    unchanged := fun addr _ => find addr
    kat := fun addr recorded found => by cases found
    unchangedKat := fun addr _ => rfl
    dirtyAddrs := rfl
    dirty := rfl
    totalSupply := rfl
    activeAccounts := rfl
    spentNonces := rfl }

/-- Calls that close every journal they open, and no other, leave the outer
journal open. -/
theorem Saving.journalRun (calls : List JournalCall) (saving : Saving start depth l)
    (nested : WellNested depth calls) : Saving start 0 (l.journalRun calls) := by
  induction calls generalizing l depth with
  | nil =>
    cases nested
    exact saving
  | cons call calls ih =>
    cases call with
    | perform call => exact ih (saving.perform call) nested
    | setPvacKat addr kat => exact ih (saving.setPvacKat addr kat) nested
    | promote staged => exact ih (saving.promote staged) nested
    | begin => exact ih saving.beginJournal nested
    | commit =>
      obtain ⟨opened, nested⟩ := nested
      obtain ⟨depth, rfl⟩ := Nat.exists_eq_add_one.mpr opened
      exact ih saving.commitJournal nested
    | abort =>
      obtain ⟨opened, nested⟩ := nested
      obtain ⟨depth, rfl⟩ := Nat.exists_eq_add_one.mpr opened
      exact ih saving.abortJournal nested

/-- No attestation file begins with an empty line. -/
def KatsReadable (l : Ledger) : Prop := ∀ addr, l.store.getPvacKat addr ≠ some []

/-- A readable attestation survives being written back. -/
theorem inputLine_inputLine {content line : Bytes}
    (read : inputLine content = some line) (readable : line ≠ []) : inputLine line = some line := by
  unfold inputLine at read ⊢
  split at read
  · cases read
  · cases read
    rw [if_neg readable, List.takeWhile_idem]

/-- What an abort leaves of the accounts and totals. -/
theorem Saving.aborted (saving : Saving start 0 l) :
    l.abortJournal.1.store.accounts = start.store.accounts ∧
      l.abortJournal.1.findOpt = start.findOpt ∧ l.abortJournal.1.totalSupply = start.totalSupply ∧
      l.abortJournal.1.spentNonces.mem = start.spentNonces.mem := by
  obtain ⟨later, journal, outer, split, length, records, -⟩ := saving.split
  rw [List.length_eq_zero_iff.mp length, List.nil_append] at split
  obtain ⟨aborted, -⟩ := aborted_abortJournal split
  refine ⟨aborted.stored.trans records.stored, ?_,
    aborted.totalSupply.trans records.totalSupply, ?_⟩
  · funext addr
    rw [aborted.find]
    cases found : journal.accounts.find? addr with
    | none =>
      rw [← records.unchanged addr found, findOpt_eq]
      rfl
    | some recorded =>
      rw [← records.account addr recorded found, records.stored]
      rfl
  · funext key
    unfold Table.mem
    rw [aborted.spentNonces, records.spentNonces]

theorem Saving.savepoint_abortJournal
    (saving : Saving start 0 l) (readable : start.KatsReadable) :
    l.abortJournal.1.savepoint = start.savepoint := by
  obtain ⟨-, account, supply, nonces⟩ := saving.aborted
  obtain ⟨later, journal, outer, split, length, records, -⟩ := saving.split
  rw [List.length_eq_zero_iff.mp length, List.nil_append] at split
  obtain ⟨aborted, -⟩ := aborted_abortJournal split
  have kat : l.abortJournal.1.store.getPvacKat = start.store.getPvacKat := by
    funext addr
    unfold LedgerStore.getPvacKat
    rw [aborted.kat]
    cases found : journal.kats.find? addr with
    | none => rw [Option.getD_none, records.unchangedKat addr found]
    | some recorded =>
      rw [Option.getD_some]
      have shown := records.kat addr recorded found
      unfold LedgerStore.getPvacKat at shown
      rw [← shown]
      cases recorded with
      | none => rfl
      | some line =>
        obtain ⟨content, -, read⟩ := Option.bind_eq_some_iff.mp shown.symm
        refine inputLine_inputLine read ?_
        rintro rfl
        exact readable addr shown.symm
  unfold Ledger.savepoint
  rw [account, kat, supply, nonces, aborted.dirty, aborted.activeAccounts,
    records.dirty, records.activeAccounts]
  congr 1
  funext addr
  unfold Table.mem
  rw [aborted.dirtyAddrs, records.dirtyAddrs]

theorem savepoint_commitJournal (l : Ledger) : l.commitJournal.1.savepoint = l.savepoint := by
  unfold Ledger.commitJournal
  split
  · rfl
  · unfold Ledger.savepoint
    congr 1
    funext addr
    rw [findOpt_eq, findOpt_eq]

/-- An abort restores the ledger as it was at the matching begin, whatever was
called between them and however the journals within ended. A commit changes
nothing. -/
theorem savepoint_journal (l : Ledger) (readable : l.KatsReadable) (calls : List JournalCall)
    (nested : WellNested 0 calls) :
    ((l.beginJournal.1.journalRun calls).abortJournal.1).savepoint = l.savepoint ∧
      ∀ l' : Ledger, l'.commitJournal.1.savepoint = l'.savepoint :=
  ⟨((saving_beginJournal l).journalRun calls nested).savepoint_abortJournal
    readable, savepoint_commitJournal⟩

/-- An inner journal is aborted, and another one committed, before the outer
one is aborted. -/
theorem savepoint_nestedJournals :
    ((({} : Ledger).beginJournal.1.journalRun
      [.perform (.account (.credit none [1] 5)), .begin, .setPvacKat [1] [65],
        .abort, .begin, .setPvacKat [1] [66],
        .commit]).abortJournal.1).savepoint =
      ({} : Ledger).savepoint ∧
    ∀ l' : Ledger, l'.commitJournal.1.savepoint = l'.savepoint :=
  savepoint_journal {}
    (by
      intro addr
      change none ≠ some []
      exact fun impossible => by cases impossible) _
    (by simp [WellNested])

/-- An attestation file that begins with an empty line is not restored: what is
written back reads as no line at all. -/
theorem savepoint_lost :
    let files : Table Bytes Bytes := Table.replace ∅ [1] [10, 65]
    let l : Ledger := { store := { katFiles := files } }
    let aborted := (l.beginJournal.1.journalRun [.setPvacKat [1] [66]]).abortJournal.1
    l.store.getPvacKat [1] = some [] ∧ aborted.store.getPvacKat [1] = none := by
  decide +kernel

end Ledger
end LiteNode
