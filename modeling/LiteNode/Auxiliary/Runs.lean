import LiteNode.Auxiliary.Undo
import LiteNode.Duty.Transparency
import LiteNode.Types.Hashing

/-!
# Runs of journaled writes

Writes, moves of HEAD and recoveries follow one another in any order, with
crashes anywhere between them. A write that is not published is undone, so that
the tables are those of the published writes.
-/

namespace LiteNode

open AuxDelta AuxIndex

namespace AuxRuns

structure Write where
  target : Anchor
  writes : List (Key × Cell)

/-- The tables and HEAD, and what is told about them. -/
structure System where
  tables : AuxIndex
  head : Option Anchor
  /-- The write whose target is not HEAD yet. -/
  staged : Option Write
  /-- The tables before the last write. -/
  before : AuxIndex
  /-- The writes whose targets became HEAD. -/
  published : List Write

inductive Move
  | withWrite (write : Write) (action : Except AuxIndex.Fault Unit)
  | publish
  | retire
  | applyRestore
  | crash

variable (codec : Codec)

/-- A transaction that refuses changes nothing, and neither does a crash. -/
def step (system : System) : Move → System
  | .withWrite write action =>
    match withWrite codec system.tables system.head write.target write.writes action with
    | .ok (tables, ()) =>
      { system with
        tables := tables, staged := some write, before := system.tables }
    | .error _ => system
  | .publish =>
    match system.staged with
    | some write =>
      { system with
        head := some write.target
        staged := none
        published := system.published ++ [write] }
    | none => system
  | .retire =>
    match retire codec system.tables system.head with
    | .ok tables => { system with tables := tables }
    | .error _ => system
  | .applyRestore =>
    match applyRestore codec system.tables system.head with
    | .ok tables => { system with tables := tables, staged := none }
    | .error _ => system
  | .crash => system

def run (start : System) (moves : List Move) : System := moves.foldl (step codec) start

def publishedMoves (writes : List Write) : List Move :=
  writes.flatMap fun write => [.withWrite write (.ok ()), .publish]

/-- A system before the first write. -/
structure Fresh (start : System) : Prop where
  pending : start.tables.metadata pendingKey = none
  staged : start.staged = none
  published : start.published = []

/-- How the tables stand to HEAD. -/
inductive Standing (system : System) : Prop
  | idle (staged : system.staged = none) (pending : system.tables.metadata pendingKey = none)
  | published (journal : AuxDelta) (staged : system.staged = none)
      (pending : Pending codec system.tables journal) (head : system.head = some journal.target)
  | staged (write : Write) (journal : AuxDelta) (staged : system.staged = some write)
      (pending : Pending codec system.tables journal) (head : system.head = journal.previous)
      (target : journal.target = write.target)
      (undoes : Undoes journal (system.before.withPending none) system.tables)

variable {codec}

theorem applyRestore_idle {tables : AuxIndex} (pending : tables.metadata pendingKey = none)
    (head : Option Anchor) : applyRestore codec tables head = .ok tables := by
  have found : AuxIndex.journal codec tables = .ok none := journal_eq_none_iff.mpr pending
  rw [applyRestore, restoration, found]
  rfl

theorem retire_idle {tables : AuxIndex} (pending : tables.metadata pendingKey = none)
    (head : Option Anchor) : retire codec tables head = .ok (tables.withPending none) := by
  rw [retire, journal_eq_none_iff.mpr pending, withPending_self pending]
  rfl

/-- Without a write under way the journal can be dropped. -/
theorem Standing.retire_eq (faithful : codec.texts.Faithful) {system : System}
    (standing : Standing codec system) (settled : system.staged = none) :
    retire codec system.tables system.head = .ok (system.tables.withPending none) := by
  cases standing with
  | idle staged pending => exact retire_idle pending system.head
  | published journal staged pending head =>
    rw [head]
    exact retire_target faithful pending
  | staged write journal staged pending head target undoes =>
    rw [settled] at staged
    cases staged

/-- A write under way keeps the journal. -/
theorem Standing.retire_staged (faithful : codec.texts.Faithful) {system : System}
    (standing : Standing codec system) (underway : system.staged ≠ none) :
    ∃ fault, retire codec system.tables system.head = .error fault := by
  cases standing with
  | idle staged pending => exact absurd staged underway
  | published journal staged pending head => exact absurd staged underway
  | staged write journal staged pending head target undoes =>
    rw [head]
    exact ⟨_, retire_previous faithful pending⟩

/-- A write only depends on what retirement leaves. -/
theorem withWrite_congr {tables tables' : AuxIndex} {previous : Option Anchor}
    (same : retire codec tables previous = retire codec tables' previous)
    (target : Anchor) (writes : List (Key × Cell)) (action : Except AuxIndex.Fault α) :
    withWrite codec tables previous target writes action =
      withWrite codec tables' previous target writes action := by
  rw [withWrite, withWrite, same]

/-- A write whose journal cannot be dropped is refused. -/
theorem withWrite_refused
    {tables : AuxIndex} {previous : Option Anchor} {fault : AuxIndex.Fault}
    (refused : retire codec tables previous = .error fault)
    (target : Anchor) (writes : List (Key × Cell)) (action : Except AuxIndex.Fault α) :
    ∃ fault', withWrite codec tables previous target writes action = .error fault' := by
  rw [withWrite, refused]
  split
  · exact ⟨_, rfl⟩
  · exact ⟨_, rfl⟩

theorem action_eq_ok {tables tables' : AuxIndex} {previous : Option Anchor} {target : Anchor}
    {writes : List (Key × Cell)} {action : Except AuxIndex.Fault α} {result : α}
    (done : withWrite codec tables previous target writes action =
      .ok (tables', result)) : action = .ok result := by
  unfold withWrite at done
  dsimp only at done
  split at done
  · cases done
  obtain ⟨retired, -, done⟩ := bind_eq_ok done
  obtain ⟨record, -, done⟩ := bind_eq_ok done
  obtain ⟨value, acted, done⟩ := bind_eq_ok done
  obtain ⟨written, -, done⟩ := bind_eq_ok done
  cases done
  exact acted

theorem step_withWrite {system : System} {write : Write} {action : Except AuxIndex.Fault Unit}
    {tables : AuxIndex} (done : withWrite codec system.tables system.head write.target
      write.writes action = .ok (tables, ())) :
    step codec system (.withWrite write action) =
      { system with
        tables := tables, staged := some write, before := system.tables } := by
  rw [step, done]

/-! ## The run of the published writes -/

/-- A system beside the run in which every write was published. -/
structure Follows (codec : Codec) (start system : System) (ideal : System) : Prop where
  same : ideal = run codec start (publishedMoves system.published)
  standing : Standing codec system
  head : ideal.head = system.head
  published : ideal.published = system.published
  staged : ideal.staged = none
  retired : retire codec ideal.tables ideal.head = .ok (ideal.tables.withPending none)
  settled : system.staged = none → system.tables.withPending none = ideal.tables.withPending none
  underway : ∀ write, system.staged = some write →
    system.before.withPending none = ideal.tables.withPending none ∧
      withWrite codec ideal.tables ideal.head write.target write.writes
        (.ok ()) = .ok (system.tables, ())

theorem run_publishedMoves (start : System) (writes : List Write) (write : Write) :
    run codec start (publishedMoves (writes ++ [write])) =
      step codec (step codec (run codec start (publishedMoves writes))
        (.withWrite write (.ok ()))) .publish := by
  rw [publishedMoves, List.flatMap_append, run, List.foldl_append]
  rfl

theorem follows_start {start : System}
    (fresh : Fresh start) : Follows codec start start start where
  same := by rw [fresh.published]; rfl
  standing := .idle fresh.staged fresh.pending
  head := rfl
  published := rfl
  staged := fresh.staged
  retired := retire_idle fresh.pending start.head
  settled := fun _ => rfl
  underway := by simp [fresh.staged]

section Steps

variable (faithful : codec.texts.Faithful) {start system ideal : System}
  (follows : Follows codec start system ideal)

include faithful follows

theorem follows_withWrite
    {write : Write} {action : Except AuxIndex.Fault Unit} {tables : AuxIndex}
    (done : withWrite codec system.tables system.head write.target
      write.writes action = .ok (tables, ())) :
    Follows codec start
      { system with
        tables := tables, staged := some write, before := system.tables }
      ideal := by
  have settled : system.staged = none := by
    by_contra underway
    obtain ⟨fault, refused⟩ := follows.standing.retire_staged faithful underway
    obtain ⟨fault', refused⟩ := withWrite_refused refused write.target write.writes action
    rw [refused] at done
    cases done
  have retired := follows.standing.retire_eq faithful settled
  obtain ⟨found, journal, dropped, pending, undoes, previous, target⟩ := withWrite_spec done
  obtain rfl := Except.ok.inj (retired.symm.trans dropped)
  have alike : retire codec ideal.tables ideal.head = retire codec system.tables ideal.head := by
    rw [follows.retired, follows.head, retired, follows.settled settled]
  refine
    { same := follows.same
      standing := .staged write journal rfl pending previous.symm target undoes
      head := follows.head
      published := follows.published
      staged := follows.staged
      retired := follows.retired
      settled := fun none => nomatch none
      underway := ?_ }
  intro other same
  cases same
  refine ⟨follows.settled settled, ?_⟩
  rw [withWrite_congr alike, follows.head]
  have acted := action_eq_ok done
  rwa [acted] at done

theorem follows_publish {write : Write} (staged : system.staged = some write) :
    ∃ ideal', Follows codec start
      { system with
        head := some write.target
        staged := none
        published := system.published ++ [write] } ideal' := by
  obtain ⟨-, done⟩ := follows.underway write staged
  have next : run codec start
      (publishedMoves (system.published ++ [write])) =
      { ideal with
        tables := system.tables
        head := some write.target
        staged := none
        before := ideal.tables
        published := ideal.published ++ [write] } := by
    rw [run_publishedMoves, ← follows.same, step, done]
    rfl
  cases follows.standing with
  | idle settled pending =>
    rw [settled] at staged
    cases staged
  | published journal settled pending head =>
    rw [settled] at staged
    cases staged
  | staged other journal underway pending head target undoes =>
    rw [staged] at underway
    cases underway
    have head : some write.target = some journal.target := by rw [target]
    refine ⟨_, next.symm, .published journal rfl pending head, rfl, ?_, rfl,
      ?_, fun _ => rfl, fun _ same => nomatch same⟩
    · rw [follows.published]
    · rw [head]
      exact retire_target faithful pending

theorem follows_retire {tables : AuxIndex}
    (done : retire codec system.tables system.head = .ok tables) :
    Follows codec start { system with tables := tables } ideal := by
  have settled : system.staged = none := by
    by_contra underway
    obtain ⟨fault, refused⟩ := follows.standing.retire_staged faithful underway
    rw [refused] at done
    cases done
  have retired := follows.standing.retire_eq faithful settled
  obtain rfl := Except.ok.inj (retired.symm.trans done)
  exact
    { follows with
      standing := .idle settled (by simp [withPending, put])
      settled := fun _ => by
        rw [withPending_withPending]
        exact follows.settled settled
      underway := fun write staged => by
        rw [show system.staged = some write from staged] at settled
        cases settled }

theorem follows_applyRestore {tables : AuxIndex}
    (done : applyRestore codec system.tables system.head = .ok tables) :
    Follows codec start { system with tables := tables, staged := none } ideal := by
  cases follows.standing with
  | idle settled pending =>
    rw [applyRestore_idle pending] at done
    cases done
    exact
      { follows with
        standing := .idle rfl pending
        settled := fun _ => follows.settled settled
        underway := fun _ same => nomatch same }
  | published journal settled pending head =>
    rw [head, applyRestore_target faithful pending] at done
    cases done
    exact
      { follows with
        standing := .published journal rfl pending head
        settled := fun _ => follows.settled settled
        underway := fun _ same => nomatch same }
  | staged write journal staged pending head target undoes =>
    rw [head, applyRestore_previous faithful pending undoes, withPending_withPending] at done
    cases done
    exact
      { follows with
        standing := .idle rfl (by simp [withPending, put])
        settled := fun _ => by
          rw [withPending_withPending]
          exact (follows.underway write staged).1
        underway := fun _ same => nomatch same }

theorem follows_step (move : Move) :
    ∃ ideal', Follows codec start (step codec system move) ideal' := by
  cases move with
  | withWrite write action =>
    rw [step]
    split
    · next tables done => exact ⟨ideal, follows_withWrite faithful follows done⟩
    · exact ⟨ideal, follows⟩
  | publish =>
    rw [step]
    split
    · next write staged => exact follows_publish faithful follows staged
    · exact ⟨ideal, follows⟩
  | retire =>
    rw [step]
    split
    · next tables done => exact ⟨ideal, follows_retire faithful follows done⟩
    · exact ⟨ideal, follows⟩
  | applyRestore =>
    rw [step]
    split
    · next tables done =>
      exact ⟨ideal, follows_applyRestore faithful follows done⟩
    · exact ⟨ideal, follows⟩
  | crash => exact ⟨ideal, follows⟩

end Steps

/-- Every run goes beside the run of what it published. -/
theorem follows_run (faithful : codec.texts.Faithful) {start : System} (fresh : Fresh start)
    (moves : List Move) : ∃ ideal, Follows codec start (run codec start moves) ideal := by
  induction moves using List.reverseRecOn with
  | nil => exact ⟨start, follows_start fresh⟩
  | append_singleton moves move ih =>
    obtain ⟨ideal, follows⟩ := ih
    rw [run, List.foldl_append]
    exact follows_step faithful follows move

/-- With an unrelated HEAD no operation goes on. -/
def RefusesOthers (codec : Codec) (tables : AuxIndex) (journal : AuxDelta) : Prop :=
  ∀ head, head ≠ some journal.target → head ≠ journal.previous →
    (∃ fault, retire codec tables head = .error fault) ∧
    (∃ fault, restoration codec tables head = .error fault) ∧
    (∃ fault, applyRestore codec tables head = .error fault) ∧
    ∀ (target : Anchor) (writes : List (Key × Cell))
      (action : Except AuxIndex.Fault Unit),
      ∃ fault, withWrite codec tables head target writes action = .error fault

theorem refusesOthers (faithful : codec.texts.Faithful) {tables : AuxIndex}
    {journal : AuxDelta} (pending : Pending codec tables journal) :
    RefusesOthers codec tables journal := by
  intro head notTarget notPrevious
  obtain ⟨retired, restored, applied⟩ := refused_other faithful pending notTarget notPrevious
  refine ⟨⟨_, retired⟩, ⟨_, restored⟩, ⟨_, applied⟩, ?_⟩
  intro target writes action
  exact withWrite_refused retired target writes action

/-- Recovery is never refused. -/
theorem Standing.applyRestore_ok (faithful : codec.texts.Faithful) {system : System}
    (standing : Standing codec system) :
    ∃ tables, applyRestore codec system.tables system.head = .ok tables := by
  cases standing with
  | idle settled pending => exact ⟨_, applyRestore_idle pending _⟩
  | published journal settled pending head =>
    rw [head]
    exact ⟨_, applyRestore_target faithful pending⟩
  | staged write journal staged pending head target undoes =>
    rw [head]
    exact ⟨_, applyRestore_previous faithful pending undoes⟩

/-- With HEAD at the predecessor of the journal, the tables are put back. -/
theorem Standing.restores (faithful : codec.texts.Faithful) {system : System}
    (standing : Standing codec system) {journal : AuxDelta}
    (pending : Pending codec system.tables journal) (behind : system.head = journal.previous) :
    applyRestore codec system.tables system.head = .ok (system.before.withPending none) := by
  have found := (journal_eq_some_iff faithful).mpr pending
  cases standing with
  | idle settled nothing =>
    rw [journal_eq_none_iff.mpr nothing] at found
    cases found
  | published other settled pending' head =>
    rw [(journal_eq_some_iff faithful).mpr pending'] at found
    cases found
    exact absurd (head.symm.trans behind) pending.sound.apart
  | staged write other staged pending' head target undoes =>
    rw [head, applyRestore_previous faithful pending' undoes, withPending_withPending]

/-- In every run at most one journal is pending, and HEAD is one of its
anchors. At its target it is dropped and nothing else changes; at its
predecessor the tables are put back, but for the journal that was pending
before; at no other HEAD anything is done. After a recovery the tables are those
of the published writes, but for the pending journal. -/
theorem undone_of_run (faithful : codec.texts.Faithful) {start : System} (fresh : Fresh start)
    (moves : List Move) :
    let system := run codec start moves
    let recovered := step codec system .applyRestore
    let ideal := run codec start (publishedMoves system.published)
    (∃ pending, AuxIndex.journal codec system.tables = .ok pending) ∧
      (∀ journal, AuxIndex.journal codec system.tables = .ok (some journal) →
        (system.head = some journal.target ∨ system.head = journal.previous) ∧
        (system.head = some journal.target →
          retire codec system.tables system.head = .ok (system.tables.withPending none)) ∧
        (system.head = journal.previous →
          applyRestore codec system.tables system.head = .ok (system.before.withPending none) ∧
          applyRestore codec (system.before.withPending none) system.head =
            .ok (system.before.withPending none)) ∧
        RefusesOthers codec system.tables journal) ∧
      (recovered.head = ideal.head ∧
        ideal.published = system.published ∧
        recovered.tables.withPending none = ideal.tables.withPending none) ∧
      (∀ previous target before after journal,
        «seal» previous target before after = .ok journal →
        decode codec (encode codec journal) = .ok journal) ∧
      ∀ bytes journal, decode codec bytes = .ok journal →
        encode codec journal = bytes := by
  intro system recovered ideal
  obtain ⟨_, follows⟩ := follows_run faithful fresh moves
  obtain rfl := follows.same
  obtain ⟨tables, restored⟩ := follows.standing.applyRestore_ok faithful
  have recovers := follows_applyRestore faithful follows restored
  have recovered_eq : recovered = { system with tables := tables, staged := none } := by
    change step codec system .applyRestore = _
    rw [step, restored]
  refine ⟨?_, ?_, ⟨?_, follows.published, ?_⟩, ?_, ?_⟩
  · cases follows.standing with
    | idle settled pending => exact ⟨none, journal_eq_none_iff.mpr pending⟩
    | published journal settled pending head =>
      exact ⟨_, (journal_eq_some_iff faithful).mpr pending⟩
    | staged write journal staged pending head target undoes =>
      exact ⟨_, (journal_eq_some_iff faithful).mpr pending⟩
  · intro journal found
    have pending := (journal_eq_some_iff faithful).mp found
    refine ⟨?_, ?_, ?_, refusesOthers faithful pending⟩
    · cases follows.standing with
      | idle settled nothing =>
        rw [journal_eq_none_iff.mpr nothing] at found
        cases found
      | published other settled pending' head =>
        rw [(journal_eq_some_iff faithful).mpr pending'] at found
        cases found
        exact Or.inl head
      | staged write other staged pending' head target undoes =>
        rw [(journal_eq_some_iff faithful).mpr pending'] at found
        cases found
        exact Or.inr head
    · intro reached
      rw [reached]
      exact retire_target faithful pending
    · intro behind
      refine ⟨follows.standing.restores faithful pending behind, ?_⟩
      exact applyRestore_idle (by simp [withPending, put]) system.head
  · rw [recovered_eq]
    exact recovers.head.symm
  · rw [recovered_eq]
    exact recovers.settled rfl
  · intro previous target before after journal done
    exact decode_encode faithful (sealed_of_seal done)
  · intro bytes journal read
    exact (encode_of_decode read).2

namespace Unpublished

def plainCodec : Codec where
  texts := SetFold.plainTexts
  sha256 := tableHash [
    (tag ++ 0 :: Bytes.ofAscii
      "[\"octra_aux_delta\",null,[0,\"r\",\"c\"],[]]",
      [104, 163, 113, 64, 88, 209, 89, 184, 230, 169, 51, 249, 184, 139, 63,
        159, 171, 68, 49, 48, 214, 60, 9, 121, 178, 206, 107, 170, 31, 50, 42, 16]),
    (tag ++ 0 :: Bytes.ofAscii
      "[\"octra_aux_delta\",[0,\"r\",\"c\"],[1,\"s\",\"d\"],[]]",
      [93, 122, 213, 22, 236, 125, 122, 133, 138, 215, 153, 110, 215, 46, 45,
        230, 43, 246, 242, 88, 189, 22, 24, 196, 22, 193, 25, 212, 114, 102, 129, 132])]

def start : System where
  tables := ⟨fun _ => none, fun _ => none, fun _ => none, fun _ _ => false, fun _ _ => false⟩
  head := none
  staged := none
  before := ⟨fun _ => none, fun _ => none, fun _ => none, fun _ _ => false, fun _ _ => false⟩
  published := []

def first : Write := ⟨⟨0, [114], [99]⟩, []⟩

def second : Write := ⟨⟨1, [115], [100]⟩, []⟩

def moves : List Move := [.withWrite first (.ok ()), .publish, .withWrite second (.ok ())]

theorem faithful_plainCodec : plainCodec.texts.Faithful := SetFold.faithful_plainTexts

theorem fresh_start : Fresh start := ⟨rfl, rfl, rfl⟩

def firstJournal : AuxDelta := ⟨none, first.target, []⟩

def secondJournal : AuxDelta := ⟨some first.target, second.target, []⟩

/-- The tables after the first write. -/
def published : AuxIndex := start.tables.withPending (some (encode plainCodec firstJournal))

/-- The tables after the second write. -/
def unpublished : AuxIndex :=
  (published.withPending none).withPending (some (encode plainCodec secondJournal))

theorem pending_published : Pending plainCodec published firstJournal where
  sound := @sealed_of_seal none first.target [] [] _ rfl
  stored := by simp [published, withPending, put]
  foreign := by simp [firstJournal]
  reads := by simp [firstJournal]

theorem pending_unpublished : Pending plainCodec unpublished secondJournal where
  sound := @sealed_of_seal (some first.target) second.target [] [] _ rfl
  stored := by simp [unpublished, withPending, put]
  foreign := by simp [secondJournal]
  reads := by simp [secondJournal]

theorem withWrite_first :
    withWrite plainCodec start.tables none first.target first.writes
      (.ok ()) = .ok (published, ()) := rfl

theorem withWrite_second :
    withWrite plainCodec published (some first.target) second.target
      second.writes (.ok ()) = .ok (unpublished, ()) := by
  have retired : retire plainCodec published (some first.target) =
      .ok (published.withPending none) :=
    retire_target faithful_plainCodec pending_published
  rw [withWrite, retired]
  rfl

theorem run_moves :
    run plainCodec start moves =
      ⟨unpublished, some first.target, some second, published, [first]⟩ := by
  have one := @step_withWrite _ start _ _ _ withWrite_first
  have two := @step_withWrite _
    ⟨published, some first.target, none, start.tables, [first]⟩ _ _ _
    withWrite_second
  rw [moves, run, List.foldl_cons, one]
  exact two

end Unpublished

open Unpublished in
/-- The journal of a published write is not put back with the other cells. -/
theorem not_put_back :
    let system := run plainCodec start moves
    ∃ journal tables,
      AuxIndex.journal plainCodec system.tables = .ok (some journal) ∧
      system.head = journal.previous ∧
      applyRestore plainCodec system.tables system.head = .ok tables ∧
      tables.read (.metadata pendingKey) ≠
        system.before.read (.metadata pendingKey) := by
  have pending := pending_unpublished
  have undoes : Undoes secondJournal published unpublished := by
    refine ⟨by simp [secondJournal], ?_⟩
    intro key placed other unlisted
    rw [unpublished, withPending_withPending, read_withPending, if_neg other]
  have restored : applyRestore plainCodec unpublished (some first.target) =
      .ok (published.withPending none) :=
    applyRestore_previous faithful_plainCodec pending undoes
  rw [run_moves]
  refine ⟨secondJournal, published.withPending none, ?_, rfl, restored, ?_⟩
  · exact (journal_eq_some_iff faithful_plainCodec).mpr pending
  · rw [read_withPending, if_pos rfl]
    simp [AuxIndex.read, pending_published.stored]

open Unpublished in
theorem undone_of_run_unpublished :
    let system := run plainCodec start moves
    system.head = secondJournal.previous ∧
      applyRestore plainCodec system.tables system.head =
        .ok (system.before.withPending none) := by
  have whole := undone_of_run faithful_plainCodec fresh_start moves
  obtain ⟨-, -, back, -⟩ := whole.2.1 secondJournal <| by
    rw [run_moves]
    exact (journal_eq_some_iff faithful_plainCodec).mpr pending_unpublished
  have behind : (run plainCodec start moves).head =
      secondJournal.previous := by rw [run_moves]; rfl
  exact ⟨behind, (back behind).1⟩

end AuxRuns
end LiteNode
