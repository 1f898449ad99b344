import LiteNode.Vm.Savepoints

/-!
# Runs with checkpoints

Along a run without calls the index of members follows storage, a rollback
restores what storage and the closed capabilities were at its checkpoint, a
commit changes neither, and a refused program closes nothing; too large a blob
is the one exception.
-/

namespace LiteNode
namespace Vm

variable {env : Env} {scope : Scope}

/-- The index, if there is one, holds the members that storage has. -/
def Indexed (st : State) : Prop := ∀ index, st.memberIndex = some index → index.Of st.storage

theorem State.restore_indexed {st : State} (undo : List UndoEntry)
    (indexed : Indexed st) : Indexed (st.restore undo) := by
  induction undo generalizing st with
  | nil => exact indexed
  | cons entry rest ih =>
    rcases entry with id | ⟨key, _ | value⟩ | cap
    · exact indexed
    · apply ih
      rintro index ⟨⟩
    · apply ih
      rintro index ⟨⟩
    · exact ih indexed

theorem Change.indexed {st next : State}
    (changed : Change env scope st next) (noCall : scope ≠ .calling)
    (indexed : Indexed st) : Indexed next := by
  cases changed with
  | work same rises fits =>
    intro index held
    rw [same.storage]
    exact indexed index (same.memberIndex.symm.trans held)
  | index index kept =>
    rintro other ⟨⟩
    exact kept indexed
  | write | erase => rintro index ⟨⟩
  | rollback => exact st.restore_indexed _ indexed
  | nonce allowed | shared allowed => exact absurd allowed noCall
  | _ => exact indexed

/-! ## Closed capabilities -/

/-- A refused program closes nothing. -/
def Ended (st : State) : Prop := st.reverted = true → st.closes = []

theorem State.restore_closes_nil {st : State} (undo : List UndoEntry)
    (none : st.closes = []) : (st.restore undo).closes = [] := by
  induction undo generalizing st with
  | nil => exact none
  | cons entry rest ih =>
    rcases entry with id | ⟨key, _ | value⟩ | cap
    · exact none
    · exact ih none
    · exact ih none
    · apply ih
      rw [none]
      rfl

theorem State.restore_reverted (st : State) (undo : List UndoEntry) :
    (st.restore undo).reverted = st.reverted := by
  induction undo generalizing st with
  | nil => rfl
  | cons entry rest ih =>
    rcases entry with id | ⟨key, _ | value⟩ | cap
    · rfl
    · exact ih _
    · exact ih _
    · exact ih _

theorem Change.ended {st next : State}
    (changed : Change env scope st next) (noClosing : scope ≠ .closing)
    (noBlob : scope ≠ .blob) (ended : Ended st) : Ended next := by
  cases changed with
  | work same rises fits =>
    rw [Ended, same.reverted, same.closes]
    exact ended
  | refused =>
    intro refused
    rfl
  | overlong allowed => exact absurd allowed noBlob
  | close allowed => exact absurd allowed noClosing
  | rollback =>
    intro refused
    rw [State.rollback, State.restore_reverted] at refused
    exact State.restore_closes_nil _ (ended refused)
  | _ => exact ended

theorem Spent.ended {st next : State} (spent : Spent st next) (ended : Ended st) : Ended next := by
  rw [Ended, spent.sameBooks.reverted, spent.sameBooks.closes]
  exact ended

/-- A refused program that closes nothing still does so. -/
def KeepsEnded (x : Exec env scope α) : Prop := ∀ st, Ended st → Ended (x.run st).2

namespace KeepsEnded

theorem of_scope (x : Exec env scope α) (noClosing : scope ≠ .closing)
    (noBlob : scope ≠ .blob) : KeepsEnded x :=
  fun _ ended => x.invariant Ended (fun _ _ changed => changed.ended noClosing noBlob) ended

theorem of_quiet {x : Exec env scope α} (quiet : Quiet x) : KeepsEnded x :=
  fun st ended => (quiet.spent st).ended ended

theorem bind {x : Exec env scope α} {f : α → Exec env scope β}
    (first : KeepsEnded x) (next : ∀ a, KeepsEnded (f a)) : KeepsEnded (x >>= f) := by
  intro st ended
  have before := first st ended
  rw [Chained.run_bind]
  split
  · next a after ran =>
    rw [ran] at before
    exact next a after before
  · next halt after ran =>
    rw [ran] at before
    exact before

theorem ite {condition : Prop} [Decidable condition]
    {x y : Exec env scope α} (first : KeepsEnded x) (second : KeepsEnded y) :
    KeepsEnded (if condition then x else y) := by
  split
  · exact first
  · exact second

theorem ifM {x : Exec env scope Bool} {y z : Exec env scope α}
    (first : KeepsEnded x) (second : KeepsEnded y) (third : KeepsEnded z) :
    KeepsEnded (do if ← x then y else z) :=
  first.bind fun _ => second.ite third

theorem update (f : State → State) (same : ∀ st, SameBooks st (f st))
    (effort : ∀ st, (f st).effortUsed = st.effortUsed) :
    KeepsEnded (Vm.update f same effort : Exec env scope Unit) := by
  intro st ended refused
  have books := same st
  exact books.closes.trans (ended (books.reverted.symm.trans refused))

theorem revert : KeepsEnded (revert : Exec env scope Bool) := fun _ _ _ => rfl

theorem put (r : Reg) (v : Value) : KeepsEnded (put r v : Exec env scope Bool) := by
  refine KeepsEnded.bind ?_ fun _ => of_quiet (Quiet.pure _)
  rw [setr]
  split
  · exact update _ _ _
  · exact of_quiet raise_quiet

theorem viewGuard : KeepsEnded (viewGuard env : Exec env scope Bool) := by
  rw [Vm.viewGuard]
  refine ite (bind ?_ fun _ => revert) (of_quiet (Quiet.pure _))
  exact (of_quiet (settle_quiet _)).ifM
    ((update _ _ _).bind fun _ => of_quiet (Quiet.pure _))
    (of_quiet (Quiet.pure _))

end KeepsEnded

/-- In a view nothing is written. -/
theorem viewGuard_true {st next : State} (ended : (viewGuard env : Exec env scope Bool).run st =
      (.ok true, next)) : env.isView = false ∧ next = st := by
  rw [viewGuard] at ended
  split at ended
  · obtain ⟨_, after, -, refused⟩ := Chained.run_bind_ok ended
    cases refused
  · next noView =>
    cases ended
    exact ⟨by simpa using noView, rfl⟩

/-- A program that is refused meanwhile closes nothing. -/
def EndsWell (x : Exec env scope α) : Prop := ∀ st, st.reverted = false → Ended (x.run st).2

namespace EndsWell

theorem of_live {st : State} (live : st.reverted = false) : Ended st := by
  intro refused
  rw [live] at refused
  cases refused

theorem of_keeps {x : Exec env scope α} (keeps : KeepsEnded x) : EndsWell x :=
  fun st live => keeps st (of_live live)

theorem bind {x : Exec env scope α} {f : α → Exec env scope β}
    (first : Quiet x) (next : ∀ a, EndsWell (f a)) : EndsWell (x >>= f) := by
  intro st live
  have before := first.spent st
  rw [Chained.run_bind]
  split
  · next a after ran =>
    rw [ran] at before
    exact next a after (before.sameBooks.reverted.trans live)
  · next halt after ran =>
    rw [ran] at before
    exact before.ended (of_live live)

theorem ite {condition : Prop} [Decidable condition]
    {x y : Exec env scope α} (first : EndsWell x) (second : EndsWell y) :
    EndsWell (if condition then x else y) := by
  split
  · exact first
  · exact second

/-- Only outside of a view an instruction goes on to write. -/
theorem guarded {x : Exec env scope Bool} (written : env.isView = false → EndsWell x) :
    EndsWell (do if ← viewGuard env then x else return false : Exec env scope Bool) := by
  intro st live
  have guarded := @KeepsEnded.viewGuard env scope st (of_live live)
  rw [Chained.run_bind]
  rcases ran : (viewGuard env : Exec env scope Bool).run st with
    ⟨halt | passed, after⟩
  · rw [ran] at guarded
    exact guarded
  · cases passed with
    | false =>
      rw [ran] at guarded
      exact guarded
    | true =>
      obtain ⟨noView, rfl⟩ := viewGuard_true ran
      exact written noView after live

end EndsWell

/-- A capability is closed only while the program is not refused. -/
theorem capClose_endsWell (kind : Int) (reg : Reg) : EndsWell (capClose env kind reg) := by
  refine EndsWell.guarded fun _ => EndsWell.bind (getr_quiet reg) fun v => ?_
  split
  · refine EndsWell.bind Quiet.read fun st => ?_
    refine EndsWell.ite ?_ (.of_keeps .revert)
    exact fun st live => EndsWell.of_live live
  · exact .of_keeps .revert

/-- Store a text that is not too large. -/
def storeBlob (env : Env) (rdHash : Reg) (data : Bytes) : Exec env .blob Bool := do
  let hash := env.sha256 data
  if ← bounded then
    if ← chargeBytes env 0 0 [.write 64 data.length, .copy 64 0] then
      update fun st => { st with blobs := st.blobs.replace hash data }
      put rdHash (.vString hash)
    else revert
  else
    update fun st => { st with blobs := st.blobs.replace hash data }
    if ← addDynEffort env (data.length / 1024) then put rdHash (.vString hash)
    else revert

theorem fstore_eq (rdHash rsData : Reg) :
    fstore env rdHash rsData = (do
      if ← viewGuard env then
        let v ← getr rsData
        if maxBlob < v.toString.length then
          Chained.change (fun st => { st with reverted := true }) (.overlong rfl)
          return false
        else storeBlob env rdHash v.toString
      else return false) := rfl

theorem storeBlob_keepsEnded (rdHash : Reg) (data : Bytes) :
    KeepsEnded (storeBlob env rdHash data) := by
  refine (KeepsEnded.of_quiet bounded_quiet).ifM ?_ ?_
  · refine (KeepsEnded.of_quiet (chargeBytes_quiet _ _ _)).ifM ?_ .revert
    exact (KeepsEnded.update _ _ _).bind fun _ => .put _ _
  · refine (KeepsEnded.update _ _ _).bind fun _ => ?_
    exact (KeepsEnded.of_quiet (addDynEffort_quiet _)).ifM (.put _ _) .revert

/-- An instruction that gets to store a text which is too large, while some
capability is closed. -/
structure Overlong (env : Env) (st : State) (op : Instr) : Prop where
  isStore : ∃ rdHash rsData v, op = .fstore rdHash rsData ∧
    0 ≤ rsData ∧ st.regs[rsData.toNat]? = some v ∧ maxBlob < v.toString.length
  noView : env.isView = false
  closed : st.closes ≠ []
  admitted : ((admission env op : Exec env op.scope Bool).run st).1 = .ok true

theorem getr_ok {r : Reg} {v : Value} {st next : State}
    (got : (getr r : Exec env scope Value).run st = (.ok v, next)) :
    next = st ∧ 0 ≤ r ∧ st.regs[r.toNat]? = some v := by
  rw [getr] at got
  obtain ⟨_, _, ⟨⟩, got⟩ := Chained.run_bind_ok got
  split at got
  · next nonneg =>
    split at got
    · next value held =>
      cases got
      exact ⟨rfl, nonneg, held⟩
    · cases got
  · cases got

theorem getr_run {r : Reg} {v : Value} {st : State} (nonneg : 0 ≤ r)
    (held : st.regs[r.toNat]? = some v) : (getr r : Exec env scope Value).run st = (.ok v, st) := by
  rw [getr, Chained.run_bind, Chained.run_read]
  dsimp only
  rw [if_pos nonneg, held]
  rfl

theorem Instr.of_closing {op : Instr} (closing : op.scope = .closing) :
    ∃ kind reg, op = .capClose kind reg := by
  cases op with
  | capClose kind reg => exact ⟨kind, reg, rfl⟩
  | _ => cases closing

theorem Instr.of_blob {op : Instr} (blob : op.scope = .blob) :
    ∃ rdHash rsData, op = .fstore rdHash rsData := by
  cases op with
  | fstore rdHash rsData => exact ⟨rdHash, rsData, rfl⟩
  | _ => cases blob

/-- An admitted instruction ends well if what it performs does. -/
theorem execOne_endsWell {async : Bool} {op : Instr} {st : State} (live : st.reverted = false)
    (performed : ∀ ready, Spent st ready →
      ((admission env op : Exec env op.scope Bool).run st).1 = .ok true →
      Ended ((perform env async op).run ready).2) :
    Ended ((execOne env async op).run st).2 := by
  have spent := (@admission_quiet env op.scope op).spent st
  rw [execOne_eq, Chained.run_bind]
  rcases admission : (admission env op : Exec env op.scope Bool).run st with
    ⟨halt | admitted, ready⟩
  · rw [admission] at spent
    exact spent.ended (EndsWell.of_live live)
  · rw [admission] at spent performed
    cases admitted with
    | false =>
      intro _
      rfl
    | true => exact performed ready spent rfl

theorem fstore_ended {rdHash rsData : Reg} {st ready : State}
    (live : st.reverted = false) (spent : Spent st ready)
    (fits : ¬ (∃ v, 0 ≤ rsData ∧ st.regs[rsData.toNat]? = some v ∧
      maxBlob < v.toString.length) ∨ env.isView = true ∨ st.closes = []) :
    Ended ((fstore env rdHash rsData).run ready).2 := by
  have ready_live : ready.reverted = false := spent.sameBooks.reverted.trans live
  rw [fstore_eq]
  have guarded := @KeepsEnded.viewGuard env .blob ready (EndsWell.of_live ready_live)
  rw [Chained.run_bind]
  rcases ran : (viewGuard env : Exec env .blob Bool).run ready with
    ⟨halt | passed, after⟩
  · rw [ran] at guarded
    exact guarded
  · cases passed with
    | false =>
      rw [ran] at guarded
      exact guarded
    | true =>
      obtain ⟨noView, rfl⟩ := viewGuard_true ran
      simp only [if_true, Chained.run_bind]
      rcases got : (getr rsData : Exec env .blob Value).run after with
        ⟨halt | v, last⟩
      · have := (@getr_quiet env .blob rsData).spent after
        rw [got] at this
        exact this.ended (EndsWell.of_live ready_live)
      · obtain ⟨rfl, nonneg, held⟩ := getr_ok got
        dsimp only
        split
        · next long =>
          -- the text is too large, so nothing is closed
          rw [spent.regs] at held
          rcases fits with fits | view | none
          · exact absurd ⟨v, nonneg, held, long⟩ fits
          · rw [noView] at view
            cases view
          · intro _
            exact spent.sameBooks.closes.trans none
        · exact storeBlob_keepsEnded rdHash _ last (EndsWell.of_live ready_live)

/-- Too large a text refuses the program and closes what was closed. -/
theorem fstore_overlong {rdHash rsData : Reg} {v : Value} {st : State}
    (noView : env.isView = false) (nonneg : 0 ≤ rsData) (held : st.regs[rsData.toNat]? = some v)
    (long : maxBlob < v.toString.length) :
    (fstore env rdHash rsData).run st = (.ok false, { st with reverted := true }) := by
  rw [fstore_eq, viewGuard, noView]
  simp only [Bool.false_eq_true, if_false, Chained.run_bind,
    Chained.run_pure, if_true, getr_run nonneg held, if_pos long]
  rfl

theorem execOne_performed {async : Bool} {op : Instr} {st ready : State}
    (admitted : (admission env op : Exec env op.scope Bool).run st = (.ok true, ready)) :
    (execOne env async op).run st = (perform env async op).run ready := by
  rw [execOne_eq, Chained.run_bind, admitted]
  rfl

/-- An instruction leaves a refused program with closed capabilities exactly
when it stores too large a blob. -/
theorem execOne_ended_iff {async : Bool} {op : Instr} {st : State} (live : st.reverted = false) :
    Ended ((execOne env async op).run st).2 ↔ ¬ Overlong env st op := by
  constructor
  · rintro ended ⟨⟨rdHash, rsData, v, rfl, nonneg, held, long⟩, noView, closed, admitted⟩
    obtain ⟨ready, admission⟩ : ∃ ready,
        (admission env (.fstore rdHash rsData) : Exec env _ Bool).run st =
          (.ok true, ready) := ⟨_, Prod.ext admitted rfl⟩
    have spent := (@admission_quiet env (Instr.fstore rdHash rsData).scope
      (.fstore rdHash rsData)).spent st
    rw [admission] at spent
    have stored : (perform env async (.fstore rdHash rsData)).run ready =
        (.ok false, { ready with reverted := true }) :=
      fstore_overlong noView nonneg (by rw [spent.regs, held]) long
    rw [execOne_performed admission, stored] at ended
    exact closed (spent.sameBooks.closes.symm.trans (ended rfl))
  · intro fits
    apply execOne_endsWell live
    intro ready spent admitted
    have ready_live : ready.reverted = false := spent.sameBooks.reverted.trans live
    by_cases closing : op.scope = .closing
    · obtain ⟨kind, reg, rfl⟩ := Instr.of_closing closing
      exact capClose_endsWell kind reg ready ready_live
    · by_cases blob : op.scope = .blob
      · obtain ⟨rdHash, rsData, rfl⟩ := Instr.of_blob blob
        apply fstore_ended live spent
        by_contra overlong
        push Not at overlong
        obtain ⟨⟨v, nonneg, held, long⟩, noView, closed⟩ := overlong
        exact fits ⟨⟨rdHash, rsData, v, rfl, nonneg, held, long⟩,
          by simpa using noView, closed, admitted⟩
      · exact KeepsEnded.of_scope _ closing blob ready (EndsWell.of_live ready_live)

section Runs

variable (env : Env) (async : Bool) (program : Program)

/-- A run that executes some instructions, each of which meets a condition. -/
inductive Executes (meets : State → Instr → Prop) : List Instr → State → State → Prop
  | stop (st : State) : Executes meets [] st st
  | step {op : Instr} {ops : List Instr} {st next last : State}
      (further : going program st) (fetched : fetch program st.pc = some op)
      (met : meets { st with pc := st.pc + 1 } op)
      (cycled : cycle env async program st = (.ok (), next)) (rest : Executes meets ops next last) :
      Executes meets (op :: ops) st last

def NoCall (_ : State) (op : Instr) : Prop := op.scope ≠ .calling

/-- The instruction makes no call and stores no text that is too large. -/
def NoOverlong (st : State) (op : Instr) : Prop := op.scope ≠ .calling ∧ ¬ Overlong env st op

/-- The members of objects are those that storage has, and a refused program
closes nothing. -/
def Orderly (st : State) : Prop :=
  (∀ objectRef, ((objectMembers env objectRef : Exec env .plain (List Bytes)).run st).1 =
      .ok (memberRefs (memberKeys st.storage) objectRef)) ∧ Ended st

variable {env async program}

theorem orderly_of_indexed {st : State} (indexed : Indexed st)
    (ended : Ended st) : Orderly env st :=
  ⟨fun objectRef => congrArg Except.ok (st.memberIndexOf_spec objectRef indexed).1, ended⟩

theorem live_of_going {st : State} (further : going program st) : st.reverted = false := by
  rw [going, Bool.and_eq_true] at further
  simpa using further.2

theorem cycle_ended_iff {op : Instr} {st : State}
    (further : going program st) (fetched : fetch program st.pc = some op) :
    Ended (cycle env async program st).2 ↔ ¬ Overlong env { st with pc := st.pc + 1 } op := by
  have live : st.reverted = false := live_of_going further
  have executed := @execOne_ended_iff env async op { st with pc := st.pc + 1 } live
  rw [← executed, ← outcome_snd, cycle, fetched]
  dsimp only
  split
  · next ran => rw [ran]
  · next after ran =>
    rw [ran]
    exact Iff.rfl
  · next ran => rw [ran]

theorem cycle_indexed {op : Instr} {st : State}
    (fetched : fetch program st.pc = some op) (noCall : op.scope ≠ .calling)
    (indexed : Indexed st) : Indexed (cycle env async program st).2 := by
  have kept := (execOne env async op).invariant Indexed
    (fun _ _ changed => changed.indexed noCall)
    (s := { st with pc := st.pc + 1 }) indexed
  rw [← outcome_snd] at kept
  rw [cycle, fetched]
  dsimp only
  split
  all_goals
    next ran =>
    rw [ran] at kept
    exact kept

/-- Going on by one instruction does what the mark of it says. -/
theorem cycle_step (pointOps : env.pointOps = true) {op : Instr}
    {st next : State} (fetched : fetch program st.pc = some op) (noCall : op.scope ≠ .calling)
    (cycled : cycle env async program st = (.ok (), next)) (live : next.reverted = false) :
    Savepoints.Step op.mark st.savepoints next.savepoints := by
  rw [cycle, fetched] at cycled
  dsimp only at cycled
  have executed : ∀ {goesOn : Bool} {after : State},
      (execOne env async op).run { st with pc := st.pc + 1 } =
        (.ok goesOn, after) → after.reverted = false →
      Savepoints.Step op.mark st.savepoints after.savepoints :=
    fun ran live => (execOne_step pointOps noCall ran live :)
  split at cycled
  · next ran =>
    cases cycled
    exact executed (outcome_eq_ok.mp ran) live
  · next after ran =>
    cases cycled
    exact @executed _ after (outcome_eq_ok.mp ran) live
  · cases cycled

namespace Executes

variable {meets : State → Instr → Prop}

theorem live {ops : List Instr} {st last : State}
    (run : Executes env async program meets ops st last)
    (live : last.reverted = false) : st.reverted = false := by
  cases run with
  | stop => exact live
  | step further => exact live_of_going further

/-- What a run without calls does to the savepoints. -/
theorem savepoints_run (pointOps : env.pointOps = true) {ops : List Instr} {st last : State}
    (run : Executes env async program NoCall ops st last) (live : last.reverted = false) :
    Savepoints.Run (ops.map Instr.mark) st.savepoints last.savepoints := by
  induction run with
  | stop st => exact .nil _
  | step further fetched noCall cycled rest ih =>
    have step := cycle_step pointOps fetched noCall cycled (rest.live live)
    exact .cons step (ih live)

theorem indexed {ops : List Instr} {st last : State}
    (run : Executes env async program (NoOverlong env) ops st last)
    (indexed : Indexed st) : Indexed last := by
  induction run with
  | stop st => exact indexed
  | step further fetched met cycled rest ih =>
    have kept := @cycle_indexed env async _ _ _ fetched met.1 indexed
    rw [cycled] at kept
    exact ih kept

theorem ended {ops : List Instr} {st last : State}
    (run : Executes env async program (NoOverlong env) ops st last)
    (ended : Ended st) : Ended last := by
  induction run with
  | stop st => exact ended
  | step further fetched met cycled rest ih =>
    have kept := (@cycle_ended_iff env async _ _ _ further fetched).mpr met.2
    rw [cycled] at kept
    exact ih kept

end Executes
end Runs

/-- Along a run without calls that stores no text which is too large, members
are found as in storage and a refused program closes nothing, also where an
instruction fails; and only such a text makes a difference. A rollback restores
what storage and the closed capabilities were at its checkpoint, and a commit
changes neither. -/
theorem checkpoints_are_savepoints (env : Env) (async : Bool)
    (program : Program) (pointOps : env.pointOps = true) :
    (∀ (ops : List Instr) (first st : State),
      first.memberIndex = none → first.reverted = false →
      Executes env async program (NoOverlong env) ops first st →
      Orderly env st ∧
        ∀ op, going program st → fetch program st.pc = some op →
          op.scope ≠ .calling →
          (Orderly env (cycle env async program st).2 ↔
            NoOverlong env { st with pc := st.pc + 1 } op)) ∧
    (∀ (body : List Instr) (st last : State),
      Savepoints.Balanced (body.map Instr.mark) →
      Executes env async program NoCall (.checkpoint :: (body ++ [.rollback])) st last →
      last.reverted = false →
      (∀ key, last.storage.find? key = st.storage.find? key) ∧ last.closes.Perm st.closes) ∧
    ∀ st last : State,
      Executes env async program NoCall [.commit] st last →
      last.reverted = false →
      (∀ key, last.storage.find? key = st.storage.find? key) ∧
        last.closes.Perm st.closes := by
  refine ⟨?_, ?_, ?_⟩
  · intro ops first st unindexed live run
    have indexed : Indexed st := by
      apply run.indexed
      intro index held
      rw [unindexed] at held
      cases held
    refine ⟨orderly_of_indexed indexed (run.ended (EndsWell.of_live live)), ?_⟩
    intro op further fetched noCall
    have ended := @cycle_ended_iff env async _ _ _ further fetched
    constructor
    · rintro ⟨-, endsWell⟩
      exact ⟨noCall, ended.mp endsWell⟩
    · rintro ⟨-, fits⟩
      exact orderly_of_indexed (cycle_indexed fetched noCall indexed) (ended.mpr fits)
  · intro body st last balanced run live
    have marked := run.savepoints_run pointOps live
    rw [List.map_cons, List.map_append] at marked
    have restored := congrArg Savepoints.current (marked.restores balanced)
    constructor
    · intro key
      exact congrFun (congrArg Books.storage restored) key
    · exact Multiset.coe_eq_coe.mp (congrArg Books.closes restored)
  · intro st last run live
    have marked := run.savepoints_run pointOps live
    have kept := marked.commit_current
    constructor
    · intro key
      exact congrFun (congrArg Books.storage kept) key
    · exact Multiset.coe_eq_coe.mp (congrArg Books.closes kept)

/-- Where programs may make checkpoints and capabilities are live. -/
def pointCtx : Env := { defaultCtx 1000 [] with pointOps := true, capLive := fun _ => true }

/-- A write that is rolled back. -/
def rolledBack : Program := #[.checkpoint, .sstore [107] 0, .rollback]

theorem checkpoints_are_savepoints_write :
    ∃ last, Executes pointCtx false rolledBack NoCall
        [.checkpoint, .sstore [107] 0, .rollback] (createState ∅ none none)
        last ∧
      last.storage.find? [107] = none := by
  obtain ⟨last, run, live⟩ : ∃ last, Executes pointCtx false rolledBack NoCall
      [.checkpoint, .sstore [107] 0, .rollback] (createState ∅ none none)
      last ∧ last.reverted = false := by
    refine ⟨_, .step rfl rfl ?_ rfl (.step rfl rfl ?_ rfl (.step rfl rfl ?_ rfl (.stop _))), rfl⟩
    all_goals rintro ⟨⟩
  have restored := (checkpoints_are_savepoints pointCtx false rolledBack
    rfl).2.1 [.sstore [107] 0] _ last (.change .nil) run live
  exact ⟨last, run, restored.1 [107]⟩

/-- A program that closes a capability and stores a blob. -/
def closeAndStore : Program := #[.capClose 0 1, .fstore 3 2]

/-- It starts with the capability and the blob in its registers. -/
def closeAndStoreState (text : Bytes) : State :=
  let start := createState ∅ none none
  let held := start.regs.set 1 (.vCap ⟨List.replicate 32 0, 0, 0, 0⟩)
  { start with regs := held.set 2 (.vString text) }

theorem closeAndStore_overlong {text : Bytes} (long : maxBlob < text.length) :
    ∃ last, Reaches pointCtx false closeAndStore (closeAndStoreState text)
      last ∧ ¬ Ended last := by
  have closing : Cycled pointCtx false closeAndStore (closeAndStoreState text)
      (cycle pointCtx false closeAndStore (closeAndStoreState text)).2 :=
    ⟨rfl, rfl⟩
  generalize closed : (cycle pointCtx false closeAndStore
    (closeAndStoreState text)).2 = st at closing
  have further : going closeAndStore st = true := by
    rw [← closed]
    rfl
  have fetched : fetch closeAndStore st.pc = some (.fstore 3 2) := by
    rw [← closed]
    rfl
  have overlong : Overlong pointCtx { st with pc := st.pc + 1 }
      (.fstore 3 2) := by
    refine ⟨⟨3, 2, .vString text, rfl, by decide, ?_, long⟩, rfl, ?_, ?_⟩
    · rw [← closed]
      rfl
    · rw [← closed]
      rintro ⟨⟩
    · rw [← closed]
      rfl
  refine ⟨_, (Relation.ReflTransGen.single closing).tail ⟨further, rfl⟩, ?_⟩
  rw [cycle_ended_iff further fetched]
  exact fun fits => fits overlong

/-- A blob of more than ten mebibytes leaves a refused program with a closed
capability. -/
theorem not_refused_closes_nothing :
    ¬ ∀ (env : Env) (program : Program) (first last : State),
      env.pointOps = true → first.memberIndex = none →
      first.reverted = false → first.closes = [] → first.undoStack = [] →
      Reaches env false program first last →
      last.reverted = true → last.closes = [] := by
  intro closesNothing
  obtain ⟨last, reached, left⟩ := @closeAndStore_overlong
    (List.replicate (maxBlob + 1) 97)
    (by rw [List.length_replicate]; exact Nat.lt_succ_self _)
  apply left
  exact closesNothing pointCtx closeAndStore _ last rfl rfl rfl rfl rfl reached

end Vm
end LiteNode
