import LiteNode.Data.Savepoints
import LiteNode.Vm.Checks
import LiteNode.Vm.Contract

/-!
# Checkpoints

The undo stack of a program stands for the books at its checkpoints: what
storage and the closed capabilities were. Each instruction that makes no call
does to these savepoints what its mark says, the index of members follows
storage, and a program that is refused closes nothing, unless it is refused for
too large a blob.
-/

namespace LiteNode
namespace Vm

variable {env : Env} {scope : Scope}

/-- What a rollback restores. -/
@[ext] structure Books where
  storage : Bytes → Option Bytes
  closes : Multiset Cap

def State.books (st : State) : Books where
  storage := st.storage.find?
  closes := st.closes

def UndoEntry.undo : UndoEntry → Books → Books
  | .undoMarker _, books => books
  | .undoWrite key old, books => { books with storage := Function.update books.storage key old }
  | .undoClose cap, books => { books with closes := books.closes.erase cap }

/-- The books at the markers of an undo stack, seen from the present ones. -/
def savedBooks : List UndoEntry → Books → List Books
  | [], _ => []
  | .undoMarker _ :: rest, books => books :: savedBooks rest books
  | .undoWrite key old :: rest, books => savedBooks rest ((UndoEntry.undoWrite key old).undo books)
  | .undoClose cap :: rest, books => savedBooks rest ((UndoEntry.undoClose cap).undo books)

/-- The savepoints that the undo stack stands for. -/
def State.savepoints (st : State) : Savepoints Books where
  current := st.books
  saved := savedBooks st.undoStack st.books

theorem SameBooks.savepoints_eq {before after : State}
    (same : SameBooks before after) : after.savepoints = before.savepoints := by
  have books : after.books = before.books := by
    rw [State.books, State.books, same.storage, same.closes]
  rw [State.savepoints, State.savepoints, books, same.undoStack]

theorem State.replaced_books (st : State) (key value : Bytes) :
    (st.replaced key value).books = (UndoEntry.undoWrite key (some value)).undo st.books := by
  ext1
  · funext other
    simp only [State.replaced, State.books, UndoEntry.undo,
      Table.find?_replace_eq_ite, Function.update_apply]
  · rfl

theorem State.removed_books (st : State) (key : Bytes) :
    (st.removed key).books = (UndoEntry.undoWrite key none).undo st.books := by
  ext1
  · funext other
    simp only [State.removed, State.books, UndoEntry.undo,
      Table.find?_remove_eq_ite, Function.update_apply]
  · rfl

theorem undoWrite_undo (books : Books) (key : Bytes) (new : Option Bytes) :
    (UndoEntry.undoWrite key (books.storage key)).undo
      ((UndoEntry.undoWrite key new).undo books) = books := by
  simp [UndoEntry.undo]

theorem State.replaced_saved (st : State) (key value : Bytes) :
    ((st.undoable key).replaced key value).savepoints.saved = st.savepoints.saved := by
  have stack : ((st.undoable key).replaced key value).undoStack =
      .undoWrite key (st.books.storage key) :: st.undoStack := rfl
  have same : (st.undoable key).books = st.books := rfl
  simp only [State.savepoints]
  rw [stack, savedBooks, State.replaced_books, same, undoWrite_undo]

theorem State.removed_saved (st : State) (key : Bytes) :
    ((st.undoable key).removed key).savepoints.saved = st.savepoints.saved := by
  have stack : ((st.undoable key).removed key).undoStack =
      .undoWrite key (st.books.storage key) :: st.undoStack := rfl
  have same : (st.undoable key).books = st.books := rfl
  simp only [State.savepoints]
  rw [stack, savedBooks, State.removed_books, same, undoWrite_undo]

theorem State.closing_saved (st : State) (cap : Cap) :
    (st.closing cap).savepoints.saved = st.savepoints.saved := by
  have erased : (UndoEntry.undoClose cap).undo (st.closing cap).books = st.books := by
    ext1
    · rfl
    · exact Multiset.erase_cons_head cap (st.closes : Multiset Cap)
  have stack : (st.closing cap).undoStack = .undoClose cap :: st.undoStack := rfl
  simp only [State.savepoints]
  rw [stack, savedBooks, erased]

/-- A rollback does not depend on the value that is given up. -/
theorem rollback_from {before other : Books} {saved : List Books} {after : Savepoints Books}
    (step : Savepoints.Step (some .rollback) ⟨before, saved⟩ after) :
    Savepoints.Step (some .rollback) ⟨other, saved⟩ after := by
  cases step with
  | rollback before last saved => exact .rollback other last saved
  | restart before after => exact .restart other after

theorem State.restore_step (st : State) (undo : List UndoEntry) :
    Savepoints.Step (some .rollback) ⟨st.books, savedBooks undo st.books⟩
      (st.restore undo).savepoints := by
  induction undo generalizing st with
  | nil => exact .restart _ _
  | cons entry rest ih =>
    rcases entry with id | ⟨key, _ | value⟩ | cap
    · exact .rollback _ _ _
    · have step := ih (st.removed key)
      rw [State.removed_books] at step
      exact rollback_from step
    · have step := ih (st.replaced key value)
      rw [State.replaced_books] at step
      exact rollback_from step
    · have step := ih { st with closes := st.closes.erase cap }
      have erased : ({ st with closes := st.closes.erase cap } : State).books =
          (UndoEntry.undoClose cap).undo st.books := by
        ext1
        · rfl
        · exact (Multiset.coe_erase st.closes cap).symm
      rw [erased] at step
      exact rollback_from step

theorem State.rollback_step (st : State) :
    Savepoints.Step (some .rollback) st.savepoints st.rollback.savepoints :=
  st.restore_step st.undoStack

theorem State.checkpoint_step (st : State) :
    Savepoints.Step (some .checkpoint) st.savepoints st.checkpoint.savepoints :=
  .checkpoint _ _

def undoEach (undo : List UndoEntry) (books : Books) : Books :=
  undo.foldl (fun books entry => entry.undo books) books

variable {undo : List UndoEntry} {op : Instr} {st next : State}

theorem savedBooks_unmarked (unmarked : hasMarker undo = false) (books : Books) :
    savedBooks undo books = [] := by
  induction undo generalizing books with
  | nil => rfl
  | cons entry rest ih =>
    cases entry with
    | undoMarker id => cases unmarked
    | undoWrite key old => exact ih unmarked _
    | undoClose cap => exact ih unmarked _

theorem savedBooks_append (unmarked : hasMarker undo = false) (rest : List UndoEntry)
    (books : Books) : savedBooks (undo ++ rest) books = savedBooks rest (undoEach undo books) := by
  induction undo generalizing books with
  | nil => rfl
  | cons entry others ih =>
    cases entry with
    | undoMarker id => cases unmarked
    | undoWrite key old => exact ih unmarked _
    | undoClose cap => exact ih unmarked _

theorem hasMarker_append (left right : List UndoEntry) :
    hasMarker (left ++ right) = (hasMarker left || hasMarker right) := by
  induction left with
  | nil => rfl
  | cons entry rest ih =>
    cases entry with
    | undoMarker id => rfl
    | undoWrite key old => exact ih
    | undoClose cap => exact ih

theorem hasMarker_reverse_cons {entry : UndoEntry} (unmarked : hasMarker undo.reverse = false)
    (noted : hasMarker [entry] = false) : hasMarker (entry :: undo).reverse = false := by
  rw [List.reverse_cons, hasMarker_append, unmarked, noted]
  rfl

theorem undoEach_reverse_cons (entry : UndoEntry) (undo : List UndoEntry) (books : Books) :
    undoEach (entry :: undo).reverse books = entry.undo (undoEach undo.reverse books) := by
  rw [List.reverse_cons, undoEach, List.foldl_append]
  rfl

/-- Forgetting a marker forgets the books at it; what was noted since then
stands before what was noted earlier. -/
theorem savedBooks_discard (undo stack : List UndoEntry)
    (unmarked : hasMarker undo.reverse = false) (books : Books) :
    savedBooks (discard true undo stack) books =
      (savedBooks stack (undoEach undo.reverse books)).tail := by
  induction stack generalizing undo with
  | nil => rfl
  | cons entry rest ih =>
    cases entry with
    | undoMarker id =>
      rw [discard, savedBooks, List.tail_cons, Bool.true_and]
      split
      · rw [List.reverseAux_eq, savedBooks_append unmarked]
      · next last =>
        have last : hasMarker rest = false := by simpa using last
        rw [savedBooks_unmarked last, savedBooks_unmarked last]
    | undoWrite | undoClose =>
      rw [discard, savedBooks, ← undoEach_reverse_cons]
      exact ih _ (hasMarker_reverse_cons unmarked rfl)

theorem State.commit_step (st : State) :
    Savepoints.Step (some .commit) st.savepoints (st.commit true).savepoints := by
  have saved : (st.commit true).savepoints.saved = st.savepoints.saved.tail :=
    savedBooks_discard [] st.undoStack rfl st.books
  have stepped : (st.commit true).savepoints =
      ⟨st.savepoints.current, st.savepoints.saved.tail⟩ := by
    rw [← saved]
    rfl
  rw [stepped]
  exact .commit _ _

def Instr.mark : Instr → Option Mark
  | .checkpoint => some .checkpoint
  | .rollback => some .rollback
  | .commit => some .commit
  | _ => none

theorem Instr.mark_eq_none (unmarked : op.scope ≠ .marking) : op.mark = none := by
  cases op with
  | checkpoint | rollback | commit => exact absurd rfl unmarked
  | _ => rfl

theorem Instr.of_marking (marking : op.scope = .marking) :
    op = .checkpoint ∨ op = .rollback ∨ op = .commit := by
  cases op with
  | checkpoint => exact .inl rfl
  | rollback => exact .inr (.inl rfl)
  | commit => exact .inr (.inr rfl)
  | _ => cases marking

/-- A program that is refused stays so; before that, nothing is lost that was
saved. -/
def SavedKept (before after : State) : Prop :=
  after.reverted = false → before.reverted = false ∧
    after.savepoints.saved = before.savepoints.saved

instance : Std.Refl SavedKept := ⟨fun _ live => ⟨live, rfl⟩⟩

instance : IsTrans State SavedKept := ⟨by
  intro first second third before after live
  obtain ⟨live, saved⟩ := after live
  obtain ⟨live, former⟩ := before live
  exact ⟨live, saved.trans former⟩⟩

theorem Change.savedKept (changed : Change env scope st next)
    (unmarked : scope ≠ .marking) (noCall : scope ≠ .calling) : SavedKept st next := by
  intro live
  cases changed with
  | work same rises fits =>
    rw [same.savepoints_eq]
    exact ⟨same.reverted ▸ live, rfl⟩
  | index index kept => exact ⟨live, rfl⟩
  | refused | overlong => cases live
  | write allowed _ key value => exact ⟨live, st.replaced_saved key value⟩
  | erase allowed _ key => exact ⟨live, st.removed_saved key⟩
  | close allowed _ cap => exact ⟨live, st.closing_saved cap⟩
  | checkpoint allowed | rollback allowed | commit allowed => exact absurd allowed unmarked
  | nonce allowed | shared allowed => exact absurd allowed noCall

/-- An instruction that was admitted and did not refuse the program. -/
theorem execOne_admitted {async : Bool} {goesOn : Bool}
    (ended : (execOne env async op).run st = (.ok goesOn, next)) (live : next.reverted = false) :
    ∃ ready, Spent st ready ∧ (perform env async op).run ready = (.ok goesOn, next) := by
  rw [execOne_eq] at ended
  obtain ⟨admitted, ready, admission, ended⟩ := Chained.run_bind_ok ended
  have spent := (@admission_quiet env op.scope op).spent st
  rw [admission] at spent
  cases admitted with
  | false =>
    cases ended
    cases live
  | true => exact ⟨ready, spent, ended⟩

/-- Each instruction that makes no call does what its mark says. -/
theorem execOne_step (pointOps : env.pointOps = true) {async : Bool} (noCall : op.scope ≠ .calling)
    {goesOn : Bool} (ended : (execOne env async op).run st = (.ok goesOn, next))
    (live : next.reverted = false) : Savepoints.Step op.mark st.savepoints next.savepoints := by
  by_cases marking : op.scope = .marking
  · obtain ⟨ready, spent, performed⟩ := execOne_admitted ended live
    rw [← spent.sameBooks.savepoints_eq]
    rcases Instr.of_marking marking with rfl | rfl | rfl
    · cases performed
      exact ready.checkpoint_step
    · cases performed
      exact ready.rollback_step
    · cases performed
      rw [pointOps]
      exact ready.commit_step
  · have kept := (execOne env async op).relates SavedKept
      (fun _ _ changed => changed.savedKept marking noCall) st
    rw [ended] at kept
    rw [Instr.mark_eq_none marking]
    have saved : next.savepoints = ⟨next.books, st.savepoints.saved⟩ := by
      rw [← (kept live).2]
      rfl
    rw [saved]
    exact .change _ _ _

end Vm
end LiteNode
