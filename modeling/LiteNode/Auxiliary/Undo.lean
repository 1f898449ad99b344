import LiteNode.Auxiliary.Index

/-!
# Undoing a journaled write

A write leaves a journal whose rows hold what the tables had before and what
they have now. With it the tables are put back; when HEAD has reached its target
it is dropped, and with any other HEAD nothing is done.
-/

namespace LiteNode

open AuxDelta

namespace AuxIndex

variable {codec : Codec} {tables : AuxIndex} {journal : AuxDelta}

@[simp] theorem need_ok (value : α) : need (.ok value) = .ok value := rfl

theorem need_eq_ok {result : Except String α} {value : α}
    (done : need result = .ok value) : result = .ok value := by
  cases result with
  | error reason => cases done
  | ok found =>
    cases done
    rfl

theorem read_withPending (tables : AuxIndex) (value : Option Bytes) (key : Key) :
    (tables.withPending value).read key =
      if key = .metadata pendingKey then .value value else tables.read key := by
  cases key with
  | metadata key => simp [withPending, read, put_apply, apply_ite Cell.value]
  | _ => rfl

@[simp] theorem withPending_withPending (tables : AuxIndex) (value value' : Option Bytes) :
    (tables.withPending value).withPending value' = tables.withPending value' := by
  simp [withPending, put]

theorem withPending_self (stored : tables.metadata pendingKey = value) :
    tables.withPending value = tables := by
  simp [withPending, put, ← stored]

/-- The tables hold a journal, and what it says. -/
structure Pending (codec : Codec) (tables : AuxIndex) (journal : AuxDelta) : Prop where
  sound : Sealed journal
  stored : tables.metadata pendingKey = some (encode codec journal)
  foreign : ∀ row ∈ journal.rows, row.key ≠ .metadata pendingKey
  reads : ∀ row ∈ journal.rows, tables.read row.key = row.next

theorem journal_eq_none_iff :
    AuxIndex.journal codec tables = .ok none ↔ tables.metadata pendingKey = none := by
  unfold AuxIndex.journal
  split
  · next nothing => simp [nothing]
  · next bytes found =>
    simp only [found, reduceCtorEq, iff_false]
    intro done
    obtain ⟨value, -, done⟩ := bind_eq_ok done
    split at done
    · cases done
    · split at done <;> cases done

theorem journal_eq_some_iff (faithful : codec.texts.Faithful) :
    AuxIndex.journal codec tables = .ok (some journal) ↔ Pending codec tables journal := by
  unfold AuxIndex.journal
  constructor
  · intro done
    split at done
    · cases done
    · next bytes found =>
      obtain ⟨value, read, done⟩ := bind_eq_ok done
      obtain ⟨sound, written⟩ := encode_of_decode (need_eq_ok read)
      split at done
      · cases done
      · next foreign =>
        split at done
        · cases done
        · next reads =>
          cases done
          simp only [List.any_eq_true, decide_eq_true_iff, not_exists,
            not_and, not_not] at foreign reads
          exact ⟨sound, written ▸ found, foreign, reads⟩
  · intro pending
    have foreign : (journal.rows.any
        fun row => row.key = .metadata pendingKey) = false := by
      simpa using pending.foreign
    have reads : (journal.rows.any
        fun row => tables.read row.key ≠ row.next) = false := by
      simpa using pending.reads
    rw [pending.stored]
    simp only [decode_encode faithful pending.sound, need_ok, ok_bind]
    rw [foreign, reads]
    rfl

theorem decide_target (journal : AuxDelta) :
    AuxDelta.decide (some journal.target) journal = .ok .retire := by
  simp [AuxDelta.decide]

theorem decide_previous (sound : Sealed journal) :
    AuxDelta.decide journal.previous journal = .ok .restore := by
  simp [AuxDelta.decide, sound.apart.symm]

theorem decide_other {head : Option Anchor} (notTarget : head ≠ some journal.target)
    (notPrevious : head ≠ journal.previous) :
    AuxDelta.decide head journal = .error "auxiliary journal does not match selected HEAD" := by
  simp [AuxDelta.decide, notTarget, notPrevious]

section Decisions

variable (faithful : codec.texts.Faithful) (pending : Pending codec tables journal)

include faithful pending

/-- A journal whose target is HEAD is dropped. -/
theorem retire_target :
    retire codec tables (some journal.target) = .ok (tables.withPending none) := by
  rw [retire, (journal_eq_some_iff faithful).mpr pending]
  simp only [ok_bind, decide_target, need_ok]
  rfl

/-- A journal whose target is not HEAD yet is not dropped. -/
theorem retire_previous :
    retire codec tables journal.previous =
      .error (.refused "auxiliary journal is ahead of durable HEAD") := by
  rw [retire, (journal_eq_some_iff faithful).mpr pending]
  simp only [ok_bind, decide_previous pending.sound, need_ok]
  rfl

theorem applyRestore_target : applyRestore codec tables (some journal.target) = .ok tables := by
  rw [applyRestore, restoration, (journal_eq_some_iff faithful).mpr pending]
  simp only [ok_bind, decide_target, need_ok]
  rfl

/-- With any other HEAD every operation refuses. -/
theorem refused_other {head : Option Anchor} (notTarget : head ≠ some journal.target)
    (notPrevious : head ≠ journal.previous) :
    let fault := Fault.refused "auxiliary journal does not match selected HEAD"
    retire codec tables head = .error fault ∧ restoration codec tables head = .error fault ∧
      applyRestore codec tables head = .error fault := by
  have decided := decide_other notTarget notPrevious
  have found := (journal_eq_some_iff faithful).mpr pending
  refine ⟨?_, ?_, ?_⟩
  · rw [retire, found]
    simp only [ok_bind, decided]
    rfl
  · rw [restoration, found]
    simp only [ok_bind, decided]
    rfl
  · rw [applyRestore, restoration, found]
    simp only [ok_bind, decided]
    rfl

end Decisions

/-- Tables that the rows of a journal change into others. -/
structure Undoes (journal : AuxDelta) (before tables : AuxIndex) : Prop where
  priors : ∀ row ∈ journal.rows, before.read row.key = row.prior
  others : ∀ key, place key = key → key ≠ .metadata pendingKey →
    key ∉ journal.rows.map Row.key → tables.read key = before.read key

theorem restoration_previous
    (faithful : codec.texts.Faithful) (pending : Pending codec tables journal) :
    restoration codec tables journal.previous =
      .ok (journal.rows.map fun row => (row.key, row.prior)) := by
  have current : (journal.rows.map fun row => (row.key, tables.read row.key)) =
      journal.rows.map fun row => (row.key, row.next) :=
    List.map_congr_left fun row listed => by rw [pending.reads row listed]
  have increasing : Ordered.Increasing Prod.fst
      (journal.rows.map fun row => (row.key, row.next)) :=
    List.pairwise_map.mpr pending.sound.increasing
  rw [restoration, (journal_eq_some_iff faithful).mpr pending]
  simp only [ok_bind, decide_previous pending.sound, need_ok, current,
    AuxDelta.restore, ordered_eq_self increasing]
  rfl

/-- With HEAD at its predecessor a journal is undone and dropped. -/
theorem applyRestore_previous
    (faithful : codec.texts.Faithful) (pending : Pending codec tables journal)
    {before : AuxIndex} (undoes : Undoes journal before tables) :
    applyRestore codec tables journal.previous = .ok (before.withPending none) := by
  have sound := pending.sound
  have keys : ∀ entry ∈ journal.rows.map fun row => (row.key, row.prior),
      validKey entry.1 = true := List.forall_mem_map.mpr sound.keys
  have cells : ∀ entry ∈ journal.rows.map fun row => (row.key, row.prior),
      validCell entry = true := List.forall_mem_map.mpr sound.priors
  obtain ⟨restored, done, read⟩ := writes_spec keys cells tables
  have distinct : ((journal.rows.map fun row =>
      (row.key, row.prior)).map Prod.fst).Nodup := by
    apply nodup_of_increasing
    exact List.pairwise_map.mpr sound.increasing
  have same : restored.withPending none = before.withPending none := by
    apply ext_read
    intro key placed
    rw [read_withPending, read_withPending]
    split
    · rfl
    · next other =>
      rw [read key placed]
      apply writeAll_undo distinct (List.forall_mem_map.mpr undoes.priors)
      intro unlisted
      rw [List.map_map] at unlisted
      exact undoes.others key placed other unlisted
  rw [applyRestore, (journal_eq_some_iff faithful).mpr pending]
  simp only [ok_bind, restoration_previous faithful pending, done,
    decide_previous sound, need_ok, same]
  rfl

/-- The rows for cells as they are and as they are written. -/
theorem mem_changes_read {after : List (Key × Cell)} {row : Row} :
    row ∈ changes (after.map fun entry => (entry.1, tables.read entry.1))
        after ↔
      (row.key, row.next) ∈ after ∧ row.prior = tables.read row.key ∧ row.prior ≠ row.next := by
  rw [changes, paired, List.zipWith_map_left, List.zipWith_self,
    List.mem_filter, decide_eq_true_iff, ← and_assoc]
  refine and_congr_left fun _ => ?_
  constructor
  · intro listed
    obtain ⟨entry, member, rfl⟩ := List.mem_map.mp listed
    exact ⟨member, rfl⟩
  · rintro ⟨member, prior⟩
    refine List.mem_map.mpr ⟨_, member, ?_⟩
    rw [Row.mk.injEq]
    exact ⟨rfl, prior.symm, rfl⟩

/-- A write drops the journal before it and leaves one of its own. -/
theorem withWrite_spec {previous : Option Anchor} {target : Anchor} {writes : List (Key × Cell)}
    {action : Except Fault α} {tables' : AuxIndex} {result : α}
    (done : withWrite codec tables previous target writes action = .ok (tables', result)) :
    ∃ retired journal, retire codec tables previous = .ok retired ∧
      Pending codec tables' journal ∧ Undoes journal retired tables' ∧
      journal.previous = previous ∧ journal.target = target := by
  obtain ⟨increasing, alike, listed⟩ := lastWrites_spec writes
  unfold withWrite at done
  dsimp only at done
  split at done
  · cases done
  next foreign =>
  obtain ⟨retired, dropped, done⟩ := bind_eq_ok done
  obtain ⟨record, «sealed», done⟩ := bind_eq_ok done
  obtain ⟨value, -, done⟩ := bind_eq_ok done
  obtain ⟨written, wrote, done⟩ := bind_eq_ok done
  cases done
  have «sealed» := need_eq_ok «sealed»
  have sound := sealed_of_seal «sealed»
  have before : Ordered.Increasing Prod.fst ((lastWrites writes).map
      fun entry => (entry.1, retired.read entry.1)) :=
    List.pairwise_map.mpr increasing
  have distinct := nodup_of_increasing increasing
  obtain ⟨-, -, -, -, -, keys, -, -, rfl⟩ := seal_eq_ok_iff.mp «sealed»
  rw [ordered_eq_self before] at keys
  have keys : ∀ entry ∈ lastWrites writes, validKey entry.1 = true := List.forall_mem_map.mp keys
  rw [ordered_eq_self before, ordered_eq_self increasing] at sound ⊢
  -- every write has a valid key, since the last one of its key has
  have validKeys : ∀ entry ∈ writes, validKey entry.1 = true := by
    intro entry member
    have last := (listed entry.1).mpr (List.mem_map_of_mem member)
    obtain ⟨entry', member', same⟩ := List.mem_map.mp last
    rw [← same]
    exact keys _ member'
  obtain ⟨written', wrote', read⟩ := writes_spec validKeys (validCell_of_writes wrote) retired
  obtain rfl : written' = written := Except.ok.inj (wrote'.symm.trans wrote)
  have notPending : ∀ entry ∈ lastWrites writes, entry.1 ≠ .metadata pendingKey := by
    intro entry member same
    apply foreign
    exact List.any_eq_true.mpr ⟨entry, member, decide_eq_true same⟩
  have cellOf : ∀ key cell, (key, cell) ∈ lastWrites writes → written'.read key = cell := by
    intro key cell member
    have valid : validKey key = true := keys _ member
    rw [read key (place_of_valid valid), ← alike]
    exact writeAll_of_mem distinct member _
  refine ⟨retired, _, dropped, ⟨sound, ?_, ?_, ?_⟩, ⟨?_, ?_⟩, rfl, rfl⟩
  · simp [withPending, put]
  · intro row member
    exact notPending _ (mem_changes_read.mp member).1
  · intro row member
    obtain ⟨member, -, -⟩ := mem_changes_read.mp member
    rw [read_withPending, if_neg (notPending _ member)]
    exact cellOf _ _ member
  · intro row member
    exact (mem_changes_read.mp member).2.1.symm
  · intro key placed other unlisted
    rw [read_withPending, if_neg other]
    by_cases changed : key ∈ (lastWrites writes).map Prod.fst
    · obtain ⟨⟨key, cell⟩, member, rfl⟩ := List.mem_map.mp changed
      rw [cellOf key cell member]
      by_contra differs
      apply unlisted
      refine List.mem_map.mpr ⟨⟨key, retired.read key, cell⟩, ?_, rfl⟩
      exact mem_changes_read.mpr ⟨member, rfl, Ne.symm differs⟩
    · rw [read key placed, ← alike, writeAll_of_notMem changed]

end AuxIndex
end LiteNode
