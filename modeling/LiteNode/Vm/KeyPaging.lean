import LiteNode.Vm.Checkpoints
import LiteNode.Vm.TextPage

/-!
# Paging through keys

A page writes the first suffixes that go on after a text to memory and returns
the last of them if there are more. Both ways in which a page is written write
the same cells, and page after page all suffixes are visited, each once and in
their order.
-/

namespace LiteNode
namespace Vm

open TextWork (selects)

section Suffixes

variable {storage : Table Bytes Bytes} {pref after : Bytes}

theorem mem_suffixesOf {suffix : Bytes} :
    suffix ∈ suffixesOf storage pref after ↔
      (storage.mem (pref ++ suffix) = true ∧ isReservedKey (pref ++ suffix) = false) ∧
        (after = [] ∨ after < suffix) := by
  unfold suffixesOf storedKeys
  simp only [mem_sortByKey, List.mem_filter, List.mem_map, Bool.and_eq_true,
    Bool.not_eq_true', Bool.or_eq_true, decide_eq_true_eq, Prod.exists,
    exists_and_right, exists_eq_right, Table.mem_toList]
  constructor
  · rintro ⟨⟨key, ⟨⟨value, found⟩, free, starts⟩, rfl⟩, later⟩
    obtain ⟨rest, rfl⟩ := List.isPrefixOf_iff_prefix.mp starts
    rw [List.drop_left] at later ⊢
    exact ⟨⟨Option.isSome_iff_exists.mpr ⟨value, found⟩, free⟩, later⟩
  · rintro ⟨⟨stored, free⟩, later⟩
    obtain ⟨value, found⟩ := Option.isSome_iff_exists.mp stored
    refine ⟨⟨pref ++ suffix, ⟨⟨value, found⟩, free, ?_⟩, ?_⟩, later⟩
    · exact List.isPrefixOf_iff_prefix.mpr (List.prefix_append pref suffix)
    · exact List.drop_left

/-- Suffixes are listed in increasing order. -/
theorem pairwise_suffixesOf (storage : Table Bytes Bytes) (pref after : Bytes) :
    (suffixesOf storage pref after).Pairwise (· < ·) := by
  have distinct : (suffixesOf storage pref after).Nodup := by
    unfold suffixesOf
    rw [(sortByKey_perm id _).nodup_iff]
    apply List.Nodup.filter
    have keys : ((storedKeys storage).filter fun key =>
        !isReservedKey key && pref.isPrefixOf key).Nodup :=
      (Table.nodup_keys storage).filter _
    refine keys.map_on ?_
    intro key listed other listed' same
    have starts := (List.mem_filter.mp listed).2
    have starts' := (List.mem_filter.mp listed').2
    rw [Bool.and_eq_true] at starts starts'
    obtain ⟨rest, rfl⟩ := List.isPrefixOf_iff_prefix.mp starts.2
    obtain ⟨rest', rfl⟩ := List.isPrefixOf_iff_prefix.mp starts'.2
    rw [List.drop_left, List.drop_left] at same
    rw [same]
  refine ((sortByKey_pairwise id _).and distinct).imp ?_
  rintro left right ⟨below, different⟩
  exact lt_of_le_of_ne below different

/-- What goes on after the last suffix of a page is what the page left. -/
theorem suffixesOf_next {count : Nat} {last : Bytes}
    (here : (suffixesOf storage pref after)[count]? = some last) (nonempty : last ≠ []) :
    suffixesOf storage pref last = (suffixesOf storage pref after).drop (count + 1) := by
  have increasing := pairwise_suffixesOf storage pref after
  obtain ⟨inside, rfl⟩ := List.getElem?_eq_some_iff.mp here
  have listed := mem_suffixesOf.mp (List.getElem_mem inside)
  refine @List.Perm.eq_of_pairwise _ (· < ·) _ _ ?_
    (pairwise_suffixesOf storage pref _)
    (increasing.sublist (List.drop_sublist _ _)) ?_
  · exact fun _ _ _ _ below above => absurd below above.asymm
  refine (List.perm_ext_iff_of_nodup
    ((pairwise_suffixesOf storage pref _).imp ne_of_lt)
    ((increasing.sublist (List.drop_sublist _ _)).imp ne_of_lt)).mpr ?_
  intro suffix
  constructor
  · intro present
    obtain ⟨own, later⟩ := mem_suffixesOf.mp present
    have above := later.resolve_left nonempty
    have former : suffix ∈ suffixesOf storage pref after :=
      mem_suffixesOf.mpr ⟨own, listed.2.imp id fun before => before.trans above⟩
    rw [← List.take_append_drop (count + 1) (suffixesOf storage pref after)] at former
    rcases List.mem_append.mp former with early | late
    · obtain ⟨index, small, rfl⟩ := List.getElem_of_mem early
      rw [List.length_take] at small
      rw [List.getElem_take] at above
      rcases Nat.lt_or_eq_of_le (show index ≤ count by omega) with less | same
      · exact absurd above
          (List.pairwise_iff_getElem.mp increasing index count (by omega) inside less).asymm
      · subst same
        exact absurd above (lt_irrefl _)
    · exact late
  · intro late
    obtain ⟨index, small, rfl⟩ := List.getElem_of_mem late
    rw [List.length_drop] at small
    have within : count + 1 + index < (suffixesOf storage pref after).length := by omega
    rw [List.getElem_drop]
    have own := mem_suffixesOf.mp (List.getElem_mem within)
    refine mem_suffixesOf.mpr ⟨own.1, Or.inr ?_⟩
    exact List.pairwise_iff_getElem.mp increasing count (count + 1 + index)
      inside (by omega) (by omega)

end Suffixes

/-- A state in which values were written to memory from a cell on. -/
def State.grown (st : State) (base : Int) : List Value → State
  | [] => st
  | value :: rest =>
    State.grown
      { st with memory := st.memory.replace base value, memorySize := max st.memorySize (base + 1) }
      (base + 1) rest

section Grown

variable {env : Env} {scope : Scope}

theorem growCells_run (base : Int) (values : List Value) (st : State) :
    (growCells base values : Exec env scope Unit).run st = (.ok (), st.grown base values) := by
  induction values generalizing base st with
  | nil => rfl
  | cons value rest ih =>
    rw [growCells, Chained.run_bind]
    exact ih (base + 1) _

theorem regs_grown (st : State) (base : Int) (values : List Value) :
    (st.grown base values).regs = st.regs := by
  induction values generalizing st base with
  | nil => rfl
  | cons value rest ih => exact ih _ _

theorem storage_grown (st : State) (base : Int) (values : List Value) :
    (st.grown base values).storage = st.storage := by
  induction values generalizing st base with
  | nil => rfl
  | cons value rest ih => exact ih _ _

theorem Spent.grown {st next : State} (spent : Spent st next) (base : Int) (values : List Value) :
    Spent (st.grown base values) (next.grown base values) := by
  induction values generalizing st next base with
  | nil => exact spent
  | cons value rest ih =>
    apply ih
    rw [spent]
    rfl

theorem find?_grown_of_lt
    (st : State) {base cell : Int} (before : cell < base) (values : List Value) :
    (st.grown base values).memory.find? cell = st.memory.find? cell := by
  induction values generalizing st base with
  | nil => rfl
  | cons value rest ih =>
    rw [State.grown, ih _ (by omega)]
    exact Table.find?_replace_ne before.ne

/-- The cells that were written hold the values. -/
theorem find?_grown (st : State) (base : Int) {values : List Value} {index : Nat}
    (inside : index < values.length) :
    (st.grown base values).memory.find? (base + index) = some values[index] := by
  induction values generalizing st base index with
  | nil => cases inside
  | cons value rest ih =>
    cases index with
    | zero =>
      rw [State.grown, find?_grown_of_lt _ (by omega)]
      simp
    | succ index =>
      have later := ih
        { st with memory := st.memory.replace base value,
                  memorySize := max st.memorySize (base + 1) }
        (base + 1) (Nat.lt_of_succ_lt_succ inside)
      rw [State.grown, show base + ((index + 1 : Nat) : Int) = base + 1 + index by omega, later]
      rfl

end Grown

/-! ## What a page holds -/

/-- Number of suffixes for which a page has room, after some. -/
def pageRoom (base : Int) (count : Nat) : Nat :=
  if 0 ≤ base + count then min (maxKeys - count) (memoryMax - (base + count)).toNat
  else 0

theorem pageRoom_succ {base : Int} {count : Nat}
    (fits : count < maxKeys ∧ 0 ≤ base + count ∧ base + count < memoryMax) :
    pageRoom base count = pageRoom base (count + 1) + 1 := by
  obtain ⟨small, low, high⟩ := fits
  unfold pageRoom
  rw [if_pos low, if_pos (by omega)]
  omega

theorem pageRoom_full {base : Int} {count : Nat}
    (full : ¬(count < maxKeys ∧ 0 ≤ base + count ∧ base + count < memoryMax)) :
    pageRoom base count = 0 := by
  unfold pageRoom
  split
  · next low =>
    by_cases small : count < maxKeys
    · have high : ¬ base + count < memoryMax := fun high => full ⟨small, low, high⟩
      omega
    · omega
  · rfl

def onPage (storage : Table Bytes Bytes) (pref after : Bytes) (base : Int) : List Bytes :=
  (suffixesOf storage pref after).take (pageRoom base 0)

/-- A page was written: its suffixes, how many they are, and the last of them
if there are more. -/
structure Paged (storage : Table Bytes Bytes) (pref after : Bytes) (base : Int)
    (st : State) (page : Nat × Bytes) (next : State) : Prop where
  count : page.1 = (onPage storage pref after base).length
  last : page.2 =
    if (onPage storage pref after base).length < (suffixesOf storage pref after).length then
      (onPage storage pref after base).getLastD []
    else []
  cells : Spent (st.grown base ((onPage storage pref after base).map .vString)) next

section Pages

variable {env : Env} {scope : Scope}

theorem Quiet.run_spent {x : Exec env scope α} (quiet : Quiet x) {st next : State}
    {result : Except (Stop scope) α} (ran : x.run st = (result, next)) : Spent st next := by
  have spent := quiet.spent st
  rwa [ran] at spent

variable {page : Nat × Bytes}

theorem writeSuffixes_spec {base : Int} {count : Nat} {last : Bytes} {rest : List Bytes}
    {st next : State} (ran : (writeSuffixes env base count last rest :
      Exec env scope (Option (Nat × Bytes))).run st = (.ok (some page), next)) :
    page.1 = count + (rest.take (pageRoom base count)).length ∧
      page.2 = (rest.take (pageRoom base count)).getLastD last ∧
      Spent (st.grown (base + count) ((rest.take (pageRoom base count)).map .vString)) next := by
  induction rest generalizing count last st with
  | nil =>
    cases ran
    rw [List.take_nil]
    exact ⟨rfl, rfl, Spent.refl _⟩
  | cons suffix rest ih =>
    rw [writeSuffixes] at ran
    split at ran
    · next fits =>
      obtain ⟨charged, paid, charging, ran⟩ := Chained.run_bind_ok ran
      cases charged with
      | false => cases ran
      | true =>
        have spent := (addDynEffort_quiet 5).run_spent charging
        rw [if_pos rfl] at ran
        obtain ⟨_, _, ⟨⟩, ran⟩ := Chained.run_bind_ok ran
        obtain ⟨counted, ended, cells⟩ := ih ran
        rw [pageRoom_succ fits, List.take_succ_cons]
        refine ⟨?_, ?_, ?_⟩
        · rw [counted, List.length_cons]
          omega
        · rw [ended, List.getLastD_cons]
        · rw [show base + ((count + 1 : Nat) : Int) = base + count + 1 by
            omega] at cells
          exact ((spent.grown (base + count) [.vString suffix]).grown _ _).trans cells
    · next full =>
      obtain ⟨counted, ended, cells⟩ := ih ran
      rw [pageRoom_full full] at counted ended cells ⊢
      exact ⟨counted, ended, cells⟩

theorem length_suffixesOf_le (storage : Table Bytes Bytes) (pref after : Bytes) :
    (suffixesOf storage pref after).length ≤ storage.length := by
  unfold suffixesOf
  rw [length_sortByKey]
  refine (List.length_filter_le _ _).trans ?_
  rw [List.length_map]
  refine (List.length_filter_le _ _).trans (le_of_eq ?_)
  unfold storedKeys
  rw [List.length_map]
  rfl

theorem measureKeys_quiet
    (requests : Int → List ByteWork.Request) (total : Int) (keys : List Bytes) :
    Quiet (measureKeys env requests total keys : Exec env scope (Option Int)) := by
  induction keys generalizing total with
  | nil => exact (fits_quiet _ _).ifM (Quiet.pure _) (Quiet.pure _)
  | cons key rest ih => exact (fits_quiet _ _).ifM ((Quiet.pure _).ite (ih _)) (Quiet.pure _)

/-- The page that the budget pays for. -/
theorem copyKeyPage_spec {pref after : Bytes} {base : Int} {st next : State}
    (ran : (copyKeyPage env pref after base :
      Exec env scope (Option (Nat × Bytes))).run st = (.ok (some page), next)) :
    Paged st.storage pref after base st page next := by
  rw [copyKeyPage] at ran
  split at ran
  · next outside =>
    cases ran
    have none : onPage st.storage pref after base = [] := by
      have room : pageRoom base 0 = 0 := by
        unfold pageRoom
        split
        · have high : memoryMax ≤ base := outside.resolve_left (by omega)
          omega
        · rfl
      rw [onPage, room, List.take_zero]
    constructor
    · rw [none]
      rfl
    · rw [none]
      split <;> rfl
    · rw [none]
      exact Spent.refl _
  · next inside =>
    have room : pageRoom base 0 = min maxKeys (memoryMax - base).toNat := by
      unfold pageRoom
      rw [if_pos (by omega)]
      simp
    obtain ⟨_, _, ⟨⟩, ran⟩ := Chained.run_bind_ok ran
    obtain ⟨scanned, measured, measuring, ran⟩ := Chained.run_bind_ok ran
    have spent := (measureKeys_quiet _ _ _).run_spent measuring
    split at ran
    · cases ran
    obtain ⟨charged, paid, charging, ran⟩ := Chained.run_bind_ok ran
    have spent' := (chargeBytes_quiet _ _ _).run_spent charging
    cases charged with
    | false => cases ran
    | true =>
    rw [if_pos rfl] at ran
    obtain ⟨copied, settled, copying, ran⟩ := Chained.run_bind_ok ran
    have spent'' := (chargeBytes_quiet _ _ _).run_spent copying
    cases copied with
    | false => cases ran
    | true =>
    rw [if_pos rfl] at ran
    obtain ⟨_, _, grew, ran⟩ := Chained.run_bind_ok ran
    rw [growCells_run] at grew
    cases grew
    cases ran
    have short := length_suffixesOf_le st.storage pref after
    have taken : ((suffixesOf st.storage pref after).take
        (min (min maxKeys (memoryMax - base).toNat + 1)
          st.storage.length)).take (min maxKeys (memoryMax - base).toNat) =
        onPage st.storage pref after base := by
      unfold onPage
      rw [room, List.take_take, List.take_eq_take_iff]
      omega
    have size : (onPage st.storage pref after base).length =
        min (min maxKeys (memoryMax - base).toNat) (suffixesOf st.storage pref after).length := by
      unfold onPage
      rw [room, List.length_take]
    constructor
    · rw [taken]
    · dsimp only
      rw [taken, List.length_take, size]
      congr 1
      rw [eq_iff_iff]
      omega
    · rw [taken]
      exact ((spent.trans spent').trans spent'').grown _ _

theorem getZ_ok {r : Reg} {z : Int} {st next : State}
    (got : (getZ env r : Exec env scope Int).run st = (.ok z, next)) :
    next = st ∧ ∃ v, 0 ≤ r ∧ st.regs[r.toNat]? = some v ∧ toZ env v = z := by
  obtain ⟨v, after, read, ended⟩ := Chained.run_bind_ok got
  obtain ⟨rfl, nonneg, held⟩ := getr_ok read
  cases ended
  exact ⟨rfl, v, nonneg, held, rfl⟩

/-- Both ways of writing a page write the same one. -/
theorem keyPage_spec {pref after : Bytes} {rsBase : Reg} {st next : State}
    (ran : (keyPage env pref after rsBase :
      Exec env scope (Option (Nat × Bytes))).run st = (.ok (some page), next)) :
    ∃ v, 0 ≤ rsBase ∧ st.regs[rsBase.toNat]? = some v ∧
      Paged st.storage pref after (toZ env v) st page next := by
  rw [keyPage] at ran
  obtain ⟨paying, _, bounding, body⟩ := Chained.run_bind_ok ran
  obtain ⟨_, _, ⟨⟩, bounded⟩ := Chained.run_bind_ok bounding
  cases bounded
  split at body
  · obtain ⟨number, _, reading, copied⟩ := Chained.run_bind_ok body
    obtain ⟨z, _, got, fitting⟩ := Chained.run_bind_ok reading
    obtain ⟨rfl, v, nonneg, held, rfl⟩ := getZ_ok got
    cases fitting
    split at copied
    · cases copied
    · next base fits =>
      split at fits
      · cases fits
        exact ⟨v, nonneg, held, copyKeyPage_spec copied⟩
      · cases fits
  · obtain ⟨base, _, reading, listed⟩ := Chained.run_bind_ok body
    obtain ⟨z, _, got, fitting⟩ := Chained.run_bind_ok reading
    obtain ⟨rfl, v, nonneg, held, rfl⟩ := getZ_ok got
    rw [toInt] at fitting
    split at fitting
    · cases fitting
      obtain ⟨_, _, ⟨⟩, wrote⟩ := Chained.run_bind_ok listed
      obtain ⟨written, grown, writing, ended⟩ := Chained.run_bind_ok wrote
      split at ended
      · cases ended
      · next count last =>
        cases ended
        obtain ⟨counted, final', cells⟩ := writeSuffixes_spec writing
        simp only [Nat.zero_add, Int.natCast_zero, Int.add_zero] at counted final' cells
        refine ⟨v, nonneg, held, counted, ?_, cells⟩
        rw [counted, final']
        rfl
    · cases fitting

end Pages

/-- A register holds a value. -/
def Holds (st : State) (r : Reg) (v : Value) : Prop := 0 ≤ r ∧ st.regs[r.toNat]? = some v

section Instruction

variable {env : Env} {scope : Scope}

theorem Holds.unique {st : State} {r : Reg} {v w : Value}
    (first : Holds st r v) (second : Holds st r w) : v = w :=
  Option.some.inj (first.2.symm.trans second.2)

theorem getr_holds {r : Reg} {v : Value} {st next : State}
    (got : (getr r : Exec env scope Value).run st = (.ok v, next)) :
    next = st ∧ Holds st r v := by
  obtain ⟨same, nonneg, held⟩ := getr_ok got
  exact ⟨same, nonneg, held⟩

/-- What setting a register does. -/
theorem setr_ok {r : Reg} {v : Value} {done : Unit} {st next : State}
    (ran : (setr r v : Exec env scope Unit).run st = (.ok done, next)) :
    next = { st with regs := next.regs } ∧ Holds next r v ∧
      ∀ other w, other ≠ r → (Holds next other w ↔ Holds st other w) := by
  rw [setr] at ran
  split at ran
  · next inside =>
    cases ran
    refine ⟨rfl, ⟨inside.1, ?_⟩, ?_⟩
    · simp [inside.2]
    · intro other w different
      refine and_congr_right fun nonneg => ?_
      have apart : r.toNat ≠ other.toNat := by
        intro same
        apply different
        rw [← Int.toNat_of_nonneg nonneg, ← same]
        exact Int.toNat_of_nonneg inside.1
      rw [Vector.getElem?_set_ne _ apart]
  · cases ran

theorem execOne_spec {async : Bool} {op : Instr} {st next : State}
    (ran : (execOne env async op).run st = (.ok true, next)) :
    ∃ ready, Spent st ready ∧ (perform env async op).run ready = (.ok true, next) := by
  rw [execOne_eq] at ran
  obtain ⟨admitted, ready, admitting, performed⟩ := Chained.run_bind_ok ran
  cases admitted with
  | false => cases performed
  | true => exact ⟨ready, (admission_quiet op).run_spent admitting, performed⟩

/-- What a page that was written leaves in registers and in memory. -/
theorem skeysPage_spec {rdCount rdNext rsPrefix rsAfter rsBase : Reg} {st next : State}
    (ran : (skeysPage env rdCount rdNext rsPrefix rsAfter rsBase :
      Exec env scope Bool).run st = (.ok true, next)) :
    ∃ pref after base page written,
      Holds st rsPrefix pref ∧ Holds st rsAfter after ∧ Holds st rsBase base ∧
      Paged st.storage pref.toString after.toString (toZ env base) st page written ∧
      next = { written with regs := next.regs } ∧ Holds next rdNext (.vString page.2) ∧
      (rdCount ≠ rdNext → Holds next rdCount (.vInt page.1)) ∧
      ∀ r v, r ≠ rdCount → r ≠ rdNext → (Holds next r v ↔ Holds st r v) := by
  rw [skeysPage] at ran
  obtain ⟨pref, _, got, body⟩ := Chained.run_bind_ok ran
  obtain ⟨rfl, holdsPref⟩ := getr_holds got
  obtain ⟨after, _, got', body'⟩ := Chained.run_bind_ok body
  obtain ⟨rfl, holdsAfter⟩ := getr_holds got'
  obtain ⟨page?, written, wrote, ended⟩ := Chained.run_bind_ok body'
  split at ended
  · cases ended
  · next count last =>
    obtain ⟨base, nonneg, held, paged⟩ := keyPage_spec wrote
    obtain ⟨_, middle, first, second⟩ := Chained.run_bind_ok ended
    obtain ⟨_, final', third, closed⟩ := Chained.run_bind_ok second
    cases closed
    obtain ⟨same, own, others⟩ := setr_ok first
    obtain ⟨same', own', others'⟩ := setr_ok third
    refine ⟨pref, after, base, (count, last), written, holdsPref, holdsAfter,
      ⟨nonneg, held⟩, paged, ?_, own', ?_, ?_⟩
    · rw [same', same]
    · intro different
      exact (others' _ _ different).mpr own
    · intro r v notCount notNext
      rw [others' r v notNext, others r v notCount]
      unfold Holds
      rw [paged.cells.regs, regs_grown]

/-- Pages that are paid by their bytes and by their number are the same, and so
are the cells that they leave. -/
theorem keyPage_agrees {pref after : Bytes} {rsBase : Reg} {st other next next' : State}
    {page page' : Nat × Bytes} (same : Spent st other) (ran : (keyPage env pref after rsBase :
      Exec env scope (Option (Nat × Bytes))).run st = (.ok (some page), next))
    (ran' : (keyPage env pref after rsBase :
      Exec env scope (Option (Nat × Bytes))).run other = (.ok (some page'), next')) :
    page' = page ∧ Spent next next' := by
  obtain ⟨base, nonneg, held, paged⟩ := keyPage_spec ran
  obtain ⟨base', _, held', paged'⟩ := keyPage_spec ran'
  rw [same.regs, held] at held'
  cases held'
  rw [same.sameBooks.storage] at paged'
  refine ⟨Prod.ext ?_ ?_, ?_⟩
  · rw [paged.count, paged'.count]
  · rw [paged.last, paged'.last]
  · exact (paged.cells.symm.trans (same.grown _ _)).trans paged'.cells

end Instruction

/-- Registers of a program that pages through the keys of a prefix. -/
structure PageRegs where
  count : Reg
  next : Reg
  pref : Reg
  after : Reg
  base : Reg

/-- No register that is set is one that is still needed. -/
structure PageRegs.Apart (regs : PageRegs) : Prop where
  results : regs.count ≠ regs.next
  pref : regs.pref ∉ [regs.count, regs.next, regs.after]
  base : regs.base ∉ [regs.count, regs.next, regs.after]

def PageRegs.instr (regs : PageRegs) : Instr :=
  .skeysPage regs.count regs.next regs.pref regs.after regs.base

/-- How paging ends: an instruction was refused, or more pages are left, or
all pages were visited. -/
inductive Paging
  | refused
  | unfinished
  | finished (pages : List (List (Option Value)))

section Paging

variable (env : Env) (async : Bool) (regs : PageRegs)

def nextPage : Exec env .plain Bool := execOne env async regs.instr

/-- The cells of the last page, and the text to go on after. -/
def readPage : Exec env .plain (List (Option Value) × Bytes) := do
  let count ← getZ env regs.count
  let next ← getr regs.next
  let base ← getZ env regs.base
  let st ← read
  return ((List.range count.toNat).map fun (index : Nat) =>
    st.memory.find? (base + index), next.toString)

def visitPage (after : Bytes) : Exec env .plain (Option (List (Option Value) × Bytes)) := do
  setr regs.after (.vString after)
  if ← nextPage env async regs then return some (← readPage env regs)
  else return none

/-- Visit pages, a number of them at most, from a text on until the text to go
on after is empty. -/
def visitPages : Nat → Bytes → Exec env .plain Paging
  | 0, _ => return .unfinished
  | fuel + 1, after => do
    match ← visitPage env async regs after with
    | none => return .refused
    | some (page, next) =>
      if next = [] then return .finished [page]
      else
        match ← visitPages fuel next with
        | .finished pages => return .finished (page :: pages)
        | stopped => return stopped

end Paging

/-- A page of keys is shown by cells that hold their texts. -/
def shown (suffixes : List Bytes) : List (Option Value) :=
  suffixes.map fun suffix => some (.vString suffix)

section Visited

variable {env : Env} {async : Bool} {regs : PageRegs}
variable {pref base : Value}

variable {st final' : State}

/-- The cells of a page that was written show its suffixes. -/
theorem Paged.shown {storage : Table Bytes Bytes} {text after : Bytes} {cell : Int}
    {next : State} {page : Nat × Bytes} (paged : Paged storage text after cell st page next) :
    ((List.range page.1).map fun (index : Nat) =>
        next.memory.find? (cell + index)) =
      shown (onPage storage text after cell) := by
  rw [paged.cells.memory, paged.count]
  apply List.ext_getElem
  · simp [Vm.shown]
  · intro index inside _
    rw [List.length_map, List.length_range] at inside
    simp only [List.getElem_map, List.getElem_range, Vm.shown]
    rw [find?_grown _ _ (by simpa using inside), List.getElem_map]

/-- What is known after a page was visited. -/
structure Visited (env : Env) (regs : PageRegs) (pref base : Value)
    (st : State) (after : Bytes) (cells : List (Option Value)) (next : Bytes)
    (final' : State) : Prop where
  shown : cells = shown (onPage st.storage pref.toString after (toZ env base))
  next : next =
    if (onPage st.storage pref.toString after (toZ env base)).length <
        (suffixesOf st.storage pref.toString after).length then
      (onPage st.storage pref.toString after (toZ env base)).getLastD []
    else []
  storage : final'.storage = st.storage
  pref : Holds final' regs.pref pref
  base : Holds final' regs.base base

theorem readPage_run {count : Nat} {next : Bytes} (atCount : Holds st regs.count (.vInt count))
    (atNext : Holds st regs.next (.vString next)) (atBase : Holds st regs.base base) :
    (readPage env regs).run st =
      (.ok ((List.range count).map fun (index : Nat) =>
        st.memory.find? (toZ env base + index), next), st) := by
  unfold readPage getZ
  simp only [Chained.run_bind, Chained.run_pure, Chained.run_read,
    getr_run atCount.1 atCount.2, getr_run atNext.1 atNext.2, getr_run atBase.1 atBase.2]
  rfl

/-- The operands are in their registers. -/
structure Operands (regs : PageRegs) (st : State) (pref : Value)
    (after : Bytes) (base : Value) : Prop where
  atPref : Holds st regs.pref pref
  atAfter : Holds st regs.after (.vString after)
  atBase : Holds st regs.base base

theorem Operands.spent {after : Bytes} {next : State}
    (operands : Operands regs st pref after base) (spent : Spent st next) :
    Operands regs next pref after base := by
  obtain ⟨atPref, atAfter, atBase⟩ := operands
  unfold Holds at atPref atAfter atBase
  rw [← spent.regs] at atPref atAfter atBase
  exact ⟨atPref, atAfter, atBase⟩

theorem operands_of_setr (apart : regs.Apart) {after : Bytes} {done : Unit} {started : State}
    (holdsPref : Holds st regs.pref pref) (holdsBase : Holds st regs.base base)
    (setting : (setr regs.after (.vString after) : Exec env .plain Unit).run st =
      (.ok done, started)) :
    started = { st with regs := started.regs } ∧ Operands regs started pref after base := by
  have prefApart := apart.pref
  have baseApart := apart.base
  simp only [List.mem_cons, List.not_mem_nil, or_false, not_or] at prefApart baseApart
  obtain ⟨same, own, others⟩ := setr_ok setting
  exact ⟨same, (others _ _ prefApart.2.2).mpr holdsPref, own,
    (others _ _ baseApart.2.2).mpr holdsBase⟩

theorem readPage_visited (apart : regs.Apart) {after : Bytes} {started : State}
    (stored : started.storage = st.storage) (operands : Operands regs started pref after base)
    (executed : (nextPage env async regs).run started = (.ok true, final')) :
    ∃ cells next, (readPage env regs).run final' = (.ok (cells, next), final') ∧
      Visited env regs pref base st after cells next final' := by
  have prefApart := apart.pref
  have baseApart := apart.base
  simp only [List.mem_cons, List.not_mem_nil, or_false, not_or] at prefApart baseApart
  obtain ⟨ready, spent, performed⟩ := execOne_spec executed
  have held := operands.spent spent
  obtain ⟨pref', after', base', page, written, atPref, atAfter, atBase, paged,
    kept, atNext, atCount, others⟩ := skeysPage_spec performed
  cases atPref.unique held.atPref
  cases atBase.unique held.atBase
  cases atAfter.unique held.atAfter
  rw [spent.sameBooks.storage, stored] at paged
  have atBase' := (others _ _ baseApart.1 baseApart.2.1).mpr held.atBase
  refine ⟨_, _, readPage_run (atCount apart.results) atNext atBase',
    ?_, paged.last, ?_, ?_, atBase'⟩
  · refine Eq.trans ?_ paged.shown
    rw [kept]
  · rw [kept]
    refine (paged.cells.sameBooks.storage.trans (storage_grown _ _ _)).trans ?_
    rw [spent.sameBooks.storage, stored]
  · exact (others _ _ prefApart.1 prefApart.2.1).mpr held.atPref

theorem visitPage_spec (apart : regs.Apart) {after : Bytes}
    {cells : List (Option Value)} {next : Bytes}
    (holdsPref : Holds st regs.pref pref) (holdsBase : Holds st regs.base base)
    (ran : (visitPage env async regs after).run st = (.ok (some (cells, next)), final')) :
    Visited env regs pref base st after cells next final' := by
  rw [visitPage] at ran
  obtain ⟨_, started, setting, body⟩ := Chained.run_bind_ok ran
  obtain ⟨same, operands⟩ := operands_of_setr apart holdsPref holdsBase setting
  obtain ⟨done, _, executed, rest⟩ := Chained.run_bind_ok body
  cases done with
  | false => cases rest
  | true =>
    rw [if_pos rfl] at rest
    obtain ⟨cells', next', found, visited⟩ := @readPage_visited
      _ _ _ _ _ st _ apart _ _ (by rw [same]) operands executed
    rw [Chained.run_bind, found] at rest
    cases rest
    exact visited

variable {storage : Table Bytes Bytes} {text after : Bytes} {cell : Int}

/-- A page has room for a cell at least, and its last suffix is not empty. -/
structure Roomy (storage : Table Bytes Bytes) (text : Bytes) (cell : Int) : Prop where
  low : 0 ≤ cell
  high : cell < memoryMax
  last : cell + 1 = memoryMax → [] ∉ suffixesOf storage text []

theorem Roomy.room (roomy : Roomy storage text cell) :
    pageRoom cell 0 = min maxKeys (memoryMax - cell).toNat := by
  have low := roomy.low
  unfold pageRoom
  rw [if_pos (by omega)]
  simp

theorem mem_suffixesOf_start {suffix : Bytes} (listed : suffix ∈ suffixesOf storage text after) :
    suffix ∈ suffixesOf storage text [] :=
  mem_suffixesOf.mpr ⟨(mem_suffixesOf.mp listed).1, Or.inl rfl⟩

/-- After a page that leaves some suffixes the remaining ones follow. -/
theorem Roomy.next (roomy : Roomy storage text cell)
    (more : (onPage storage text after cell).length < (suffixesOf storage text after).length) :
    (onPage storage text after cell).getLastD [] ≠ [] ∧
      0 < (onPage storage text after cell).length ∧
      suffixesOf storage text ((onPage storage text after cell).getLastD []) =
        (suffixesOf storage text after).drop (onPage storage text after cell).length := by
  have room := roomy.room
  have high := roomy.high
  have size : (onPage storage text after cell).length = pageRoom cell 0 := by
    unfold onPage at more ⊢
    rw [List.length_take] at more ⊢
    omega
  have some' : 0 < pageRoom cell 0 := by
    rw [room]
    unfold maxKeys
    omega
  have inside : pageRoom cell 0 - 1 < (suffixesOf storage text after).length := by omega
  have last : (onPage storage text after cell).getLastD [] =
      (suffixesOf storage text after)[pageRoom cell 0 - 1] := by
    rw [List.getLastD_eq_getLast?, List.getLast?_eq_getElem?, size]
    unfold onPage
    rw [List.getElem?_take_of_lt (by omega), List.getElem?_eq_getElem inside]
    rfl
  have nonempty : (suffixesOf storage text after)[pageRoom cell 0 - 1] ≠ [] := by
    rcases Nat.lt_or_eq_of_le some' with several | single
    · have above := List.pairwise_iff_getElem.mp
        (pairwise_suffixesOf storage text after) 0 (pageRoom cell 0 - 1)
        (by omega) inside (by omega)
      intro empty
      rw [empty] at above
      exact List.not_lt_nil _ above
    · have only : cell + 1 = memoryMax := by
        rw [room] at single
        unfold maxKeys at single
        omega
      have listed := mem_suffixesOf_start (List.getElem_mem inside)
      intro empty
      rw [empty] at listed
      exact roomy.last only listed
  rw [last, size]
  refine ⟨nonempty, some', ?_⟩
  have here : (suffixesOf storage text after)[pageRoom cell 0 - 1]? =
      some (suffixesOf storage text after)[pageRoom cell 0 - 1] :=
    List.getElem?_eq_getElem inside
  rw [suffixesOf_next here nonempty, Nat.sub_add_cancel some']

theorem length_onPage_le (storage : Table Bytes Bytes) (text after : Bytes)
    (cell : Int) : (onPage storage text after cell).length ≤ maxKeys := by
  unfold onPage pageRoom
  rw [List.length_take]
  split
  · omega
  · exact (min_le_left _ _).trans (Nat.zero_le _)

/-- A page is what the suffixes start with. -/
theorem onPage_append_drop (storage : Table Bytes Bytes) (text after : Bytes) (cell : Int) :
    onPage storage text after cell ++
        (suffixesOf storage text after).drop (onPage storage text after cell).length =
      suffixesOf storage text after :=
  List.prefix_iff_eq_append.mp (List.take_prefix _ _)

/-- Page after page all suffixes are visited, unless one is refused. -/
theorem visitPages_spec (apart : regs.Apart) {fuel : Nat} {stopped : Paging}
    (holdsPref : Holds st regs.pref pref) (holdsBase : Holds st regs.base base)
    (roomy : Roomy st.storage pref.toString (toZ env base))
    (enough : (suffixesOf st.storage pref.toString after).length < fuel)
    (ran : (visitPages env async regs fuel after).run st = (.ok stopped, final')) :
    stopped = .refused ∨ ∃ pages, stopped = .finished pages ∧
      pages.flatten = shown (suffixesOf st.storage pref.toString after) ∧
      ∀ page ∈ pages, page.length ≤ maxKeys := by
  induction fuel generalizing after st stopped final' with
  | zero => exact absurd enough (Nat.not_lt_zero _)
  | succ fuel ih =>
    rw [visitPages] at ran
    obtain ⟨visited?, between, visiting, rest⟩ := Chained.run_bind_ok ran
    split at rest
    · cases rest
      exact Or.inl rfl
    · next cells next =>
      have visited := visitPage_spec apart holdsPref holdsBase visiting
      have short : cells.length ≤ maxKeys := by
        rw [visited.shown, Vm.shown, List.length_map]
        exact length_onPage_le _ _ _ _
      by_cases more : (onPage st.storage pref.toString after
          (toZ env base)).length <
        (suffixesOf st.storage pref.toString after).length
      · obtain ⟨nonempty, advanced, following⟩ := roomy.next more
        have following' : next = _ := visited.next.trans (if_pos more)
        rw [← following'] at nonempty following
        rw [if_neg nonempty] at rest
        obtain ⟨later, last, visitingLater, ended⟩ := Chained.run_bind_ok rest
        rw [← visited.storage] at roomy following
        have fewer : (suffixesOf between.storage pref.toString next).length < fuel := by
          rw [following, List.length_drop, visited.storage]
          omega
        rcases ih visited.pref visited.base roomy fewer visitingLater with
          rfl | ⟨pages, rfl, all, small⟩
        · cases ended
          exact Or.inl rfl
        · cases ended
          refine Or.inr ⟨cells :: pages, rfl, ?_, ?_⟩
          · rw [List.flatten_cons, all, following, visited.shown, visited.storage]
            unfold Vm.shown
            rw [← List.map_append, onPage_append_drop]
          · intro page listed
            rcases List.mem_cons.mp listed with rfl | others
            · exact short
            · exact small page others
      · have following : next = _ := visited.next.trans (if_neg more)
        rw [if_pos following] at rest
        cases rest
        refine Or.inr ⟨[cells], rfl, ?_, ?_⟩
        · rw [List.flatten_singleton, visited.shown]
          unfold onPage at more ⊢
          rw [List.length_take] at more
          rw [List.take_of_length_le (by omega)]
        · intro page listed
          cases List.mem_singleton.mp listed
          exact short

end Visited

/-! ## Enough effort -/

/-- An amount can be charged, and no bytes are counted. -/
structure Paid (env : Env) (st : State) (amount : Int) : Prop where
  uncounted : st.budget = none
  nonneg : 0 ≤ st.effortUsed
  enough : st.effortUsed + amount ≤ env.effortLimit

section Enough

variable {env : Env} {scope : Scope}

variable {st : State} {cost amount : Int}

theorem charging_run {quote : State → Option Int} (bounds : ∀ st effort, quote st = some effort →
      st.effortUsed ≤ effort ∧ effort ≤ env.effortLimit) (nonneg : 0 ≤ cost)
    (paid : Paid env st (cost + amount)) (quoted : quote st = some (st.effortUsed + cost)) :
    ∃ next, (charging env quote bounds : Exec env scope Bool).run st =
        (.ok true, next) ∧ Paid env next amount := by
  refine ⟨{ st with effortUsed := st.effortUsed + cost }, ?_, paid.uncounted, ?_, ?_⟩
  · rw [charging, Chained.run_changing, quoted]
  · exact add_nonneg paid.nonneg nonneg
  · exact (add_assoc _ _ _).trans_le paid.enough

theorem addDynEffort_run (nonneg : 0 ≤ cost) (rest : 0 ≤ amount)
    (paid : Paid env st (cost + amount)) :
    ∃ next, (addDynEffort env cost : Exec env scope Bool).run st =
        (.ok true, next) ∧ Paid env next amount := by
  have low := paid.nonneg
  have high := paid.enough
  apply charging_run _ nonneg paid
  unfold Cost.charge
  rw [if_neg (by omega)]

theorem addZEffort_run (nonneg : 0 ≤ cost) (fits : cost ≤ maxInt)
    (rest : 0 ≤ amount) (paid : Paid env st (cost + amount)) :
    ∃ next, (addZEffort env cost : Exec env scope Bool).run st =
        (.ok true, next) ∧ Paid env next amount := by
  have low := paid.nonneg
  have high := paid.enough
  apply charging_run _ nonneg paid
  unfold Cost.chargeZ Cost.intOfNonnegative
  rw [if_neg (by omega), if_neg (by omega), if_neg (by omega)]
  rfl

theorem bounded_run (uncounted : st.budget = none) :
    (bounded : Exec env scope Bool).run st = (.ok false, st) := by
  rw [bounded, Chained.run_bind, Chained.run_read]
  dsimp only
  rw [uncounted]
  rfl

theorem regIs_run {r : Reg} {v : Value} {test : Value → Bool}
    (held : Holds st r v) (passes : test v = true) :
    (regIs test r : Exec env scope Bool).run st = (.ok true, st) := by
  rw [regIs, Chained.run_bind, getr_run held.1 held.2]
  dsimp only
  rw [passes]
  rfl

theorem allOf_run {checks : List (Exec env scope Bool)}
    (pass : ∀ check ∈ checks, check.run st = (.ok true, st)) :
    (allOf checks).run st = (.ok true, st) := by
  induction checks with
  | nil => rfl
  | cons check rest ih =>
    rw [allOf, Chained.run_bind, pass check (List.mem_cons_self ..)]
    dsimp only
    rw [if_pos rfl]
    exact ih fun other listed => pass other (List.mem_cons_of_mem _ listed)

theorem setr_run {r : Reg} (v : Value) (st : State) (inside : 0 ≤ r ∧ r.toNat < 64) :
    ∃ next, (setr r v : Exec env scope Unit).run st = (.ok (), next) := by
  rw [setr, dif_pos inside]
  exact ⟨_, rfl⟩

/-- Kinds that strict mode demands of the prefix and of the base. -/
def Typed (env : Env) (pref base : Value) : Prop :=
  env.strictValues = true → pref.isText = true ∧ base.isNumeric = true

theorem admission_run
    {regs : PageRegs} {pref base : Value} {after : Bytes} (typed : Typed env pref base)
    (operands : Operands regs st pref after base) (rest : 0 ≤ amount)
    (paid : Paid env st (50 + amount)) :
    ∃ next, (admission env regs.instr : Exec env scope Bool).run st =
        (.ok true, next) ∧ Paid env next amount := by
  obtain ⟨next, charging, left⟩ := @addZEffort_run _ scope _ _ _ (by decide) (by decide) rest paid
  refine ⟨next, ?_, left⟩
  have reserved : (reserveNumbers env regs.instr : Exec env scope Bool).run st =
      (.ok true, st) := by
    rw [reserveNumbers, Chained.run_bind, bounded_run paid.uncounted]
    rfl
  have strict : (strictOk env regs.instr : Exec env scope Bool).run st = (.ok true, st) := by
    rw [strictOk]
    split
    · next demanded =>
      obtain ⟨text, numeric⟩ := typed demanded
      apply allOf_run
      intro check listed
      simp only [List.mem_cons, List.not_mem_nil, or_false] at listed
      rcases listed with rfl | rfl | rfl
      · exact regIs_run operands.atPref text
      · exact regIs_run operands.atAfter rfl
      · exact regIs_run operands.atBase numeric
    · rfl
  have sized : (byteInputsOk env regs.instr : Exec env scope Bool).run next = (.ok true, next) := by
    rw [byteInputsOk, Chained.run_bind, Chained.run_read]
    dsimp only
    rw [left.uncounted]
    rfl
  have prepared : (prepareFheWork env regs.instr : Exec env scope Bool).run
      next = (.ok true, next) := by
    rw [prepareFheWork]
    split <;> rfl
  rw [admission, Chained.run_bind, reserved]
  dsimp only
  rw [if_pos rfl, Chained.run_bind, strict]
  dsimp only
  rw [chargedEffort, if_pos rfl, Chained.run_bind]
  change (addZEffort env 50 >>= _ : Exec env scope Bool).run st = _
  rw [Chained.run_bind, charging]
  dsimp only
  rw [if_pos rfl, if_pos rfl, Chained.run_bind, sized]
  dsimp only
  rw [if_pos rfl, prepared]

theorem writeSuffixes_run
    {base : Int} {count : Nat} {last : Bytes} {suffixes : List Bytes} (rest : 0 ≤ amount)
    (paid : Paid env st (5 * (suffixes.take (pageRoom base count)).length + amount)) :
    ∃ page next, (writeSuffixes env base count last suffixes :
        Exec env scope (Option (Nat × Bytes))).run st = (.ok (some page), next) ∧
      Paid env next amount := by
  induction suffixes generalizing count last st with
  | nil =>
    rw [List.take_nil, List.length_nil] at paid
    refine ⟨(count, last), st, rfl, ?_⟩
    simpa using paid
  | cons suffix suffixes ih =>
    rw [writeSuffixes]
    split
    · next fits =>
      have room := pageRoom_succ fits
      rw [room, List.take_succ_cons, List.length_cons] at paid
      have paid' : Paid env st (5 +
          (5 * (suffixes.take (pageRoom base (count + 1))).length + amount)) := by
        convert paid using 1
        push_cast
        omega
      obtain ⟨charged, charging, left⟩ := @addDynEffort_run _ scope _ _ _
        (by decide) (by omega) paid'
      rw [Chained.run_bind, charging]
      dsimp only
      rw [if_pos rfl]
      exact ih ⟨left.uncounted, left.nonneg, left.enough⟩
    · next full =>
      rw [pageRoom_full full, List.take_zero] at paid
      apply ih
      rw [pageRoom_full full, List.take_zero]
      exact paid

theorem keyPage_run {rsBase : Reg} {pref after : Bytes} {base : Value} (held : Holds st rsBase base)
    (low : 0 ≤ toZ env base) (high : toZ env base < memoryMax) (rest : 0 ≤ amount)
    (paid : Paid env st (5 * (onPage st.storage pref after (toZ env base)).length + amount)) :
    ∃ page next, (keyPage env pref after rsBase :
        Exec env scope (Option (Nat × Bytes))).run st = (.ok (some page), next) ∧
      Paid env next amount := by
  have fits : fitsInt (toZ env base) = true := by
    unfold memoryMax at high
    unfold fitsInt minInt maxInt
    apply decide_eq_true
    omega
  have got : (getInt env rsBase : Exec env scope Int).run st = (.ok (toZ env base), st) := by
    rw [getInt, Chained.run_bind, getZ, Chained.run_bind, getr_run held.1 held.2]
    dsimp only
    rw [Chained.run_pure]
    dsimp only
    rw [toInt, if_pos fits]
    rfl
  obtain ⟨⟨count, last⟩, next, wrote, left⟩ :=
    @writeSuffixes_run _ scope _ _ (toZ env base) 0 [] (suffixesOf st.storage pref after) rest paid
  refine ⟨(count, if count < (suffixesOf st.storage pref after).length then last
    else []), next, ?_, left⟩
  rw [keyPage, Chained.run_bind, bounded_run paid.uncounted]
  dsimp only
  rw [if_neg Bool.false_ne_true, Chained.run_bind, got]
  dsimp only
  rw [Chained.run_bind, Chained.run_read]
  dsimp only
  rw [Chained.run_bind, wrote]
  rfl

/-- Registers that are set are registers of the machine. -/
def PageRegs.Inside (regs : PageRegs) : Prop :=
  ∀ r ∈ [regs.count, regs.next, regs.after], 0 ≤ r ∧ r.toNat < 64

variable {async : Bool} {regs : PageRegs} {pref base : Value}

theorem skeysPage_run (inside : regs.Inside) {after : Bytes}
    (operands : Operands regs st pref after base)
    (low : 0 ≤ toZ env base) (high : toZ env base < memoryMax) (rest : 0 ≤ amount)
    (paid : Paid env st (5 * (onPage st.storage pref.toString after
        (toZ env base)).length + amount)) :
    ∃ next, (skeysPage env regs.count regs.next regs.pref regs.after
        regs.base : Exec env scope Bool).run st = (.ok true, next) ∧
      Paid env next amount := by
  obtain ⟨⟨count, last⟩, written, wrote, left⟩ := @keyPage_run _ scope _ _ _ _
    (Value.vString after).toString _ operands.atBase low high rest paid
  obtain ⟨counted, setting⟩ := @setr_run env scope _
    (.vInt count) written (inside regs.count (by simp))
  obtain ⟨next, setting'⟩ := @setr_run env scope _
    (.vString last) counted (inside regs.next (by simp))
  refine ⟨next, ?_, ?_⟩
  · simp only [skeysPage, put, Chained.run_bind, getr_run operands.atPref.1 operands.atPref.2,
      getr_run operands.atAfter.1 operands.atAfter.2, wrote, setting, setting']
    rfl
  · rw [(setr_ok setting').1, (setr_ok setting).1]
    exact ⟨left.uncounted, left.nonneg, left.enough⟩

theorem visitPage_run (apart : regs.Apart) (inside : regs.Inside) (typed : Typed env pref base)
    {after : Bytes} (holdsPref : Holds st regs.pref pref) (holdsBase : Holds st regs.base base)
    (low : 0 ≤ toZ env base) (high : toZ env base < memoryMax) (rest : 0 ≤ amount)
    (paid : Paid env st (50 + (5 * (onPage st.storage pref.toString after
      (toZ env base)).length + amount))) :
    ∃ cells next final', (visitPage env async regs after).run st =
        (.ok (some (cells, next)), final') ∧
      Visited env regs pref base st after cells next final' ∧ Paid env final' amount := by
  obtain ⟨started, setting⟩ := @setr_run env .plain _
    (.vString after) st (inside regs.after (by simp))
  obtain ⟨same, operands⟩ := operands_of_setr apart holdsPref holdsBase setting
  have paid' : Paid env started (50 + (5 * (onPage st.storage pref.toString
      after (toZ env base)).length + amount)) := by
    rw [same]
    exact ⟨paid.uncounted, paid.nonneg, paid.enough⟩
  obtain ⟨ready, admitted, left⟩ := @admission_run _ .plain _ _ _ _ _ _ typed
    operands (by omega) paid'
  have spent := (admission_quiet regs.instr).run_spent admitted
  have stored : ready.storage = st.storage := by rw [spent.sameBooks.storage, same]
  rw [← stored] at left
  obtain ⟨final', performed, left'⟩ := @skeysPage_run _ .plain _ _ _ _ _ inside _
    (operands.spent spent) low high rest left
  have executed : (nextPage env async regs).run started = (.ok true, final') :=
    (execOne_performed admitted).trans performed
  obtain ⟨cells, next, found, visited⟩ := @readPage_visited _ _ _ _ _ st _ apart
    _ _ (by rw [same]) operands executed
  refine ⟨cells, next, final', ?_, visited, left'⟩
  simp only [visitPage, Chained.run_bind, setting, executed, if_true, found]
  rfl

theorem visitPages_run (apart : regs.Apart) (inside : regs.Inside) (typed : Typed env pref base)
    {fuel : Nat} {after : Bytes}
    (holdsPref : Holds st regs.pref pref) (holdsBase : Holds st regs.base base)
    (roomy : Roomy st.storage pref.toString (toZ env base))
    (enough : (suffixesOf st.storage pref.toString after).length < fuel) (paid : Paid env st
      (50 + 55 * (suffixesOf st.storage pref.toString after).length)) :
    ∃ pages final', (visitPages env async regs fuel after).run st =
      (.ok (.finished pages), final') := by
  induction fuel generalizing after st with
  | zero => exact absurd enough (Nat.not_lt_zero _)
  | succ fuel ih =>
    obtain ⟨amount, split⟩ : ∃ amount : Int,
        (55 * (suffixesOf st.storage pref.toString after).length : Int) =
          5 * (onPage st.storage pref.toString after
            (toZ env base)).length + amount := ⟨_, (add_sub_cancel _ _).symm⟩
    have short : (onPage st.storage pref.toString after
        (toZ env base)).length ≤ (suffixesOf st.storage pref.toString after).length := by
      unfold onPage
      rw [List.length_take]
      exact min_le_right _ _
    rw [split] at paid
    obtain ⟨cells, next, between, visiting, visited, left⟩ := @visitPage_run
      _ _ _ async _ _ _ apart inside typed _ holdsPref holdsBase roomy.low
      roomy.high (by omega) paid
    rw [visitPages, Chained.run_bind, visiting]
    dsimp only
    split
    · exact ⟨_, _, rfl⟩
    · next nonempty =>
      have more : (onPage st.storage pref.toString after (toZ env base)).length <
        (suffixesOf st.storage pref.toString after).length := by
        by_contra whole
        exact nonempty (visited.next.trans (if_neg whole))
      obtain ⟨-, advanced, following⟩ := roomy.next more
      have following' : next = _ := visited.next.trans (if_pos more)
      rw [← following', ← visited.storage] at following
      have size := congrArg List.length following
      rw [List.length_drop, visited.storage] at size
      rw [← visited.storage] at roomy
      obtain ⟨pages, final', visitingLater⟩ := @ih
        _ next visited.pref visited.base roomy
        (by rw [visited.storage]; omega)
        ⟨left.uncounted, left.nonneg, by
          have := left.enough
          rw [visited.storage]
          omega⟩
      rw [Chained.run_bind, visitingLater]
      exact ⟨_, _, rfl⟩

end Enough

/-- Pages together show all suffixes in their order, and none is too long. -/
structure PagedThrough (storage : Table Bytes Bytes) (pref : Bytes)
    (pages : List (List (Option Value))) (suffixes : List Bytes) : Prop where
  shown : pages.flatten = shown suffixes
  increasing : suffixes.Pairwise (· < ·)
  all : ∀ suffix, suffix ∈ suffixes ↔
    storage.mem (pref ++ suffix) = true ∧ isReservedKey (pref ++ suffix) = false
  short : ∀ page ∈ pages, page.length ≤ 1000

/-- Page after page all keys of a prefix are visited, each once and in their
order; a page of keys are the least ones whatever the order of the scan, and
it does not depend on how it is paid for. -/
theorem paging_loses_nothing {env : Env} {async : Bool} {regs : PageRegs} {pref base : Value}
    {st : State} (apart : regs.Apart)
    (holdsPref : Holds st regs.pref pref) (holdsBase : Holds st regs.base base)
    (roomy : Roomy st.storage pref.toString (toZ env base)) :
    (∀ fuel, st.storage.length < fuel →
      (∀ stopped final',
        (visitPages env async regs fuel []).run st = (.ok stopped, final') →
          stopped = .refused ∨ ∃ pages suffixes, stopped = .finished pages ∧
            PagedThrough st.storage pref.toString pages suffixes) ∧
      (regs.Inside → Typed env pref base →
        Paid env st (50 + 55 * st.storage.length) →
          ∃ pages suffixes final',
            (visitPages env async regs fuel []).run st = (.ok (.finished pages), final') ∧
            PagedThrough st.storage pref.toString pages suffixes)) ∧
    (∀ (capacity : Int) (keys order : List Bytes) (text after : Bytes),
      0 ≤ capacity → capacity ≤ 1001 → order.Perm keys →
        TextWork.page text after capacity order =
          .ok (TextWork.firstKeys text after capacity.toNat keys)) ∧
    (∀ (capacity : Int) (order : List Bytes) (text after : Bytes),
      0 ≤ capacity → capacity ≤ 1001 → order.Perm (storedKeys st.storage) →
        (TextWork.page text after capacity order).map
            (fun page => page.map (·.drop text.length)) =
          .ok ((suffixesOf st.storage text after).take capacity.toNat)) ∧
    ∀ (text after : Bytes) (other next next' : State) (page page' : Nat × Bytes),
      Spent st other →
      (keyPage env text after regs.base :
        Exec env .plain (Option (Nat × Bytes))).run st = (.ok (some page), next) →
      (keyPage env text after regs.base :
        Exec env .plain (Option (Nat × Bytes))).run other = (.ok (some page'), next') →
      page' = page ∧ next'.memory = next.memory ∧
        next'.memorySize = next.memorySize := by
  have fewer := length_suffixesOf_le st.storage pref.toString []
  have through : ∀ {fuel stopped final'},
      st.storage.length < fuel →
      (visitPages env async regs fuel []).run st = (.ok stopped, final') →
      stopped = .refused ∨ ∃ pages suffixes, stopped = .finished pages ∧
        PagedThrough st.storage pref.toString pages suffixes := by
    intro fuel stopped final' enough ran
    rcases visitPages_spec apart holdsPref holdsBase roomy
        (fewer.trans_lt enough) ran with refused | ⟨pages, ended, all, short⟩
    · exact Or.inl refused
    · refine Or.inr ⟨pages, _, ended, all, pairwise_suffixesOf _ _ _, ?_, short⟩
      intro suffix
      rw [mem_suffixesOf]
      exact and_iff_left (Or.inl rfl)
  refine ⟨?_, ?_, ?_, ?_⟩
  · intro fuel enough
    refine ⟨fun stopped final' ran => through enough ran, ?_⟩
    intro inside typed paid
    obtain ⟨pages, final', ran⟩ := @visitPages_run _ _ async _ _ _ apart inside
      typed _ _ holdsPref holdsBase roomy (fewer.trans_lt enough)
      ⟨paid.uncounted, paid.nonneg, by
        have := paid.enough
        omega⟩
    rcases through enough ran with refused | ⟨_, suffixes, ended, whole⟩
    · cases refused
    · cases ended
      exact ⟨pages, suffixes, final', ran, whole⟩
  · intro capacity keys order text after least most scanned
    rw [TextWork.page_eq least most, TextWork.firstKeys_perm _ _ _ scanned]
  · intro capacity order text after least most scanned
    exact TextWork.page_suffixes least most scanned text after
  · intro text after other next next' page page' same ran ran'
    obtain ⟨equal, spent⟩ := keyPage_agrees same ran ran'
    exact ⟨equal, spent.memory, spent.memorySize⟩

/-- Two keys of a prefix, one of them the prefix itself. -/
def pagedState : State :=
  { createState
      (((∅ : Table Bytes Bytes).replace [97] []).replace [97, 98] [])
      none none with
    regs := (Vector.replicate 64 (.vInt 0)).set 0 (.vString [97]) }

theorem paging_loses_nothing_two_keys :
    ∃ pages suffixes final',
      (visitPages (defaultCtx 1000 []) false ⟨2, 3, 0, 1, 4⟩ 3 []).run
          pagedState = (.ok (.finished pages), final') ∧
        PagedThrough pagedState.storage [97] pages suffixes := by
  have apart : (⟨2, 3, 0, 1, 4⟩ : PageRegs).Apart := ⟨by decide, by decide, by decide⟩
  have inside : (⟨2, 3, 0, 1, 4⟩ : PageRegs).Inside := by
    unfold PageRegs.Inside
    decide
  have roomy : Roomy pagedState.storage [97] 0 :=
    ⟨by decide, by decide, fun full => absurd full (by decide)⟩
  have both := @paging_loses_nothing (defaultCtx 1000 []) false _
    (.vString [97]) (.vInt 0) _ apart
    (show Holds pagedState 0 (.vString [97]) from ⟨by decide, rfl⟩)
    (show Holds pagedState 4 (.vInt 0) from ⟨by decide, rfl⟩) roomy
  exact (both.1 3 (by decide)).2 inside (fun strict => nomatch strict) ⟨rfl, by decide, by decide⟩

end Vm
end LiteNode
