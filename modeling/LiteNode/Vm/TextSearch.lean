import LiteNode.Vm.KeyPaging

/-!
# Searching in a text

A budgeted search shortens what is matched along a table of links, an
unbudgeted one compares the pattern at every place. Each link is the longest
proper border of a part of the pattern, and both searches find the first place.
-/

namespace LiteNode
namespace Vm
namespace TextWork

/-! ## Borders -/

section Borders

variable {pattern text : Bytes} {gap index matched : Nat}

/-- The longest part of the pattern that the read part of the text ends with,
shorter than the read part by a gap at least. -/
def Longest (gap : Nat) (pattern text : Bytes) (index matched : Nat) : Prop :=
  IsGreatest {k | k ≤ pattern.length ∧ k + gap ≤ index ∧ pattern.take k <:+ text.take index} matched

/-- The first links of a table are the longest proper borders. -/
def Linked (pattern : Bytes) (links : List Nat) (filled : Nat) : Prop :=
  ∀ i < filled, ∃ border, links[i]? = some border ∧ Longest 1 pattern pattern (i + 1) border

theorem take_succ_suffix {k : Nat} (short : k < pattern.length) (inside : index < text.length) :
    pattern.take (k + 1) <:+ text.take (index + 1) ↔
      pattern.take k <:+ text.take index ∧ text[index]? = pattern[k]? := by
  rw [List.getElem?_eq_getElem short, List.getElem?_eq_getElem inside, Option.some_inj,
    List.take_succ_eq_append_getElem short, List.take_succ_eq_append_getElem inside]
  constructor
  · rintro ⟨before, same⟩
    rw [← List.append_assoc, List.append_singleton_inj] at same
    exact ⟨⟨before, same.1⟩, same.2.symm⟩
  · rintro ⟨⟨before, same⟩, byte⟩
    exact ⟨before, by rw [← List.append_assoc, same, byte]⟩

/-- A shorter match ends with a border of the longer one. -/
theorem Longest.shorter {k longer border : Nat}
    (longest : Longest 1 pattern pattern longer border) (inside : longer ≤ pattern.length)
    (long : pattern.take longer <:+ text.take index) (less : k < longer)
    (suffix : pattern.take k <:+ text.take index) : k ≤ border := by
  apply longest.2
  refine ⟨by omega, less, ?_⟩
  apply List.suffix_of_suffix_length_le suffix long
  simp only [List.length_take]
  omega

variable {links : List Nat} {rounds : Nat}

theorem fallback_spec {filled : Nat}
    (linked : Linked pattern links filled) (inside : index < text.length)
    (known : matched ≤ filled) (short : matched < pattern.length) (enough : matched < rounds)
    (suffix : pattern.take matched <:+ text.take index)
    (most : ∀ k < pattern.length, k + gap ≤ index → pattern.take k <:+ text.take index →
      text[index]? = pattern[k]? → k ≤ matched) :
    ∃ kept, fallback pattern links text index rounds matched = some kept ∧
      kept ≤ matched ∧ pattern.take kept <:+ text.take index ∧
      (0 < kept → text[index]? = pattern[kept]?) ∧
      ∀ k < pattern.length, k + gap ≤ index → pattern.take k <:+ text.take index →
        text[index]? = pattern[k]? → k ≤ kept := by
  induction rounds generalizing matched with
  | zero => omega
  | succ rounds ih =>
    have read := List.getElem?_eq_getElem inside
    have next := List.getElem?_eq_getElem short
    by_cases positive : 0 < matched
    · by_cases same : text[index]? = pattern[matched]?
      · refine ⟨matched, ?_, le_rfl, suffix, fun _ => same, most⟩
        rw [read, next, Option.some_inj] at same
        simp [fallback, read, next, same]
      · obtain ⟨border, held, longest⟩ := linked (matched - 1) (by omega)
        rw [Nat.sub_add_cancel positive] at longest
        have less : border < matched := longest.1.2.1
        obtain ⟨kept, fell, down, ends, goesOn, upper⟩ := ih (by omega) (by omega) (by omega)
          (longest.1.2.2.trans suffix) fun k low room ends byte => by
            apply longest.shorter short.le suffix _ ends
            apply lt_of_le_of_ne (most k low room ends byte)
            rintro rfl
            exact same byte
        refine ⟨kept, ?_, by omega, ends, goesOn, upper⟩
        rw [read, next, Option.some_inj] at same
        simpa [fallback, read, next, positive, same, held] using fell
    · refine ⟨matched, ?_, le_rfl, suffix, fun more => (positive more).elim, most⟩
      rw [fallback, if_neg positive]
      rfl

theorem advance_spec {filled : Nat}
    (linked : Linked pattern links filled) (inside : index < text.length)
    (known : matched ≤ filled) (short : matched < pattern.length) (enough : matched < rounds)
    (longest : Longest gap pattern text index matched) :
    ∃ next, advance rounds pattern links text index matched = some next ∧
      Longest gap pattern text (index + 1) next := by
  obtain ⟨⟨-, apart, suffix⟩, greatest⟩ := longest
  obtain ⟨kept, fell, down, ends, goesOn, upper⟩ := @fallback_spec _ _ gap _ _ _ _ _ linked inside known
    short enough suffix fun k low room ends _ => greatest ⟨low.le, room, ends⟩
  have shorter : kept < pattern.length := by omega
  have last : ∀ k, k + 1 ≤ pattern.length ∧ k + 1 + gap ≤ index + 1 ∧
      pattern.take (k + 1) <:+ text.take (index + 1) → text[index]? = pattern[k]? ∧ k ≤ kept := by
    rintro k ⟨low, room, ends⟩
    have parts := (take_succ_suffix (by omega) inside).mp ends
    exact ⟨parts.2, upper k (by omega) (by omega) parts.1 parts.2⟩
  have read := List.getElem?_eq_getElem inside
  have next := List.getElem?_eq_getElem shorter
  by_cases same : text[index]? = pattern[kept]?
  · refine ⟨kept + 1, ?_, ⟨by omega, by omega, ?_⟩, ?_⟩
    · rw [read, next, Option.some_inj] at same
      simp [advance, fell, read, next, same]
    · exact (take_succ_suffix shorter inside).mpr ⟨ends, same⟩
    · intro k member
      cases k with
      | zero => omega
      | succ k =>
        have := (last k member).2
        omega
  · have none : kept = 0 := by
      by_contra positive
      exact same (goesOn (Nat.pos_of_ne_zero positive))
    refine ⟨kept, ?_, ⟨by omega, by omega, by rw [none]; exact List.nil_suffix⟩, ?_⟩
    · rw [read, next, Option.some_inj] at same
      simp [advance, fell, read, next, same]
    · intro k member
      cases k with
      | zero => exact Nat.zero_le _
      | succ k =>
        obtain ⟨byte, low⟩ := last k member
        obtain rfl : k = kept := by omega
        exact (same byte).elim

theorem link_spec (linked : Linked pattern links index)
    (size : links.length = pattern.length) (room : 1 ≤ index) (inside : index < pattern.length)
    (enough : pattern.length ≤ rounds) (longest : Longest 1 pattern pattern index matched) :
    ∃ table, link rounds pattern (links, matched) index = some table ∧
      Linked pattern table.1 (index + 1) ∧ table.1.length = pattern.length ∧
      Longest 1 pattern pattern (index + 1) table.2 := by
  have low : matched + 1 ≤ index := longest.1.2.1
  obtain ⟨next, advanced, longer⟩ := advance_spec linked inside (by omega) (by omega)
    (by omega : matched < rounds) longest
  refine ⟨(links.set index next, next), ?_, ?_, by simpa, longer⟩
  · simp [link, advanced, size, inside]
  · intro i low
    by_cases same : i = index
    · subst same
      exact ⟨next, by simp [size, inside], longer⟩
    · rw [List.getElem?_set_ne (Ne.symm same)]
      exact linked i (by omega)

/-- The first loop finds the longest proper borders of all parts. -/
theorem links_spec (enough : pattern.length ≤ rounds) (count : Nat)
    (inside : 1 + count ≤ pattern.length) :
    ∃ table, (List.range' 1 count).foldlM (link rounds pattern)
        (List.replicate pattern.length 0, 0) = some table ∧
      Linked pattern table.1 (1 + count) ∧ table.1.length = pattern.length ∧
      Longest 1 pattern pattern (1 + count) table.2 := by
  induction count with
  | zero =>
    have longest : Longest 1 pattern pattern 1 0 :=
      ⟨⟨Nat.zero_le _, le_rfl, List.nil_suffix⟩, fun k member => by have := member.2.1; omega⟩
    refine ⟨_, rfl, ?_, List.length_replicate, longest⟩
    intro i low
    obtain rfl : i = 0 := by omega
    exact ⟨0, by rw [List.getElem?_replicate, if_pos (by omega)], longest⟩
  | succ count ih =>
    obtain ⟨⟨links, matched⟩, folded, linked, size, longest⟩ := ih (by omega)
    rw [List.range'_concat, List.foldlM_append, folded]
    obtain ⟨table, entered, stands⟩ := link_spec linked size (by omega) inside enough longest
    refine ⟨table, ?_, stands⟩
    simpa using entered

/-- The second loop stops at the first end of the pattern in the text. -/
theorem matchFrom_spec {steps : Nat}
    (linked : Linked pattern links pattern.length) (enough : pattern.length ≤ rounds)
    (inside : index ≤ text.length) (left : text.length - index < steps)
    (longest : Longest 0 pattern text index matched)
    (earlier : ∀ j < index, ¬ pattern <:+ text.take j) :
    ∃ last, matchFrom rounds pattern links text steps index matched = some last ∧
      (last.2 = pattern.length → last.1 ≤ text.length ∧ pattern <:+ text.take last.1 ∧
        ∀ j < last.1, ¬ pattern <:+ text.take j) ∧
      (last.2 ≠ pattern.length → ∀ j ≤ text.length, ¬ pattern <:+ text.take j) := by
  induction steps generalizing index matched with
  | zero => omega
  | succ steps ih =>
    have short : matched ≤ pattern.length := longest.1.1
    have unfinished : matched < pattern.length → ¬ pattern <:+ text.take index := by
      intro less ends
      have long := ends.length_le
      rw [List.length_take] at long
      apply Nat.not_le.mpr less
      exact longest.2 ⟨le_rfl, by omega, by rwa [List.take_length]⟩
    rw [matchFrom]
    split
    · next more =>
      obtain ⟨next, advanced, longer⟩ := advance_spec linked more.1 short more.2
        (by omega : matched < rounds) longest
      rw [advanced]
      apply ih more.1 (by omega) longer
      intro j low
      rcases Nat.lt_succ_iff_lt_or_eq.mp low with before | rfl
      · exact earlier j before
      · exact unfinished more.2
    · next stopped =>
      refine ⟨(index, matched), rfl, ?_, ?_⟩
      · rintro rfl
        refine ⟨inside, ?_, earlier⟩
        simpa using longest.1.2.2
      · intro other j low
        have less : matched < pattern.length := by omega
        rcases Nat.lt_or_eq_of_le (by omega : j ≤ index) with before | rfl
        · exact earlier j before
        · exact unfinished less

end Borders

variable {text pattern : Bytes}

theorem suffix_take_iff {stop : Nat} (low : stop ≤ text.length) :
    pattern <:+ text.take stop ↔
      ∃ place, place + pattern.length = stop ∧ pattern <+: text.drop place := by
  constructor
  · rintro ⟨before, same⟩
    refine ⟨before.length, ?_, text.drop stop, ?_⟩
    · have size := congrArg List.length same
      rw [List.length_append, List.length_take] at size
      omega
    · have whole := List.take_append_drop stop text
      rw [← same, List.append_assoc] at whole
      exact List.drop_left.symm.trans (congrArg (List.drop before.length) whole)
  · rintro ⟨place, rfl, rest, same⟩
    exact ⟨text.take place, by rw [List.take_add, ← same, List.take_left]⟩

theorem prefix_drop_length {place : Nat} (here : pattern <+: text.drop place)
    (nonempty : pattern ≠ []) : place + pattern.length ≤ text.length := by
  have long := here.length_le
  have positive := List.length_pos_of_ne_nil nonempty
  rw [List.length_drop] at long
  omega

/-- A search finds the first place of the pattern, or none. -/
def Finds (text pattern : Bytes) (found : Int) : Prop :=
  (found = -1 ↔ ∀ place, ¬ pattern <+: text.drop place) ∧
    ∀ place : Nat, found = place ↔ IsLeast {place | pattern <+: text.drop place} place

theorem Finds.of_least {place : Nat} (least : IsLeast {place | pattern <+: text.drop place} place) :
    Finds text pattern place := by
  refine ⟨⟨fun absurd => by omega, fun nowhere => (nowhere place least.1).elim⟩, ?_⟩
  intro other
  rw [Nat.cast_inj]
  constructor
  · rintro rfl
    exact least
  · exact fun first => least.unique first

theorem Finds.of_none (nowhere : ∀ place, ¬ pattern <+: text.drop place) :
    Finds text pattern (-1) :=
  ⟨⟨fun _ => nowhere, fun _ => rfl⟩, fun place =>
    ⟨fun absurd => by omega, fun least => (nowhere place least.1).elim⟩⟩

theorem Finds.unique {found other : Int} (first : Finds text pattern found)
    (second : Finds text pattern other) : found = other := by
  by_cases nowhere : ∀ place, ¬ pattern <+: text.drop place
  · rw [first.1.mpr nowhere, second.1.mpr nowhere]
  · push Not at nowhere
    have least : IsLeast {place | pattern <+: text.drop place} _ :=
      ⟨Nat.find_spec nowhere, fun _ here => Nat.find_min' nowhere here⟩
    rw [(first.2 _).mpr least, (second.2 _).mpr least]

theorem find_spec {rounds : Nat} (enough : text.length < rounds) :
    ∃ found, find rounds text pattern = some found ∧ Finds text pattern found := by
  unfold find
  split
  · next empty =>
    rw [List.length_eq_zero_iff.mp empty]
    exact ⟨0, rfl, @Finds.of_least _ _ 0 ⟨List.nil_prefix, fun _ _ => Nat.zero_le _⟩⟩
  · next nonempty =>
    have nonempty : pattern ≠ [] := fun empty => nonempty (by rw [empty]; rfl)
    have positive := List.length_pos_of_ne_nil nonempty
    split
    · refine ⟨-1, rfl, Finds.of_none fun place here => ?_⟩
      have := prefix_drop_length here nonempty
      omega
    · obtain ⟨table, folded, linked, -⟩ := @links_spec pattern rounds
        (by omega) (pattern.length - 1) (by omega)
      rw [Nat.add_sub_cancel' positive] at linked
      obtain ⟨⟨index, matched⟩, scanned, found, missed⟩ := @matchFrom_spec
        _ text 0 0 _ _ rounds linked (by omega : pattern.length ≤ rounds)
        (Nat.zero_le _) (by omega)
        ⟨⟨Nat.zero_le _, le_rfl, List.nil_suffix⟩, fun k member => member.2.1⟩ (by simp)
      rw [folded]
      dsimp only [Option.bind_eq_bind, Option.bind_some]
      rw [scanned]
      by_cases whole : matched = pattern.length
      · obtain ⟨low, ends, earlier⟩ := found whole
        obtain ⟨place, rfl, here⟩ := (suffix_take_iff low).mp ends
        refine ⟨place, by simp [whole], Finds.of_least ⟨here, ?_⟩⟩
        intro other there
        by_contra before
        have inside := prefix_drop_length there nonempty
        exact earlier (other + pattern.length) (by omega)
          ((suffix_take_iff inside).mpr ⟨other, rfl, there⟩)
      · refine ⟨-1, by simp [whole], Finds.of_none fun place here => ?_⟩
        have inside := prefix_drop_length here nonempty
        exact missed whole _ inside ((suffix_take_iff inside).mpr ⟨place, rfl, here⟩)

theorem scan_spec (nonempty : pattern ≠ []) (short : pattern.length ≤ text.length) :
    Finds text pattern (scan text pattern) := by
  have here : ∀ i, (text.drop i).take pattern.length = pattern ↔ pattern <+: text.drop i :=
    fun i => by rw [List.prefix_iff_eq_take, eq_comm]
  have scanned : ∀ count, let found : Int := (List.range count).foldl (fun (found : Int) i =>
        if found = -1 ∧ (text.drop i).take pattern.length = pattern then i else found) (-1)
      (found = -1 ∧ ∀ i < count, ¬ pattern <+: text.drop i) ∨
        ∃ place < count, found = place ∧ pattern <+: text.drop place ∧
          ∀ i < place, ¬ pattern <+: text.drop i := by
    intro count
    induction count with
    | zero => exact .inl ⟨rfl, by simp⟩
    | succ count ih =>
      rw [List.range_succ, List.foldl_append]
      dsimp only [List.foldl_cons, List.foldl_nil]
      rcases ih with ⟨unfound, nowhere⟩ | ⟨place, low, found, stands⟩
      · rw [unfound]
        by_cases there : pattern <+: text.drop count
        · exact .inr ⟨count, by omega, by simp [here, there], there, nowhere⟩
        · refine .inl ⟨by simp [here, there], fun i low => ?_⟩
          rcases Nat.lt_succ_iff_lt_or_eq.mp low with before | rfl
          · exact nowhere i before
          · exact there
      · rw [found, if_neg (by omega)]
        exact .inr ⟨place, by omega, rfl, stands⟩
  rcases scanned (text.length - pattern.length + 1) with
    ⟨unfound, nowhere⟩ | ⟨place, -, found, there, first⟩
  · rw [scan, unfound]
    apply Finds.of_none
    intro place there
    have := prefix_drop_length there nonempty
    exact nowhere place (by omega) there
  · rw [scan, found]
    refine Finds.of_least ⟨there, fun other elsewhere => ?_⟩
    by_contra before
    exact first other (by omega) elsewhere

end TextWork

variable {env : Env} {scope : Scope}

theorem addDynProduct_quiet (factors : List Int) (divisor : Int) :
    Quiet (addDynProduct env factors divisor : Exec env scope Bool) := by
  unfold addDynProduct
  split
  · exact Quiet.pure _
  · exact addDynEffort_quiet _

/-- With or without a budget, what is put into the register is what a search
finds. -/
theorem indexof_ok {rd rs rsearch : Reg} {st next : State}
    (ran : (indexof env rd rs rsearch : Exec env scope Bool).run st = (.ok true, next)) :
    ∃ text pattern found, Holds st rs text ∧ Holds st rsearch pattern ∧
      TextWork.Finds text.toString pattern.toString found ∧
      ∃ ready, Spent st ready ∧
        (put rd (.vInt found) : Exec env scope Bool).run ready = (.ok true, next) := by
  rw [indexof] at ran
  obtain ⟨text, _, got, searching⟩ := Chained.run_bind_ok ran
  obtain ⟨rfl, holdsText⟩ := getr_holds got
  obtain ⟨pattern, _, got', paying⟩ := Chained.run_bind_ok searching
  obtain ⟨rfl, holdsPattern⟩ := getr_holds got'
  obtain ⟨paid, charged, charging, choosing⟩ := Chained.run_bind_ok paying
  have spent := (addDynProduct_quiet _ _).run_spent charging
  obtain ⟨found, searched, finds⟩ := @TextWork.find_spec
    _ pattern.toString _ (Nat.lt_succ_self text.toString.length)
  refine ⟨text, pattern, found, holdsText, holdsPattern, finds, ?_⟩
  split at choosing
  · split at choosing
    · next empty =>
      obtain rfl : 0 = found := by simpa [TextWork.find, empty] using searched
      exact ⟨charged, spent, choosing⟩
    · next nonempty =>
      split at choosing
      · next short =>
        obtain rfl : -1 = found := by simpa [TextWork.find, nonempty, short] using searched
        exact ⟨charged, spent, choosing⟩
      · next long =>
        obtain ⟨budgeted, _, asked, matching⟩ := Chained.run_bind_ok choosing
        cases asked
        split at matching
        · obtain ⟨admitted, ready, allocating, putting⟩ := Chained.run_bind_ok matching
          have allocated := (chargeBytes_quiet _ _ _).run_spent allocating
          split at putting
          · rw [searched] at putting
            exact ⟨ready, spent.trans allocated, putting⟩
          · cases putting
        · have same := finds.unique
            (TextWork.scan_spec (by simpa using nonempty) (Nat.le_of_not_lt long))
          rw [← same] at matching
          exact ⟨charged, spent, matching⟩
  · cases choosing

/-- The search along the links finds the first place of every pattern without
leaving the bounds of a text or a table, and the instruction puts the same
value into its register whether or not its bytes are budgeted. -/
theorem substring_search :
    (∀ text pattern : Bytes, ∃ found, TextWork.Finds text pattern found ∧
      (pattern = [] → found = 0) ∧
      ∀ rounds, text.length < rounds → TextWork.find rounds text pattern = some found) ∧
    ∀ (env : Env) (scope : Scope) (rd rs rsearch : Reg) (st other next next' : State),
      st.regs = other.regs →
      (indexof env rd rs rsearch : Exec env scope Bool).run st = (.ok true, next) →
      (indexof env rd rs rsearch : Exec env scope Bool).run other = (.ok true, next') →
      next.regs = next'.regs := by
  refine ⟨fun text pattern => ?_, ?_⟩
  · obtain ⟨found, searched, finds⟩ := @TextWork.find_spec
      _ pattern _ (Nat.lt_succ_self text.length)
    refine ⟨found, finds, ?_, fun rounds enough => ?_⟩
    · rintro rfl
      simpa [TextWork.find] using searched.symm
    · obtain ⟨again, researched, refinds⟩ := @TextWork.find_spec _ pattern _ enough
      rw [researched, refinds.unique finds]
  · intro env scope rd rs rsearch st other next next' same ran ran'
    obtain ⟨text, pattern, found, holdsText, holdsPattern, finds, ready, spent, putting⟩ :=
      indexof_ok ran
    obtain ⟨text', pattern', found', holdsText', holdsPattern', finds', ready', spent',
      putting'⟩ := indexof_ok ran'
    have alike : ∀ r v, Holds other r v → Holds st r v := fun r v holds =>
      ⟨holds.1, by rw [same]; exact holds.2⟩
    cases holdsText.unique (alike _ _ holdsText')
    cases holdsPattern.unique (alike _ _ holdsPattern')
    rw [finds.unique finds'] at putting
    have regs : ready.regs = ready'.regs := by rw [spent.regs, spent'.regs, same]
    obtain ⟨_, _, setting, ended⟩ := Chained.run_bind_ok putting
    obtain ⟨_, _, setting', ended'⟩ := Chained.run_bind_ok putting'
    cases ended
    cases ended'
    rw [setr] at setting setting'
    split at setting
    · next inside =>
      rw [dif_pos inside] at setting'
      cases setting
      cases setting'
      dsimp only
      rw [regs]
    · cases setting

end Vm
end LiteNode
