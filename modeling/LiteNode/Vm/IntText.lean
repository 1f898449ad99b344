import LiteNode.Vm.Plain
import Mathlib.Data.List.DropRight

/-!
# Scanning a text for numbers

One pass finds the fields between commas, without the blanks around them. It is
made twice, once to count the fields and once to read them, and finds what
splitting at the commas and trimming finds.
-/

namespace LiteNode
namespace Vm
namespace IntText

def isSpace (byte : UInt8) : Bool := byte = 32 || byte = 12 || byte = 10 || byte = 13 || byte = 9

/-- Visit the fields of what is left of a text at an index. `first` is where the
field starts, or negative before it has; `finish` is where it has ended so
far. -/
def scan (visit : σ → Int → Int → Option σ) (index first finish : Int)
    (state : σ) : Bytes → Option σ
  | [] => if first < 0 then some state else visit state first (finish - first)
  | byte :: rest =>
    if byte = 44 then
      if first < 0 then scan visit (index + 1) (-1) 0 state rest
      else
        match visit state first (finish - first) with
        | none => none
        | some state => scan visit (index + 1) (-1) 0 state rest
    else if isSpace byte then scan visit (index + 1) first finish state rest
    else scan visit (index + 1) (if first < 0 then index else first) (index + 1) state rest

def fold (text : Bytes) (init : σ) (visit : σ → Int → Int → Option σ) : Option σ :=
  scan visit 0 (-1) 0 init text

structure Plan where
  text : Bytes
  count : Int
  chars : Int
  deriving DecidableEq

def planVisit (capacity : Int) (fits : Int → Int → Bool) (seen : Int × Int)
    (_ length : Int) : Option (Int × Int) :=
  if capacity ≤ seen.1 ∨ maxInt - length < seen.2 then none
  else if fits (seen.1 + 1) (seen.2 + length) then some (seen.1 + 1, seen.2 + length)
  else none

def plan (capacity : Int) (fits : Int → Int → Bool) (text : Bytes) : Option Plan :=
  if capacity < 0 ∨ fits 0 0 = false then none
  else
    (fold text (0, 0) (planVisit capacity fits)).map fun (count, chars) => { text, count, chars }

/-- The bytes of a text from some index on. -/
def sub (text : Bytes) (first length : Int) : Bytes := (text.drop first.toNat).take length.toNat

/-- Value of a field, which is zero if a field that is no number is let pass. -/
def fieldValue (zOfString : Bytes → Option Int) (strict : Bool) (field : Bytes) : Option Int :=
  match zOfString field with
  | some value => some value
  | none => if strict then none else some 0

def readVisit (zOfString : Bytes → Option Int) (strict : Bool) (plan : Plan)
    (seen : Int × Array Int) (first length : Int) : Option (Int × Array Int) :=
  if plan.count ≤ seen.1 then none
  else
    (fieldValue zOfString strict (sub plan.text first length)).map fun value =>
      (seen.1 + 1, seen.2.setIfInBounds seen.1.toNat value)

/-- The values of the fields and their number. -/
def readFields (zOfString : Bytes → Option Int) (strict : Bool) (plan : Plan) :
    Option (Int × Array Int) :=
  fold plan.text (0, Array.replicate plan.count.toNat 0) (readVisit zOfString strict plan)

def read (zOfString : Bytes → Option Int) (strict : Bool) (plan : Plan) : Option (Array Int) :=
  match readFields zOfString strict plan with
  | some (count, values) => if count = plan.count then some values else none
  | none => none

/-- Where the fields start and how long they are. -/
def spansFrom (index first finish : Int) : Bytes → List (Int × Int)
  | [] => if first < 0 then [] else [(first, finish - first)]
  | byte :: rest =>
    if byte = 44 then
      if first < 0 then spansFrom (index + 1) (-1) 0 rest
      else (first, finish - first) :: spansFrom (index + 1) (-1) 0 rest
    else if isSpace byte then spansFrom (index + 1) first finish rest
    else spansFrom (index + 1) (if first < 0 then index else first) (index + 1) rest

def spans (text : Bytes) : List (Int × Int) := spansFrom 0 (-1) 0 text

theorem scan_eq_foldlM (visit : σ → Int → Int → Option σ)
    (index first finish : Int) (state : σ) (rest : Bytes) :
    scan visit index first finish state rest =
      (spansFrom index first finish rest).foldlM
        (fun state span => visit state span.1 span.2) state := by
  induction rest generalizing index first finish state with
  | nil =>
    rw [scan, spansFrom]
    split
    · rfl
    · simp
  | cons byte rest ih =>
    rw [scan, spansFrom]
    split
    · split
      · apply ih
      · rw [List.foldlM_cons]
        cases visit state first (finish - first) with
        | none => rfl
        | some next => apply ih
    · split
      · apply ih
      · apply ih

theorem fold_eq_foldlM (text : Bytes) (init : σ) (visit : σ → Int → Int → Option σ) :
    fold text init visit = (spans text).foldlM (fun state span => visit state span.1 span.2) init :=
  scan_eq_foldlM visit 0 (-1) 0 init text

/-- A text without the blanks around it. -/
def trimmed (text : Bytes) : Bytes := (text.dropWhile isSpace).rdropWhile isSpace

/-- What splitting at the commas and trimming leaves. -/
def fields (text : Bytes) : List Bytes := ((splitOnByte 44 text).map trimmed).filter (· ≠ [])

theorem splitOnByte_cons (byte first : UInt8) (rest : Bytes) :
    splitOnByte byte (first :: rest) =
      if first = byte then [] :: splitOnByte byte rest
      else
        match splitOnByte byte rest with
        | part :: rest => (first :: part) :: rest
        | [] => [[first]] := rfl

theorem splitOnByte_eq_splitOn (byte : UInt8) (text : Bytes) :
    splitOnByte byte text = text.splitOn byte := by
  induction text with
  | nil => rfl
  | cons first rest ih =>
    rw [List.splitOn_cons_eq_if_modifyHead, splitOnByte_cons, ih]
    by_cases found : first = byte
    · rw [if_pos found, if_pos (by simpa using found)]
    · rw [if_neg found, if_neg (by simpa using found)]
      cases parts : rest.splitOn byte with
      | nil => exact absurd parts (List.splitOn_ne_nil _ _)
      | cons part others => rfl

theorem fields_eq_of_whole {current : Bytes} (whole : 44 ∉ current) :
    fields current = if trimmed current = [] then [] else [trimmed current] := by
  rw [fields, splitOnByte_eq_splitOn, List.splitOn_eq_singleton whole]
  by_cases blank : trimmed current = [] <;> simp [blank]

theorem fields_append_cons {current : Bytes} (rest : Bytes) (whole : 44 ∉ current) :
    fields (current ++ 44 :: rest) =
      if trimmed current = [] then fields rest
      else trimmed current :: fields rest := by
  rw [fields, splitOnByte_eq_splitOn,
    List.splitOn_append_cons_self_of_not_mem whole, ← splitOnByte_eq_splitOn, fields]
  by_cases blank : trimmed current = [] <;> simp [blank]

theorem trimmed_eq_nil {current : Bytes}
    (blank : ∀ byte ∈ current, isSpace byte) : trimmed current = [] := by
  rw [trimmed, List.dropWhile_eq_nil_iff.mpr blank, List.rdropWhile_nil]

theorem dropWhile_concat {current : Bytes}
    (solid : ¬ ∀ byte ∈ current, isSpace byte) (byte : UInt8) :
    (current ++ [byte]).dropWhile isSpace = current.dropWhile isSpace ++ [byte] := by
  rw [List.dropWhile_append, if_neg]
  simpa using solid

variable {byte : UInt8}

theorem trimmed_concat_space {current : Bytes}
    (space : isSpace byte) : trimmed (current ++ [byte]) = trimmed current := by
  by_cases blank : ∀ byte ∈ current, isSpace byte
  · rw [trimmed_eq_nil blank, trimmed_eq_nil]
    intro other listed
    rcases List.mem_append.mp listed with listed | listed
    · exact blank other listed
    · rw [List.mem_singleton.mp listed, space]
  · rw [trimmed, dropWhile_concat blank, List.rdropWhile_concat_pos _ _ _ space, trimmed]

theorem dropWhile_concat_solid {current : Bytes} (solid : ¬ isSpace byte) :
    (current ++ [byte]).dropWhile isSpace = current.dropWhile isSpace ++ [byte] := by
  by_cases blank : ∀ byte ∈ current, isSpace byte
  · rw [List.dropWhile_append, if_pos (by simpa using blank),
      List.dropWhile_eq_nil_iff.mpr blank, List.dropWhile_cons_of_neg solid, List.nil_append]
  · exact dropWhile_concat blank byte

theorem trimmed_concat_solid {current : Bytes} (solid : ¬ isSpace byte) :
    trimmed (current ++ [byte]) = current.dropWhile isSpace ++ [byte] := by
  rw [trimmed, dropWhile_concat_solid solid, List.rdropWhile_concat_neg _ _ _ solid]

/-! ## The scan finds the fields -/

/-- A scan between a part of the text that it has left and one that it has not
reached. -/
structure Scanning (text before current rest : Bytes) (index first finish : Int) : Prop where
  text_eq : text = before ++ current ++ rest
  index_eq : index = before.length + current.length
  whole : 44 ∉ current
  blank : first < 0 → ∀ byte ∈ current, isSpace byte
  solid : 0 ≤ first → ¬ ∀ byte ∈ current, isSpace byte
  first_eq : 0 ≤ first → first = before.length + (current.takeWhile isSpace).length
  finish_eq : 0 ≤ first → finish = first + (trimmed current).length

variable {text before current rest : Bytes} {index first finish : Int}

theorem scanning_start (text : Bytes) : Scanning text [] [] text 0 (-1) 0 where
  text_eq := rfl
  index_eq := rfl
  whole := List.not_mem_nil
  blank := by simp
  solid := by omega
  first_eq := by omega
  finish_eq := by omega

theorem length_takeWhile_add (current : Bytes) :
    (current.takeWhile isSpace).length + (current.dropWhile isSpace).length = current.length := by
  rw [← List.length_append, List.takeWhile_append_dropWhile]

theorem takeWhile_concat (solid : ¬ ∀ byte ∈ current, isSpace byte) (byte : UInt8) :
    (current ++ [byte]).takeWhile isSpace = current.takeWhile isSpace := by
  rw [List.takeWhile_append, if_neg]
  intro whole
  apply solid
  rw [← List.takeWhile_eq_self_iff]
  exact (List.takeWhile_prefix _).eq_of_length whole

theorem Scanning.comma
    (scanning : Scanning text before current (44 :: rest) index first finish) :
    Scanning text (before ++ current ++ [44]) [] rest (index + 1) (-1) 0 where
  text_eq := by simp [scanning.text_eq]
  index_eq := by simp [scanning.index_eq, add_assoc]
  whole := List.not_mem_nil
  blank := by simp
  solid := by omega
  first_eq := by omega
  finish_eq := by omega

theorem Scanning.space (scanning : Scanning text before current (byte :: rest) index first finish)
    (inside : byte ≠ 44) (space : isSpace byte) :
    Scanning text before (current ++ [byte]) rest (index + 1) first finish where
  text_eq := by simp [scanning.text_eq]
  index_eq := by
    rw [scanning.index_eq, List.length_append]
    push_cast
    rfl
  whole := by simpa [scanning.whole] using inside.symm
  blank negative := by
    intro other listed
    rcases List.mem_append.mp listed with listed | listed
    · exact scanning.blank negative other listed
    · rw [List.mem_singleton.mp listed, space]
  solid started all := scanning.solid started fun other listed =>
    all other (List.mem_append_left _ listed)
  first_eq started := by rw [takeWhile_concat (scanning.solid started), scanning.first_eq started]
  finish_eq started := by rw [trimmed_concat_space space, scanning.finish_eq started]

theorem Scanning.solidByte
    (scanning : Scanning text before current (byte :: rest) index first finish)
    (inside : byte ≠ 44) (solid : ¬ isSpace byte) :
    Scanning text before (current ++ [byte]) rest (index + 1)
      (if first < 0 then index else first) (index + 1) := by
  have start : (if first < 0 then index else first) =
      before.length + ((current ++ [byte]).takeWhile isSpace).length := by
    split
    · next blank =>
        rw [List.takeWhile_append,
          List.takeWhile_eq_self_iff.mpr (scanning.blank blank), if_pos rfl,
          List.takeWhile_cons_of_neg solid, List.append_nil]
        exact scanning.index_eq
    · next started =>
        have started : 0 ≤ first := by omega
        rw [takeWhile_concat (scanning.solid started)]
        exact scanning.first_eq started
  refine
    { text_eq := ?_, index_eq := ?_, whole := ?_, blank := ?_, solid := ?_
      first_eq := fun _ => start, finish_eq := ?_ }
  · simp [scanning.text_eq]
  · rw [scanning.index_eq, List.length_append]
    push_cast
    rfl
  · simpa [scanning.whole] using inside.symm
  · rw [start]
    omega
  · intro _ all
    exact solid (all byte (by simp))
  · intro _
    have lengths := length_takeWhile_add (current ++ [byte])
    have kept : trimmed (current ++ [byte]) = (current ++ [byte]).dropWhile isSpace := by
      rw [trimmed_concat_solid solid, dropWhile_concat_solid solid]
    rw [start, kept, scanning.index_eq]
    rw [List.length_append, List.length_singleton] at lengths
    omega

/-- The field that a scan is in is what is left of it without blanks. -/
theorem Scanning.sub_eq (scanning : Scanning text before current rest index first finish)
    (started : 0 ≤ first) :
    sub text first (finish - first) = trimmed current ∧
      trimmed current ≠ [] ∧ finish - first = (trimmed current).length := by
  refine ⟨?_, ?_, ?_⟩
  · have dropped : text.drop first.toNat = current.dropWhile isSpace ++ rest := by
      have split : text = (before ++ current.takeWhile isSpace) ++
          (current.dropWhile isSpace ++ rest) := by
        rw [scanning.text_eq, List.append_assoc before current,
          List.append_assoc before (current.takeWhile isSpace),
          ← List.append_assoc (current.takeWhile isSpace), List.takeWhile_append_dropWhile]
      rw [split, List.drop_left']
      rw [List.length_append, scanning.first_eq started]
      omega
    have short := scanning.finish_eq started
    have length : (finish - first).toNat = (trimmed current).length := by omega
    rw [sub, dropped, length]
    obtain ⟨blanks, parts⟩ := List.rdropWhile_prefix isSpace (current.dropWhile isSpace)
    rw [← parts, List.append_assoc]
    exact List.take_left
  · intro blank
    have spaces := List.rdropWhile_eq_nil_iff.mp blank
    refine scanning.solid started (List.dropWhile_eq_nil_iff.mp ?_)
    by_contra left
    have head := List.head_dropWhile_not isSpace left
    rw [spaces _ (List.head_mem left)] at head
    cases head
  · have ended := scanning.finish_eq started
    omega

/-- The spans of the rest of a scan are the fields of what it is in and of the
rest. -/
theorem Scanning.map_spansFrom
    (scanning : Scanning text before current rest index first finish) :
    (spansFrom index first finish rest).map
        (fun span => (sub text span.1 span.2, span.2)) =
      (fields (current ++ rest)).map fun field => (field, (field.length : Int)) := by
  induction rest generalizing before current index first finish with
  | nil =>
    rw [spansFrom, List.append_nil, fields_eq_of_whole scanning.whole]
    split
    · next negative =>
        rw [if_pos (trimmed_eq_nil (scanning.blank negative))]
        rfl
    · next started =>
        obtain ⟨found, full, length⟩ := scanning.sub_eq (not_lt.mp started)
        rw [if_neg full, List.map_singleton, List.map_singleton, found, length]
  | cons byte rest ih =>
    rw [spansFrom]
    split
    · next comma =>
        subst comma
        have later := ih scanning.comma
        rw [List.nil_append] at later
        rw [fields_append_cons rest scanning.whole]
        split
        · next negative => rw [if_pos (trimmed_eq_nil (scanning.blank negative)), later]
        · next started =>
            obtain ⟨found, full, length⟩ := scanning.sub_eq (not_lt.mp started)
            rw [if_neg full, List.map_cons, List.map_cons, found, length, later]
    · next inside =>
        have joined : current ++ byte :: rest = current ++ [byte] ++ rest := by simp
        rw [joined]
        split
        · next space => exact ih (scanning.space inside space)
        · next solid => exact ih (scanning.solidByte inside solid)

theorem map_spans (text : Bytes) :
    (spans text).map (fun span => sub text span.1 span.2) = fields text := by
  have found := congrArg (List.map Prod.fst) (scanning_start text).map_spansFrom
  rw [List.map_map, List.map_map, List.nil_append] at found
  exact found.trans (List.map_id _)

theorem map_length_spans (text : Bytes) :
    (spans text).map Prod.snd = (fields text).map fun field => (field.length : Int) := by
  have found := congrArg (List.map Prod.snd) (scanning_start text).map_spansFrom
  rw [List.map_map, List.map_map, List.nil_append] at found
  exact found

/-- Number of bytes in the fields. -/
def charsOf (fields : List Bytes) : Int := (fields.map fun field => (field.length : Int)).sum

theorem charsOf_nonneg (fields : List Bytes) : 0 ≤ charsOf fields := by
  apply List.sum_nonneg
  intro length listed
  obtain ⟨field, _, rfl⟩ := List.mem_map.mp listed
  exact Int.natCast_nonneg _

theorem charsOf_splitOnByte_le (byte : UInt8) (text : Bytes) :
    charsOf (splitOnByte byte text) ≤ text.length := by
  induction text with
  | nil => exact le_rfl
  | cons first rest ih =>
    rw [splitOnByte_cons]
    split
    · simp only [charsOf, List.map_cons, List.sum_cons, List.length_nil, List.length_cons] at ih ⊢
      omega
    · cases parts : splitOnByte byte rest with
      | nil => simp [charsOf]
      | cons part others =>
        rw [parts] at ih
        simp only [charsOf, List.map_cons, List.sum_cons, List.length_cons] at ih ⊢
        omega

theorem length_trimmed_le (text : Bytes) : (trimmed text).length ≤ text.length :=
  (List.rdropWhile_prefix _ _).length_le.trans (List.dropWhile_suffix _).length_le

theorem charsOf_trimmed_le (parts : List Bytes) :
    charsOf ((parts.map trimmed).filter (· ≠ [])) ≤ charsOf parts := by
  induction parts with
  | nil => exact le_rfl
  | cons part rest ih =>
    have short := length_trimmed_le part
    by_cases blank : trimmed part = []
    · simp only [charsOf, List.map_cons, List.sum_cons, blank, ne_eq,
        not_true_eq_false, decide_false, Bool.false_eq_true,
        not_false_eq_true, List.filter_cons_of_neg]
        at ih ⊢
      omega
    · simp only [charsOf, List.map_cons, List.sum_cons, ne_eq, blank,
        not_false_eq_true, decide_true, List.filter_cons_of_pos]
        at ih ⊢
      omega

theorem charsOf_fields_le (text : Bytes) : charsOf (fields text) ≤ text.length :=
  (charsOf_trimmed_le _).trans (charsOf_splitOnByte_le 44 text)

/-- No more fits than what fits already. -/
def Antitone (fits : Int → Int → Bool) : Prop :=
  ∀ count count' chars chars', 0 ≤ count → count ≤ count' → 0 ≤ chars →
    chars ≤ chars' → fits count' chars' → fits count chars

variable {capacity : Int} {fits : Int → Int → Bool}

/-- Counting field after field tests the whole, since less fits when more
does. -/
theorem foldlM_planVisit (antitone : Antitone fits) (parts : List Bytes)
    {count chars : Int} (counted : 0 ≤ count) (sized : 0 ≤ chars)
    (bounded : chars + charsOf parts ≤ maxInt) (room : count ≤ capacity)
    (fitting : fits count chars) :
    (parts.map fun part => (part.length : Int)).foldlM
        (fun seen length => planVisit capacity fits seen 0 length)
        (count, chars) =
      if count + parts.length ≤ capacity ∧ fits (count + parts.length) (chars + charsOf parts) then
        some (count + parts.length, chars + charsOf parts)
      else none := by
  induction parts generalizing count chars with
  | nil => simp [charsOf, room, fitting]
  | cons part rest ih =>
    have total : charsOf (part :: rest) = part.length + charsOf rest := rfl
    have number : ((part :: rest).length : Int) = 1 + rest.length := by
      rw [List.length_cons]
      omega
    have others := charsOf_nonneg rest
    rw [total] at bounded
    rw [List.map_cons, List.foldlM_cons, total, number, ← add_assoc, ← add_assoc, planVisit]
    by_cases full : capacity ≤ count
    · rw [if_pos (Or.inl full), if_neg (by omega)]
      rfl
    · rw [if_neg (by omega)]
      by_cases next : fits (count + 1) (chars + part.length)
      · rw [if_pos next]
        exact ih (by omega) (by omega) (by omega) (by omega) next
      · rw [if_neg next, if_neg]
        · rfl
        · rintro ⟨_, all⟩
          exact next (antitone _ _ _ _ (by omega) (by omega) (by omega) (by omega) all)

theorem plan_eq (antitone : Antitone fits) {text : Bytes} (sized : (text.length : Int) ≤ maxInt) :
    plan capacity fits text =
      if (fields text).length ≤ capacity ∧ fits (fields text).length (charsOf (fields text)) then
        some ⟨text, (fields text).length, charsOf (fields text)⟩
      else none := by
  have short := charsOf_fields_le text
  have some_chars := charsOf_nonneg (fields text)
  rw [plan]
  split
  · next refused =>
      rw [if_neg]
      rintro ⟨room, all⟩
      rcases refused with negative | refused
      · omega
      · have least := antitone 0 _ 0 _ le_rfl (Int.natCast_nonneg _) le_rfl some_chars all
        rw [refused] at least
        cases least
  · next admitted =>
      rw [not_or, not_lt, Bool.not_eq_false] at admitted
      have lengths : fold text (0, 0) (planVisit capacity fits) =
          ((spans text).map Prod.snd).foldlM
            (fun seen length => planVisit capacity fits seen 0 length)
            (0, 0) := by
        rw [fold_eq_foldlM, List.foldlM_map]
        rfl
      rw [lengths, map_length_spans, foldlM_planVisit antitone _ le_rfl le_rfl
        (by omega) admitted.1 admitted.2, zero_add, zero_add]
      split <;> rfl

variable (zOfString : Bytes → Option Int) (strict : Bool)

theorem foldlM_readVisit (plan : Plan) (before rest : List (Int × Int))
    (values : List Int) (read : values.length = before.length)
    (whole : plan.count = before.length + rest.length) :
    rest.foldlM
        (fun seen span => readVisit zOfString strict plan seen span.1 span.2)
        ((before.length : Int), (values ++ List.replicate rest.length 0).toArray) =
      (rest.mapM fun span =>
          fieldValue zOfString strict (sub plan.text span.1 span.2)).map
        fun later => (plan.count, (values ++ later).toArray) := by
  induction rest generalizing before values with
  | nil => simp [whole]
  | cons span rest ih =>
    have room : (before.length : Int) < plan.count := by
      rw [whole, List.length_cons]
      omega
    rw [List.foldlM_cons, List.mapM_cons, readVisit, if_neg (not_le.mpr room)]
    cases fieldValue zOfString strict (sub plan.text span.1 span.2) with
    | none => rfl
    | some value =>
      have written :
          ((values ++ List.replicate (span :: rest).length 0).toArray.setIfInBounds
            (before.length : Int).toNat value) =
          (values ++ [value] ++ List.replicate rest.length 0).toArray := by
        rw [Int.toNat_natCast, ← read, List.length_cons, List.replicate_succ]
        simp
      have later := ih (before ++ [span])
        (values ++ [value]) (by simp [read]) (by
          rw [whole, List.length_cons, List.length_append, List.length_singleton]
          omega)
      rw [List.length_append, List.length_singleton, Nat.cast_add, Nat.cast_one] at later
      simp only [Option.map_some, Option.bind_eq_bind, Option.bind_some, written, later]
      cases rest.mapM fun span =>
        fieldValue zOfString strict (sub plan.text span.1 span.2) <;> simp

/-- What is read of a planned text are the values of its fields. -/
theorem readFields_eq {plan : Plan} (whole : plan.count = (fields plan.text).length) :
    readFields zOfString strict plan =
      ((fields plan.text).mapM (fieldValue zOfString strict)).map fun values =>
        (plan.count, values.toArray) := by
  have number : (fields plan.text).length = (spans plan.text).length := by
    rw [← map_spans, List.length_map]
  have cells : Array.replicate plan.count.toNat (0 : Int) =
      ([] ++ List.replicate (spans plan.text).length (0 : Int)).toArray := by
    rw [whole, Int.toNat_natCast, number, List.nil_append, List.toArray_replicate]
  have run := foldlM_readVisit zOfString strict plan [] (spans plan.text) [] rfl
    (by rw [whole, number, List.length_nil, Nat.cast_zero, zero_add])
  rw [readFields, fold_eq_foldlM, cells, ← map_spans, List.mapM_map]
  exact run

theorem mapM_isSome_iff {f : α → Option β} {listed : List α} :
    (listed.mapM f).isSome ↔ ∀ a ∈ listed, (f a).isSome := by
  induction listed with
  | nil => simp
  | cons first rest ih =>
    rw [List.mapM_cons, List.forall_mem_cons, ← ih]
    cases f first with
    | none => simp
    | some value => cases rest.mapM f <;> simp

theorem length_of_mapM {f : α → Option β} {listed : List α} {found : List β}
    (each : listed.mapM f = some found) : found.length = listed.length := by
  induction listed generalizing found with
  | nil =>
    cases each
    rfl
  | cons first rest ih =>
    rw [List.mapM_cons] at each
    obtain ⟨value, _, each⟩ := Option.bind_eq_some_iff.mp each
    obtain ⟨others, later, same⟩ := Option.bind_eq_some_iff.mp each
    cases same
    rw [List.length_cons, ih later, List.length_cons]

theorem read_eq {plan : Plan} (whole : plan.count = (fields plan.text).length) :
    read zOfString strict plan =
      ((fields plan.text).mapM (fieldValue zOfString strict)).map List.toArray := by
  rw [read, readFields_eq zOfString strict whole]
  cases (fields plan.text).mapM (fieldValue zOfString strict) with
  | none => rfl
  | some values => exact if_pos rfl

/-- The scan visits what splitting at the commas and trimming leaves. A text is
planned iff there is room for its fields and they fit, and what is planned is
read, unless a field must be a number and is not. -/
theorem scans_agree (text : Bytes) (sized : (text.length : Int) ≤ maxInt) :
    (∃ visited : List (Int × Int),
      visited.map (fun span => sub text span.1 span.2) =
        ((splitOnByte 44 text).map trimmed).filter (· ≠ []) ∧
      ∀ (σ : Type) (init : σ) (visit : σ → Int → Int → Option σ),
        fold text init visit = visited.foldlM (fun state span => visit state span.1 span.2) init) ∧
    ∀ (capacity : Int) (fits : Int → Int → Bool), Antitone fits →
      ∀ p : Plan,
        (plan capacity fits text = some p ↔
          (fields text).length ≤ capacity ∧
            fits (fields text).length (charsOf (fields text)) ∧
            p = ⟨text, (fields text).length, charsOf (fields text)⟩) ∧
        (plan capacity fits text = some p →
          ∀ zOfString : Bytes → Option Int,
            (∀ strict values, read zOfString strict p = some values →
              (values.size : Int) = p.count) ∧
            ((read zOfString true p).isSome ↔ ∀ field ∈ fields text, (zOfString field).isSome) ∧
            (read zOfString false p).isSome ∧
            ∀ strict count values,
              readFields zOfString strict p = some (count, values) →
                count = p.count) := by
  refine ⟨⟨spans text, map_spans text, fun σ init visit => fold_eq_foldlM text init visit⟩, ?_⟩
  intro capacity fits antitone p
  have planned : plan capacity fits text = some p ↔
      (fields text).length ≤ capacity ∧
        fits (fields text).length (charsOf (fields text)) ∧
        p = ⟨text, (fields text).length, charsOf (fields text)⟩ := by
    rw [plan_eq antitone sized]
    split
    · next admitted => simp [admitted, eq_comm]
    · next refused =>
        simp only [reduceCtorEq, false_iff]
        rintro ⟨room, all, _⟩
        exact refused ⟨room, all⟩
  refine ⟨planned, ?_⟩
  intro accepted zOfString
  obtain ⟨_, _, rfl⟩ := planned.mp accepted
  refine ⟨?_, ?_, ?_, ?_⟩
  · intro strict values found
    rw [read_eq zOfString strict rfl] at found
    obtain ⟨listed, each, rfl⟩ := Option.map_eq_some_iff.mp found
    rw [List.size_toArray, length_of_mapM each]
  · rw [read_eq zOfString true rfl, Option.isSome_map, mapM_isSome_iff]
    apply forall₂_congr
    intro field _
    cases number : zOfString field <;> simp [fieldValue, number]
  · rw [read_eq zOfString false rfl, Option.isSome_map, mapM_isSome_iff]
    intro field _
    cases number : zOfString field <;> simp [fieldValue, number]
  · intro strict count values found
    rw [readFields_eq zOfString strict rfl] at found
    obtain ⟨listed, _, same⟩ := Option.map_eq_some_iff.mp found
    cases same
    rfl

/-- Two numbers, a blank field and some blanks are planned and read. -/
theorem scans_agree_twoFields :
    plan 2 (fun count _ => count ≤ 2) [32, 49, 44, 32, 44, 50, 48, 32] =
        some ⟨[32, 49, 44, 32, 44, 50, 48, 32], 2, 3⟩ ∧
      (read (intOfString int64Bits) true ⟨[32, 49, 44, 32, 44, 50, 48, 32], 2, 3⟩).isSome := by
  have antitone : Antitone fun count _ => count ≤ 2 := by
    intro count count' _ _ _ less _ _ fits
    simp only [decide_eq_true_eq] at fits ⊢
    omega
  obtain ⟨planned, reads⟩ :=
    (scans_agree [32, 49, 44, 32, 44, 50, 48, 32] (by decide)).2 2
      (fun count _ => count ≤ 2) antitone
      ⟨[32, 49, 44, 32, 44, 50, 48, 32], 2, 3⟩
  have accepted := planned.mpr (by decide)
  exact ⟨accepted, (reads accepted (intOfString int64Bits)).2.1.mpr (by decide)⟩

end IntText
end Vm
end LiteNode
