import LiteNode.Data.Decimal

/-!
# JSON texts

The texts that stand for JSON values come from outside; what the code relies on
is that a value reads as it was written. One such writer puts no blanks.
-/

namespace LiteNode

inductive Json
  | null
  | bool (value : Bool)
  | int (value : Int)
  /-- A number that is not a native integer. -/
  | number (text : Bytes)
  | string (text : Bytes)
  | list (items : List Json)
  | assoc (fields : List (String × Json))

/-- Values without numbers that a text might round. -/
inductive Json.Exact : Json → Prop
  | null : Exact .null
  | bool (value : Bool) : Exact (.bool value)
  | int (value : Int) : Exact (.int value)
  | string (text : Bytes) : Exact (.string text)
  | list {items : List Json} (exact : ∀ item ∈ items, Exact item) : Exact (.list items)
  | assoc {fields : List (String × Json)}
      (exact : ∀ field ∈ fields, Exact field.2) : Exact (.assoc fields)

/-- The JSON and base64 texts of the libraries that the code uses. -/
structure Texts where
  print : Json → Bytes
  parse : Bytes → Option Json
  encode : Bytes → Bytes
  decode : Bytes → Option Bytes

/-- What is written reads as itself. -/
structure Texts.Faithful (texts : Texts) : Prop where
  parse_print : ∀ json : Json, json.Exact → texts.parse (texts.print json) = some json
  decode_encode : ∀ raw, texts.decode (texts.encode raw) = some raw

namespace Json

def hexDigit (value : Nat) : UInt8 :=
  if value < 10 then UInt8.ofNat (48 + value) else UInt8.ofNat (87 + value)

/-- Short escapes, by the byte and the letter that stands for it. -/
def escapes : List (UInt8 × UInt8) :=
  [(34, 34), (92, 92), (8, 98), (10, 110), (12, 102), (13, 114), (9, 116)]

def writeByte (byte : UInt8) : Bytes :=
  match escapes.lookup byte with
  | some letter => [92, letter]
  | none =>
    if byte < 32 ∨ byte = 127 then
      [92, 117, 48, 48, hexDigit (byte.toNat / 16), hexDigit (byte.toNat % 16)]
    else [byte]

def writeString (text : Bytes) : Bytes := 34 :: (text.flatMap writeByte ++ [34])

def nameBytes (name : String) : Bytes := name.toUTF8.data.toList

def joined : List Bytes → Bytes
  | [] => []
  | [item] => item
  | item :: rest => item ++ 44 :: joined rest

def write : Json → Bytes
  | .null => Bytes.ofAscii "null"
  | .bool true => Bytes.ofAscii "true"
  | .bool false => Bytes.ofAscii "false"
  | .int value => intToString value
  | .number text => text
  | .string text => writeString text
  | .list items => 91 :: (joined (items.map write) ++ [93])
  | .assoc fields =>
    123 :: (joined (fields.map fun field =>
      writeString (nameBytes field.1) ++ 58 :: write field.2) ++ [125])
decreasing_by
  · decreasing_tactic
  · rename_i listed
    have smaller := List.sizeOf_lt_of_mem listed
    cases field
    simp at smaller ⊢
    omega

def unescapes : List (UInt8 × UInt8) := escapes.map fun (byte, letter) => (letter, byte)

def readByte : Bytes → Option (UInt8 × Bytes)
  | [] => none
  | first :: rest =>
    if first ≠ 92 then some (first, rest)
    else
      match rest with
      | 117 :: _ :: _ :: high :: low :: rest =>
        match parseDigit high, parseDigit low with
        | some high, some low => some (UInt8.ofNat (16 * high + low), rest)
        | _, _ => none
      | letter :: rest => (unescapes.lookup letter).map fun byte => (byte, rest)
      | [] => none

def readString : Nat → Bytes → Option (Bytes × Bytes)
  | 0, _ => none
  | fuel + 1, text =>
    if text.head? = some 34 then some ([], text.tail)
    else
      match readByte text with
      | none => none
      | some (byte, rest) => (readString fuel rest).map fun (bytes, rest) => (byte :: bytes, rest)

def readItems (close : UInt8) (read : Bytes → Option (α × Bytes)) :
    Nat → Bytes → Option (List α × Bytes)
  | 0, _ => none
  | fuel + 1, text =>
    match read text with
    | none => none
    | some (_, []) => none
    | some (item, mark :: rest) =>
      if mark = close then some ([item], rest)
      else if mark = 44 then
        (readItems close read fuel rest).map fun (items, rest) => (item :: items, rest)
      else none

def readSequence (close : UInt8) (read : Bytes → Option (α × Bytes))
    (fuel : Nat) (text : Bytes) : Option (List α × Bytes) :=
  if text.head? = some close then some ([], text.tail)
  else readItems close read fuel text

def inNumber (byte : UInt8) : Bool := byte = 45 || decide (48 ≤ byte ∧ byte ≤ 57)

def readInt (text : Bytes) : Option (Int × Bytes) :=
  let (negative, digits) := parseSign (text.takeWhile inNumber)
  (parseMagnitude 10 digits).map fun (magnitude : Nat) =>
    (if negative then -(magnitude : Int) else magnitude, text.dropWhile inNumber)

def nameOfBytes (name : Bytes) : Option String := String.fromUTF8? ⟨name.toArray⟩

def readField (read : Bytes → Option (Json × Bytes)) (fuel : Nat) :
    Bytes → Option ((String × Json) × Bytes)
  | 34 :: text =>
    match readString fuel text with
    | some (name, 58 :: rest) =>
      match nameOfBytes name, read rest with
      | some name, some (value, rest) => some ((name, value), rest)
      | _, _ => none
    | _ => none
  | _ => none

def readValue : Nat → Bytes → Option (Json × Bytes)
  | 0, _ => none
  | fuel + 1, text =>
    if text.head?.any inNumber then (readInt text).map fun (value, rest) => (.int value, rest)
    else
      match text with
      | 110 :: 117 :: 108 :: 108 :: rest => some (.null, rest)
      | 116 :: 114 :: 117 :: 101 :: rest => some (.bool true, rest)
      | 102 :: 97 :: 108 :: 115 :: 101 :: rest => some (.bool false, rest)
      | 34 :: rest => (readString fuel rest).map fun (text, rest) => (.string text, rest)
      | 91 :: rest =>
        (readSequence 93 (readValue fuel) fuel rest).map fun (items, rest) => (.list items, rest)
      | 123 :: rest =>
        (readSequence 125 (readField (readValue fuel) fuel) fuel rest).map
          fun (fields, rest) => (.assoc fields, rest)
      | _ => none

def read (text : Bytes) : Option Json :=
  match readValue text.length text with
  | some (json, []) => some json
  | _ => none

theorem parseDigit_hexDigit : ∀ value < 16, parseDigit (hexDigit value) = some value := by decide

theorem unescapes_of_mem :
    ∀ entry ∈ escapes, unescapes.lookup entry.2 = some entry.1 ∧ entry.2 ≠ 117 := by
  simp [escapes, unescapes, List.lookup_cons]

/-- How a byte is written: by a letter, by its digits, or as itself. -/
theorem writeByte_cases (byte : UInt8) :
    (∃ letter, (byte, letter) ∈ escapes ∧ writeByte byte = [92, letter]) ∨
      writeByte byte = [92, 117, 48, 48, hexDigit (byte.toNat / 16), hexDigit (byte.toNat % 16)] ∨
      byte ≠ 34 ∧ byte ≠ 92 ∧ writeByte byte = [byte] := by
  unfold writeByte
  cases escaped : escapes.lookup byte with
  | some letter =>
    obtain ⟨before, after, listed, -⟩ := List.lookup_eq_some_iff.mp escaped
    exact Or.inl ⟨letter, by simp [listed], rfl⟩
  | none =>
    have absent := List.lookup_eq_none_iff.mp escaped
    refine Or.inr ?_
    dsimp only
    split
    · exact Or.inl rfl
    · refine Or.inr ⟨?_, ?_, rfl⟩
      · rintro rfl
        exact absurd (absent (34, 34) (by decide)) (by decide)
      · rintro rfl
        exact absurd (absent (92, 92) (by decide)) (by decide)

theorem readByte_writeByte (byte : UInt8) (rest : Bytes) :
    readByte (writeByte byte ++ rest) = some (byte, rest) := by
  rcases writeByte_cases byte with
    ⟨letter, listed, written⟩ | written | ⟨-, plain, written⟩
  · obtain ⟨found, different⟩ := unescapes_of_mem _ listed
    rw [written]
    unfold readByte
    simp only [List.cons_append, List.nil_append, ne_eq, not_true_eq_false, if_false]
    split
    · next clash => exact absurd (List.cons.inj clash).1 different
    · next clash =>
      obtain ⟨rfl, rfl⟩ := List.cons.inj clash
      rw [found]
      rfl
    · next clash => cases clash
  · have range := byte.toNat_lt
    have high := parseDigit_hexDigit (byte.toNat / 16) (by omega)
    have low := parseDigit_hexDigit (byte.toNat % 16) (by omega)
    have whole : UInt8.ofNat (16 * (byte.toNat / 16) + byte.toNat % 16) = byte := by
      rw [Nat.div_add_mod, UInt8.ofNat_toNat]
    rw [written]
    simp only [readByte, List.cons_append, List.nil_append, ne_eq,
      not_true_eq_false, if_false, high, low, whole]
  · rw [written]
    simp [readByte, plain]

theorem head_writeByte_ne (byte : UInt8) (rest : Bytes) :
    (writeByte byte ++ rest).head? ≠ some 34 := by
  rcases writeByte_cases byte with
    ⟨letter, -, written⟩ | written | ⟨plain, -, written⟩
  · rw [written]
    simp
  · rw [written]
    simp
  · rw [written]
    simpa using plain

variable {fuel : Nat} {rest : Bytes} {json : Json}

theorem readString_writeString (text rest : Bytes) (enough : text.length < fuel) :
    readString fuel (text.flatMap writeByte ++ 34 :: rest) = some (text, rest) := by
  induction text generalizing fuel with
  | nil =>
    obtain ⟨fuel, rfl⟩ := Nat.exists_eq_succ_of_ne_zero (Nat.ne_of_gt enough)
    rfl
  | cons byte text ih =>
    obtain ⟨fuel, rfl⟩ : ∃ less, fuel = less + 1 := ⟨fuel - 1, by omega⟩
    rw [List.flatMap_cons, List.append_assoc, readString,
      if_neg (head_writeByte_ne byte _), readByte_writeByte]
    dsimp only
    rw [ih (by simpa using enough)]
    rfl

/-- A text that does not go on with a number. -/
def Delimited (rest : Bytes) : Prop := ∀ byte ∈ rest.head?, inNumber byte = false

theorem delimited_cons {byte : UInt8} (outside : inNumber byte = false)
    (rest : Bytes) : Delimited (byte :: rest) := by
  intro first here
  cases here
  exact outside

theorem inNumber_intToString (n : Int) : ∀ byte ∈ intToString n, inNumber byte = true := by
  have digits : ∀ byte ∈ decimal n.natAbs, inNumber byte = true := by
    intro byte listed
    unfold inNumber
    rw [Bool.or_eq_true, decide_eq_true_eq, decide_eq_true_eq]
    exact Or.inr (digit_of_mem_decimal _ byte listed)
  unfold intToString
  intro byte listed
  split at listed
  · rcases List.mem_cons.mp listed with rfl | later
    · decide
    · exact digits byte later
  · exact digits byte listed

theorem readInt_intToString (n : Int) (delimited : Delimited rest) :
    readInt (intToString n ++ rest) = some (n, rest) := by
  have inside := inNumber_intToString n
  have taken : rest.takeWhile inNumber = [] := by
    cases rest with
    | nil => rfl
    | cons first rest => exact List.takeWhile_cons_of_neg (by simp [delimited first rfl])
  have dropped : rest.dropWhile inNumber = rest := by
    cases rest with
    | nil => rfl
    | cons first rest => exact List.dropWhile_cons_of_neg (by simp [delimited first rfl])
  unfold readInt
  rw [List.takeWhile_append_of_pos inside, taken, List.append_nil,
    List.dropWhile_append_of_pos inside, dropped]
  unfold intToString
  by_cases negative : n < 0
  · have sign : parseSign (45 :: decimal n.natAbs) = (true, decimal n.natAbs) := rfl
    have value : -(n.natAbs : Int) = n := by omega
    rw [if_pos negative, sign]
    dsimp only
    rw [parseMagnitude_decimal, Option.map_some, if_pos rfl, value]
  · have value : (n.natAbs : Int) = n := by omega
    rw [if_neg negative, parseSign_decimal]
    dsimp only
    rw [parseMagnitude_decimal, Option.map_some, if_neg Bool.false_ne_true, value]

section Sequences

variable {α : Type u} {close : UInt8} {read : Bytes → Option (α × Bytes)} {write : α → Bytes}

theorem readItems_joined (outside : inNumber close = false) (different : (44 : UInt8) ≠ close)
    {items : List α} (nonempty : items ≠ []) (reads : ∀ item ∈ items, ∀ rest, Delimited rest →
      read (write item ++ rest) = some (item, rest))
    {fuel : Nat} (enough : items.length ≤ fuel) (rest : Bytes) :
    readItems close read fuel (joined (items.map write) ++ close :: rest) = some (items, rest) := by
  induction items generalizing fuel with
  | nil => exact absurd rfl nonempty
  | cons item items ih =>
    obtain ⟨fuel, rfl⟩ : ∃ less, fuel = less + 1 :=
      ⟨fuel - 1, by rw [List.length_cons] at enough; omega⟩
    have here := reads item List.mem_cons_self
    cases items with
    | nil =>
      unfold readItems
      rw [List.map_singleton, joined, here _ (delimited_cons outside rest)]
      exact if_pos rfl
    | cons second items =>
      have later := ih (List.cons_ne_nil _ _)
        (fun other listed => reads other (List.mem_cons_of_mem _ listed))
        (by simpa using enough)
      have split : joined ((item :: second :: items).map write) ++ close :: rest =
          write item ++ 44 :: (joined ((second :: items).map write) ++ close :: rest) := by
        rw [List.map_cons, List.map_cons, joined, List.append_assoc, List.cons_append]
        simp
      rw [split]
      unfold readItems
      rw [here _ (delimited_cons (by decide) _)]
      dsimp only
      rw [if_neg different, if_pos rfl, later]
      rfl

theorem readSequence_joined
    (outside : inNumber close = false) (different : (44 : UInt8) ≠ close) {items : List α}
    (starts : ∀ item ∈ items, ∀ rest, (write item ++ rest).head? ≠ some close)
    (reads : ∀ item ∈ items, ∀ rest, Delimited rest → read (write item ++ rest) = some (item, rest))
    {fuel : Nat} (enough : items.length ≤ fuel) (rest : Bytes) :
    readSequence close read fuel (joined (items.map write) ++ close :: rest) =
      some (items, rest) := by
  unfold readSequence
  cases items with
  | nil => exact if_pos rfl
  | cons item items =>
    rw [if_neg ?_, readItems_joined outside different (List.cons_ne_nil _ _) reads enough]
    have first := starts item List.mem_cons_self
    cases items with
    | nil => exact first _
    | cons second items =>
      rw [List.map_cons, List.map_cons, joined, List.append_assoc]
      · exact first _
      · exact fun impossible => by cases impossible

end Sequences

theorem length_le_flatMap_writeByte (text : Bytes) :
    text.length ≤ (text.flatMap writeByte).length := by
  induction text with
  | nil => exact le_refl 0
  | cons byte text ih =>
    have written : 1 ≤ (writeByte byte).length := by
      rcases writeByte_cases byte with
        ⟨letter, -, written⟩ | written | ⟨-, -, written⟩ <;> simp [written]
    rw [List.flatMap_cons, List.length_append, List.length_cons]
    omega

theorem nameOfBytes_nameBytes (name : String) : nameOfBytes (nameBytes name) = some name := by
  have same : (⟨name.toUTF8.data.toList.toArray⟩ : ByteArray) = name.toUTF8 := by
    rw [Array.toArray_toList]
  unfold nameOfBytes nameBytes
  rw [same]
  exact dif_pos name.isValidUTF8

/-- Every item is no longer than what joins the items. -/
theorem length_le_joined {item : Bytes} {items : List Bytes} (listed : item ∈ items) :
    item.length ≤ (joined items).length := by
  induction items using joined.induct with
  | case1 => cases listed
  | case2 only =>
    rw [List.mem_singleton.mp listed]
    exact le_refl _
  | case3 first rest short ih =>
    rw [joined]
    · rw [List.length_append, List.length_cons]
      rcases List.mem_cons.mp listed with rfl | later
      · omega
      · have bound := ih later
        omega
    · exact short

theorem count_le_joined {items : List Bytes} (nonempty : ∀ item ∈ items, item ≠ []) :
    items.length ≤ (joined items).length := by
  induction items using joined.induct with
  | case1 => exact le_refl 0
  | case2 only =>
    have here := List.length_pos_of_ne_nil (nonempty only List.mem_cons_self)
    rw [joined, List.length_singleton]
    exact here
  | case3 first rest short ih =>
    have bound := ih fun item listed => nonempty item (List.mem_cons_of_mem _ listed)
    rw [joined]
    · rw [List.length_append, List.length_cons, List.length_cons]
      omega
    · exact short

/-- The first byte of a value closes no sequence. -/
theorem head_write (exact : json.Exact) :
    ∃ first rest, json.write = first :: rest ∧ first ≠ 93 ∧ first ≠ 125 := by
  cases exact with
  | null => exact ⟨110, _, by rw [write]; rfl, by decide, by decide⟩
  | bool value =>
    cases value with
    | true => exact ⟨116, _, by rw [write]; rfl, by decide, by decide⟩
    | false => exact ⟨102, _, by rw [write]; rfl, by decide, by decide⟩
  | int value =>
    have inside := inNumber_intToString value
    rw [write]
    cases digits : intToString value with
    | nil =>
      unfold intToString at digits
      split at digits
      · cases digits
      · exact absurd digits (decimal_ne_nil _)
    | cons first rest =>
      have number := inside first (by simp [digits])
      refine ⟨first, rest, rfl, ?_, ?_⟩
      · rintro rfl
        exact absurd number (by decide)
      · rintro rfl
        exact absurd number (by decide)
  | string text => exact ⟨34, _, by rw [write, writeString], by decide, by decide⟩
  | list items => exact ⟨91, _, by rw [write], by decide, by decide⟩
  | assoc fields => exact ⟨123, _, by rw [write], by decide, by decide⟩

theorem exists_fuel (exact : json.Exact)
    (enough : json.write.length ≤ fuel) : ∃ less, fuel = less + 1 := by
  obtain ⟨first, rest, written, -, -⟩ := head_write exact
  rw [written, List.length_cons] at enough
  exact ⟨fuel - 1, by omega⟩

theorem readString_of_writeString {text : Bytes}
    (enough : (writeString text).length ≤ fuel + 1) (rest : Bytes) :
    readString fuel (text.flatMap writeByte ++ 34 :: rest) = some (text, rest) := by
  have bound := length_le_flatMap_writeByte text
  apply readString_writeString
  simp only [writeString, List.length_cons, List.length_append, List.length_nil] at enough
  omega

def writeField (field : String × Json) : Bytes :=
  writeString (nameBytes field.1) ++ 58 :: field.2.write

theorem write_assoc (fields : List (String × Json)) :
    write (.assoc fields) = 123 :: (joined (fields.map writeField) ++ [125]) := by
  rw [write]
  rfl

theorem readField_writeField {field : String × Json} (enough : (writeField field).length ≤ fuel)
    {read : Bytes → Option (Json × Bytes)}
    (reads : read (field.2.write ++ rest) = some (field.2, rest)) :
    readField read fuel (writeField field ++ rest) = some (field, rest) := by
  unfold writeField at enough ⊢
  rw [List.length_append, List.length_cons] at enough
  have short : (writeString (nameBytes field.1)).length ≤ fuel + 1 := by omega
  have text := readString_of_writeString short (58 :: (field.2.write ++ rest))
  unfold writeString
  simp only [List.cons_append, List.append_assoc, List.nil_append, readField,
    text, nameOfBytes_nameBytes, reads]

theorem readValue_string (fuel : Nat) (rest : Bytes) :
    readValue (fuel + 1) (34 :: rest) =
      (readString fuel rest).map fun (text, rest) => (.string text, rest) :=
  rfl

theorem readValue_list (fuel : Nat) (rest : Bytes) :
    readValue (fuel + 1) (91 :: rest) =
      (readSequence 93 (readValue fuel) fuel rest).map fun (items, rest) => (.list items, rest) :=
  rfl

theorem readValue_assoc (fuel : Nat) (rest : Bytes) :
    readValue (fuel + 1) (123 :: rest) =
      (readSequence 125 (readField (readValue fuel) fuel) fuel rest).map
        fun (fields, rest) => (.assoc fields, rest) :=
  rfl

/-- A joined part and the number of parts are within a length. -/
theorem joined_bounds {items : List α} {write : α → Bytes} {length : Nat}
    (nonempty : ∀ item ∈ items, write item ≠ [])
    (enough : (joined (items.map write)).length ≤ length) :
    items.length ≤ length ∧ ∀ item ∈ items, (write item).length ≤ length := by
  constructor
  · have bound : (items.map write).length ≤ (joined (items.map write)).length :=
      count_le_joined fun text listed => by
        obtain ⟨item, present, rfl⟩ := List.mem_map.mp listed
        exact nonempty item present
    rw [List.length_map] at bound
    exact bound.trans enough
  · exact fun item listed => (length_le_joined (List.mem_map_of_mem listed)).trans enough

theorem readValue_write (exact : json.Exact) (enough : json.write.length ≤ fuel)
    (delimited : Delimited rest) : readValue fuel (json.write ++ rest) = some (json, rest) := by
  induction exact generalizing fuel rest with
  | null =>
    obtain ⟨fuel, rfl⟩ := exists_fuel .null enough
    rw [write]
    rfl
  | bool value =>
    obtain ⟨fuel, rfl⟩ := exists_fuel (.bool value) enough
    cases value <;> (rw [write]; rfl)
  | int value =>
    obtain ⟨fuel, rfl⟩ := exists_fuel (.int value) enough
    obtain ⟨first, tail, written, -, -⟩ := head_write (.int value)
    have inside : inNumber first = true := by
      rw [write] at written
      exact inNumber_intToString value first (by simp [written])
    have number : (((Json.int value).write ++ rest).head?.any inNumber) = true := by
      rw [written]
      exact inside
    unfold readValue
    rw [if_pos number, write, readInt_intToString value delimited]
    rfl
  | string text =>
    obtain ⟨fuel, rfl⟩ := exists_fuel (.string text) enough
    rw [write] at enough ⊢
    have read := readString_of_writeString enough rest
    unfold writeString
    rw [List.cons_append, List.append_assoc, List.singleton_append, readValue_string, read]
    rfl
  | @list items exact ih =>
    obtain ⟨fuel, rfl⟩ := exists_fuel (.list exact) enough
    rw [write] at enough ⊢
    rw [List.length_cons, List.length_append, List.length_singleton] at enough
    have nonempty : ∀ item ∈ items, item.write ≠ [] := by
      intro item listed
      obtain ⟨first, tail, written, -, -⟩ := head_write (exact item listed)
      simp [written]
    obtain ⟨count, within⟩ := joined_bounds nonempty (show _ ≤ fuel by omega)
    have read : readSequence 93 (readValue fuel) fuel
        (joined (items.map write) ++ 93 :: rest) = some (items, rest) := by
      apply readSequence_joined (by decide) (by decide) _ _ count
      · intro item listed rest
        obtain ⟨first, tail, written, notClose, -⟩ := head_write (exact item listed)
        rw [written]
        simpa using notClose
      · intro item listed rest delimited
        exact ih item listed (within item listed) delimited
    rw [List.cons_append, List.append_assoc, List.singleton_append, readValue_list, read]
    rfl
  | @assoc fields exact ih =>
    obtain ⟨fuel, rfl⟩ := exists_fuel (.assoc exact) enough
    rw [write_assoc] at enough ⊢
    rw [List.length_cons, List.length_append, List.length_singleton] at enough
    have nonempty : ∀ field ∈ fields, writeField field ≠ [] := by
      intro field _
      simp [writeField, writeString]
    obtain ⟨count, within⟩ := joined_bounds nonempty (show _ ≤ fuel by omega)
    have read : readSequence 125 (readField (readValue fuel) fuel) fuel
        (joined (fields.map writeField) ++ 125 :: rest) = some (fields, rest) := by
      apply readSequence_joined (by decide) (by decide) _ _ count
      · intro field listed rest
        simp [writeField, writeString]
      · intro field listed rest delimited
        have bound := within field listed
        apply readField_writeField bound
        apply ih field listed _ delimited
        unfold writeField at bound
        rw [List.length_append, List.length_cons] at bound
        omega
    rw [List.cons_append, List.append_assoc, List.singleton_append, readValue_assoc, read]
    rfl

theorem read_write (exact : json.Exact) : read json.write = some json := by
  have whole := readValue_write exact (le_refl _)
    (show Delimited [] from fun _ here => by cases here)
  rw [List.append_nil] at whole
  unfold read
  rw [whole]

end Json
end LiteNode
