import LiteNode.Chaindata.EpochLog

/-!
# What operations on the epoch log do

An open log is given by the headers in its file: they determine the offsets and
the newest header that are kept in memory. Appending adds a header, a cut drops
the headers behind it, and a scan finds what was kept in memory.
-/

namespace LiteNode
namespace EpochLog

variable {F : Type} {codec : Codec F}

/-- A header with its text. -/
structure Item (F : Type) where
  header : StoredHeader F
  payload : Bytes

/-- The text is that of the header and reads as it, and is not too long. -/
structure Item.Written (codec : Codec F) (item : Item F) : Prop where
  text : codec.epochToJson item.header = .ok item.payload
  read : codec.epochOfJson item.payload = some item.header
  size : item.payload.length + 4 ≤ maxRecordLen

def body (codec : Codec F) (item : Item F) : Bytes := item.payload ++ codec.checksum item.payload

def contentOf (codec : Codec F) (items : List (Item F)) : Bytes :=
  fileHeader ++ frames (body codec) items

/-- Headers with the offsets at which they stand. -/
def stands (codec : Codec F) (items : List (Item F)) : List (Nat × Item F) :=
  placed (body codec) headerSize items

def note (found : Found F) (place : Nat × Item F) : Found F :=
  (found.1.replace place.2.header.id place.1, some place.2.header)

def foundOf (codec : Codec F) (items : List (Item F)) : Found F :=
  (stands codec items).foldl note (∅, none)

/-- The log that has these headers in its file. -/
def stateOf (codec : Codec F) (items : List (Item F)) : State F where
  content := contentOf codec items
  log := {
    readonly := false
    offsets := (foundOf codec items).1
    tip := (foundOf codec items).2
    cut := none }

theorem length_fileHeader : fileHeader.length = headerSize := by
  rfl

theorem length_contentOf (items : List (Item F)) :
    (contentOf codec items).length = headerSize + (frames (body codec) items).length := by
  unfold contentOf
  rw [List.length_append, length_fileHeader]

theorem take_fileHeader (rest : Bytes) : (fileHeader ++ rest).take 4 = magic := by
  unfold fileHeader
  rw [List.append_assoc]
  exact List.take_left' (by decide)

theorem readVersion_fileHeader (rest : Bytes) : readVersion (fileHeader ++ rest) = version := by
  unfold readVersion fileHeader
  have behind : (magic ++ (putLittle 2 version ++ List.replicate 10 0) ++
      rest).drop 4 = putLittle 2 version ++ List.replicate 10 0 ++ rest := by
    rw [List.append_assoc]
    exact List.drop_left' (by decide)
  rw [behind, List.append_assoc]
  rfl

theorem contentOf_append (items rest : List (Item F)) :
    contentOf codec (items ++ rest) = contentOf codec items ++ frames (body codec) rest := by
  unfold contentOf
  rw [frames_append, List.append_assoc]

theorem foundOf_append (items : List (Item F)) (item : Item F) :
    foundOf codec (items ++ [item]) =
      note (foundOf codec items) ((contentOf codec items).length, item) := by
  unfold foundOf stands
  rw [placed_append, List.foldl_append, length_contentOf]
  rfl

/-- The newest header is the last one. -/
theorem tip_foundOf (items : List (Item F)) :
    (foundOf codec items).2 = items.getLast?.map Item.header := by
  induction items using List.reverseRecOn with
  | nil => rfl
  | append_singleton items item ih =>
    rw [foundOf_append, List.getLast?_append]
    rfl

theorem stands_append (items : List (Item F)) (item : Item F) :
    stands codec (items ++ [item]) =
      stands codec items ++ [((contentOf codec items).length, item)] := by
  unfold stands
  rw [placed_append, length_contentOf]
  rfl

/-- Each header is kept at its offset, and no other. -/
theorem find?_foundOf {items : List (Item F)}
    (distinct : (items.map fun item => item.header.id).Nodup) :
    (∀ offset item, (offset, item) ∈ stands codec items →
      (foundOf codec items).1.find? item.header.id = some offset) ∧
    ∀ id, id ∉ items.map (fun item => item.header.id) →
      (foundOf codec items).1.find? id = none := by
  induction items using List.reverseRecOn with
  | nil => exact ⟨fun offset item listed => absurd listed List.not_mem_nil, fun id _ => rfl⟩
  | append_singleton items last ih =>
    rw [List.map_append] at distinct
    obtain ⟨former, -, apart⟩ := List.nodup_append.mp distinct
    obtain ⟨kept, absent⟩ := ih former
    rw [foundOf_append]
    dsimp only [note]
    refine ⟨?_, ?_⟩
    · intro offset item listed
      rw [stands_append] at listed
      rcases List.mem_append.mp listed with before | here
      · have other : item.header.id ≠ last.header.id := by
          refine apart _ ?_ _ (List.mem_singleton.mpr rfl)
          exact List.mem_map_of_mem (placed_mem before)
        rw [Table.find?_replace_ne other]
        exact kept offset item before
      · cases List.mem_singleton.mp here
        exact Table.find?_replace _ _ _
    · intro id outside
      rw [List.map_append, List.mem_append, not_or] at outside
      have other : id ≠ last.header.id := fun same => outside.2 (List.mem_singleton.mpr same)
      rw [Table.find?_replace_ne other]
      exact absent id outside.1

section Records

variable (sized : ∀ bytes, (codec.sha256 bytes).length = 32)

include sized

theorem length_checksum (payload : Bytes) : (codec.checksum payload).length = 4 := by
  unfold Codec.checksum
  rw [List.length_take, sized]
  rfl

theorem length_body (item : Item F) : (body codec item).length = item.payload.length + 4 := by
  unfold body
  rw [List.length_append, length_checksum sized]

theorem recordBytes_eq_frame (item : Item F) :
    recordBytes codec item.payload = frame (body codec item) := by
  unfold recordBytes frame
  rw [length_body sized]
  rfl

variable {item : Item F} {items rest : List (Item F)} {offset size : Nat}

omit sized in
theorem payload_body (item : Item F) : (body codec item).take item.payload.length = item.payload :=
  List.take_left

omit sized in
theorem drop_body (item : Item F) :
    (body codec item).drop item.payload.length = codec.checksum item.payload :=
  List.drop_left

/-- What is read at the place of a header. -/
theorem exactBytes_stands (written : item.Written codec)
    (here : (offset, item) ∈ stands codec items) :
    ∃ lengthBytes, exactBytes (contentOf codec (items ++ rest)) offset 4 = some lengthBytes ∧
      ofLittleEndian lengthBytes = item.payload.length + 4 ∧
      exactBytes (contentOf codec (items ++ rest)) (offset + 4)
        (item.payload.length + 4) = some (body codec item) ∧
      offset + 4 + (item.payload.length + 4) ≤ (contentOf codec items).length := by
  have bytes := length_body sized item
  have size := written.size
  unfold maxRecordLen at size
  unfold stands at here
  rw [← length_fileHeader] at here
  obtain ⟨length, whole, inside⟩ := @exactBytes_placed _ _ _ _ _ _ (frames (body codec) rest) here
  rw [bytes] at length whole inside
  rw [length_fileHeader, ← length_contentOf] at inside
  have same : contentOf codec (items ++ rest) =
      fileHeader ++ (frames (body codec) items ++ frames (body codec) rest) := by
    unfold contentOf
    rw [frames_append]
  have fits : FitsBytes 4 ((item.payload.length + 4 : Nat) : Int) := by
    constructor
    · omega
    · norm_num
      omega
  rw [← same] at length whole
  refine ⟨_, length, ?_, whole, inside⟩
  have read := ofLittleEndian_putLittle fits
  exact_mod_cast read

omit sized in
theorem recordLengthValid_iff {remaining recordLen : Nat} :
    recordLengthValid remaining recordLen = true ↔
      4 ≤ recordLen ∧ recordLen ≤ maxRecordLen ∧ recordLen ≤ remaining := by
  simp [recordLengthValid, and_assoc]

/-- A header is read where it stands, if it lies before the end. -/
theorem inspectRecord_stands (written : item.Written codec)
    (here : (offset, item) ∈ stands codec items)
    (within : offset + 4 + (item.payload.length + 4) ≤ size) :
    inspectRecord codec (contentOf codec (items ++ rest)) size offset =
      .ok (item.header, item.payload.length + 4) := by
  obtain ⟨lengthBytes, length, read, whole, -⟩ :=
    @exactBytes_stands _ _ sized _ _ rest _ written here
  have valid := recordLengthValid_iff.mpr ⟨(show 4 ≤ item.payload.length + 4 by
    omega), written.size, (show item.payload.length + 4 ≤ size - offset - 4 by omega)⟩
  have four := length_checksum sized item.payload
  unfold inspectRecord
  rw [if_neg (by omega), length]
  dsimp only
  rw [read, valid, if_neg (by simp), whole]
  dsimp only
  rw [Nat.add_sub_cancel, payload_body, drop_body,
    List.take_of_length_le (by omega), if_neg (by simp), written.read]

/-- What is read at a place where a header stands is before the end. -/
theorem inspectRecord_within (written : item.Written codec)
    (here : (offset, item) ∈ stands codec items) {epoch : StoredHeader F} {length : Nat}
    (read : inspectRecord codec (contentOf codec (items ++ rest)) size offset =
      .ok (epoch, length)) :
    length = item.payload.length + 4 ∧ offset + 4 + length ≤ size := by
  obtain ⟨lengthBytes, prefixed, number, whole, -⟩ :=
    @exactBytes_stands _ _ sized _ _ rest _ written here
  unfold inspectRecord at read
  split at read
  · cases read
  rw [prefixed] at read
  dsimp only at read
  rw [number, whole] at read
  split at read
  · cases read
  next valid =>
  have fits := recordLengthValid_iff.mp ((Bool.not_eq_false _).mp valid)
  dsimp only at read
  split at read
  · cases read
  split at read
  · cases read
  · cases read
    omega

/-! ## Folds -/

section Folds

variable {σ : Type} (visit : σ → StoredHeader F → Except String σ)

/-- Visit a header, and name its place where it is rejected. -/
def visitOrReject (state : σ) (place : Nat × StoredHeader F) : Except ReadError σ :=
  (visit state place.2).mapError (ReadError.logRecordRejected place.1)

/-- Visit a header with an epoch that was not seen before. -/
def visitUnseen (state : σ × List Int) (place : Nat × Item F) : Except ReadError (σ × List Int) :=
  if place.2.header.id ∈ state.2 then .error (.logEpochDuplicate place.2.header.id)
  else
    (visitOrReject visit state.1 (place.1, place.2.header)).map fun after =>
      (after, place.2.header.id :: state.2)

variable {visit}

theorem visitRecord_stands {state : σ × List Int}
    (written : item.Written codec) (here : (offset, item) ∈ stands codec items)
    (within : offset + 4 + (item.payload.length + 4) ≤ size) :
    visitRecord codec visit (contentOf codec (items ++ rest)) size state
        offset =
      (visitUnseen visit state (offset, item)).map fun after =>
        (after, offset + (frame (body codec item)).length) := by
  have read := @inspectRecord_stands _ _ sized _ _ rest _ _ written here within
  unfold visitRecord visitUnseen
  rw [read, length_frame, length_body sized]
  dsimp only
  split
  · rfl
  · unfold visitOrReject
    cases visit state.1 item.header with
    | error reason => rfl
    | ok after =>
      dsimp only [Except.map, Except.mapError]
      rw [Nat.add_assoc]

omit sized in
/-- Distinct epochs are not seen before. -/
theorem foldlM_visitUnseen {places : List (Nat × Item F)} {seen : List Int}
    (distinct : (places.map fun place => place.2.header.id).Nodup)
    (unseen : ∀ place ∈ places, place.2.header.id ∉ seen) (init : σ) :
    (places.foldlM (visitUnseen visit) (init, seen)).map Prod.fst =
      (places.map fun place => (place.1, place.2.header)).foldlM (visitOrReject visit) init := by
  induction places generalizing seen init with
  | nil => rfl
  | cons place places ih =>
    obtain ⟨apart, distinct⟩ := List.nodup_cons.mp distinct
    obtain ⟨new, unseen⟩ := List.forall_mem_cons.mp unseen
    rw [List.map_cons, List.foldlM_cons, List.foldlM_cons, visitUnseen, if_neg new]
    cases visitOrReject visit init (place.1, place.2.header) with
    | error error => rfl
    | ok after =>
      refine ih distinct ?_ after
      intro other listed again
      rcases List.mem_cons.mp again with same | former
      · exact apart (List.mem_map.mpr ⟨other, listed, same⟩)
      · exact unseen other listed former

omit sized in
theorem map_stands (items : List (Item F)) : (stands codec items).map Prod.snd = items := by
  have places : ∀ start, (placed (body codec) start items).map Prod.snd = items := by
    induction items with
    | nil => exact fun start => rfl
    | cons item items ih =>
      intro start
      rw [placed, List.map_cons, ih]
  exact places headerSize

omit sized in
theorem ids_stands (items : List (Item F)) :
    (stands codec items).map (fun place => place.2.header.id) =
      items.map fun item => item.header.id := by
  conv_rhs => rw [← @map_stands _ codec items]
  rw [List.map_map]
  rfl

/-- Headers with their offsets. -/
def keptOf (codec : Codec F) (items : List (Item F)) : List (Nat × StoredHeader F) :=
  (stands codec items).map fun place => (place.1, place.2.header)

omit sized in
theorem headers_keptOf (items : List (Item F)) :
    (keptOf codec items).map Prod.snd = items.map Item.header := by
  conv_rhs => rw [← @map_stands _ codec items]
  unfold keptOf
  rw [List.map_map, List.map_map]
  rfl

variable {s : State F}

/-- A fold up to a boundary visits the headers before it. -/
theorem foldStrict_eq {endAt : Option Nat} {init : σ}
    (content : s.content = contentOf codec (items ++ rest))
    (written : ∀ item ∈ items, item.Written codec)
    (distinct : (items.map fun item => item.header.id).Nodup)
    (ends : endAt.getD s.content.length = (contentOf codec items).length) :
    foldStrict codec visit s endAt init =
      (keptOf codec items).foldlM (visitOrReject visit) init := by
  have header := @length_contentOf _ codec items
  have longer : (contentOf codec items).length ≤ s.content.length := by
    rw [content, contentOf_append, List.length_append]
    omega
  have magical : s.content.take 4 = magic := by
    rw [content]
    exact take_fileHeader _
  have current : readVersion s.content = version := by
    rw [content]
    exact readVersion_fileHeader _
  unfold foldStrict
  rw [ends, if_neg (by omega), if_neg (by omega),
    if_neg (not_not.mpr magical), if_neg (fun both => both.2 current), keptOf,
    ← @foldlM_visitUnseen _ _ _ _ [] (by rw [ids_stands]; exact distinct) (by simp)]
  congr 1
  refine scanRecords_placed ?_ header (by omega) (init, [])
  intro state offset item here
  have inside : offset + 4 + (item.payload.length + 4) ≤ (contentOf codec items).length := by
    obtain ⟨_, -, -, -, inside⟩ := @exactBytes_stands _ _ sized _ _ rest _
      (written item (placed_mem here)) here
    exact inside
  rw [content]
  exact visitRecord_stands sized (written item (placed_mem here)) here inside

theorem boundary_of_foldStrict {init result : σ} (content : s.content = contentOf codec items)
    (written : ∀ item ∈ items, item.Written codec)
    (done : foldStrict codec visit s (some size) init = .ok result) :
    ∃ kept dropped, items = kept ++ dropped ∧ size = (contentOf codec kept).length := by
  have header := @length_contentOf _ codec items
  unfold foldStrict at done
  dsimp only [Option.getD_some] at done
  split at done
  · cases done
  next inside =>
  split at done
  · cases done
  next begun =>
  split at done
  · cases done
  split at done
  · cases done
  rw [content] at inside done
  cases scanned : scanRecords
      (visitRecord codec visit (contentOf codec items) size)
      (.logIo "no end") size size (init, ([] : List Int)) headerSize with
  | error error =>
    rw [scanned] at done
    cases done
  | ok after =>
    have reads : ∀ (state : σ × List Int) offset item,
        (offset, item) ∈ placed (body codec) headerSize items →
        ∀ after offset', visitRecord codec visit (contentOf codec items) size
          state offset = .ok (after, offset') →
        offset' = offset + (frame (body codec item)).length ∧ offset' ≤ size := by
      intro state offset item here after offset' stepped
      unfold visitRecord at stepped
      split at stepped
      · cases stepped
      next epoch length read =>
      have within := @inspectRecord_within _ _ sized _ _ [] _ _
        (written item (placed_mem here)) here _ _
        (by rw [List.append_nil]; exact read)
      rw [length_frame, length_body sized]
      split at stepped
      · cases stepped
      split at stepped
      · cases stepped
      · cases stepped
        omega
    obtain ⟨kept, dropped, split, ends⟩ :=
      boundary_of_scanRecords reads (by omega) (by omega) scanned
    exact ⟨kept, dropped, split, ends.trans (length_contentOf kept).symm⟩

end Folds

theorem scanFrom_placed {content : Bytes} {found : Found F} {start fuel : Nat}
    (reads : ∀ offset item, (offset, item) ∈ placed (body codec) start items →
      item.Written codec ∧ ∃ lengthBytes, exactBytes content offset 4 = some lengthBytes ∧
        ofLittleEndian lengthBytes = item.payload.length + 4 ∧
        exactBytes content (offset + 4) (item.payload.length + 4) = some (body codec item) ∧
        offset + 4 + (item.payload.length + 4) ≤ content.length)
    (whole : content.length = start + (frames (body codec) items).length)
    (enough : content.length ≤ start + fuel) :
    scanFrom codec content fuel found start =
      (placed (body codec) start items).foldl note found := by
  induction items generalizing start fuel found with
  | nil =>
    rw [frames_nil, List.length_nil] at whole
    cases fuel with
    | zero => rfl
    | succ fuel =>
      rw [scanFrom, if_neg (by omega)]
      rfl
  | cons item items ih =>
    obtain ⟨written, lengthBytes, length, number, bytes, inside⟩ :=
      reads start item List.mem_cons_self
    have size := length_body sized item
    rw [frames_cons, List.length_append, length_frame] at whole
    cases fuel with
    | zero => omega
    | succ fuel =>
      have valid : recordLengthValid (content.length - start - 4)
          (item.payload.length + 4) = true :=
        recordLengthValid_iff.mpr ⟨by omega, written.size, by omega⟩
      have noted : noteRecord codec found start (body codec item) = note found (start, item) := by
        unfold noteRecord note
        rw [size, Nat.add_sub_cancel, drop_body, payload_body, if_pos rfl, written.read]
      have next : start + 4 + (item.payload.length + 4) =
          start + (frame (body codec item)).length := by
        rw [length_frame, size]
        omega
      rw [scanFrom, if_pos (by omega), length]
      dsimp only
      rw [number, if_pos valid, bytes]
      dsimp only
      rw [noted, next, placed, List.foldl_cons]
      refine ih ?_ ?_ ?_
      · intro offset other here
        exact reads offset other (List.mem_cons_of_mem _ here)
      · rw [length_frame]
        omega
      · rw [length_frame]
        omega

/-- A scan finds what is kept in memory. -/
theorem scanFile_contentOf (written : ∀ item ∈ items, item.Written codec) :
    scanFile codec (contentOf codec items) = foundOf codec items := by
  refine scanFrom_placed sized ?_ (length_contentOf items) (by omega)
  intro offset item here
  have passed := written item (placed_mem here)
  obtain ⟨lengthBytes, length, number, bytes, inside⟩ :=
    @exactBytes_stands _ _ sized _ _ [] _ passed here
  rw [List.append_nil] at length bytes
  exact ⟨passed, lengthBytes, length, number, bytes, inside⟩

theorem openLog_contentOf (written : ∀ item ∈ items, item.Written codec) :
    openLog codec false (some (some (contentOf codec items))) = .ok (stateOf codec items) := by
  have header := @length_contentOf _ codec items
  have valid : validateFileHeader (contentOf codec items) = .ok () := by
    have magical : (contentOf codec items).take 4 = magic := take_fileHeader _
    have current : readVersion (contentOf codec items) = version := readVersion_fileHeader _
    unfold validateFileHeader
    rw [if_neg (by omega), if_neg (not_not.mpr magical), if_neg (fun both => both.2 current)]
  unfold openLog
  dsimp only
  rw [valid, scanFile_contentOf sized written]
  rfl

/-- A header is found under its epoch, with where it stands. -/
theorem readRecord_stands {s : State F} (passed : item.Written codec)
    (content : s.content = contentOf codec items)
    (found : s.log.offsets.find? item.header.id = some offset)
    (here : (offset, item) ∈ stands codec items) :
    readRecord codec s item.header.id = .ok (offset, item.payload.length + 4, item.header) := by
  obtain ⟨lengthBytes, length, number, bytes, inside⟩ :=
    @exactBytes_stands _ _ sized _ _ [] _ passed here
  rw [List.append_nil, ← content] at length bytes
  rw [← content] at inside
  have valid := recordLengthValid_iff.mpr ⟨(show 4 ≤ item.payload.length + 4 by
    omega), passed.size, (show item.payload.length + 4 ≤ s.content.length - offset - 4 by omega)⟩
  have four := length_checksum sized item.payload
  unfold readRecord
  rw [found]
  dsimp only
  rw [length]
  dsimp only
  rw [number, if_neg (by rw [valid]; simp), bytes]
  dsimp only
  rw [Nat.add_sub_cancel, payload_body, drop_body,
    List.take_of_length_le (by omega), if_neg (by simp), passed.read]
  exact if_pos rfl

omit sized in
theorem readRecord_absent {s : State F} {id : Int} (absent : s.log.offsets.find? id = none) :
    readRecord codec s id = .error (.logEpochMissing id) := by
  unfold readRecord
  rw [absent]

/-- A header is appended behind the others. -/
theorem run_append (written : item.Written codec) :
    (append codec item.header).run (stateOf codec items) =
      (.ok (), stateOf codec (items ++ [item])) := by
  have bytes : contentOf codec (items ++ [item]) =
      contentOf codec items ++ recordBytes codec item.payload := by
    rw [contentOf_append, recordBytes_eq_frame sized, frames_cons, frames_nil, List.append_nil]
  have size := written.size
  unfold append
  rw [Chained.run_bind, Chained.run_read]
  dsimp only
  rw [if_neg (by simp [stateOf]), if_neg (by simp [stateOf]),
    Chained.run_bind, Chained.run_given, written.text]
  dsimp only
  rw [if_neg (by omega), Chained.run_modify]
  unfold stateOf
  rw [foundOf_append, bytes]
  rfl

omit sized in
theorem foldlM_ok {places : List (Nat × StoredHeader F)} :
    places.foldlM (visitOrReject fun (_ : Unit) _ => .ok ()) () = .ok () := by
  induction places with
  | nil => rfl
  | cons place places ih => exact ih

/-- A cut at a boundary leaves the headers before it. -/
theorem run_truncateTo (written : ∀ item ∈ items, item.Written codec)
    (distinct : (items.map fun item => item.header.id).Nodup) :
    (truncateTo codec (contentOf codec items).length).run
        (stateOf codec (items ++ rest)) = (.ok (), stateOf codec items) := by
  have shorter : (contentOf codec (items ++ rest)).take
      (contentOf codec items).length = contentOf codec items := by
    rw [contentOf_append, List.take_left]
  unfold truncateTo
  rw [Chained.run_bind, Chained.run_read]
  dsimp only
  rw [if_neg (by simp [stateOf]), if_neg (by simp [stateOf]),
    foldStrict_eq sized (s := stateOf codec (items ++ rest)) rfl written distinct rfl, foldlM_ok]
  rw [Chained.run_modify]
  dsimp only [stateOf]
  rw [shorter, scanFile_contentOf sized written]

omit sized in
/-- What an append or a cut that raises leaves as it was. -/
theorem run_append_error {s t : State F} {header : StoredHeader F} {reason : String}
    (raised : (append codec header).run s = (.error reason, t)) : s = t := by
  unfold append at raised
  rw [Chained.run_bind, Chained.run_read] at raised
  dsimp only at raised
  split at raised
  · cases raised
    rfl
  split at raised
  · cases raised
    rfl
  rw [Chained.run_bind, Chained.run_given] at raised
  cases text : codec.epochToJson header with
  | error reason =>
    rw [text] at raised
    cases raised
    rfl
  | ok payload =>
    rw [text] at raised
    dsimp only at raised
    split at raised
    · cases raised
      rfl
    · cases raised

omit sized in
/-- What is appended has a text that is not too long. -/
theorem text_of_append {s t : State F} {header : StoredHeader F}
    (done : (append codec header).run s = (.ok (), t)) :
    ∃ payload, codec.epochToJson header = .ok payload ∧ payload.length + 4 ≤ maxRecordLen := by
  unfold append at done
  rw [Chained.run_bind, Chained.run_read] at done
  dsimp only at done
  split at done
  · cases done
  split at done
  · cases done
  rw [Chained.run_bind, Chained.run_given] at done
  cases text : codec.epochToJson header with
  | error reason =>
    rw [text] at done
    cases done
  | ok payload =>
    rw [text] at done
    dsimp only at done
    split at done
    · cases done
    next short => exact ⟨payload, rfl, Nat.not_lt.mp short⟩

omit sized in
theorem run_truncateTo_error {s t : State F} {offset : Nat} {reason : String}
    (raised : (truncateTo codec offset).run s = (.error reason, t)) : s = t := by
  unfold truncateTo at raised
  rw [Chained.run_bind, Chained.run_read] at raised
  dsimp only at raised
  split at raised
  · cases raised
    rfl
  split at raised
  · cases raised
    rfl
  cases folded : foldStrict codec (fun _ _ => .ok ()) s (some offset) () with
  | error error =>
    rw [folded] at raised
    cases raised
    rfl
  | ok =>
    rw [folded] at raised
    cases raised

end Records
end EpochLog
end LiteNode
