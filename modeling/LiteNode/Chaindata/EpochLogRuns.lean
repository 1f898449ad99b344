import LiteNode.Chaindata.EpochLogSteps
import LiteNode.Data.Base64

/-!
# Runs of the epoch log

A log is appended to, cut anywhere, and opened again. As long as no epoch is
appended that the log holds already, what is read from the log are the headers
that were appended and not cut.
-/

namespace LiteNode
namespace EpochLog

variable {F : Type}

inductive Operation (F : Type)
  | append (header : StoredHeader F)
  | truncate (offset : Nat)
  | reopen

/-- A log with the headers that were appended and not cut, and the offsets at
which they were appended. -/
structure History (F : Type) where
  state : State F
  kept : List (Nat × StoredHeader F)

namespace History

def ids (h : History F) : List Int := h.kept.map fun place => place.2.id

section Run

variable (codec : Codec F)

def step (h : History F) : Operation F → Except String Unit × History F
  | .append header =>
    match (append codec header).run h.state with
    | (.error reason, state) => (.error reason, { h with state })
    | (.ok (), state) => (.ok (), ⟨state, h.kept ++ [(currentOffset h.state, header)]⟩)
  | .truncate offset =>
    match (truncateTo codec offset).run h.state with
    | (.error reason, state) => (.error reason, { h with state })
    | (.ok (), state) => (.ok (), ⟨state, h.kept.filter fun place => place.1 < offset⟩)
  | .reopen =>
    match openLog codec false (some (some h.state.content)) with
    | .error reason => (.error reason, h)
    | .ok state => (.ok (), { h with state })

/-- A header that is written is read as it was written, and is of an epoch that
the log does not hold. -/
def Storable (h : History F) : Operation F → Prop
  | .append header => ∀ text, codec.epochToJson header = .ok text →
      header.Storable ∧ header.ReadsBack codec.texts codec.floats ∧ header.id ∉ h.ids
  | _ => True

/-- A log that started without a file, and what was done with it. -/
inductive Reaches : History F → Prop
  | start {dir : Option (Option Bytes)} {state : State F} (empty : dir = none ∨ dir = some none)
      (opened : openLog codec false dir = .ok state) : Reaches ⟨state, []⟩
  | step {h : History F} (reached : Reaches h) (operation : Operation F)
      (storable : h.Storable codec operation) :
      Reaches (h.step codec operation).2

end Run

variable {codec : Codec F} {items : List (Item F)} {h : History F}

/-- The log is given by the headers that were kept. -/
structure Kept (codec : Codec F) (items : List (Item F)) (h : History F) : Prop where
  written : ∀ item ∈ items, item.Written codec
  distinct : (items.map fun item => item.header.id).Nodup
  state : h.state = stateOf codec items
  kept : h.kept = keptOf codec items

theorem Kept.ids (holds : Kept codec items h) : h.ids = items.map fun item => item.header.id := by
  unfold History.ids
  rw [holds.kept, keptOf, List.map_map, ← @ids_stands _ codec]
  rfl

theorem Kept.headers (holds : Kept codec items h) :
    h.kept.map Prod.snd = items.map Item.header := by
  rw [holds.kept, headers_keptOf]

theorem mem_stands_lt {offset : Nat} {item : Item F} (here : (offset, item) ∈ stands codec items) :
    offset < (contentOf codec items).length := by
  obtain ⟨before, after, rfl, rfl⟩ := mem_placed.mp here
  rw [length_contentOf, frames_append, frames_cons]
  simp only [List.length_append, length_frame]
  omega

/-- The headers before a boundary are those that were appended before it. -/
theorem filter_keptOf (kept dropped : List (Item F)) :
    (keptOf codec (kept ++ dropped)).filter
        (fun place => place.1 < (contentOf codec kept).length) =
      keptOf codec kept := by
  have split : stands codec (kept ++ dropped) = stands codec kept ++
      placed (body codec) (contentOf codec kept).length dropped := by
    unfold stands
    rw [placed_append, length_contentOf]
  have before : ∀ place ∈ keptOf codec kept,
      decide (place.1 < (contentOf codec kept).length) = true := by
    intro place listed
    obtain ⟨⟨offset, item⟩, here, rfl⟩ := List.mem_map.mp listed
    exact decide_eq_true (mem_stands_lt here)
  have behind : ∀ place ∈
      (placed (body codec) (contentOf codec kept).length dropped).map
        (fun place => (place.1, place.2.header)),
      ¬ decide (place.1 < (contentOf codec kept).length) = true := by
    intro place listed
    obtain ⟨⟨offset, item⟩, here, rfl⟩ := List.mem_map.mp listed
    obtain ⟨_, _, -, rfl⟩ := mem_placed.mp here
    simp
  unfold keptOf at before ⊢
  rw [split, List.map_append, List.filter_append,
    List.filter_eq_self.mpr before, List.filter_eq_nil_iff.mpr behind, List.append_nil]

theorem kept_start {dir : Option (Option Bytes)} {state : State F}
    (empty : dir = none ∨ dir = some none) (opened : openLog codec false dir = .ok state) :
    Kept codec [] ⟨state, []⟩ := by
  refine ⟨by simp, List.nodup_nil, ?_, rfl⟩
  rcases empty with rfl | rfl
  · cases opened
    rfl
  · cases opened
    rfl

theorem kept_append (items : List (Item F)) (item : Item F) :
    keptOf codec (items ++ [item]) = keptOf codec items ++
      [((contentOf codec items).length, item.header)] := by
  unfold keptOf
  rw [stands_append, List.map_append]
  rfl

section Steps

variable (encodes : ∀ raw, codec.texts.decode (codec.texts.encode raw) = some raw)
  (reads : ∀ n, codec.texts.zOfString (intToString n) = some n)
  (sized : ∀ bytes, (codec.sha256 bytes).length = 32)

include encodes reads sized

/-- A header that is appended stands behind the others. -/
theorem Kept.append (holds : Kept codec items h) {header : StoredHeader F}
    (storable : h.Storable codec (.append header)) :
    ∃ items', Kept codec items' (h.step codec (.append header)).2 := by
  unfold step
  dsimp only
  cases done : (EpochLog.append codec header).run h.state with
  | mk result after =>
    cases result with
    | error reason =>
      cases run_append_error done
      exact ⟨items, holds⟩
    | ok value =>
      obtain ⟨payload, text, short⟩ := text_of_append done
      obtain ⟨stored, readsBack, new⟩ := storable payload text
      obtain ⟨payload', text', read⟩ :=
        StoredHeader.epochOfJson_epochToJson encodes reads stored readsBack
      cases text.symm.trans text'
      have written : Item.Written codec ⟨header, payload⟩ := ⟨text, read, short⟩
      rw [holds.state, run_append sized written] at done
      cases done
      rw [holds.ids] at new
      refine ⟨items ++ [⟨header, payload⟩], ?_, ?_, rfl, ?_⟩
      · intro item listed
        rcases List.mem_append.mp listed with former | last
        · exact holds.written item former
        · rw [List.mem_singleton.mp last]
          exact written
      · rw [List.map_append]
        refine List.nodup_append.mpr ⟨holds.distinct, List.nodup_singleton _, ?_⟩
        rintro id listed other last rfl
        rw [List.map_singleton, List.mem_singleton] at last
        exact new (last ▸ listed)
      · rw [kept_append, ← holds.kept, holds.state]
        rfl

omit encodes reads in
/-- A cut succeeds at a boundary, and otherwise changes nothing. -/
theorem Kept.truncate (holds : Kept codec items h) (offset : Nat) :
    ∃ items', Kept codec items' (h.step codec (.truncate offset)).2 := by
  unfold step
  dsimp only
  cases done : (truncateTo codec offset).run h.state with
  | mk result after =>
    cases result with
    | error reason =>
      cases run_truncateTo_error done
      exact ⟨items, holds⟩
    | ok value =>
      have folded : foldStrict codec (fun _ _ => .ok ()) h.state (some offset) () = .ok () := by
        unfold truncateTo at done
        rw [Chained.run_bind, Chained.run_read] at done
        dsimp only at done
        split at done
        · cases done
        split at done
        · cases done
        split at done
        · cases done
        · next folded => exact folded
      obtain ⟨kept, dropped, rfl, rfl⟩ := boundary_of_foldStrict sized
        (by rw [holds.state]; rfl) holds.written folded
      have written : ∀ item ∈ kept, item.Written codec := fun item listed =>
        holds.written item (List.mem_append_left _ listed)
      have distinct := holds.distinct
      rw [List.map_append] at distinct
      have former := (List.nodup_append.mp distinct).1
      have cut := @run_truncateTo _ _ sized _ dropped written former
      rw [holds.state, cut] at done
      cases done
      refine ⟨kept, written, former, rfl, ?_⟩
      rw [holds.kept, filter_keptOf]

omit encodes reads in
theorem Kept.truncate_boundary {kept dropped : List (Item F)}
    (holds : Kept codec (kept ++ dropped) h) :
    (h.step codec (.truncate (contentOf codec kept).length)).1 = .ok () ∧
      (h.step codec (.truncate (contentOf codec kept).length)).2.kept = keptOf codec kept := by
  have written : ∀ item ∈ kept, item.Written codec := fun item listed =>
    holds.written item (List.mem_append_left _ listed)
  have distinct := holds.distinct
  rw [List.map_append] at distinct
  have cut := @run_truncateTo _ _ sized _ dropped written (List.nodup_append.mp distinct).1
  unfold step
  dsimp only
  rw [holds.state, cut]
  refine ⟨rfl, ?_⟩
  rw [holds.kept, filter_keptOf]

omit encodes reads in
theorem Kept.reopen (holds : Kept codec items h) :
    (h.step codec .reopen).1 = .ok () ∧ Kept codec items (h.step codec .reopen).2 := by
  have opened := openLog_contentOf sized holds.written
  unfold step
  rw [holds.state]
  dsimp only [stateOf] at opened ⊢
  rw [opened]
  exact ⟨rfl, holds.written, holds.distinct, rfl, holds.kept⟩

theorem kept_of_reaches (reached : Reaches codec h) : ∃ items, Kept codec items h := by
  induction reached with
  | start empty opened => exact ⟨[], kept_start empty opened⟩
  | step reached operation storable ih =>
    obtain ⟨items, holds⟩ := ih
    cases operation with
    | append header => exact holds.append encodes reads sized storable
    | truncate offset => exact holds.truncate sized offset
    | reopen => exact ⟨items, (holds.reopen sized).2⟩

end Steps

theorem foldlM_collect (places : List (Nat × StoredHeader F)) (items : List (StoredHeader F)) :
    places.foldlM
        (visitOrReject fun items epoch => .ok (epoch :: items)) items =
      .ok ((places.map Prod.snd).reverse ++ items) := by
  induction places generalizing items with
  | nil => rfl
  | cons place places ih =>
    rw [List.foldlM_cons, List.map_cons, List.reverse_cons, List.append_assoc]
    exact ih _

/-- A header that was kept stands behind those before it. -/
theorem split_keptOf {before after : List (Nat × StoredHeader F)} {place : Nat × StoredHeader F}
    (split : keptOf codec items = before ++ place :: after) :
    ∃ first item rest, items = first ++ item :: rest ∧ before = keptOf codec first ∧
      place = ((contentOf codec first).length, item.header) ∧
      after = (placed (body codec) (contentOf codec (first ++ [item])).length
        rest).map fun place => (place.1, place.2.header) := by
  obtain ⟨left, right, parts, rfl, tail⟩ := List.map_eq_append_iff.mp split
  obtain ⟨⟨offset, item⟩, others, rfl, rfl, rfl⟩ := List.map_eq_cons_iff.mp tail
  have names := @map_stands _ codec items
  rw [parts, List.map_append, List.map_cons] at names
  have size : (stands codec (left.map Prod.snd)).length = left.length := by
    have counted := congrArg List.length (@map_stands _ codec (left.map Prod.snd))
    rw [List.length_map, List.length_map] at counted
    exact counted
  have shape : stands codec items = stands codec (left.map Prod.snd) ++
      placed (body codec) (contentOf codec (left.map Prod.snd)).length
        (item :: others.map Prod.snd) := by
    conv_lhs => rw [← names]
    unfold stands
    rw [placed_append, length_contentOf]
  rw [parts] at shape
  obtain ⟨same, rest⟩ := List.append_inj shape size.symm
  rw [placed] at rest
  obtain ⟨here, behind⟩ := List.cons.inj rest
  cases here
  refine ⟨left.map Prod.snd, item, others.map Prod.snd, names.symm, ?_, rfl, ?_⟩
  · unfold keptOf
    rw [← same]
  · rw [contentOf_append, List.length_append, frames_cons, frames_nil, List.append_nil, ← behind]

/-- In every run that appends no epoch twice, what is read are the headers that
were appended and not cut: all of them in order, the newest, each under its
epoch and no other, and each ends where the next one starts, where the log can
be cut. What raises changes nothing. -/
theorem headers_of_reaches
    (encodes : ∀ raw, codec.texts.decode (codec.texts.encode raw) = some raw)
    (reads : ∀ n, codec.texts.zOfString (intToString n) = some n)
    (sized : ∀ bytes, (codec.sha256 bytes).length = 32) (reached : Reaches codec h) :
    readAllStrict codec h.state none = .ok (h.kept.map Prod.snd) ∧
      (∀ (σ : Type) (visit : σ → StoredHeader F → Except String σ) (init : σ),
        foldStrict codec visit h.state none init = h.kept.foldlM (visitOrReject visit) init) ∧
      last h.state = (h.kept.map Prod.snd).getLast? ∧
      (∀ place ∈ h.kept, get codec h.state place.2.id = some place.2) ∧
      (∀ id, id ∉ h.ids → get codec h.state id = none) ∧
      (∀ before place after, h.kept = before ++ place :: after →
        0 ≤ place.2.id → ∃ offset,
          offsetAfter codec h.state place.2.id = some offset ∧
          offset = (after.head?.map Prod.fst).getD (currentOffset h.state) ∧
          (h.step codec (.truncate offset)).1 = .ok () ∧
          (h.step codec (.truncate offset)).2.kept = before ++ [place]) ∧
      ∀ operation reason, (h.step codec operation).1 = .error reason →
        (h.step codec operation).2 = h := by
  obtain ⟨items, holds⟩ := kept_of_reaches encodes reads sized reached
  have content : h.state.content = contentOf codec (items ++ []) := by
    rw [holds.state, List.append_nil]
    rfl
  have folds : ∀ (σ : Type) (visit : σ → StoredHeader F → Except String σ)
      (init : σ), foldStrict codec visit h.state none init =
        h.kept.foldlM (visitOrReject visit) init := by
    intro σ visit init
    rw [holds.kept]
    apply foldStrict_eq sized content holds.written holds.distinct
    rw [Option.getD_none, content, List.append_nil]
  have found : ∀ offset item, (offset, item) ∈ stands codec items →
      readRecord codec h.state item.header.id =
        .ok (offset, item.payload.length + 4, item.header) := by
    intro offset item here
    rw [holds.state]
    exact readRecord_stands sized (holds.written item (placed_mem here)) rfl
      ((find?_foundOf holds.distinct).1 offset item here) here
  refine ⟨?_, folds, ?_, ?_, ?_, ?_, ?_⟩
  · unfold readAllStrict
    rw [folds, foldlM_collect, List.append_nil]
    exact congrArg Except.ok (List.reverse_reverse _)
  · rw [holds.headers, holds.state, List.getLast?_map]
    exact tip_foundOf items
  · intro place listed
    rw [holds.kept] at listed
    obtain ⟨⟨offset, item⟩, here, rfl⟩ := List.mem_map.mp listed
    unfold EpochLog.get
    rw [found offset item here]
    rfl
  · intro id absent
    rw [holds.ids] at absent
    unfold EpochLog.get
    rw [holds.state, readRecord_absent ((@find?_foundOf _ codec _ holds.distinct).2 id absent)]
    rfl
  · intro before place after split nonneg
    rw [holds.kept] at split
    obtain ⟨first, item, rest, rfl, rfl, rfl, rfl⟩ := split_keptOf split
    have here : ((contentOf codec first).length, item) ∈ stands codec (first ++ item :: rest) :=
      mem_placed.mpr ⟨first, rest, rfl, length_contentOf first⟩
    have shape : first ++ item :: rest = (first ++ [item]) ++ rest := by
      rw [List.append_assoc]
      rfl
    have ends : (contentOf codec first).length + 4 +
        (item.payload.length + 4) = (contentOf codec (first ++ [item])).length := by
      rw [contentOf_append, List.length_append, frames_cons, frames_nil,
        List.append_nil, length_frame, length_body sized]
      omega
    rw [shape] at holds
    obtain ⟨cut, left⟩ := holds.truncate_boundary sized
    refine ⟨(contentOf codec (first ++ [item])).length, ?_, ?_, cut, ?_⟩
    · unfold offsetAfter
      rw [if_neg (by omega), found _ item here, ← ends]
      rfl
    · cases rest with
      | nil =>
        rw [holds.state]
        dsimp only [stateOf]
        rw [List.append_nil]
        rfl
      | cons next rest => rfl
    · rw [left, kept_append]
  · intro operation reason raised
    cases operation with
    | append header =>
      cases done : (EpochLog.append codec header).run h.state with
      | mk result after =>
      cases result with
      | ok value =>
        unfold step at raised
        dsimp only at raised
        rw [done] at raised
        cases raised
      | error failure =>
        unfold step
        dsimp only
        rw [done]
        rw [← run_append_error done]
    | truncate offset =>
      cases done : (truncateTo codec offset).run h.state with
      | mk result after =>
      cases result with
      | ok value =>
        unfold step at raised
        dsimp only at raised
        rw [done] at raised
        cases raised
      | error failure =>
        unfold step
        dsimp only
        rw [done]
        rw [← run_truncateTo_error done]
    | reopen =>
      rw [(holds.reopen sized).1] at raised
      cases raised

namespace OneEpoch

/-- A header with an id and a source of rewards, the rest empty. -/
def headerOf (id : Int) (rewards : Option RewardSource) : StoredHeader Int where
  id := id
  stateRoot := []
  prevStateRoot := []
  parentCommit := []
  startTxid := 0
  txCount := 0
  finalizedBy := []
  finalizedAt := 0
  proposer := ⟨[], 0⟩
  feesTotal := []
  feesBurned := []
  baseReward := []
  totalReward := []
  proposerReward := []
  validatorRewardEach := []
  rewardRecipients := []
  rewardSource := rewards

def fifth : StoredHeader Int := headerOf 5 none

def negative : StoredHeader Int := headerOf (-1) none

def member (address : String) : RewardMember := ⟨Bytes.ofAscii address, none, 1⟩

def rewardsOf (members : List RewardMember) : StoredHeader Int :=
  headerOf 7 (some ⟨Bytes.ofAscii "octA", none, members⟩)

def unsorted : StoredHeader Int := rewardsOf [member "octB", member "octA"]

def sorted : StoredHeader Int := rewardsOf [member "octA", member "octB"]

def sortedSource : Json :=
  .assoc [("proposer_address", .string (Bytes.ofAscii "octA")), ("proposer_public_key", .null),
    ("members", .list (["octA", "octB"].map fun address =>
      .assoc [("address", .string (Bytes.ofAscii address)),
        ("public_key", .null), ("weight", .string (Bytes.ofAscii "1"))]))]

def objectText (fields : List (String × Bytes)) : Bytes :=
  123 :: (Json.joined (fields.map fun field =>
    Json.writeString (Json.nameBytes field.1) ++ 58 :: field.2) ++ [125])

/-- The text of a header with this id and source of rewards. -/
def textOf (id : Int) (source : Bytes) : Bytes :=
  let empty := Json.writeString []
  objectText [("id", intToString id), ("state_root", empty),
    ("prev_state_root", empty), ("parent_commit", empty),
    ("start_txid", Json.writeString (Bytes.ofAscii "0")),
    ("tx_count", Bytes.ofAscii "0"), ("finalized_by", empty),
    ("finalized_at", Bytes.ofAscii "0.0"), ("creator_addr", empty),
    ("commit_round", Bytes.ofAscii "0"), ("fees_total", empty),
    ("fees_burned", empty), ("base_reward", empty), ("total_reward", empty),
    ("proposer_reward", empty), ("validator_reward_each", empty),
    ("reward_recipients", Bytes.ofAscii "[]"), ("reward_source", source)]

def noSource : Bytes := Bytes.ofAscii "null"

def memberText (address : String) : Bytes :=
  objectText [("address", Json.writeString (Bytes.ofAscii address)),
    ("public_key", noSource), ("weight", Json.writeString (Bytes.ofAscii "1"))]

def sortedText : Bytes :=
  textOf 7 (objectText [
    ("proposer_address", Json.writeString (Bytes.ofAscii "octA")),
    ("proposer_public_key", noSource),
    ("members", 91 :: (memberText "octA" ++ 44 :: memberText "octB" ++ [93]))])

/-- Whole numbers stand for floating point numbers. -/
def wholeFloats : Floats Int where
  print value := intToString value ++ Bytes.ofAscii ".0"
  read text := if text = Bytes.ofAscii "0.0" then some 0 else none
  ofInt value := value

/-- The texts of the three headers, and of other values. -/
def printed (json : Json) : Bytes :=
  match json.member "id" with
  | .ok (.int 5) => textOf 5 noSource
  | .ok (.int (-1)) => textOf (-1) noSource
  | .ok (.int 7) => sortedText
  | _ => json.write

def parsed (text : Bytes) : Option Json :=
  if text = textOf 5 noSource then some (fifth.headerJson wholeFloats .null)
  else if text = textOf (-1) noSource then some (negative.headerJson wholeFloats .null)
  else if text = sortedText then some (sorted.headerJson wholeFloats sortedSource)
  else Json.read text

def plain : Codec Int where
  texts := {
    print := printed
    parse := parsed
    encode := Base64.encode
    decode := Base64.decode
    zOfString := readDecimal }
  floats := wholeFloats
  sha256 := fun _ => List.replicate 32 0

def begun : History Int := ⟨⟨fileHeader, false, ∅, none, none⟩, []⟩

def appended (header : StoredHeader Int) : History Int := (begun.step plain (.append header)).2

/-- The log is closed and opened again. -/
def reopened : History Int := ((appended fifth).step plain .reopen).2

end OneEpoch

open OneEpoch in
theorem headers_of_reaches_oneEpoch :
    readAllStrict plain reopened.state none = .ok [fifth] ∧
      last reopened.state = some fifth ∧
      get plain reopened.state 5 = some fifth ∧
      get plain reopened.state 6 = none ∧
      offsetAfter plain reopened.state 5 = some reopened.state.content.length := by
  have started : Reaches plain begun := .start (.inl rfl) rfl
  have reads : fifth.ReadsBack plain.texts plain.floats := by
    refine ⟨?_, rfl⟩
    rintro source ⟨⟩
    dsimp only [plain]
    exact if_pos rfl
  have stored : fifth.Storable := by
    rintro source ⟨⟩
  have reached : Reaches plain (appended fifth) := by
    refine started.step _ ?_
    intro text _
    exact ⟨stored, reads, List.not_mem_nil⟩
  have reached : Reaches plain reopened := reached.step .reopen trivial
  have kept : reopened.kept = [(16, fifth)] := by decide +kernel
  obtain ⟨all, -, newest, each, absent, after, -⟩ :=
    headers_of_reaches Base64.decode_encode readDecimal_intToString
      (fun _ => List.length_replicate) reached
  have ids : reopened.ids = [5] := by
    unfold History.ids
    rw [kept]
    rfl
  rw [kept] at all newest each
  have fifth' : get plain reopened.state 5 = some fifth := each (16, fifth) List.mem_cons_self
  obtain ⟨offset, found, here, -⟩ := after [] (16, fifth) [] kept (by decide)
  refine ⟨all, newest, fifth', absent 6 ?_, ?_⟩
  · rw [ids]
    decide
  · rw [here, List.head?_nil, Option.map_none, Option.getD_none] at found
    exact found

open OneEpoch in
/-- Members are put in the order of their addresses before they are written,
and below epoch 0 the log ends before its first header. -/
theorem read_differs_unsorted_negative :
    readAllStrict plain (appended unsorted).state none = .ok [sorted] ∧
      (appended unsorted).kept = [(16, unsorted)] ∧ sorted ≠ unsorted ∧
      readAllStrict plain (appended negative).state none = .ok [negative] ∧
      offsetAfter plain (appended negative).state negative.id = some 16 ∧
      16 < currentOffset (appended negative).state := by
  refine ⟨?_, ?_, ?_, ?_, ?_, ?_⟩
  · decide +kernel
  · decide +kernel
  · decide +kernel
  · decide +kernel
  · decide +kernel
  · decide +kernel

end History
end EpochLog
end LiteNode
