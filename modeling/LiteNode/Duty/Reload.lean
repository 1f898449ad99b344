import LiteNode.Data.Results
import LiteNode.Duty.Alike
import LiteNode.Data.JsonText

/-!
# Reading duty state back

What is written of a state reads as a state that is alike, as long as the values
of the state are ones that the reader accepts. Alike states are written alike.
-/

/-!
## Stored duty state

The state is stored as JSON. Of its marks only the marked epochs are stored, so
the floor is not: a state that is read back has the first marked epoch of each
member as its floor.
-/

namespace LiteNode
namespace SetFold

variable (texts : Texts)

def maxRound : Int := 1000000

def int64Text (n : Int) : Json := .string (intToString n)

def pulseToJson (pulse : Pulse) : Json :=
  .assoc [("first", int64Text pulse.first), ("last", int64Text pulse.last),
    ("count", .int pulse.count)]

def phaseToJson : Phase → Json
  | .live since => .assoc [("kind", .string (Bytes.ofAscii "live")), ("since", int64Text since)]
  | .shadow none => .assoc [("kind", .string (Bytes.ofAscii "shadow"))]
  | .shadow (some pulse) =>
    .assoc [("kind", .string (Bytes.ofAscii "shadow")), ("pulse", pulseToJson pulse)]

def marksToJson (marks : Marks) : Json := .list (marks.epochs.map int64Text)

def memberToJson (member : Member) : Json :=
  .assoc [("address", .string member.address),
    ("phase", phaseToJson member.phase), ("marks", marksToJson member.marks)]

def finalToJson (item : Final) : Json :=
  .assoc ([("epoch", int64Text item.epoch), ("proposal_id", .string (texts.encode item.proposalId)),
    ("set_hash", .string (texts.encode item.setHash))] ++
      item.round.toList.map fun round => ("round", .int round))

def toYojson (state : State) : Json :=
  .assoc ([("standard", .string (Bytes.ofAscii "octra-validator-duty")),
    ("safe_after", int64Text state.safeAfter),
    ("applied", (state.applied.map int64Text).getD .null),
    ("members", .list ((sortMembers state.members).map memberToJson)),
    ("finals", .list ((sortFinals state.finals).map (finalToJson texts)))] ++
      state.seats.toList.map fun seats => ("seats", .int seats))

def toString (state : State) : Bytes := texts.print (toYojson texts state)

/-! ## Reading -/

def int64Json (label : String) : Json → Except String Int
  | .string raw =>
    match intOfString int64Bits raw with
    | some value => .ok value
    | none => .error (label ++ " is invalid")
  | .int value => .ok value
  | _ => .error (label ++ " has wrong type")

def intJson (label : String) : Json → Except String Int
  | .int value => .ok value
  | .string raw =>
    match intOfString intBits raw with
    | some value => .ok value
    | none => .error (label ++ " is invalid")
  | _ => .error (label ++ " has wrong type")

def assoc (label : String) : Json → Except String (List (String × Json))
  | .assoc fields => .ok fields
  | _ => .error (label ++ " has wrong type")

def list (label : String) : Json → Except String (List Json)
  | .list items => .ok items
  | _ => .error (label ++ " has wrong type")

def field (name : String) (fields : List (String × Json)) : Except String Json :=
  match fields.lookup name with
  | some value => .ok value
  | none => .error (name ++ " is missing")

def optionalInt64 (label : String) : Json → Except String (Option Int)
  | .null => .ok none
  | json => (int64Json label json).map some

def optionalSeats (fields : List (String × Json)) : Except String (Option Int) :=
  match fields.lookup "seats" with
  | none => .ok none
  | some .null => .ok none
  | some json => do
    let seats ← intJson "validator duty seats" json
    if seats < 4 ∨ 200 < seats then .error "validator duty seats are outside limits"
    else .ok (some seats)

def pulseOfJson (json : Json) : Except String Pulse := do
  let fields ← assoc "validator duty pulse" json
  let first ← int64Json "validator duty pulse first" (← field "first" fields)
  let last ← int64Json "validator duty pulse last" (← field "last" fields)
  let count ← intJson "validator duty pulse count" (← field "count" fields)
  if first < 0 ∨ last < first ∨ count < 1 then .error "validator duty pulse is invalid"
  else .ok ⟨first, last, count⟩

def phaseOfJson (json : Json) : Except String Phase := do
  let fields ← assoc "validator duty phase" json
  match fields.lookup "kind" with
  | some (.string kind) =>
    if kind = Bytes.ofAscii "live" then
      let since ←
        int64Json "validator duty live epoch" (← field "since" fields)
      .ok (.live since)
    else if kind = Bytes.ofAscii "shadow" then
      match fields.lookup "pulse" with
      | none => .ok (.shadow none)
      | some json => (pulseOfJson json).map fun pulse => .shadow (some pulse)
    else .error "validator duty phase kind is invalid"
  | _ => .error "validator duty phase kind is invalid"

/-- Read the epochs, in the order in which they were written. -/
def markEpochs : List Int → List Json → Except String (List Int)
  | set, [] => .ok set
  | set, item :: rest => do
    let epoch ← int64Json "validator duty mark" item
    if epoch < 0 then .error "validator duty mark is negative"
    else if epoch ∈ set then .error "validator duty mark is duplicated"
    else markEpochs (set ++ [epoch]) rest

/-- The marks of increasing epochs, with the first one as the floor. -/
def marksOfEpochs (epochs : List Int) : Except String Marks :=
  match epochs.head?, epochs.getLast? with
  | some floor, some last =>
    if 255 < last - floor then .error "validator duty marks exceed range"
    else
      .ok {
        floor
        bits := epochs.foldl (fun bits epoch => bits ||| 1 <<< (epoch - floor).toNat) 0 }
  | _, _ => .ok emptyMarks

def marksOfJson (json : Json) : Except String Marks := do
  let items ← list "validator duty marks" json
  let epochs ← markEpochs [] items
  marksOfEpochs (epochs.insertionSort (· ≤ ·))

def memberOfJson (json : Json) : Except String Member := do
  let fields ← assoc "validator duty member" json
  match fields.lookup "address" with
  | some (.string address) =>
    if address = [] then .error "validator duty member address is invalid"
    else
      let phase ← phaseOfJson (← field "phase" fields)
      let marks ← marksOfJson (← field "marks" fields)
      .ok { address, phase, marks }
  | _ => .error "validator duty member address is invalid"

def rawB64 (label : String) (value : Bytes) : Except String Bytes :=
  match texts.decode value with
  | none => .error (label ++ " is not base64")
  | some raw =>
    if texts.encode raw ≠ value then .error (label ++ " is not exact")
    else if raw.length ≠ 32 then .error (label ++ " length is invalid")
    else .ok raw

def finalRound (fields : List (String × Json)) : Except String (Option Int) :=
  match fields.lookup "round" with
  | none => .ok none
  | some json => do
    let round ← intJson "validator duty final round" json
    if round < 0 ∨ maxRound < round then .error "validator duty final round is invalid"
    else .ok (some round)

def finalOfJson (json : Json) : Except String Final := do
  let fields ← assoc "validator duty final" json
  let epoch ← int64Json "validator duty final epoch" (← field "epoch" fields)
  match fields.lookup "proposal_id", fields.lookup "set_hash" with
  | some (.string proposalId), some (.string setHash) =>
    let proposalId ← rawB64 texts "validator duty proposal id" proposalId
    let setHash ← rawB64 texts "validator duty set hash" setHash
    if epoch < 0 then .error "validator duty final epoch is negative"
    else
      let round ← finalRound fields
      .ok { epoch, proposalId, setHash, round }
  | _, _ => .error "validator duty final hash is missing"

/-- Whether no two neighbours agree on a key. -/
def neighboursDiffer [DecidableEq β] (key : α → β) : List α → Bool
  | first :: second :: rest =>
    if key first = key second then false
    else neighboursDiffer key (second :: rest)
  | _ => true

def uniqueMembers (members : List Member) : Except String Unit :=
  if neighboursDiffer Member.address (sortMembers members) then .ok ()
  else .error "validator duty member is duplicated"

def uniqueFinals (finals : List Final) : Except String Unit :=
  if neighboursDiffer Final.epoch (sortFinals finals) then .ok ()
  else .error "validator duty final is duplicated"

def ofYojson (json : Json) : Except String State := do
  let fields ← assoc "validator duty state" json
  match fields.lookup "standard" with
  | some (.string standard) =>
    if standard = Bytes.ofAscii "octra-validator-duty" then
      let safeAfter ← int64Json "validator duty safe epoch"
        (← field "safe_after" fields)
      let applied ← optionalInt64 "validator duty applied epoch"
        (← field "applied" fields)
      let seats ← optionalSeats fields
      let members ← (← list "validator duty members"
        (← field "members" fields)).mapM memberOfJson
      let finals ← (← list "validator duty finals"
        (← field "finals" fields)).mapM (finalOfJson texts)
      uniqueMembers members
      uniqueFinals finals
      .ok {
        members := sortMembers members
        finals := sortFinals finals
        safeAfter, applied, seats }
    else .error "validator duty standard is invalid"
  | _ => .error "validator duty standard is invalid"

def ofString (raw : Bytes) : Except String State :=
  match texts.parse raw with
  | none => .error "validator duty state encoding is invalid"
  | some json => ofYojson texts json

def markSpan (cfg : Cfg) : Int := cfg.window + (cfg.challenge + 2)

/-- Marked epochs lie within a span above a nonnegative floor. -/
structure StoredMarks (cfg : Cfg) (marks : Marks) : Prop where
  floor : 0 ≤ marks.floor
  fits : ∀ epoch ∈ marks.epochs, epoch < 2 ^ 63
  near : ∀ epoch ∈ marks.epochs, epoch - marks.floor ≤ markSpan cfg

structure StoredPulse (pulse : Pulse) : Prop where
  first : 0 ≤ pulse.first
  ordered : pulse.first ≤ pulse.last
  last : pulse.last < 2 ^ 63
  count : 1 ≤ pulse.count

def StoredPhase : Phase → Prop
  | .live since => FitsBits int64Bits since
  | .shadow none => True
  | .shadow (some pulse) => StoredPulse pulse

structure StoredMember (cfg : Cfg) (member : Member) : Prop where
  address : member.address ≠ []
  phase : StoredPhase member.phase
  marks : StoredMarks cfg member.marks

/-- A final with hashes of 32 bytes and a round that is in range. -/
structure StoredFinal (final : Final) : Prop where
  nonneg : 0 ≤ final.epoch
  fits : final.epoch < 2 ^ 63
  proposalId : final.proposalId.length = 32
  setHash : final.setHash.length = 32
  round : ∀ round, final.round = some round → 0 ≤ round ∧ round ≤ maxRound

structure Stored (cfg : Cfg) (state : State) : Prop where
  ordered : state.members.Pairwise fun left right => left.address < right.address
  members : ∀ member ∈ state.members, StoredMember cfg member
  epochs : state.finals.Pairwise fun left right => left.epoch < right.epoch
  finals : ∀ final ∈ state.finals, StoredFinal final
  safeAfter : FitsBits int64Bits state.safeAfter
  applied : ∀ epoch, state.applied = some epoch → FitsBits int64Bits epoch
  seats : ∀ seats, state.seats = some seats → 4 ≤ seats ∧ seats ≤ 200

theorem exact_phaseToJson (phase : Phase) : (phaseToJson phase).Exact := by
  unfold phaseToJson int64Text pulseToJson int64Text
  split
  all_goals
    refine .assoc ?_
    simp only [List.forall_mem_cons, List.not_mem_nil, false_imp_iff, implies_true, and_true]
  · exact ⟨.string _, .string _⟩
  · exact .string _
  · refine ⟨.string _, .assoc ?_⟩
    simp only [List.forall_mem_cons, List.not_mem_nil, false_imp_iff, implies_true, and_true]
    exact ⟨.string _, .string _, .int _⟩

theorem exact_memberToJson (member : Member) : (memberToJson member).Exact := by
  refine .assoc ?_
  simp only [List.forall_mem_cons, List.not_mem_nil, false_imp_iff, implies_true, and_true]
  refine ⟨.string _, exact_phaseToJson _, .list ?_⟩
  intro item listed
  obtain ⟨epoch, -, rfl⟩ := List.mem_map.mp listed
  exact .string _

theorem exact_finalToJson (texts : Texts) (final : Final) : (finalToJson texts final).Exact := by
  refine .assoc ?_
  intro field listed
  rcases List.mem_append.mp listed with first | last
  · simp only [List.mem_cons, List.not_mem_nil, or_false] at first
    rcases first with rfl | rfl | rfl <;> exact .string _
  · obtain ⟨round, -, rfl⟩ := List.mem_map.mp last
    exact .int _

/-- What is written of a state holds no number that a text might round. -/
theorem exact_toYojson (texts : Texts) (state : State) : (toYojson texts state).Exact := by
  refine .assoc ?_
  intro field listed
  rcases List.mem_append.mp listed with first | last
  · simp only [List.mem_cons, List.not_mem_nil, or_false] at first
    rcases first with rfl | rfl | rfl | rfl | rfl
    · exact .string _
    · exact .string _
    · cases state.applied with
      | none => exact .null
      | some epoch => exact .string _
    · refine .list fun item listed => ?_
      obtain ⟨member, -, rfl⟩ := List.mem_map.mp listed
      exact exact_memberToJson member
    · refine .list fun item listed => ?_
      obtain ⟨final, -, rfl⟩ := List.mem_map.mp listed
      exact exact_finalToJson texts final
  · obtain ⟨seats, -, rfl⟩ := List.mem_map.mp last
    exact .int _

theorem int64Json_int64Text {n : Int} (fits : FitsBits int64Bits n) (label : String) :
    int64Json label (int64Text n) = .ok n := by
  unfold int64Json int64Text
  dsimp only
  rw [intOfString_intToString (by decide) fits]

theorem fits_of_nonneg {n : Int} (nonneg : 0 ≤ n) (below : n < 2 ^ 63) : FitsBits int64Bits n := by
  unfold FitsBits int64Bits
  omega

theorem pulseOfJson_pulseToJson {pulse : Pulse} (stored : StoredPulse pulse) :
    pulseOfJson (pulseToJson pulse) = .ok pulse := by
  obtain ⟨first, ordered, last, count⟩ := stored
  have fitsFirst := fits_of_nonneg first (by omega)
  have fitsLast := fits_of_nonneg (by omega) last
  have valid : ¬ (pulse.first < 0 ∨ pulse.last < pulse.first ∨ pulse.count < 1) := by omega
  simp [pulseOfJson, pulseToJson, assoc, field, intJson, List.lookup_cons,
    int64Json_int64Text fitsFirst, int64Json_int64Text fitsLast, valid]

theorem phaseOfJson_phaseToJson {phase : Phase} (stored : StoredPhase phase) :
    phaseOfJson (phaseToJson phase) = .ok phase := by
  have different : Bytes.ofAscii "shadow" ≠ Bytes.ofAscii "live" := by decide
  cases phase with
  | live since =>
    simp [phaseOfJson, phaseToJson, assoc, field, List.lookup_cons,
      int64Json_int64Text (show FitsBits int64Bits since from stored)]
  | shadow pulse =>
    cases pulse with
    | none => simp [phaseOfJson, phaseToJson, assoc, List.lookup_cons, different]
    | some pulse =>
      have read : pulseOfJson (pulseToJson pulse) = .ok pulse := pulseOfJson_pulseToJson stored
      simp [phaseOfJson, phaseToJson, assoc, List.lookup_cons, different, read, Except.map]

theorem markEpochs_map (epochs : List Int) {set : List Int} (distinct : (set ++ epochs).Nodup)
    (nonneg : ∀ epoch ∈ epochs, 0 ≤ epoch) (fits : ∀ epoch ∈ epochs, epoch < 2 ^ 63) :
    markEpochs set (epochs.map int64Text) = .ok (set ++ epochs) := by
  induction epochs generalizing set with
  | nil => rw [List.append_nil]; rfl
  | cons epoch rest ih =>
    have here := nonneg epoch List.mem_cons_self
    have fresh : epoch ∉ set := by
      intro present
      exact (List.disjoint_of_nodup_append distinct) present List.mem_cons_self
    have shifted : set ++ epoch :: rest = set ++ [epoch] ++ rest := by simp
    rw [List.map_cons, markEpochs, int64Json_int64Text
      (fits_of_nonneg here (fits epoch List.mem_cons_self)), ok_bind,
      if_neg (not_lt.mpr here), if_neg fresh]
    rw [shifted] at distinct ⊢
    exact ih distinct
      (fun other later => nonneg other (List.mem_cons_of_mem _ later))
      (fun other later => fits other (List.mem_cons_of_mem _ later))

theorem testBit_foldl_epochs (floor : Int) (epochs : List Int) (bits index : Nat) :
    (epochs.foldl (fun bits epoch => bits ||| 1 <<< (epoch - floor).toNat)
      bits).testBit index = true ↔
      bits.testBit index = true ∨ ∃ epoch ∈ epochs, (epoch - floor).toNat = index := by
  induction epochs generalizing bits with
  | nil => simp
  | cons epoch rest ih =>
    rw [List.foldl_cons, ih, Nat.testBit_or,
      Nat.one_shiftLeft, Nat.testBit_two_pow, Bool.or_eq_true, decide_eq_true_eq]
    simp [or_assoc]

/-- Increasing epochs within range are read as marks of just these epochs. -/
theorem marksOfEpochs_spec {epochs : List Int} (increasing : epochs.Pairwise (· < ·))
    (range : ∀ first ∈ epochs, ∀ last ∈ epochs, last - first ≤ 255) :
    ∃ marks, marksOfEpochs epochs = .ok marks ∧ marks.epochs = epochs ∧
      (epochs = [] → marks.floor = 0) := by
  cases epochs with
  | nil => exact ⟨emptyMarks, rfl, rfl, fun _ => rfl⟩
  | cons floor rest =>
    have last := List.getLast?_eq_some_getLast (List.cons_ne_nil floor rest)
    have near := range floor List.mem_cons_self _ (List.getLast_mem (List.cons_ne_nil floor rest))
    have below : ∀ epoch ∈ floor :: rest, floor ≤ epoch := by
      intro epoch listed
      rcases List.mem_cons.mp listed with rfl | later
      · exact le_refl _
      · exact ((List.pairwise_cons.mp increasing).1 epoch later).le
    refine ⟨⟨floor, (floor :: rest).foldl
      (fun bits epoch => bits ||| 1 <<< (epoch - floor).toNat) 0⟩, ?_, ?_,
      fun impossible => by cases impossible⟩
    · unfold marksOfEpochs
      rw [last]
      dsimp only [List.head?_cons]
      rw [if_neg (not_lt.mpr near)]
    · refine List.Perm.eq_of_pairwise ?_ (pairwise_epochs _) increasing ?_
      · intro left right _ _ before after
        omega
      refine (List.perm_ext_iff_of_nodup
        ((pairwise_epochs _).imp ne_of_lt) (increasing.imp ne_of_lt)).mpr ?_
      intro epoch
      rw [mem_epochs, testBit_foldl_epochs]
      constructor
      · rintro ⟨above, zero | ⟨other, listed, same⟩⟩
        · simp at zero
        · have low := below other listed
          dsimp only at above same
          rwa [show epoch = other by omega]
      · intro listed
        exact ⟨below epoch listed, Or.inr ⟨epoch, listed, rfl⟩⟩

variable {cfg : Cfg}

theorem marksOfJson_marksToJson {marks : Marks} (stored : StoredMarks cfg marks)
    (span : markSpan cfg ≤ 255) :
    ∃ marks', marksOfJson (marksToJson marks) = .ok marks' ∧ MarksAlike marks marks' := by
  have increasing := pairwise_epochs marks
  have nonneg : ∀ epoch ∈ marks.epochs, 0 ≤ epoch := fun epoch listed =>
    stored.floor.trans (mem_epochs.mp listed).1
  obtain ⟨marks', read, epochs, floor⟩ := marksOfEpochs_spec increasing
    (by
      intro first listed last listed'
      have low := (mem_epochs.mp listed).1
      have near := stored.near last listed'
      omega)
  refine ⟨marks', ?_, epochs.symm, fun none => ?_⟩
  · have listed : markEpochs [] (marks.epochs.map int64Text) = .ok ([] ++ marks.epochs) :=
      markEpochs_map marks.epochs (increasing.imp ne_of_lt) nonneg stored.fits
    have sorted : marks.epochs.insertionSort (· ≤ ·) = marks.epochs :=
      (increasing.imp le_of_lt).insertionSort_eq
    simp only [marksOfJson, marksToJson, list, ok_bind, listed, List.nil_append, sorted, read]
  · rw [floor none]
    exact stored.floor

theorem memberOfJson_memberToJson {member : Member} (stored : StoredMember cfg member)
    (span : markSpan cfg ≤ 255) :
    ∃ member', memberOfJson (memberToJson member) = .ok member' ∧ MemberAlike member member' := by
  obtain ⟨marks', read, alike⟩ := marksOfJson_marksToJson stored.marks span
  refine ⟨{ member with marks := marks' }, ?_, ⟨rfl, rfl, alike⟩⟩
  simp [memberOfJson, memberToJson, assoc, field, List.lookup_cons, stored.address,
    phaseOfJson_phaseToJson stored.phase, read]

theorem mapM_map_of_read {α β γ : Type} {R : α → γ → Prop} {write : α → β}
    {read : β → Except String γ} {items : List α}
    (reads : ∀ item ∈ items, ∃ out, read (write item) = .ok out ∧ R item out) :
    ∃ outs, (items.map write).mapM read = .ok outs ∧ List.Forall₂ R items outs := by
  induction items with
  | nil => exact ⟨[], rfl, .nil⟩
  | cons item rest ih =>
    obtain ⟨out, here, related⟩ := reads item List.mem_cons_self
    obtain ⟨outs, later, alike⟩ := ih fun other listed =>
      reads other (List.mem_cons_of_mem _ listed)
    refine ⟨out :: outs, ?_, .cons related alike⟩
    rw [List.map_cons, List.mapM_cons, here, ok_bind, later]
    rfl

theorem neighboursDiffer_of_pairwise {α β : Type} [DecidableEq β] {key : α → β} {items : List α}
    (distinct : items.Pairwise fun left right => key left ≠ key right) :
    neighboursDiffer key items = true := by
  induction items using neighboursDiffer.induct key with
  | case1 first second rest same =>
    exact absurd same ((List.pairwise_cons.mp distinct).1 second List.mem_cons_self)
  | case2 first second rest different ih =>
    rw [neighboursDiffer, if_neg different]
    exact ih (List.pairwise_cons.mp distinct).2
  | case3 items short =>
    unfold neighboursDiffer
    split
    · exact absurd rfl (short _ _ _)
    · rfl

theorem sortMembers_eq_self {members : List Member}
    (ordered : members.Pairwise fun left right =>
      left.address < right.address) : sortMembers members = members := by
  apply List.Pairwise.insertionSort_eq
  refine ordered.imp fun below => ?_
  unfold memberBefore
  simp [below]

theorem sortFinals_eq_self {finals : List Final}
    (ordered : finals.Pairwise fun left right => left.epoch < right.epoch) :
    sortFinals finals = finals :=
  (ordered.imp le_of_lt).insertionSort_eq

theorem ordered_of_alike {members members' : List Member}
    (alike : List.Forall₂ MemberAlike members members')
    (ordered : members.Pairwise fun left right => left.address < right.address) :
    members'.Pairwise fun left right => left.address < right.address := by
  have same : members.map Member.address = members'.map Member.address := by
    induction alike with
    | nil => rfl
    | cons related _ ih => rw [List.map_cons, List.map_cons, related.address, ih ordered.of_cons]
  rw [← List.pairwise_map] at ordered ⊢
  rwa [← same]

section Texts

variable {texts : Texts} (faithful : texts.Faithful)

include faithful

theorem rawB64_encode {raw : Bytes} (size : raw.length = 32) (label : String) :
    rawB64 texts label (texts.encode raw) = .ok raw := by
  unfold rawB64
  rw [faithful.decode_encode]
  simp [size]

theorem finalOfJson_finalToJson {final : Final} (stored : StoredFinal final) :
    finalOfJson texts (finalToJson texts final) = .ok final := by
  obtain ⟨epoch, proposalId, setHash, round⟩ := final
  have fits := fits_of_nonneg stored.nonneg stored.fits
  have nonneg : ¬ epoch < 0 := not_lt.mpr stored.nonneg
  have proposal := rawB64_encode faithful stored.proposalId
  have set := rawB64_encode faithful stored.setHash
  cases round with
  | none =>
    simp [finalOfJson, finalToJson, assoc, field, List.lookup_cons, finalRound,
      int64Json_int64Text fits, proposal, set, nonneg]
  | some round =>
    have range := stored.round round rfl
    have inRange : ¬ (round < 0 ∨ maxRound < round) := by omega
    simp [finalOfJson, finalToJson, assoc, field, List.lookup_cons, finalRound,
      int64Json_int64Text fits, proposal, set, nonneg, intJson, inRange]

/-- A state whose values can be stored is read as an alike state. -/
theorem ofYojson_toYojson
    {state : State} (stored : Stored cfg state) (span : markSpan cfg ≤ 255) :
    ∃ state', ofYojson texts (toYojson texts state) = .ok state' ∧ Alike state state' := by
  obtain ⟨members', readMembers, alike⟩ :=
    mapM_map_of_read fun member listed =>
      memberOfJson_memberToJson (stored.members member listed) span
  obtain ⟨finals', readFinals, same⟩ :=
    mapM_map_of_read (R := Eq) fun final listed =>
      ⟨final, finalOfJson_finalToJson faithful (stored.finals final listed), rfl⟩
  rw [List.forall₂_eq_eq_eq] at same
  subst same
  have ordered := ordered_of_alike alike stored.ordered
  have distinctMembers : neighboursDiffer Member.address members' = true :=
    neighboursDiffer_of_pairwise (ordered.imp ne_of_lt)
  have distinctFinals : neighboursDiffer Final.epoch state.finals = true :=
    neighboursDiffer_of_pairwise (stored.epochs.imp ne_of_lt)
  refine ⟨{ state with members := members' }, ?_, alike, rfl, rfl, rfl, rfl⟩
  have applied : optionalInt64 "validator duty applied epoch"
      ((state.applied.map int64Text).getD .null) = .ok state.applied := by
    cases applied : state.applied with
    | none => rfl
    | some epoch =>
      exact congrArg (Except.map some) (int64Json_int64Text (stored.applied epoch applied) _)
  have unique : uniqueMembers members' = .ok () := if_pos <| by
    rwa [sortMembers_eq_self ordered]
  have uniqueFinal : uniqueFinals state.finals = .ok () := if_pos <| by
    rwa [sortFinals_eq_self stored.epochs]
  cases filled : state.seats with
  | none =>
    simp [ofYojson, toYojson, assoc, field, List.lookup_cons, list,
      sortMembers_eq_self stored.ordered, sortMembers_eq_self ordered,
      sortFinals_eq_self stored.epochs, int64Json_int64Text stored.safeAfter,
      applied, readMembers, readFinals, unique, uniqueFinal, optionalSeats, filled]
  | some seats =>
    have range : ¬ (seats < 4 ∨ 200 < seats) := by
      have inside := stored.seats seats filled
      omega
    simp [ofYojson, toYojson, assoc, field, List.lookup_cons, list,
      sortMembers_eq_self stored.ordered, sortMembers_eq_self ordered,
      sortFinals_eq_self stored.epochs, int64Json_int64Text stored.safeAfter,
      applied, readMembers, readFinals, unique, uniqueFinal, optionalSeats, intJson, range, filled]

/-- A stored state is read from its text as an alike state. -/
theorem ofString_toString
    {state : State} (stored : Stored cfg state) (span : markSpan cfg ≤ 255) :
    ∃ state', ofString texts (toString texts state) = .ok state' ∧ Alike state state' := by
  obtain ⟨state', read, alike⟩ := ofYojson_toYojson faithful stored span
  refine ⟨state', ?_, alike⟩
  unfold ofString toString
  rw [faithful.parse_print _ (exact_toYojson texts state)]
  exact read

end Texts
end SetFold
end LiteNode
