import LiteNode.Duty.Transparency
import LiteNode.Validators.Runs

/-!
# The stored registry

The registry is stored as JSON, with its entries in the order of their
addresses and its slashes in the order of their ids. A registry of a run is read
back as it was.
-/

namespace LiteNode
namespace ValidatorRegistry

section Text

variable (texts : Texts) (zOfString : Bytes → Option Int)

def standardName : Bytes := Bytes.ofAscii "bonded_stake"

def int64Text (n : Int) : Json := .string (intToString n)

def epochText : Option Int → Json
  | none => .null
  | some epoch => int64Text epoch

def entryToYojson (entry : ValidatorEntry) : Json :=
  .assoc [("address", .string entry.address),
    ("consensus_pubkey", .string (texts.encode entry.pubkey)),
    ("bond", .string (intToString entry.bond)), ("bonded_epoch", int64Text entry.bondedEpoch),
    ("ready_epoch", epochText entry.readyEpoch), ("exit_epoch", epochText entry.exitEpoch)]

def slashToYojson (record : SlashRecord) : Json :=
  .assoc [("id", .string record.id), ("offender", .string record.offender),
    ("evidence_epoch", int64Text record.evidenceEpoch),
    ("applied_epoch", int64Text record.appliedEpoch),
    ("amount", .string (intToString record.amount))]

def toYojson (registry : ValidatorRegistry) : Json :=
  .assoc [("standard", .string standardName), ("candidates",
      .list ((canonical registry.entries).map (entryToYojson texts))),
    ("slashes", .list ((canonicalSlashes registry.slashes).map slashToYojson))]

def toString (registry : ValidatorRegistry) : Bytes := texts.print (toYojson texts registry)

def parseInt64 (label : String) : Json → Except String Int
  | .string raw =>
    match intOfString int64Bits raw with
    | some value => .ok value
    | none => .error ("invalid " ++ label)
  | .int value => .ok value
  | _ => .error (label ++ " must be string or int")

def parseOptionalInt64 (label : String) : Json → Except String (Option Int)
  | .null => .ok none
  | value => (parseInt64 label value).map some

def parseBond : Json → Except String Int
  | .string raw =>
    match zOfString raw with
    | some value =>
      if value ≤ 0 then .error "validator bond must be positive"
      else .ok value
    | none => .error "invalid validator bond"
  | _ => .error "validator bond must be string"

def entryOfYojson : Json → Except String ValidatorEntry
  | .assoc fields =>
    match fields.lookup "address", fields.lookup "consensus_pubkey",
      fields.lookup "bond", fields.lookup "bonded_epoch",
      fields.lookup "ready_epoch", fields.lookup "exit_epoch" with
    | some (.string address), some (.string consensusPubkeyB64),
      some bondJson, some bondedEpochJson, some readyEpochJson, some exitEpochJson => do
        let pubkey ← rawPubkey texts consensusPubkeyB64
        let bond ← parseBond zOfString bondJson
        let bondedEpoch ←
          parseInt64 "validator bonded epoch" bondedEpochJson
        let readyEpoch ←
          parseOptionalInt64 "validator ready epoch" readyEpochJson
        let exitEpoch ←
          parseOptionalInt64 "validator exit epoch" exitEpochJson
        .ok { address, pubkey, bond, bondedEpoch, readyEpoch, exitEpoch }
    | _, _, _, _, _, _ => .error "invalid validator registry candidate"
  | _ => .error "validator registry candidate must be object"

def slashOfYojson : Json → Except String SlashRecord
  | .assoc fields =>
    match fields.lookup "id", fields.lookup "offender",
      fields.lookup "evidence_epoch", fields.lookup "applied_epoch", fields.lookup "amount" with
    | some (.string id), some (.string offender), some evidenceEpochJson,
      some appliedEpochJson, some amountJson => do
        let evidenceEpoch ←
          parseInt64 "validator evidence epoch" evidenceEpochJson
        let appliedEpoch ←
          parseInt64 "validator evidence applied epoch" appliedEpochJson
        let amount ← parseBond zOfString amountJson
        .ok { id, offender, evidenceEpoch, appliedEpoch, amount }
    | _, _, _, _, _ => .error "invalid validator slash record"
  | _ => .error "validator slash record must be object"

/-- The items that values stand for, the last one first. -/
def collect (parse : Json → Except String α) (values : List Json) : Except String (List α) :=
  values.foldl (fun result value =>
    match result, parse value with
    | .error reason, _ => .error reason
    | _, .error reason => .error reason
    | .ok items, .ok item => .ok (item :: items)) (.ok [])

def parseSlashes : Option Json → Except String (List SlashRecord)
  | none => .ok []
  | some (.list records) => collect (slashOfYojson zOfString) records
  | some _ => .error "validator slashes must be list"

def ofYojson : Json → Except String ValidatorRegistry
  | .assoc fields =>
    match fields.lookup "standard", fields.lookup "candidates" with
    | some (.string standard), some (.list values) =>
      if standard = standardName then do
        let entries ← collect (entryOfYojson texts zOfString) values
        let slashes ← parseSlashes zOfString (fields.lookup "slashes")
        let registry : ValidatorRegistry :=
          { entries := canonical entries, slashes := canonicalSlashes slashes }
        validate texts registry
        .ok registry
      else .error "validator registry standard mismatch"
    | some (.string _), _ => .error "validator registry standard mismatch"
    | _, _ => .error "invalid validator registry"
  | _ => .error "validator registry must be object"

def ofString (raw : Bytes) : Except String ValidatorRegistry :=
  match texts.parse raw with
  | none => .error "invalid validator registry JSON"
  | some json => ofYojson texts zOfString json

end Text

/-! ## Reading what was written -/

section Reading

variable {texts : Texts} {zOfString : Bytes → Option Int}

theorem exact_epochText (epoch : Option Int) : (epochText epoch).Exact := by
  cases epoch with
  | none => exact .null
  | some epoch => exact .string _

/-- What is written of a registry holds no number that a text might round. -/
theorem exact_toYojson (registry : ValidatorRegistry) : (toYojson texts registry).Exact := by
  refine .assoc ?_
  simp only [List.forall_mem_cons, List.not_mem_nil, false_imp_iff, implies_true, and_true]
  refine ⟨.string _, .list ?_, .list ?_⟩
  · intro item listed
    obtain ⟨entry, -, rfl⟩ := List.mem_map.mp listed
    refine .assoc ?_
    simp only [List.forall_mem_cons, List.not_mem_nil, false_imp_iff, implies_true, and_true]
    exact ⟨.string _, .string _, .string _, .string _, exact_epochText _, exact_epochText _⟩
  · intro item listed
    obtain ⟨record, -, rfl⟩ := List.mem_map.mp listed
    refine .assoc ?_
    simp only [List.forall_mem_cons, List.not_mem_nil, false_imp_iff, implies_true, and_true]
    exact ⟨.string _, .string _, .string _, .string _, .string _⟩

theorem parseInt64_int64Text {n : Int} (fits : FitsBits int64Bits n) (label : String) :
    parseInt64 label (int64Text n) = .ok n := by
  unfold parseInt64 int64Text
  dsimp only
  rw [intOfString_intToString (by decide) fits]

theorem parseOptionalInt64_epochText
    {epoch : Option Int} (fits : ∀ n, epoch = some n → FitsBits int64Bits n) (label : String) :
    parseOptionalInt64 label (epochText epoch) = .ok epoch := by
  cases epoch with
  | none => rfl
  | some n =>
    have read := parseInt64_int64Text (fits n rfl) label
    have text : epochText (some n) = int64Text n := rfl
    rw [text]
    unfold parseOptionalInt64
    rw [show int64Text n = .string (intToString n) from rfl] at read ⊢
    dsimp only
    rw [read]
    rfl

theorem parseBond_intToString (reads : ∀ n, zOfString (intToString n) = some n) {n : Int}
    (positive : 0 < n) : parseBond zOfString (.string (intToString n)) = .ok n := by
  simp [parseBond, reads, Int.not_le.mpr positive]

variable {epoch : Int}

theorem entryOfYojson_entryToYojson (faithful : texts.Faithful)
    (reads : ∀ n, zOfString (intToString n) = some n)
    {entry : ValidatorEntry} (valid : entry.Valid) (made : entry.MadeBy epoch)
    (fits : FitsBits int64Bits epoch) :
    entryOfYojson texts zOfString (entryToYojson texts entry) = .ok entry := by
  have nonneg := valid.bondedEpoch
  have within : ∀ n, entry.bondedEpoch ≤ n → n ≤ epoch → FitsBits int64Bits n := by
    intro n least most
    obtain ⟨_, below⟩ := fits
    unfold int64Bits at below
    exact ⟨by unfold int64Bits; omega, by unfold int64Bits; omega⟩
  have bonded := within _ le_rfl made.bonded
  have ready : ∀ n, entry.readyEpoch = some n → FitsBits int64Bits n :=
    fun n recorded => within n (valid.ready n recorded) (made.ready n recorded)
  have exit : ∀ n, entry.exitEpoch = some n → FitsBits int64Bits n :=
    fun n recorded => within n (valid.exit n recorded) (made.exit n recorded)
  have pubkey : rawPubkey texts (texts.encode entry.pubkey) = .ok entry.pubkey := by
    simp [rawPubkey, faithful.decode_encode, valid.pubkey]
  simp [entryOfYojson, entryToYojson, List.lookup_cons, pubkey,
    parseBond_intToString reads valid.bond, parseInt64_int64Text bonded,
    parseOptionalInt64_epochText ready, parseOptionalInt64_epochText exit]

theorem slashOfYojson_slashToYojson (reads : ∀ n, zOfString (intToString n) = some n)
    {record : SlashRecord} (valid : record.Valid texts)
    (made : record.appliedEpoch ≤ epoch) (fits : FitsBits int64Bits epoch) :
    slashOfYojson zOfString (slashToYojson record) = .ok record := by
  have nonneg := valid.evidenceEpoch
  have order := valid.appliedEpoch
  obtain ⟨_, below⟩ := fits
  unfold int64Bits at below
  have evidence : FitsBits int64Bits record.evidenceEpoch :=
    ⟨by unfold int64Bits; omega, by unfold int64Bits; omega⟩
  have applied : FitsBits int64Bits record.appliedEpoch :=
    ⟨by unfold int64Bits; omega, by unfold int64Bits; omega⟩
  simp [slashOfYojson, slashToYojson, List.lookup_cons,
    parseBond_intToString reads valid.amount, parseInt64_int64Text evidence,
    parseInt64_int64Text applied]

/-- Values that are read as their items are collected in reverse. -/
theorem collect_map {parse : Json → Except String α} {write : α → Json} {items : List α}
    (read : ∀ item ∈ items, parse (write item) = .ok item) :
    collect parse (items.map write) = .ok items.reverse := by
  unfold collect
  induction items using List.reverseRecOn with
  | nil => rfl
  | append_singleton earlier item ih =>
    have here := read item (List.mem_append_right _ List.mem_cons_self)
    rw [List.map_append, List.foldl_append, ih
      (fun other listed => read other (List.mem_append_left _ listed))]
    simp [here]

/-- Items listed by increasing key are found again by sorting. -/
theorem sortByKey_reverse {key : α → Bytes} {items : List α}
    (increasing : items.Pairwise fun left right => key left < key right) :
    sortByKey key items.reverse = items := by
  have distinct : (items.map key).Nodup := by
    rw [List.Nodup, List.pairwise_map]
    exact increasing.imp fun below => ne_of_lt below
  rw [← sortByKey_eq_of_perm (List.reverse_perm items).symm distinct,
    sortByKey_eq_self (increasing.imp fun below => le_of_lt below)]

/-- A sound registry is read back as it was. -/
theorem ofString_toString (faithful : texts.Faithful)
    (reads : ∀ n, zOfString (intToString n) = some n)
    {registry : ValidatorRegistry} (sound : Sound texts epoch registry)
    (fits : FitsBits int64Bits epoch) :
    ofString texts zOfString (toString texts registry) = .ok registry := by
  have entries : canonical registry.entries = registry.entries :=
    sortByKey_eq_self (sound.ordered.imp fun below => le_of_lt below)
  have slashes : canonicalSlashes registry.slashes = registry.slashes :=
    sortByKey_eq_self (sound.slashesOrdered.imp fun below => le_of_lt below)
  have readEntries : collect (entryOfYojson texts zOfString)
      (registry.entries.map (entryToYojson texts)) = .ok registry.entries.reverse := by
    apply collect_map
    intro entry listed
    exact entryOfYojson_entryToYojson faithful reads
      (sound.entries entry listed).2 (sound.started entry listed) fits
  have readSlashes : collect (slashOfYojson zOfString)
      (registry.slashes.map slashToYojson) = .ok registry.slashes.reverse := by
    apply collect_map
    intro record listed
    exact slashOfYojson_slashToYojson reads (sound.slashes record listed)
      (sound.applied record listed) fits
  have restored : ({ entries := canonical registry.entries.reverse
                     slashes := canonicalSlashes registry.slashes.reverse } :
      ValidatorRegistry) = registry := by
    unfold canonical canonicalSlashes
    rw [sortByKey_reverse sound.ordered, sortByKey_reverse sound.slashesOrdered]
  unfold ofString toString
  rw [faithful.parse_print _ (exact_toYojson registry)]
  simp [ofYojson, toYojson, List.lookup_cons, entries, slashes, readEntries,
    parseSlashes, readSlashes, restored, sound.validate]

end Reading

/-- An exiting entry stays as it is until it leaves the registry. -/
theorem find_perform_exiting
    {ctx : EvidenceContext} {epoch : Int} {registry next : ValidatorRegistry}
    {operation : Operation} {change : Change} {address : Bytes}
    {entry : ValidatorEntry} (sound : Sound ctx.texts epoch registry)
    (later : epoch ≤ operation.epoch)
    (performed : perform ctx registry operation = .ok (next, change))
    (found : find address registry = some entry) (exiting : entry.exitEpoch ≠ none) :
    find address next = some entry ∨ find address next = none := by
  obtain ⟨present, named⟩ := mem_of_find found
  have addresses := (sound.perform performed later).addresses
  -- an entry that is replaced is not exiting, so it is another one
  have beside : ∀ (changed : ValidatorEntry) (current : Bytes), changed.address = current →
      (∀ former, find current registry = some former → former.exitEpoch = none) →
      next = registry.replace changed → find address next = some entry := by
    rintro changed current rfl staying rfl
    refine (find_eq_some_iff addresses).mpr ⟨?_, named⟩
    refine mem_replace.mpr (.inr (mem_others.mpr ⟨present, ?_⟩))
    rintro same
    rw [← same, named] at staying
    exact exiting (staying entry found)
  have kept : ∀ current : Bytes, next.entries = others current registry.entries →
      find address next = some entry ∨ find address next = none := by
    intro current rest
    by_cases same : address = current
    · refine .inr (find_eq_none_iff.mpr ?_)
      rw [rest, same]
      exact fun candidate listed => (mem_others.mp listed).2
    · refine .inl ((find_eq_some_iff addresses).mpr ⟨?_, named⟩)
      rw [rest]
      exact mem_others.mpr ⟨present, named ▸ same⟩
  cases operation with
  | bond parameters epoch current senderPubkeyB64 amount nonce payload =>
    obtain ⟨_, bonded, done⟩ := map_eq_ok performed
    cases done
    obtain ⟨changed, replaced, here, -, entered⟩ := applyBond_cases bonded
    refine .inl (beside changed current here ?_ replaced)
    intro former stored
    rcases entered with ⟨absent, -⟩ | ⟨other, stored', staying, -⟩
    · rw [stored] at absent
      cases absent
    · rw [stored] at stored'
      cases stored'
      exact staying
  | ready epoch current consensusPubkeyB64 =>
    obtain ⟨_, marked, done⟩ := map_eq_ok performed
    cases done
    obtain ⟨other, _, stored', staying, -, -, replaced⟩ := markReady_cases marked
    have here := (mem_of_find stored').2
    refine .inl (beside _ current ?_ ?_ replaced)
    · exact here
    intro former stored
    rw [stored] at stored'
    cases stored'
    exact staying
  | exit epoch current =>
    obtain ⟨_, requested, done⟩ := map_eq_ok performed
    cases done
    obtain ⟨other, stored', staying, -, replaced⟩ := requestExit_cases requested
    have here := (mem_of_find stored').2
    refine .inl (beside _ current ?_ ?_ replaced)
    · exact here
    intro former stored
    rw [stored] at stored'
    cases stored'
    exact staying
  | withdraw parameters currentEpoch activeAddresses current =>
    obtain ⟨⟨_, amount⟩, withdrawn, done⟩ := map_eq_ok performed
    cases done
    obtain ⟨_, -, -, rfl⟩ := withdraw_cases withdrawn
    exact kept current rfl
  | slash currentEpoch evidenceEpochs current conflict =>
    obtain ⟨_, evidence, amount, -, -, applied, -⟩ := slashBy_cases performed
    obtain ⟨_, -, -, -, rfl, -⟩ := applySlash_cases applied
    exact kept evidence.offender rfl

/-- **The registry over every run.** At epochs that do not decrease, with
windows for evidence that do not grow, the registry passes its checks and is in
order, its bonds are what was bonded less what was returned, no evidence was
applied twice, an exiting entry is left alone until it leaves, and the stored
registry is read back as it was. -/
theorem registry_of_run (ctx : EvidenceContext) (zOfString : Bytes → Option Int)
    (ideal : IdealHash ctx.sha256) (faithful : ctx.texts.Faithful)
    (reads : ∀ n, zOfString (intToString n) = some n) (operations : List Operation)
    (ordered : operations.Pairwise Operation.Before)
    (fits : ∀ operation ∈ operations, FitsBits int64Bits operation.epoch) :
    let accounts := Accounts.run ctx operations
    let registry := accounts.registry
    registry.validate ctx.texts = .ok () ∧
      (registry.entries.Pairwise fun left right => left.address < right.address) ∧
      (registry.entries.map ValidatorEntry.pubkey).Nodup ∧
      bonds registry.entries = accounts.bonded - accounts.withdrawn - accounts.slashed ∧
      (accounts.applied.map VerifiedEvidence.id).Nodup ∧
      (∀ address entry, find address registry = some entry →
        entry.exitEpoch ≠ none →
        ((∀ parameters epoch senderPubkeyB64 amount nonce payload, ∃ reason,
            perform ctx registry (.bond parameters epoch address
              senderPubkeyB64 amount nonce payload) = .error reason) ∧
          (∀ epoch consensusPubkeyB64, ∃ reason,
            perform ctx registry (.ready epoch address consensusPubkeyB64) = .error reason) ∧
          ∀ epoch, ∃ reason,
            perform ctx registry (.exit epoch address) = .error reason) ∧
        ∀ operation next change,
          (∀ earlier ∈ operations, earlier.epoch ≤ operation.epoch) →
          perform ctx registry operation = .ok (next, change) →
          find address next = some entry ∨ find address next = none) ∧
      ofString ctx.texts zOfString (toString ctx.texts registry) = .ok registry := by
  intro accounts registry
  have balanced := balanced_run ideal faithful ordered fits
  have latest : ∃ epoch, FitsBits int64Bits epoch ∧
      ∀ operation ∈ operations, operation.epoch ≤ epoch :=
    ⟨2 ^ 63 - 1, by unfold FitsBits int64Bits; omega, fun operation present => by
      have most := (fits operation present).2
      unfold int64Bits at most
      omega⟩
  obtain ⟨epoch, epochFits, later⟩ := latest
  have sound := balanced.sound epoch later
  refine ⟨sound.validate, sound.ordered, sound.pubkeys, balanced.balance,
    balanced.distinct, ?_, ofString_toString faithful reads sound epochFits⟩
  intro address entry found exiting
  refine ⟨perform_exiting found exiting, ?_⟩
  intro operation next change after performed
  exact find_perform_exiting (balanced.sound operation.epoch after) le_rfl performed found exiting

namespace TwoSlashes

/-- Addresses and keys of two validators. -/
def address (digit : UInt8) : Bytes := Bytes.ofAscii "oct" ++ List.replicate 44 digit

def pubkey (digit : UInt8) : Bytes := List.replicate 32 digit

/-- Two prevotes of an epoch for different proposals. -/
def conflict (digit : UInt8) (epochId : Int) : VoteConflict :=
  let vote (proposal : UInt8) : Vote :=
    { chainId := [67]
      epochId
      round := 0
      voteType := .prevote
      proposalId := List.replicate 32 proposal
      validator := address digit
      signature := List.replicate 64 proposal }
  ⟨vote 1, vote 2⟩

/-- What is hashed for the name of a conflict. -/
def preimage (conflict : VoteConflict) : Bytes := (voteConflictId id conflict).toOption.getD []

/-- Every signature passes; the hash is known at the conflicts in question. -/
def ctx : EvidenceContext where
  texts := SetFold.plainTexts
  ext := { Externals.plain with verifyEd25519 := fun _ _ _ => true }
  sha256 := tableHash [
    (preimage (conflict 65 5), List.replicate 32 5),
    (preimage (conflict 66 15), List.replicate 32 15)]
  chainId := [67]

def parameters : ValidatorEntry.Parameters where
  minBond := 1
  maxValidators := 4
  activationDelay := 1
  unbondingEpochs := 1

def bond (epoch : Int) (digit : UInt8) : Operation :=
  let key := Base64.encode (pubkey digit)
  .bond parameters epoch (address digit) key 10 0 ⟨key, []⟩

/-- A validator is slashed, bonds again and is slashed for the same votes once
the window has grown. -/
def operations (window : Int) : List Operation :=
  [bond 5 65, bond 5 66, .slash 5 10 (address 65) (conflict 65 5), bond 5 65,
    .slash 20 10 (address 66) (conflict 66 15), .slash 20 window (address 65) (conflict 65 5)]

theorem ideal : IdealHash ctx.sha256 := ideal_tableHash (by decide) (by decide)

end TwoSlashes

open TwoSlashes in
/-- With a growing window one piece of evidence is applied twice. -/
theorem applied_twice_of_growing_window :
    IdealHash ctx.sha256 ∧ ctx.texts.Faithful ∧
      (operations 100).Pairwise (fun earlier later => earlier.epoch ≤ later.epoch) ∧
      (Accounts.run ctx (operations 100)).applied.length = 3 ∧
      ¬ ((Accounts.run ctx (operations 100)).applied.map VerifiedEvidence.id).Nodup := by
  refine ⟨TwoSlashes.ideal, SetFold.faithful_plainTexts, ?_, ?_, ?_⟩
  · simp [operations, bond, Operation.epoch]
  · decide +kernel
  · decide +kernel

open TwoSlashes in
/-- With a fixed window the same evidence is refused, and the stored registry
is read back. -/
theorem registry_of_run_twoSlashes :
    let accounts := Accounts.run ctx (operations 10)
    accounts.applied.length = 2 ∧
      (accounts.applied.map VerifiedEvidence.id).Nodup ∧
      bonds accounts.registry.entries = accounts.bonded - accounts.withdrawn - accounts.slashed ∧
      ofString ctx.texts readDecimal (toString ctx.texts accounts.registry) =
        .ok accounts.registry := by
  have ordered : (operations 10).Pairwise Operation.Before := by
    simp [operations, bond, Operation.Before, Operation.epoch,
      Operation.window]
  have fits : ∀ operation ∈ operations 10, FitsBits int64Bits operation.epoch := by
    simp [operations, bond, Operation.epoch, FitsBits, int64Bits]
  obtain ⟨-, -, -, balance, distinct, -, read⟩ :=
    registry_of_run ctx readDecimal TwoSlashes.ideal
      SetFold.faithful_plainTexts readDecimal_intToString (operations 10)
      ordered fits
  exact ⟨by decide +kernel, distinct, balance, read⟩

end ValidatorRegistry
end LiteNode
