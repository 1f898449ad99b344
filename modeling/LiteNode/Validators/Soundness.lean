import LiteNode.Validators.Registry

/-!
# Sound registries

A registry is sound when its entries and slashes pass their checks and are
listed in the order of their addresses and ids. Each operation that succeeds
leaves a sound registry.
-/

namespace LiteNode

/-- A slash that passes its check. -/
structure SlashRecord.Valid (texts : Texts) (record : SlashRecord) : Prop where
  id : ValidatorRegistry.validHash texts record.id = true
  offender : isValidAddress record.offender = true
  evidenceEpoch : 0 ≤ record.evidenceEpoch
  appliedEpoch : record.evidenceEpoch ≤ record.appliedEpoch
  amount : 0 < record.amount

namespace ValidatorRegistry

variable {texts : Texts}

variable {entries : List ValidatorEntry} {entry : ValidatorEntry} {address : Bytes}

theorem validateEntries_iff : validateEntries entries = .ok () ↔
      ∀ entry ∈ entries, isValidAddress entry.address = true ∧ entry.Valid := by
  induction entries with
  | nil => simp [validateEntries]
  | cons entry rest ih =>
    rw [validateEntries, List.forall_mem_cons, ← ih,
      ite_error_eq_ok_iff, ← ValidatorEntry.validateEntry_iff]
    cases entry.validateEntry <;> simp

theorem validateUnique_iff {addresses pubkeys : List Bytes} :
    validateUnique addresses pubkeys entries = .ok () ↔
      (entries.map ValidatorEntry.address).Nodup ∧ (entries.map ValidatorEntry.pubkey).Nodup ∧
        (∀ entry ∈ entries, entry.address ∉ addresses) ∧
        ∀ entry ∈ entries, entry.pubkey ∉ pubkeys := by
  induction entries generalizing addresses pubkeys with
  | nil => simp [validateUnique]
  | cons entry rest ih =>
    rw [validateUnique, ite_error_eq_ok_iff, ite_error_eq_ok_iff, ih]
    simp only [List.contains_iff_mem, List.map_cons, List.nodup_cons,
      List.mem_map, List.mem_cons, not_or, not_exists, not_and]
    grind

theorem validateSlashes_iff {ids : List Bytes} {records : List SlashRecord} :
    validateSlashes texts ids records = .ok () ↔
      (∀ record ∈ records, record.Valid texts) ∧ (records.map SlashRecord.id).Nodup ∧
        ∀ record ∈ records, record.id ∉ ids := by
  induction records generalizing ids with
  | nil => simp [validateSlashes]
  | cons record rest ih =>
    have checked : record.Valid texts ↔
        validHash texts record.id = true ∧ isValidAddress record.offender = true ∧
          0 ≤ record.evidenceEpoch ∧
          record.evidenceEpoch ≤ record.appliedEpoch ∧ 0 < record.amount :=
      ⟨fun valid => ⟨valid.id, valid.offender, valid.evidenceEpoch,
          valid.appliedEpoch, valid.amount⟩,
        fun ⟨id, offender, evidenceEpoch, appliedEpoch, amount⟩ =>
          ⟨id, offender, evidenceEpoch, appliedEpoch, amount⟩⟩
    rw [validateSlashes]
    simp only [ite_error_eq_ok_iff]
    rw [ih]
    simp only [List.contains_iff_mem, List.map_cons, List.nodup_cons,
      List.mem_map, List.mem_cons, not_or, not_exists, not_and,
      Bool.not_eq_true', not_lt, not_le, Bool.not_eq_false]
    grind

theorem validate_iff {registry : ValidatorRegistry} :
    validate texts registry = .ok () ↔
      (∀ entry ∈ registry.entries, isValidAddress entry.address = true ∧ entry.Valid) ∧
      (registry.entries.map ValidatorEntry.address).Nodup ∧
      (registry.entries.map ValidatorEntry.pubkey).Nodup ∧
      (∀ record ∈ registry.slashes, record.Valid texts) ∧
      (registry.slashes.map SlashRecord.id).Nodup := by
  rw [← validateEntries_iff]
  unfold validate
  constructor
  · intro passed
    obtain ⟨_, entries, passed⟩ := bind_eq_ok passed
    obtain ⟨_, unique, slashes⟩ := bind_eq_ok passed
    obtain ⟨addresses, pubkeys, -, -⟩ := validateUnique_iff.mp unique
    obtain ⟨records, ids, -⟩ := validateSlashes_iff.mp slashes
    exact ⟨entries, addresses, pubkeys, records, ids⟩
  · rintro ⟨entries, addresses, pubkeys, records, ids⟩
    rw [entries, ok_bind, validateUnique_iff.mpr ⟨addresses, pubkeys, by simp, by simp⟩, ok_bind]
    exact validateSlashes_iff.mpr ⟨records, ids, by simp⟩

/-- Entries and slashes that pass their checks, in order, and were made no
later than an epoch. -/
structure Sound (texts : Texts) (epoch : Int) (registry : ValidatorRegistry) : Prop where
  entries : ∀ entry ∈ registry.entries, isValidAddress entry.address = true ∧ entry.Valid
  ordered : registry.entries.Pairwise fun left right => left.address < right.address
  pubkeys : (registry.entries.map ValidatorEntry.pubkey).Nodup
  slashes : ∀ record ∈ registry.slashes, record.Valid texts
  slashesOrdered : registry.slashes.Pairwise fun left right => left.id < right.id
  started : ∀ entry ∈ registry.entries, entry.MadeBy epoch
  applied : ∀ record ∈ registry.slashes, record.appliedEpoch ≤ epoch

theorem Sound.addresses {epoch : Int} {registry : ValidatorRegistry}
    (sound : Sound texts epoch registry) : (registry.entries.map ValidatorEntry.address).Nodup := by
  rw [List.Nodup, List.pairwise_map]
  exact sound.ordered.imp fun below => ne_of_lt below

theorem Sound.ids {epoch : Int} {registry : ValidatorRegistry}
    (sound : Sound texts epoch registry) : (registry.slashes.map SlashRecord.id).Nodup := by
  rw [List.Nodup, List.pairwise_map]
  exact sound.slashesOrdered.imp fun below => ne_of_lt below

/-- No other entry has the key of an entry. -/
theorem Sound.own_key {epoch : Int} {registry : ValidatorRegistry}
    (sound : Sound texts epoch registry) (present : entry ∈ registry.entries) :
    ∀ other ∈ registry.entries, other.address ≠ entry.address → other.pubkey ≠ entry.pubkey := by
  intro other listed apart same
  exact apart (congrArg ValidatorEntry.address
    (List.inj_on_of_nodup_map sound.pubkeys listed present same))

theorem Sound.validate {epoch : Int} {registry : ValidatorRegistry}
    (sound : Sound texts epoch registry) : registry.validate texts = .ok () :=
  validate_iff.mpr ⟨sound.entries, sound.addresses, sound.pubkeys, sound.slashes, sound.ids⟩

theorem Sound.later {epoch epoch' : Int} {registry : ValidatorRegistry}
    (sound : Sound texts epoch registry) (later : epoch ≤ epoch') : Sound texts epoch' registry :=
  { sound with
    started := fun entry present => (sound.started entry present).later later
    applied := fun record present => (sound.applied record present).trans later }

theorem sound_empty (texts : Texts) (epoch : Int) : Sound texts epoch empty := by
  constructor <;> simp [empty]

theorem mem_others : entry ∈ others address entries ↔
      entry ∈ entries ∧ entry.address ≠ address := by
  simp [others]

theorem mem_of_find {registry : ValidatorRegistry} (found : find address registry = some entry) :
    entry ∈ registry.entries ∧ entry.address = address := by
  have named := List.find?_some found
  exact ⟨List.mem_of_find?_eq_some found, by simpa using named⟩

theorem find_eq_some_iff {registry : ValidatorRegistry}
    (distinct : (registry.entries.map ValidatorEntry.address).Nodup) :
    find address registry = some entry ↔ entry ∈ registry.entries ∧ entry.address = address := by
  constructor
  · exact mem_of_find
  · rintro ⟨present, rfl⟩
    cases found : find entry.address registry with
    | none =>
      have absent := List.find?_eq_none.mp found entry present
      simp at absent
    | some other =>
      obtain ⟨listed, same⟩ := mem_of_find found
      rw [List.inj_on_of_nodup_map distinct listed present same]

theorem find_eq_none_iff {registry : ValidatorRegistry} : find address registry = none ↔
      ∀ entry ∈ registry.entries, entry.address ≠ address := by
  simp [find, List.find?_eq_none]

theorem others_of_find_eq_none {registry : ValidatorRegistry}
    (absent : find address registry = none) :
    others address registry.entries = registry.entries := by
  apply List.filter_eq_self.mpr
  intro entry present
  exact decide_eq_true (find_eq_none_iff.mp absent entry present)

/-- An entry that is found stands next to the entries of other addresses. -/
theorem perm_others (distinct : (entries.map ValidatorEntry.address).Nodup)
    (present : entry ∈ entries) (named : entry.address = address) :
    entries.Perm (entry :: others address entries) := by
  have items : entries.Nodup := distinct.of_map
  have unlisted : entry ∉ others address entries := fun listed => (mem_others.mp listed).2 named
  rw [List.perm_ext_iff_of_nodup items (List.nodup_cons.mpr ⟨unlisted, items.filter _⟩)]
  intro other
  rw [List.mem_cons, mem_others]
  constructor
  · intro listed
    by_cases same : other.address = address
    · exact .inl (List.inj_on_of_nodup_map distinct listed present (same.trans named.symm))
    · exact .inr ⟨listed, same⟩
  · rintro (rfl | ⟨listed, -⟩)
    · exact present
    · exact listed

def bonds (entries : List ValidatorEntry) : Int := (entries.map ValidatorEntry.bond).sum

theorem bonds_eq_of_perm {left right : List ValidatorEntry}
    (same : left.Perm right) : bonds left = bonds right :=
  (same.map _).sum_eq

@[simp] theorem bonds_cons (entry : ValidatorEntry) (entries : List ValidatorEntry) :
    bonds (entry :: entries) = entry.bond + bonds entries := rfl

theorem bonds_others {registry : ValidatorRegistry}
    (distinct : (registry.entries.map ValidatorEntry.address).Nodup)
    (found : find address registry = some entry) :
    bonds (others address registry.entries) = bonds registry.entries - entry.bond := by
  obtain ⟨present, named⟩ := (find_eq_some_iff distinct).mp found
  rw [bonds_eq_of_perm (perm_others distinct present named), bonds_cons]
  omega

theorem bonds_replace (entry : ValidatorEntry) (registry : ValidatorRegistry) :
    bonds (replace entry registry).entries =
      entry.bond + bonds (others entry.address registry.entries) :=
  bonds_eq_of_perm (sortByKey_perm _ _)

theorem mem_replace {other : ValidatorEntry} {registry : ValidatorRegistry} :
    other ∈ (replace entry registry).entries ↔
      other = entry ∨ other ∈ others entry.address registry.entries := by
  simp [replace, canonical]

theorem pairwise_lt_sortByKey
    {key : α → Bytes} {items : List α} (distinct : (items.map key).Nodup) :
    (sortByKey key items).Pairwise fun left right => key left < key right := by
  have listed : ((sortByKey key items).map key).Nodup :=
    ((sortByKey_perm key items).map key).nodup_iff.mpr distinct
  rw [List.Nodup, List.pairwise_map] at listed
  exact (sortByKey_pairwise key items).imp₂
    (fun _ _ below apart => lt_of_le_of_ne below apart) listed

section Steps

variable {epoch : Int} {registry : ValidatorRegistry}

theorem Sound.others (sound : Sound texts epoch registry) (address : Bytes) :
    Sound texts epoch { registry with entries := others address registry.entries } where
  entries entry listed := sound.entries entry (mem_others.mp listed).1
  ordered := sound.ordered.filter _
  pubkeys := sound.pubkeys.sublist (List.filter_sublist.map _)
  slashes := sound.slashes
  slashesOrdered := sound.slashesOrdered
  started entry listed := sound.started entry (mem_others.mp listed).1
  applied := sound.applied

/-- An entry may replace that of its address, unless another has its key. -/
theorem Sound.replace (sound : Sound texts epoch registry) {entry : ValidatorEntry}
    (address : isValidAddress entry.address = true) (valid : entry.Valid)
    (own : ∀ other ∈ registry.entries, other.address ≠ entry.address →
      other.pubkey ≠ entry.pubkey) (started : entry.MadeBy epoch) :
    Sound texts epoch (registry.replace entry) := by
  have rest := sound.others entry.address
  have addresses : ((entry :: ValidatorRegistry.others entry.address
      registry.entries).map ValidatorEntry.address).Nodup := by
    refine List.nodup_cons.mpr ⟨?_, rest.addresses⟩
    intro listed
    obtain ⟨other, present, same⟩ := List.mem_map.mp listed
    exact (mem_others.mp present).2 same
  constructor
  · intro other listed
    rcases mem_replace.mp listed with rfl | present
    · exact ⟨address, valid⟩
    · exact rest.entries other present
  · exact pairwise_lt_sortByKey addresses
  · refine ((sortByKey_perm _ _).map _).nodup_iff.mpr ?_
    refine List.nodup_cons.mpr ⟨?_, rest.pubkeys⟩
    intro listed
    obtain ⟨other, present, same⟩ := List.mem_map.mp listed
    obtain ⟨member, apart⟩ := mem_others.mp present
    exact own other member apart same
  · exact sound.slashes
  · exact sound.slashesOrdered
  · intro other listed
    rcases mem_replace.mp listed with rfl | present
    · exact started
    · exact rest.started other present
  · exact sound.applied

variable {address : Bytes} {amount : Int} {next : ValidatorRegistry}

/-- What a bond that succeeds does. -/
theorem applyBond_cases {verifyEd25519 : Bytes → Bytes → Bytes → Bool}
    {parameters : ValidatorEntry.Parameters} {chainId : Bytes}
    {senderPubkeyB64 : Bytes} {nonce : Int} {payload : BondPayload}
    (bonded : applyBond texts verifyEd25519 parameters chainId epoch address
      senderPubkeyB64 amount nonce payload registry = .ok next) :
    ∃ entry : ValidatorEntry, next = registry.replace entry ∧
      entry.address = address ∧ next.validate texts = .ok () ∧
      ((find address registry = none ∧ entry.bond = amount ∧
          entry.bondedEpoch = epoch ∧ entry.readyEpoch = none ∧ entry.exitEpoch = none) ∨
        ∃ current, find address registry = some current ∧ current.exitEpoch = none ∧
          entry = { current with bond := current.bond + amount }) := by
  unfold applyBond at bonded
  simp only [ite_error_eq_ok_iff] at bonded
  obtain ⟨-, -, -, bonded⟩ := bonded
  split at bonded
  · cases bonded
  · cases bonded
  · next senderPubkey pubkey _ _ =>
    simp only [ite_error_eq_ok_iff] at bonded
    obtain ⟨-, -, bonded⟩ := bonded
    cases found : find address registry with
    | none =>
      rw [found] at bonded
      obtain ⟨_, passed, rfl⟩ := map_eq_ok bonded
      refine ⟨_, rfl, ?_, passed, .inl ⟨rfl, ?_⟩⟩
      · simp [bondedEntry, found]
      · simp [bondedEntry, found]
    | some current =>
      rw [found] at bonded
      simp only [ite_error_eq_ok_iff, ne_eq, not_not] at bonded
      obtain ⟨staying, sameKey, bonded⟩ := bonded
      obtain ⟨_, passed, rfl⟩ := map_eq_ok bonded
      have entry : bondedEntry epoch address pubkey amount registry =
          { current with bond := current.bond + amount } := by
        simp [bondedEntry, found, staying, sameKey]
      have named := (mem_of_find found).2
      rw [entry] at passed ⊢
      exact ⟨_, rfl, named, passed, .inr ⟨current, rfl, staying, rfl⟩⟩

/-- What a readiness that succeeds does. -/
theorem markReady_cases {consensusPubkeyB64 : Bytes}
    (marked : markReady texts epoch address consensusPubkeyB64 registry = .ok next) :
    ∃ entry readyEpoch, find address registry = some entry ∧ entry.exitEpoch = none ∧ 0 ≤ epoch ∧
      (readyEpoch = epoch ∨
        ∃ current, entry.readyEpoch = some current ∧ readyEpoch = min current epoch) ∧
      next = registry.replace { entry with readyEpoch := some readyEpoch } := by
  unfold markReady at marked
  rw [ite_error_eq_ok_iff, not_lt] at marked
  obtain ⟨nonneg, marked⟩ := marked
  split at marked
  · cases marked
  · cases marked
  · next pubkey entry _ found =>
    simp only [ite_error_eq_ok_iff, ne_eq, not_not] at marked
    obtain ⟨staying, -, marked⟩ := marked
    cases marked
    cases before : entry.readyEpoch with
    | none => exact ⟨entry, epoch, found, staying, nonneg, .inl rfl, rfl⟩
    | some current =>
      exact ⟨entry, min current epoch, found, staying, nonneg, .inr ⟨current, before, rfl⟩, rfl⟩

theorem requestExit_cases (requested : requestExit epoch address registry = .ok next) :
    ∃ entry, find address registry = some entry ∧ entry.exitEpoch = none ∧ 0 ≤ epoch ∧
      next = registry.replace { entry with exitEpoch := some epoch } := by
  unfold requestExit at requested
  rw [ite_error_eq_ok_iff, not_lt] at requested
  obtain ⟨nonneg, requested⟩ := requested
  split at requested
  · cases requested
  · next entry found =>
    simp only [ite_error_eq_ok_iff, ne_eq, not_not] at requested
    obtain ⟨staying, requested⟩ := requested
    cases requested
    exact ⟨entry, found, staying, nonneg, rfl⟩

/-- What a withdrawal that succeeds does. -/
theorem withdraw_cases {parameters : ValidatorEntry.Parameters} {activeAddresses : List Bytes}
    (withdrawn : withdraw parameters epoch activeAddresses address registry = .ok (next, amount)) :
    ∃ entry, find address registry = some entry ∧ amount = entry.bond ∧
      next = { registry with
        entries := others address registry.entries } := by
  unfold withdraw at withdrawn
  split at withdrawn
  · cases withdrawn
  · next entry found =>
    rw [ite_error_eq_ok_iff] at withdrawn
    obtain ⟨-, withdrawn⟩ := withdrawn
    split at withdrawn
    · cases withdrawn
    · cases withdrawn
    · cases withdrawn
      exact ⟨entry, found, rfl, rfl⟩

/-- What a slash that succeeds does. -/
theorem applySlash_cases {evidenceEpochs : Int} {evidence : VerifiedEvidence}
    (slashed : applySlash texts epoch evidenceEpochs evidence registry = .ok (next, amount)) :
    ∃ entry, find evidence.offender registry = some entry ∧ amount = entry.bond ∧
      (∀ record ∈ registry.slashes,
        evidenceFresh epoch evidenceEpochs record = true → record.id ≠ evidence.id) ∧
      next = {
        entries := others evidence.offender registry.entries
        slashes := canonicalSlashes (
          { id := evidence.id
            offender := evidence.offender
            evidenceEpoch := evidence.evidenceEpoch
            appliedEpoch := epoch
            amount := entry.bond } ::
          registry.slashes.filter (evidenceFresh epoch evidenceEpochs)) } ∧
      next.validate texts = .ok () := by
  unfold applySlash at slashed
  rw [ite_error_eq_ok_iff] at slashed
  obtain ⟨unapplied, slashed⟩ := slashed
  split at slashed
  · cases slashed
  · next entry found =>
    obtain ⟨_, passed, done⟩ := map_eq_ok slashed
    cases done
    refine ⟨entry, found, rfl, ?_, rfl, passed⟩
    intro record present fresh same
    apply unapplied
    rw [List.any_eq_true]
    exact ⟨record, List.mem_filter.mpr ⟨present, fresh⟩, decide_eq_true same⟩

end Steps
end ValidatorRegistry
end LiteNode
