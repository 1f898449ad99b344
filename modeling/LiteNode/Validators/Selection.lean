import LiteNode.Validators.SetUpdate

/-!
# The selected members

A snapshot takes the first eligible entries in the order of incumbency, bond and
address, so that it does not depend on the order in which entries and incumbents
are given. The set that an update makes of its members weighs the same, and has
the same quorums.
-/

namespace LiteNode
namespace ValidatorSnapshot

def weights (taken : ValidatorSnapshot) : Table Bytes Int :=
  taken.validators.foldl
    (fun weights validator => weights.replace validator.address validator.weight)
    ∅

def signedWeightFrom (weights : Table Bytes Int) (seen : List Bytes)
    (total : Int) : List Bytes → Except String Int
  | [] => .ok total
  | signer :: rest =>
    if seen.contains signer then signedWeightFrom weights seen total rest
    else
      match weights.find? signer with
      | none => .error "validator signature is not in snapshot"
      | some weight => signedWeightFrom weights (signer :: seen) (total + weight) rest

def signedWeight (taken : ValidatorSnapshot) (signers : List Bytes) : Except String Int :=
  signedWeightFrom taken.weights [] 0 signers

def hasQuorum (taken : ValidatorSnapshot) (signers : List Bytes) : Except String Bool :=
  match taken.signedWeight signers with
  | .error reason => .error reason
  | .ok weight =>
    let n : Int := taken.validators.length
    let f := (n - 1).tdiv 3
    let quorum := if n < 4 then n else n - f
    let signerCount := ValidatorSet.uniqueSignerCount signers
    .ok (decide (quorum ≤ signerCount) && decide (taken.quorumWeight ≤ weight))

end ValidatorSnapshot

namespace ValidatorSetUpdate

variable (ctx : UpdateContext)

/-- The members of an update with their keys as bytes. -/
def decodeEntries : List UpdateEntry → Except String (List (ValidatorInfo × Int))
  | [] => .ok []
  | entry :: rest =>
    match ctx.texts.decode entry.pubkeyB64 with
    | none => .error "invalid base64"
    | some pubkey => (decodeEntries rest).map ((⟨entry.address, pubkey⟩, entry.weight) :: ·)

def validatorSet (update : ValidatorSetUpdate) : Except String ValidatorSet :=
  match decodeEntries ctx update.validators with
  | .error reason => .error reason
  | .ok entries =>
    if update.weighted then makeWeightedValidatorSet entries
    else .ok (makeValidatorSet (entries.map Prod.fst))

end ValidatorSetUpdate

namespace ValidatorEntry

/-- One entry is selected before another one. -/
def Before (incumbents : List Bytes) (left right : ValidatorEntry) : Prop :=
  left.address ∈ incumbents ∧ right.address ∉ incumbents ∨
    (left.address ∈ incumbents ↔ right.address ∈ incumbents) ∧
      (right.bond < left.bond ∨ left.bond = right.bond ∧ left.address < right.address)

/-- Where incumbents and others stand. -/
def seat (incumbents : List Bytes) (entry : ValidatorEntry) : Int :=
  if incumbents.contains entry.address then 0 else 1

theorem compareSelected_eq (incumbents : List Bytes) (left right : ValidatorEntry) :
    compareSelected incumbents left right =
      (compare (seat incumbents left) (seat incumbents right)).then
        (compareEntry left right) := by
  unfold compareSelected seat
  by_cases inLeft : left.address ∈ incumbents <;>
    by_cases inRight : right.address ∈ incumbents <;>
    simp [inLeft, inRight, compare_lt_iff_lt.mpr, compare_gt_iff_gt.mpr]

/-- The place of an entry, as a value of a linear order. -/
def place (incumbents : List Bytes) (entry : ValidatorEntry) : Int ×ₗ Intᵒᵈ ×ₗ Bytes ×ₗ Bytes :=
  toLex (seat incumbents entry, toLex (OrderDual.toDual entry.bond,
    toLex (entry.address, entry.pubkey)))

theorem byKey_compareSelected (incumbents : List Bytes) :
    Ordered.ByKey (compareSelected incumbents) (place incumbents) := by
  have selected : compareSelected incumbents = fun left right =>
      (compare (seat incumbents left) (seat incumbents right)).then
        (compareEntry left right) := by
    funext left right
    exact compareSelected_eq incumbents left right
  rw [selected]
  apply (Ordered.byKey_compare (seat incumbents)).andThen
  apply (Ordered.byKey_compare ValidatorEntry.bond).reversed.andThen
  exact (Ordered.byKey_compareBytes ValidatorEntry.address).andThen
    (Ordered.byKey_compareBytes ValidatorEntry.pubkey)

/-- Entries of two addresses are selected one before the other. -/
theorem before_of_place_le {incumbents : List Bytes}
    {left right : ValidatorEntry} (apart : left.address ≠ right.address)
    (placed : place incumbents left ≤ place incumbents right) : Before incumbents left right := by
  unfold place seat at placed
  simp only [Prod.Lex.toLex_le_toLex, OrderDual.toDual_lt_toDual, OrderDual.toDual_inj] at placed
  unfold Before
  by_cases inLeft : left.address ∈ incumbents <;>
    by_cases inRight : right.address ∈ incumbents <;>
    simp_all

theorem compareSelected_congr {incumbents incumbents' : List Bytes}
    (same : incumbents.Perm incumbents') :
    compareSelected incumbents = compareSelected incumbents' := by
  funext left right
  unfold compareSelected
  have listed : ∀ address, incumbents.contains address = incumbents'.contains address := by
    intro address
    rw [Bool.eq_iff_iff, List.contains_iff_mem, List.contains_iff_mem, same.mem_iff]
  rw [listed, listed]

theorem validateUnique_iff {addresses pubkeys : List Bytes} {entries : List ValidatorEntry} :
    validateUnique addresses pubkeys entries = .ok () ↔
      (entries.map address).Nodup ∧ (entries.map pubkey).Nodup ∧
        (∀ entry ∈ entries, entry.address ∉ addresses) ∧
        ∀ entry ∈ entries, entry.pubkey ∉ pubkeys := by
  induction entries generalizing addresses pubkeys with
  | nil => simp [validateUnique]
  | cons entry rest ih =>
    rw [validateUnique, ite_error_eq_ok_iff, ite_error_eq_ok_iff, ih]
    simp only [List.contains_iff_mem, List.map_cons, List.nodup_cons,
      List.mem_map, List.mem_cons, not_or, not_exists, not_and]
    grind

/-- The eligible entries in the order of selection. -/
def ranked (incumbents : List Bytes) (parameters : Parameters) (source : Int)
    (entries : List ValidatorEntry) : List ValidatorEntry :=
  Ordered.sort (compareSelected incumbents) (entries.filter (eligible parameters source))

/-- What is checked of entries before some are selected. -/
structure Admitted (parameters : Parameters) (activateEpoch : Int)
    (entries : List ValidatorEntry) : Prop where
  checked : validateParameters parameters = .ok ()
  late : parameters.activationDelay ≤ activateEpoch
  valid : ∀ entry ∈ entries, entry.Valid
  addresses : (entries.map address).Nodup
  pubkeys : (entries.map pubkey).Nodup

theorem Admitted.perm {parameters : Parameters} {activateEpoch : Int}
    {entries others : List ValidatorEntry}
    (admitted : Admitted parameters activateEpoch entries) (same : entries.Perm others) :
    Admitted parameters activateEpoch others where
  checked := admitted.checked
  late := admitted.late
  valid entry listed := admitted.valid entry (same.mem_iff.mpr listed)
  addresses := (same.map _).nodup_iff.mp admitted.addresses
  pubkeys := (same.map _).nodup_iff.mp admitted.pubkeys

variable {sha256 : Bytes → Bytes} {incumbents : List Bytes}
variable {parameters : Parameters} {activateEpoch : Int}
variable {entries : List ValidatorEntry} {taken : ValidatorSnapshot}

/-- The snapshot of some members, if there are enough of them. -/
def snapshotOf (sha256 : Bytes → Bytes) (sourceEpoch activateEpoch : Int)
    (validators : List ValidatorMember) : Except String ValidatorSnapshot :=
  if validators.length < 4 then .error fewMembers
  else
    let totalWeight := (validators.map ValidatorMember.weight).sum
    (quorumWeight totalWeight).map fun quorumWeight =>
      { sourceEpoch
        activateEpoch
        validators
        totalWeight
        quorumWeight
        fingerprint := snapshotFingerprint sha256 sourceEpoch activateEpoch validators }

theorem snapshot_of_admitted (admitted : Admitted parameters activateEpoch entries) :
    let source := int64Sub activateEpoch parameters.activationDelay
    snapshot sha256 incumbents parameters activateEpoch entries =
      snapshotOf sha256 source activateEpoch
        (((ranked incumbents parameters source entries).take
          parameters.maxValidators.toNat).map member) := by
  have all : validateAll entries = .ok () := validateAll_iff.mpr admitted.valid
  have unique : validateUnique [] [] entries = .ok () :=
    validateUnique_iff.mpr ⟨admitted.addresses, admitted.pubkeys, by simp, by simp⟩
  have sourced : sourceEpoch parameters activateEpoch =
      .ok (int64Sub activateEpoch parameters.activationDelay) :=
    if_neg (not_lt.mpr admitted.late)
  simp only [snapshot, admitted.checked, sourced, all, unique, ok_bind, snapshotOf]
  rfl

theorem admitted_of_snapshot
    (done : snapshot sha256 incumbents parameters activateEpoch entries = .ok taken) :
    Admitted parameters activateEpoch entries := by
  obtain ⟨_, checked, afterParameters⟩ := bind_eq_ok done
  obtain ⟨source, sourced, afterSource⟩ := bind_eq_ok afterParameters
  obtain ⟨_, valid, afterAll⟩ := bind_eq_ok afterSource
  obtain ⟨_, unique, _⟩ := bind_eq_ok afterAll
  obtain ⟨addresses, pubkeys, _, _⟩ := validateUnique_iff.mp unique
  unfold sourceEpoch at sourced
  split at sourced
  · cases sourced
  next late =>
  exact
    { checked
      late := not_lt.mp late
      valid := validateAll_iff.mp valid
      addresses
      pubkeys }

/-- The order of entries and of incumbents does not matter. -/
theorem snapshot_eq_of_perm {others : List ValidatorEntry} {incumbents' : List Bytes}
    (admitted : Admitted parameters activateEpoch entries)
    (same : entries.Perm others) (seats : incumbents.Perm incumbents') :
    snapshot sha256 incumbents parameters activateEpoch entries =
      snapshot sha256 incumbents' parameters activateEpoch others := by
  rw [snapshot_of_admitted admitted, snapshot_of_admitted (admitted.perm same),
    ranked, ranked, ← compareSelected_congr seats]
  have sorted : Ordered.sort (compareSelected incumbents)
        (entries.filter (eligible parameters
          (int64Sub activateEpoch parameters.activationDelay))) =
      Ordered.sort (compareSelected incumbents)
        (others.filter (eligible parameters
          (int64Sub activateEpoch parameters.activationDelay))) := by
    apply (byKey_compareSelected incumbents).sort_eq_of_perm (same.filter _)
    intro left inLeft right inRight placed
    have addresses : left.address = right.address := by
      simp only [place, toLex_inj, Prod.mk.injEq] at placed
      exact placed.2.2.1
    exact List.inj_on_of_nodup_map admitted.addresses
      (List.mem_of_mem_filter inLeft) (List.mem_of_mem_filter inRight) addresses
  rw [sorted]

theorem ranked_pairwise {source : Int} (addresses : (entries.map address).Nodup) :
    (ranked incumbents parameters source entries).Pairwise (Before incumbents) := by
  have perm : (ranked incumbents parameters source entries).Perm
      (entries.filter (eligible parameters source)) := Ordered.sort_perm _ _
  have distinct : ((ranked incumbents parameters source entries).map address).Nodup := by
    rw [(perm.map _).nodup_iff]
    exact addresses.sublist (List.filter_sublist.map _)
  rw [List.Nodup, List.pairwise_map] at distinct
  exact ((byKey_compareSelected incumbents).pairwise_sort _).imp₂
    (fun _ _ placed apart => before_of_place_le apart placed) distinct

end ValidatorEntry

/-- Members that make a set. -/
structure Seated (members : List ValidatorMember) : Prop where
  four : 4 ≤ members.length
  address : ∀ member ∈ members, member.address ≠ []
  pubkey : ∀ member ∈ members, member.pubkey.length = 32
  weight : ∀ member ∈ members, 0 < member.weight
  addresses : (members.map ValidatorMember.address).Nodup
  pubkeys : (members.map ValidatorMember.pubkey).Nodup

theorem Seated.perm {members others : List ValidatorMember}
    (seated : Seated members) (same : members.Perm others) : Seated others where
  four := same.length_eq ▸ seated.four
  address member listed := seated.address member (same.mem_iff.mpr listed)
  pubkey member listed := seated.pubkey member (same.mem_iff.mpr listed)
  weight member listed := seated.weight member (same.mem_iff.mpr listed)
  addresses := (same.map _).nodup_iff.mp seated.addresses
  pubkeys := (same.map _).nodup_iff.mp seated.pubkeys

namespace ValidatorSetUpdate

variable {ctx : UpdateContext}

theorem checkDistinct_iff {addresses pubkeys : List Bytes} {entries : List UpdateEntry} :
    checkDistinct addresses pubkeys entries = .ok () ↔
      (entries.map UpdateEntry.address).Nodup ∧ (entries.map UpdateEntry.pubkeyB64).Nodup ∧
        (∀ entry ∈ entries, entry.address ∉ addresses) ∧
        ∀ entry ∈ entries, entry.pubkeyB64 ∉ pubkeys := by
  induction entries generalizing addresses pubkeys with
  | nil => simp [checkDistinct]
  | cons entry rest ih =>
    rw [checkDistinct, ite_error_eq_ok_iff, ite_error_eq_ok_iff, ih]
    simp only [List.contains_iff_mem, List.map_cons, List.nodup_cons,
      List.mem_map, List.mem_cons, not_or, not_exists, not_and]
    grind

theorem canonicalValidators_map
    (decodes : ∀ raw, ctx.texts.decode (ctx.texts.encode raw) = some raw)
    {members : List ValidatorMember} (seated : Seated members) :
    canonicalValidators (members.map (updateEntry ctx)) =
      .ok ((sortByKey ValidatorMember.address members).map (updateEntry ctx)) := by
  have sorted : sortByKey UpdateEntry.address (members.map (updateEntry ctx)) =
      (sortByKey ValidatorMember.address members).map (updateEntry ctx) :=
    sortByKey_map (fun _ => rfl) members
  have again := seated.perm (sortByKey_perm ValidatorMember.address members).symm
  have encoded : Function.Injective ctx.texts.encode := by
    intro raw raw' same
    have decoded := congrArg ctx.texts.decode same
    rw [decodes, decodes] at decoded
    exact Option.some.inj decoded
  have distinct : checkDistinct [] []
      ((sortByKey ValidatorMember.address members).map (updateEntry ctx)) = .ok () := by
    apply checkDistinct_iff.mpr
    refine ⟨?_, ?_, by simp, by simp⟩
    · rw [List.map_map]
      exact again.addresses
    · have keys := again.pubkeys.map encoded
      rw [List.map_map] at keys ⊢
      exact keys
  rw [canonicalValidators, sorted, distinct]
  rfl

/-- A member with its weight, as it enters a set. -/
def infoOf (member : ValidatorMember) : ValidatorInfo × Int :=
  (⟨member.address, member.pubkey⟩, member.weight)

theorem decodeEntries_map (decodes : ∀ raw, ctx.texts.decode (ctx.texts.encode raw) = some raw)
    (members : List ValidatorMember) :
    decodeEntries ctx (members.map (updateEntry ctx)) = .ok (members.map infoOf) := by
  induction members with
  | nil => rfl
  | cons member rest ih =>
    rw [List.map_cons, decodeEntries, ih]
    simp only [updateEntry, decodes]
    rfl

theorem entriesValid_map {members : List ValidatorMember}
    (seated : Seated members) : EntriesValid (members.map infoOf) where
  nonempty := by
    have four := seated.four
    intro none
    rw [List.map_eq_nil_iff] at none
    simp [none] at four
  address_ne_nil entry listed := by
    obtain ⟨member, present, rfl⟩ := List.mem_map.mp listed
    exact seated.address member present
  pubkey_length entry listed := by
    obtain ⟨member, present, rfl⟩ := List.mem_map.mp listed
    exact seated.pubkey member present
  weight_pos entry listed := by
    obtain ⟨member, present, rfl⟩ := List.mem_map.mp listed
    exact seated.weight member present
  nodup_address := by
    rw [List.map_map]
    exact seated.addresses
  nodup_pubkey := by
    rw [List.map_map]
    exact seated.pubkeys

theorem validatorSet_of_members
    (decodes : ∀ raw, ctx.texts.decode (ctx.texts.encode raw) = some raw)
    {members : List ValidatorMember} (seated : Seated members)
    {sourceEpoch activateEpoch : Int} (precedes : sourceEpoch < activateEpoch) :
    ∃ update, makeWeighted ctx sourceEpoch activateEpoch members = .ok update ∧
        validatorSet ctx update =
          .ok (buildValidatorSet true
            ((sortByKey ValidatorMember.address members).map infoOf)) := by
  have again := seated.perm (sortByKey_perm ValidatorMember.address members).symm
  have occupied : (sortByKey ValidatorMember.address members).map (updateEntry ctx) ≠ [] := by
    have four := again.four
    intro none
    rw [List.map_eq_nil_iff] at none
    simp [none] at four
  refine ⟨⟨activateEpoch, some sourceEpoch,
    (sortByKey ValidatorMember.address members).map (updateEntry ctx), true,
    weightedFingerprint ctx sourceEpoch activateEpoch
      ((sortByKey ValidatorMember.address members).map (updateEntry ctx))⟩,
    ?_, ?_⟩
  · rw [makeWeighted, if_neg (not_le.mpr precedes),
      canonicalValidators_map decodes seated, ok_bind, if_neg occupied]
    rfl
  · have built := (@makeWeightedValidatorSet_eq_ok_iff _
      (buildValidatorSet true _)).mpr ⟨entriesValid_map again, rfl⟩
    simp only [validatorSet, decodeEntries_map decodes, if_true, built]

end ValidatorSetUpdate

section Quorums

variable {members : List ValidatorMember}

theorem find?_foldl_replace (weights : Table Bytes Int)
    (addresses : (members.map ValidatorMember.address).Nodup) (address : Bytes) :
    (members.foldl (fun weights member =>
        weights.replace member.address member.weight) weights).find? address =
      ((members.map fun member => (member.address, member.weight)).lookup
        address).or (weights.find? address) := by
  induction members generalizing weights with
  | nil => rfl
  | cons member rest ih =>
    rw [List.map_cons, List.nodup_cons] at addresses
    rw [List.foldl_cons, ih _ addresses.2, List.map_cons,
      Table.lookup_cons_eq_ite, Table.find?_replace_eq_ite]
    split
    · next same =>
        have absent : (rest.map fun member =>
            (member.address, member.weight)).lookup address = none := by
          apply Table.lookup_eq_none_of_notMem
          rw [List.map_map, same]
          exact addresses.1
        rw [absent]
        rfl
    · rfl

/-- Weights of the members are the same in any order. -/
theorem lookup_eq_of_perm {others : List ValidatorMember}
    (addresses : (members.map ValidatorMember.address).Nodup)
    (same : members.Perm others) (address : Bytes) :
    (members.map fun member => (member.address, member.weight)).lookup address =
      (others.map fun member => (member.address, member.weight)).lookup address := by
  apply Option.ext
  intro weight
  rw [Table.lookup_eq_some_iff, Table.lookup_eq_some_iff, (same.map _).mem_iff]
  · rw [List.map_map]
    exact (same.map _).nodup_iff.mp addresses
  · rw [List.map_map]
    exact addresses

/-- The set with some members, in the order of their addresses. -/
def setOf (members : List ValidatorMember) : ValidatorSet :=
  buildValidatorSet true
    ((sortByKey ValidatorMember.address members).map ValidatorSetUpdate.infoOf)

theorem setOf_weights (members : List ValidatorMember) :
    (setOf members).weights =
      (sortByKey ValidatorMember.address members).map fun member =>
        (member.address, member.weight) := by
  have sorted : sortByKey (fun entry : ValidatorInfo × Int => entry.1.address)
        ((sortByKey ValidatorMember.address members).map ValidatorSetUpdate.infoOf) =
      (sortByKey ValidatorMember.address members).map ValidatorSetUpdate.infoOf := by
    have mapped := @sortByKey_map _ ValidatorMember.address _
      (fun entry : ValidatorInfo × Int => entry.1.address)
      ValidatorSetUpdate.infoOf (fun _ => rfl)
      (sortByKey ValidatorMember.address members)
    rwa [sortByKey_idem] at mapped
  simp only [setOf, buildValidatorSet, sorted, List.map_map]
  rfl

theorem setOf_n (members : List ValidatorMember) : (setOf members).n = members.length := by
  simp [setOf, buildValidatorSet]

theorem setOf_quorum (members : List ValidatorMember) :
    (setOf members).quorum =
      if (setOf members).n ≤ 0 then 0
      else if (setOf members).n < 4 then (setOf members).n
      else (setOf members).n - ((setOf members).n - 1).tdiv 3 := rfl

theorem setOf_totalWeight (members : List ValidatorMember) :
    (setOf members).totalWeight = (members.map ValidatorMember.weight).sum := by
  have summed : ∀ (entries : List (ValidatorInfo × Int)) (start : Int),
      entries.foldl (fun total entry => total + entry.2) start =
        start + (entries.map Prod.snd).sum := by
    intro entries
    induction entries with
    | nil => simp
    | cons first rest ih =>
      intro start
      rw [List.foldl_cons, ih, List.map_cons, List.sum_cons]
      omega
  have perm : ((sortByKey (fun entry : ValidatorInfo × Int => entry.1.address)
      ((sortByKey ValidatorMember.address members).map
        ValidatorSetUpdate.infoOf)).map Prod.snd).Perm
      (members.map ValidatorMember.weight) := by
    refine ((sortByKey_perm _ _).map _).trans ?_
    rw [List.map_map]
    exact (sortByKey_perm ValidatorMember.address members).map _
  rw [← perm.sum_eq, ← zero_add (List.sum _), ← summed]
  rfl

variable {taken : ValidatorSnapshot}

/-- Members that sign weigh the same in the snapshot and in the set. -/
theorem signedWeightFrom_agree (seated : Seated taken.validators)
    (seen : List Bytes) (total : Int) {signers : List Bytes} (signed : ∀ signer ∈ signers,
      signer ∈ taken.validators.map ValidatorMember.address) :
    ∃ weight, ValidatorSnapshot.signedWeightFrom taken.weights seen total signers = .ok weight ∧
        (setOf taken.validators).signedWeightFrom seen total signers = some weight := by
  induction signers generalizing seen total with
  | nil => exact ⟨total, rfl, rfl⟩
  | cons signer rest ih =>
    obtain ⟨known, others⟩ := List.forall_mem_cons.mp signed
    obtain ⟨member, listed, rfl⟩ := List.mem_map.mp known
    rw [ValidatorSnapshot.signedWeightFrom, ValidatorSet.signedWeightFrom]
    simp only [List.contains_iff_mem]
    split
    · exact ih seen total others
    · have own : (taken.validators.map fun member =>
          (member.address, member.weight)).lookup member.address = some member.weight := by
        rw [Table.lookup_eq_some_iff]
        · exact List.mem_map.mpr ⟨member, listed, rfl⟩
        · rw [List.map_map]
          exact seated.addresses
      have inSnapshot : taken.weights.find? member.address = some member.weight := by
        rw [ValidatorSnapshot.weights, find?_foldl_replace ∅ seated.addresses, own]
        rfl
      have inSet : (setOf taken.validators).weightOfAddr member.address = some member.weight := by
        rw [ValidatorSet.weightOfAddr, setOf_weights,
          ← lookup_eq_of_perm seated.addresses (sortByKey_perm _ _).symm, own]
      rw [inSnapshot, inSet]
      exact ih _ _ others

/-- The snapshot's quorums are those of the set. -/
theorem hasQuorum_agree (seated : Seated taken.validators) (quorumWeight : taken.quorumWeight =
      (setOf taken.validators).quorumWeight) {signers : List Bytes}
    (signed : ∀ signer ∈ signers, signer ∈ taken.validators.map ValidatorMember.address) :
    taken.hasQuorum signers = .ok ((setOf taken.validators).hasQuorum signers) := by
  obtain ⟨weight, inSnapshot, inSet⟩ := signedWeightFrom_agree seated [] 0 signed
  have four := seated.four
  have quorum : (setOf taken.validators).quorum =
      if (taken.validators.length : Int) < 4 then (taken.validators.length : Int)
      else
        (taken.validators.length : Int) -
          ((taken.validators.length : Int) - 1).tdiv 3 := by
    rw [setOf_quorum, setOf_n, if_neg (by omega)]
  rw [ValidatorSnapshot.hasQuorum, ValidatorSnapshot.signedWeight, inSnapshot,
    ValidatorSet.hasQuorum, ValidatorSet.signedWeight, inSet]
  simp only [ValidatorSet.hasQuorumValues, quorum, quorumWeight]

end Quorums

namespace ValidatorEntry

variable {sha256 : Bytes → Bytes} {incumbents : List Bytes}
variable {parameters : Parameters} {activateEpoch : Int}
variable {entries : List ValidatorEntry} {taken : ValidatorSnapshot}

/-- What a snapshot is made of. -/
theorem snapshot_eq (done : snapshot sha256 incumbents parameters activateEpoch entries =
      .ok taken) :
    taken.sourceEpoch = int64Sub activateEpoch parameters.activationDelay ∧
      taken.validators = ((ranked incumbents parameters taken.sourceEpoch
        entries).take parameters.maxValidators.toNat).map member ∧
      4 ≤ taken.validators.length ∧
      taken.totalWeight = (taken.validators.map ValidatorMember.weight).sum ∧
      0 < taken.totalWeight ∧ taken.quorumWeight = quorumWeightOf taken.totalWeight := by
  rw [snapshot_of_admitted (admitted_of_snapshot done), snapshotOf] at done
  split at done
  · cases done
  next enough =>
  obtain ⟨quorum, weighed, made⟩ := map_eq_ok done
  unfold quorumWeight at weighed
  split at weighed
  · cases weighed
  next positive =>
  cases weighed
  cases made
  exact ⟨rfl, rfl, not_lt.mp enough, rfl, not_le.mp positive, rfl⟩

/-- Of the selected entries none is exiting, unready or bonded too low. -/
theorem eligible_iff {source : Int} {entry : ValidatorEntry} :
    eligible parameters source entry ↔
      parameters.minBond ≤ entry.bond ∧ entry.bondedEpoch ≤ source ∧
        (∃ ready, entry.readyEpoch = some ready ∧ ready ≤ source) ∧ entry.exitEpoch = none := by
  simp [eligible, Option.any_eq_true, and_assoc]

theorem mem_ranked {source : Int} {entry : ValidatorEntry} :
    entry ∈ ranked incumbents parameters source entries ↔
      entry ∈ entries ∧ eligible parameters source entry := by
  rw [ranked, Ordered.mem_sort, List.mem_filter]

theorem seated_of_snapshot (done : snapshot sha256 incumbents parameters activateEpoch entries =
      .ok taken) : Seated taken.validators := by
  have admitted := admitted_of_snapshot done
  obtain ⟨_, members, four, _⟩ := snapshot_eq done
  have present : ∀ validator ∈ taken.validators, ∃ entry ∈ entries, validator = entry.member := by
    intro validator listed
    rw [members] at listed
    obtain ⟨entry, kept, rfl⟩ := List.mem_map.mp listed
    exact ⟨entry, (mem_ranked.mp (List.mem_of_mem_take kept)).1, rfl⟩
  have distinct : ∀ {β : Type} (field : ValidatorEntry → β), (entries.map field).Nodup →
        (((ranked incumbents parameters taken.sourceEpoch entries).take
          parameters.maxValidators.toNat).map field).Nodup := by
    intro β field apart
    have perm : (ranked incumbents parameters taken.sourceEpoch entries).Perm
        (entries.filter (eligible parameters taken.sourceEpoch)) :=
      Ordered.sort_perm _ _
    have kept := (perm.map field).nodup_iff.mpr (apart.sublist (List.filter_sublist.map _))
    exact kept.sublist ((List.take_sublist _ _).map field)
  refine
    { four
      address := ?_
      pubkey := ?_
      weight := ?_
      addresses := ?_
      pubkeys := ?_ }
  · intro validator listed
    obtain ⟨entry, known, rfl⟩ := present validator listed
    exact (admitted.valid entry known).address
  · intro validator listed
    obtain ⟨entry, known, rfl⟩ := present validator listed
    exact (admitted.valid entry known).pubkey
  · intro validator listed
    obtain ⟨entry, known, rfl⟩ := present validator listed
    exact (admitted.valid entry known).bond
  · rw [members, List.map_map]
    exact distinct address admitted.addresses
  · rw [members, List.map_map]
    exact distinct pubkey admitted.pubkeys

/-- A snapshot takes the first eligible entries of a total order, whatever the
order of entries and incumbents, and the set that an update makes of its members
has its weights and its quorums. -/
theorem snapshot_selects (sha256 : Bytes → Bytes) (incumbents : List Bytes)
    (parameters : Parameters) (activateEpoch : Int)
    (entries : List ValidatorEntry) (taken : ValidatorSnapshot)
    (done : snapshot sha256 incumbents parameters activateEpoch entries = .ok taken) :
    (∃ ordered : List ValidatorEntry,
      ordered.Perm (entries.filter (eligible parameters taken.sourceEpoch)) ∧
        ordered.Pairwise (Before incumbents) ∧
        taken.validators = (ordered.take
          (min parameters.maxValidators.toNat ordered.length)).map member) ∧
    (∀ validator ∈ taken.validators, ∃ entry ∈ entries,
      validator = entry.member ∧ parameters.minBond ≤ entry.bond ∧
        entry.bondedEpoch ≤ taken.sourceEpoch ∧
        (∃ ready, entry.readyEpoch = some ready ∧ ready ≤ taken.sourceEpoch) ∧
        entry.exitEpoch = none) ∧
    taken.totalWeight = (taken.validators.map ValidatorMember.weight).sum ∧
    (∀ others incumbents', entries.Perm others → incumbents.Perm incumbents' →
      snapshot sha256 incumbents' parameters activateEpoch others = .ok taken) ∧
    ∀ ctx : UpdateContext,
      (∀ raw, ctx.texts.decode (ctx.texts.encode raw) = some raw) →
      ∀ source activate : Int, source < activate →
        ∃ update vs,
          ValidatorSetUpdate.makeWeighted ctx source activate
              taken.validators = .ok update ∧
            ValidatorSetUpdate.validatorSet ctx update = .ok vs ∧
            vs.totalWeight = taken.totalWeight ∧
            vs.quorumWeight = taken.quorumWeight ∧
            ∀ signers,
              (∀ signer ∈ signers, signer ∈ taken.validators.map ValidatorMember.address) →
              taken.hasQuorum signers = .ok (vs.hasQuorum signers) := by
  have admitted := admitted_of_snapshot done
  have seated := seated_of_snapshot done
  obtain ⟨_, members, _, total, positive, quorum⟩ := snapshot_eq done
  refine ⟨⟨ranked incumbents parameters taken.sourceEpoch entries,
    Ordered.sort_perm _ _, ranked_pairwise admitted.addresses, ?_⟩,
    ?_, total, ?_, ?_⟩
  · rw [← List.take_eq_take_min]
    exact members
  · intro validator listed
    rw [members] at listed
    obtain ⟨entry, kept, rfl⟩ := List.mem_map.mp listed
    obtain ⟨known, chosen⟩ := mem_ranked.mp (List.mem_of_mem_take kept)
    exact ⟨entry, known, rfl, eligible_iff.mp chosen⟩
  · intro others incumbents' same seats
    rw [← snapshot_eq_of_perm admitted same seats, done]
  · intro ctx decodes source activate precedes
    obtain ⟨update, made, built⟩ :=
      ValidatorSetUpdate.validatorSet_of_members decodes seated precedes
    have weighs : (setOf taken.validators).totalWeight = taken.totalWeight := by
      rw [setOf_totalWeight, total]
    have threshold : (setOf taken.validators).quorumWeight = taken.quorumWeight := by
      have open_total : (setOf taken.validators).quorumWeight =
          if (setOf taken.validators).totalWeight ≤ 0 then 0
          else quorumWeightOf (setOf taken.validators).totalWeight := rfl
      rw [open_total, weighs, if_neg (not_le.mpr positive), quorum]
    exact ⟨update, setOf taken.validators, made, built, weighs, threshold,
      fun signers signed => hasQuorum_agree seated threshold.symm signed⟩

def readyEntry (digit : UInt8) (bond : Int) : ValidatorEntry :=
  ⟨[digit], List.replicate 32 digit, bond, 0, some 0, none⟩

theorem snapshot_selects_fourOfFive :
    ∃ taken,
      snapshot (fun _ => []) [[5]] ⟨1, 4, 1, 1⟩ 1
          [readyEntry 1 10, readyEntry 2 10, readyEntry 3 30, readyEntry 4 20,
            readyEntry 5 5] = .ok taken ∧
        snapshot (fun _ => []) [[5]] ⟨1, 4, 1, 1⟩ 1
          [readyEntry 2 10, readyEntry 1 10, readyEntry 3 30, readyEntry 4 20,
            readyEntry 5 5] = .ok taken ∧
        taken.totalWeight = 65 := by
  refine ⟨_, rfl, ?_, rfl⟩
  exact (snapshot_selects _ _ _ _ _ _ rfl).2.2.2.1 _ _ (.swap _ _ _) (.refl _)

end ValidatorEntry
end LiteNode
