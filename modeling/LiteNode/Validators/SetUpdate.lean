import LiteNode.Validators.Snapshot

/-!
# Updates of the validator set

An update names the members of a set with their keys and weights, and the
epoch at which the set takes effect. A weighted update is read back from its
text as it was made.
-/

namespace LiteNode

structure UpdateEntry where
  address : Bytes
  pubkeyB64 : Bytes
  weight : Int
  deriving DecidableEq

structure ValidatorSetUpdate where
  activateEpoch : Int
  sourceEpoch : Option Int
  validators : List UpdateEntry
  weighted : Bool
  fingerprint : Bytes
  deriving DecidableEq

/-- How texts are read and written, hashes computed and addresses checked. -/
structure UpdateContext where
  texts : Texts
  sha256 : Bytes → Bytes
  zOfString : Bytes → Option Int
  verifyAddressPubkey : Bytes → Bytes → Bool

namespace ValidatorSetUpdate

section Text

variable (ctx : UpdateContext)

/-- The slot for a set that is to take effect is free. -/
def snapshotSlot (epoch : Int) : Option ValidatorSetUpdate → Bool
  | some pending => pending.activateEpoch ≤ epoch
  | none => true

def normalizePubkey (pubkeyB64 : Bytes) : Option Bytes :=
  match ctx.texts.decode pubkeyB64 with
  | some raw => if raw.length = 32 then some (ctx.texts.encode raw) else none
  | none => none

def normalizeValidatorEntry (weighted : Bool) (address pubkeyB64 : Bytes)
    (weight : Int) : Except String UpdateEntry :=
  match normalizePubkey ctx pubkeyB64 with
  | none => .error "invalid validator public key"
  | some normalizedPubkey =>
    if ¬ isValidAddress address then .error "invalid validator address"
    else if weight ≤ 0 then .error "validator weight must be positive"
    else if ¬ weighted ∧ ¬ ctx.verifyAddressPubkey address normalizedPubkey
        then
      .error "validator address does not match public key"
    else .ok ⟨address, normalizedPubkey, weight⟩

/-- Check entries against the addresses and keys that were seen. -/
def checkDistinct (addresses pubkeys : List Bytes) : List UpdateEntry → Except String Unit
  | [] => .ok ()
  | entry :: rest =>
    if addresses.contains entry.address then .error "duplicate validator address"
    else if pubkeys.contains entry.pubkeyB64 then .error "duplicate validator public key"
    else checkDistinct (entry.address :: addresses) (entry.pubkeyB64 :: pubkeys) rest

def canonicalValidators (validators : List UpdateEntry) : Except String (List UpdateEntry) := do
  let sorted := sortByKey UpdateEntry.address validators
  checkDistinct [] [] sorted
  return sorted

def fingerprintOf (validators : List UpdateEntry) : Bytes :=
  Transaction.toHex (ctx.sha256
    (List.intercalate (Bytes.ofAscii ",")
      (validators.map fun entry => entry.address ++ Bytes.ofAscii ":" ++ entry.pubkeyB64)))

def weightedFingerprint (sourceEpoch activateEpoch : Int) (validators : List UpdateEntry) : Bytes :=
  Transaction.toHex (ctx.sha256
    (ValidatorRegistry.putString
        (Bytes.ofAscii "octra:validator_set_update:bonded") ++
      ValidatorRegistry.putString (intToString sourceEpoch) ++
      ValidatorRegistry.putString (intToString activateEpoch) ++
      validators.flatMap fun validator =>
        ValidatorRegistry.putString validator.address ++
          ValidatorRegistry.putString validator.pubkeyB64 ++
          ValidatorRegistry.putString (intToString validator.weight)))

def validatorEntryToYojson (weighted : Bool) (entry : UpdateEntry) : Json :=
  .assoc ([("address", .string entry.address), ("pubkey", .string entry.pubkeyB64)] ++
    if weighted then [("weight", .string (intToString entry.weight))] else [])

def parseWeight : Json → Except String Int
  | .string raw =>
    match ctx.zOfString raw with
    | some weight =>
      if weight ≤ 0 then .error "validator weight must be positive"
      else .ok weight
    | none => .error "invalid validator weight"
  | .int value =>
    if 0 < value then .ok value
    else .error "validator weight must be a positive integer"
  | _ => .error "validator weight must be a positive integer"

def entryWeight (weighted : Bool) (fields : List (String × Json)) : Except String Int :=
  if weighted then
    match fields.lookup "weight" with
    | none => .error "weighted validator entry requires weight"
    | some value => parseWeight ctx value
  else .ok 1

def validatorEntryOfYojson (weighted : Bool) : Json → Except String UpdateEntry
  | .assoc fields =>
    match fields.lookup "address", fields.lookup "pubkey" with
    | some (.string address), some (.string pubkeyB64) => do
      let weight ← entryWeight ctx weighted fields
      normalizeValidatorEntry ctx weighted address pubkeyB64 weight
    | _, _ => .error "validator entry requires address and pubkey"
  | _ => .error "validator entry must be object"

def toYojson (update : ValidatorSetUpdate) : Json :=
  .assoc ([("activate_epoch", .string (intToString update.activateEpoch)),
      ("fingerprint", .string update.fingerprint), ("validators",
        .list (update.validators.map (validatorEntryToYojson update.weighted)))] ++
    if update.weighted then
      [("standard", .string ValidatorRegistry.standardName), ("weighted", .bool true),
        ("source_epoch", .string (intToString (update.sourceEpoch.getD 0)))]
    else [])

def parseEpoch (label : String) (value : Json) : Except String Int :=
  ValidatorRegistry.parseInt64 label value

def parseWeighted (fields : List (String × Json)) : Except String Bool :=
  match fields.lookup "weighted" with
  | none => .ok false
  | some (.bool value) => .ok value
  | some _ => .error "weighted must be bool"

def parseSourceEpoch (weighted : Bool) (fields : List (String × Json)) :
    Except String (Option Int) :=
  match weighted, fields.lookup "source_epoch" with
  | false, none => .ok none
  | false, some _ => .error "legacy validator update rejects source_epoch"
  | true, some value => (parseEpoch "source_epoch" value).map some
  | true, none => .error "weighted validator update requires source_epoch"

def validateStandard (weighted : Bool) (fields : List (String × Json)) : Except String Unit :=
  match weighted, fields.lookup "standard" with
  | false, none => .ok ()
  | false, some _ => .error "legacy validator update rejects standard"
  | true, some (.string value) =>
    if value = ValidatorRegistry.standardName then .ok ()
    else .error "weighted validator update standard mismatch"
  | true, _ => .error "weighted validator update standard mismatch"

def updateFingerprint (sourceEpoch : Option Int) (activateEpoch : Int)
    (validators : List UpdateEntry) : Bytes :=
  match sourceEpoch with
  | none => fingerprintOf ctx validators
  | some sourceEpoch => weightedFingerprint ctx sourceEpoch activateEpoch validators

/-- A fingerprint that is given has to be the computed one. -/
def fingerprintAgrees (fields : List (String × Json)) (actual : Bytes) : Bool :=
  match fields.lookup "fingerprint" with
  | some (.string expected) => expected = actual
  | _ => true

def ofYojson : Json → Except String ValidatorSetUpdate
  | .assoc fields =>
    match fields.lookup "activate_epoch", fields.lookup "validators" with
    | some epochJson, some (.list validatorJsons) => do
      let activateEpoch ← parseEpoch "activate_epoch" epochJson
      let weighted ← parseWeighted fields
      let sourceEpoch ← parseSourceEpoch weighted fields
      validateStandard weighted fields
      let validatorsRev ← ValidatorRegistry.collect
        (validatorEntryOfYojson ctx weighted) validatorJsons
      if validatorsRev = [] then .error "validator set cannot be empty"
      else do
        let validators ← canonicalValidators validatorsRev.reverse
        let actual := updateFingerprint ctx sourceEpoch activateEpoch validators
        if sourceEpoch.any (activateEpoch ≤ ·) then
          .error "weighted validator source epoch must precede activation"
        else if ¬ fingerprintAgrees fields actual then .error "validator set fingerprint mismatch"
        else return ⟨activateEpoch, sourceEpoch, validators, weighted, actual⟩
    | _, _ => .error "validator_set_update requires activate_epoch and validators"
  | _ => .error "validator_set_update payload must be object"

def updateEntry (member : ValidatorMember) : UpdateEntry :=
  ⟨member.address, ctx.texts.encode member.pubkey, member.weight⟩

def makeWeighted (sourceEpoch activateEpoch : Int)
    (members : List ValidatorMember) : Except String ValidatorSetUpdate := do
  if activateEpoch ≤ sourceEpoch then
    .error "weighted validator source epoch must precede activation"
  else do
    let validators ← canonicalValidators (members.map (updateEntry ctx))
    if validators = [] then .error "validator set cannot be empty"
    else
      return {
        activateEpoch := activateEpoch
        sourceEpoch := some sourceEpoch
        validators := validators
        weighted := true
        fingerprint := weightedFingerprint ctx sourceEpoch activateEpoch validators }

def toString (update : ValidatorSetUpdate) : Bytes := ctx.texts.print (toYojson update)

def ofString (raw : Bytes) : Except String ValidatorSetUpdate :=
  match ctx.texts.parse raw with
  | none => .error "invalid JSON"
  | some json => ofYojson ctx json

end Text

variable {ctx : UpdateContext}

/-- An entry as it stands in a weighted update. -/
structure EntrySound (ctx : UpdateContext) (entry : UpdateEntry) : Prop where
  address : isValidAddress entry.address = true
  pubkey : normalizePubkey ctx entry.pubkeyB64 = some entry.pubkeyB64
  weight : 0 < entry.weight

/-- What holds of a weighted update that was made from a snapshot. -/
structure Sound (ctx : UpdateContext) (update : ValidatorSetUpdate) : Prop where
  weighted : update.weighted = true
  source : ∃ source, update.sourceEpoch = some source ∧
    source < update.activateEpoch ∧ Fits64 source
  fits : Fits64 update.activateEpoch
  entries : ∀ entry ∈ update.validators, EntrySound ctx entry
  nonempty : update.validators ≠ []
  canonical : canonicalValidators update.validators = .ok update.validators
  fingerprint : update.fingerprint = updateFingerprint ctx update.sourceEpoch
    update.activateEpoch update.validators

theorem canonicalValidators_spec {validators sorted : List UpdateEntry}
    (done : canonicalValidators validators = .ok sorted) :
    sorted = sortByKey UpdateEntry.address validators ∧
      canonicalValidators sorted = .ok sorted := by
  obtain ⟨_, distinct, done⟩ := bind_eq_ok done
  cases done
  refine ⟨rfl, ?_⟩
  unfold canonicalValidators
  dsimp only
  rw [sortByKey_idem, distinct]
  rfl

/-- An update that is made of members with valid addresses and keys is
sound. -/
theorem sound_makeWeighted (faithful : ctx.texts.Faithful) {sourceEpoch activateEpoch : Int}
    {members : List ValidatorMember} {update : ValidatorSetUpdate}
    (made : makeWeighted ctx sourceEpoch activateEpoch members = .ok update)
    (sourceFits : Fits64 sourceEpoch) (fits : Fits64 activateEpoch)
    (valid : ∀ member ∈ members, isValidAddress member.address = true ∧
      member.pubkey.length = 32 ∧ 0 < member.weight) :
    Sound ctx update ∧ update.sourceEpoch = some sourceEpoch ∧
      update.activateEpoch = activateEpoch := by
  unfold makeWeighted at made
  split at made
  · cases made
  next precedes =>
  obtain ⟨validators, canonical, made⟩ := bind_eq_ok made
  split at made
  · cases made
  next nonempty =>
  cases made
  obtain ⟨sorted, again⟩ := canonicalValidators_spec canonical
  refine ⟨⟨rfl, ⟨sourceEpoch, rfl, Int.not_le.mp precedes, sourceFits⟩, fits,
    ?_, nonempty, again, rfl⟩, rfl, rfl⟩
  intro entry listed
  rw [sorted, mem_sortByKey] at listed
  obtain ⟨member, present, rfl⟩ := List.mem_map.mp listed
  obtain ⟨address, pubkey, weight⟩ := valid member present
  refine ⟨address, ?_, weight⟩
  unfold normalizePubkey updateEntry
  rw [faithful.decode_encode]
  exact if_pos pubkey

theorem exact_toYojson (update : ValidatorSetUpdate) : (toYojson update).Exact := by
  have entries : (Json.list (update.validators.map
      (validatorEntryToYojson update.weighted))).Exact := by
    refine .list fun item listed => ?_
    obtain ⟨entry, -, rfl⟩ := List.mem_map.mp listed
    refine .assoc ?_
    split <;> simp [Json.Exact.string]
  refine .assoc ?_
  split <;> simp [Json.Exact.string, Json.Exact.bool, entries]

theorem validatorEntryOfYojson_toYojson (reads : ∀ n, ctx.zOfString (intToString n) = some n)
    {entry : UpdateEntry} (sound : EntrySound ctx entry) :
    validatorEntryOfYojson ctx true (validatorEntryToYojson true entry) = .ok entry := by
  have weight : parseWeight ctx (.string (intToString entry.weight)) = .ok entry.weight := by
    simp [parseWeight, reads, Int.not_le.mpr sound.weight]
  have entered : normalizeValidatorEntry ctx true entry.address
      entry.pubkeyB64 entry.weight = .ok entry := by
    simp [normalizeValidatorEntry, sound.pubkey, sound.address, Int.not_le.mpr sound.weight]
  simp [validatorEntryOfYojson, validatorEntryToYojson, List.lookup_cons,
    entryWeight, weight, entered]

/-- A sound update is read back as it was. -/
theorem ofString_toString (faithful : ctx.texts.Faithful)
    (reads : ∀ n, ctx.zOfString (intToString n) = some n)
    {update : ValidatorSetUpdate} (sound : Sound ctx update) :
    ofString ctx (toString ctx update) = .ok update := by
  obtain ⟨activateEpoch, sourceEpoch, validators, weighted, fingerprint⟩ := update
  obtain ⟨weightedIs, ⟨source, sourceIs, precedes, sourceFits⟩, fits, entries,
    nonempty, canonical, fingerprintIs⟩ := sound
  dsimp only at *
  subst weightedIs sourceIs fingerprintIs
  have collected : ValidatorRegistry.collect (validatorEntryOfYojson ctx true)
      (validators.map (validatorEntryToYojson true)) = .ok validators.reverse := by
    apply ValidatorRegistry.collect_map
    intro entry listed
    exact validatorEntryOfYojson_toYojson reads (entries entry listed)
  have activate : parseEpoch "activate_epoch"
      (.string (intToString activateEpoch)) = .ok activateEpoch :=
    ValidatorRegistry.parseInt64_int64Text fits _
  have source' : parseEpoch "source_epoch" (.string (intToString source)) = .ok source :=
    ValidatorRegistry.parseInt64_int64Text sourceFits _
  unfold ofString toString
  rw [faithful.parse_print _ (exact_toYojson _)]
  simp [ofYojson, toYojson, List.lookup_cons, parseWeighted, parseSourceEpoch,
    validateStandard, collected, activate, source', nonempty, canonical,
    fingerprintAgrees, Except.map, Int.not_le.mpr precedes, pure, Except.pure]

end ValidatorSetUpdate
end LiteNode
