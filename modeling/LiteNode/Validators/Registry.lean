import LiteNode.Data.JsonText
import LiteNode.Data.Results
import LiteNode.Types.Messages

/-!
# The validator registry

An entry of the validator registry, what makes it well formed, and when its
bond may be withdrawn. Epochs are integers of 64 bits.

Bonded validators by address, and the slashes that were applied. A bond is
added, marked ready and asked to exit by its owner; it leaves the registry when
it is withdrawn or slashed.
-/

namespace LiteNode

structure ValidatorEntry where
  address : Bytes
  pubkey : Bytes
  bond : Int
  bondedEpoch : Int
  readyEpoch : Option Int
  exitEpoch : Option Int
  deriving DecidableEq

namespace ValidatorEntry

structure Parameters where
  minBond : Int
  maxValidators : Int
  activationDelay : Int
  unbondingEpochs : Int
  deriving DecidableEq

def validateParameters (parameters : Parameters) : Except String Unit :=
  if parameters.minBond ≤ 0 then .error "validator minimum bond must be positive"
  else if parameters.maxValidators < 4 then .error "validator set requires at least four slots"
  else if parameters.activationDelay ≤ 0 then .error "validator activation delay must be positive"
  else if parameters.unbondingEpochs ≤ 0 then .error "validator unbonding period must be positive"
  else .ok ()

/-- Whether a recorded epoch lies before another one. -/
def predates (recorded : Option Int) (epoch : Int) : Bool :=
  match recorded with
  | none => false
  | some recorded => recorded < epoch

def validateEntry (entry : ValidatorEntry) : Except String Unit :=
  if entry.address = [] then .error "validator address is empty"
  else if entry.pubkey.length ≠ 32 then .error "validator public key must contain 32 bytes"
  else if entry.bond ≤ 0 then .error "validator bond must be positive"
  else if entry.bondedEpoch < 0 then .error "validator bonded epoch is negative"
  else if predates entry.readyEpoch entry.bondedEpoch then
    .error "validator readiness predates bond"
  else if predates entry.exitEpoch entry.bondedEpoch then .error "validator exit predates bond"
  else .ok ()

def addEpoch (left right : Int) : Except String Int :=
  if right < 0 then .error "epoch delta is negative"
  else
    let result := int64Add left right
    if result < left then .error "epoch arithmetic overflow" else .ok result

def withdrawEpoch (parameters : Parameters) (entry : ValidatorEntry) : Except String Int := do
  validateParameters parameters
  entry.validateEntry
  match entry.exitEpoch with
  | none => .error "validator exit was not requested"
  | some exitEpoch => addEpoch exitEpoch parameters.unbondingEpochs

def canWithdraw (parameters : Parameters) (currentEpoch : Int) (entry : ValidatorEntry) :
    Except String Bool :=
  (withdrawEpoch parameters entry).map fun epoch => decide (epoch ≤ currentEpoch)

/-- An entry that passes its check. -/
structure Valid (entry : ValidatorEntry) : Prop where
  address : entry.address ≠ []
  pubkey : entry.pubkey.length = 32
  bond : 0 < entry.bond
  bondedEpoch : 0 ≤ entry.bondedEpoch
  ready : ∀ epoch, entry.readyEpoch = some epoch → entry.bondedEpoch ≤ epoch
  exit : ∀ epoch, entry.exitEpoch = some epoch → entry.bondedEpoch ≤ epoch

/-- The epochs of an entry come no later than an epoch. -/
structure MadeBy (epoch : Int) (entry : ValidatorEntry) : Prop where
  bonded : entry.bondedEpoch ≤ epoch
  ready : ∀ made, entry.readyEpoch = some made → made ≤ epoch
  exit : ∀ made, entry.exitEpoch = some made → made ≤ epoch

theorem MadeBy.later {epoch epoch' : Int} {entry : ValidatorEntry} (made : entry.MadeBy epoch)
    (later : epoch ≤ epoch') : entry.MadeBy epoch' where
  bonded := made.bonded.trans later
  ready other recorded := (made.ready other recorded).trans later
  exit other recorded := (made.exit other recorded).trans later

theorem predates_eq_false_iff {recorded : Option Int} {epoch : Int} :
    predates recorded epoch = false ↔ ∀ found, recorded = some found → epoch ≤ found := by
  cases recorded with
  | none => simp [predates]
  | some found => simp [predates]

theorem validateEntry_iff {entry : ValidatorEntry} :
    entry.validateEntry = .ok () ↔ entry.Valid := by
  unfold validateEntry
  simp only [ite_error_eq_ok_iff, Bool.not_eq_true, predates_eq_false_iff,
    not_le, not_lt, ne_eq, not_not, and_true]
  constructor
  · rintro ⟨address, pubkey, bond, bondedEpoch, ready, exit⟩
    exact ⟨address, pubkey, bond, bondedEpoch, ready, exit⟩
  · rintro ⟨address, pubkey, bond, bondedEpoch, ready, exit⟩
    exact ⟨address, pubkey, bond, bondedEpoch, ready, exit⟩

end ValidatorEntry

structure SlashRecord where
  id : Bytes
  offender : Bytes
  evidenceEpoch : Int
  appliedEpoch : Int
  amount : Int
  deriving DecidableEq

structure BondPayload where
  consensusPubkeyB64 : Bytes
  proofB64 : Bytes
  deriving DecidableEq

structure VerifiedEvidence where
  id : Bytes
  offender : Bytes
  evidenceEpoch : Int
  deriving DecidableEq

def base58Digits : Bytes :=
  Bytes.ofAscii "123456789ABCDEFGHJKLMNPQRSTUVWXYZabcdefghijkmnopqrstuvwxyz"

def isValidAddress (addr : Bytes) : Bool :=
  (Bytes.ofAscii "oct").isPrefixOf addr && addr.length = 47 &&
    (addr.drop 3).all fun byte => base58Digits.contains byte

/-- Bonded validators and applied slashes. -/
structure ValidatorRegistry where
  entries : List ValidatorEntry
  slashes : List SlashRecord
  deriving DecidableEq

namespace ValidatorRegistry

def empty : ValidatorRegistry where
  entries := []
  slashes := []

section Bond

variable (texts : Texts) (verifyEd25519 : Bytes → Bytes → Bytes → Bool)

def putString (value : Bytes) : Bytes := decimal value.length ++ Bytes.ofAscii ":" ++ value

def bondMessage (chainId address : Bytes) (amount nonce : Int) (pubkey : Bytes) : Bytes :=
  putString (Bytes.ofAscii "octra:validator_bond:v1") ++ putString chainId ++
    putString address ++ putString (intToString amount) ++
    putString (intToString nonce) ++ putString pubkey

def rawPubkey (value : Bytes) : Except String Bytes :=
  match texts.decode value with
  | none => .error "invalid validator consensus public key"
  | some raw =>
    if raw.length = 32 then .ok raw
    else .error "validator consensus public key must contain 32 bytes"

def verifyBondProof (chainId address : Bytes) (amount nonce : Int) (payload : BondPayload) :
    Except String Bytes := do
  let pubkey ← rawPubkey texts payload.consensusPubkeyB64
  match texts.decode payload.proofB64 with
  | none => .error "invalid validator bond proof"
  | some signature =>
    if verifyEd25519 pubkey (bondMessage chainId address amount nonce pubkey)
        signature then .ok pubkey
    else .error "invalid validator bond proof"

end Bond

def find (address : Bytes) (registry : ValidatorRegistry) : Option ValidatorEntry :=
  registry.entries.find? fun entry => entry.address = address

/-- Check entries against the addresses and keys that were seen. -/
def validateUnique (addresses pubkeys : List Bytes) : List ValidatorEntry → Except String Unit
  | [] => .ok ()
  | entry :: rest =>
    if addresses.contains entry.address then .error "duplicate validator address"
    else if pubkeys.contains entry.pubkey then .error "duplicate validator consensus public key"
    else validateUnique (entry.address :: addresses) (entry.pubkey :: pubkeys) rest

def validHash (texts : Texts) (value : Bytes) : Bool :=
  match texts.decode value with
  | none => false
  | some raw => raw.length = 32 && texts.encode raw = value

/-- Check slashes against the ids that were seen. -/
def validateSlashes (texts : Texts) (ids : List Bytes) : List SlashRecord → Except String Unit
  | [] => .ok ()
  | record :: rest =>
    if !validHash texts record.id then .error "invalid validator evidence id"
    else if !isValidAddress record.offender then .error "invalid slashed validator address"
    else if record.evidenceEpoch < 0 then .error "validator evidence epoch is negative"
    else if record.appliedEpoch < record.evidenceEpoch then
      .error "validator evidence application predates evidence"
    else if record.amount ≤ 0 then .error "validator slash amount must be positive"
    else if ids.contains record.id then .error "duplicate validator evidence id"
    else validateSlashes texts (record.id :: ids) rest

def validateEntries : List ValidatorEntry → Except String Unit
  | [] => .ok ()
  | entry :: rest =>
    if !isValidAddress entry.address then .error "invalid validator address"
    else
      match entry.validateEntry with
      | .error reason => .error reason
      | .ok () => validateEntries rest

def canonical (entries : List ValidatorEntry) : List ValidatorEntry :=
  sortByKey ValidatorEntry.address entries

def canonicalSlashes (records : List SlashRecord) : List SlashRecord :=
  sortByKey SlashRecord.id records

def validate (texts : Texts) (registry : ValidatorRegistry) : Except String Unit := do
  validateEntries registry.entries
  validateUnique [] [] registry.entries
  validateSlashes texts [] registry.slashes

def others (address : Bytes) (entries : List ValidatorEntry) : List ValidatorEntry :=
  entries.filter fun current => current.address ≠ address

def replace (entry : ValidatorEntry) (registry : ValidatorRegistry) : ValidatorRegistry :=
  { registry with
    entries := canonical (entry :: others entry.address registry.entries) }

section Operations

variable (texts : Texts) (verifyEd25519 : Bytes → Bytes → Bytes → Bool)

def bondedEntry (epoch : Int) (address pubkey : Bytes) (amount : Int)
    (registry : ValidatorRegistry) : ValidatorEntry :=
  match find address registry with
  | none =>
    { address, pubkey, bond := amount, bondedEpoch := epoch, readyEpoch := none, exitEpoch := none }
  | some current =>
    if current.exitEpoch ≠ none then current
    else if current.pubkey ≠ pubkey then current
    else { current with bond := current.bond + amount }

def applyBond (parameters : ValidatorEntry.Parameters) (chainId : Bytes) (epoch : Int)
    (address senderPubkeyB64 : Bytes) (amount nonce : Int)
    (payload : BondPayload) (registry : ValidatorRegistry) : Except String ValidatorRegistry :=
  if !isValidAddress address then .error "invalid validator address"
  else if amount < parameters.minBond then .error "validator bond is below minimum"
  else if epoch < 0 then .error "validator bond epoch is negative"
  else
    match rawPubkey texts senderPubkeyB64,
      verifyBondProof texts verifyEd25519 chainId address amount nonce payload with
    | .error _, _ => .error "invalid validator sender public key"
    | _, .error reason => .error reason
    | .ok senderPubkey, .ok pubkey =>
      if senderPubkey ≠ pubkey then
        .error "validator consensus public key must match sender public key"
      else if registry.entries.any fun entry =>
          entry.pubkey = pubkey && entry.address ≠ address then
        .error "validator consensus public key is already bonded"
      else
        let entry := bondedEntry epoch address pubkey amount registry
        match find address registry with
        | some current =>
          if current.exitEpoch ≠ none then .error "exiting validator cannot add bond"
          else if current.pubkey ≠ pubkey then
            .error "validator consensus key rotation requires withdrawal"
          else
            let next := replace entry registry
            (validate texts next).map fun _ => next
        | none =>
          let next := replace entry registry
          (validate texts next).map fun _ => next

def markReady (epoch : Int) (address consensusPubkeyB64 : Bytes)
    (registry : ValidatorRegistry) : Except String ValidatorRegistry :=
  if epoch < 0 then .error "validator ready epoch is negative"
  else
    match rawPubkey texts consensusPubkeyB64, find address registry with
    | .error reason, _ => .error reason
    | _, none => .error "validator bond not found"
    | .ok pubkey, some entry =>
      if entry.exitEpoch ≠ none then .error "exiting validator cannot become ready"
      else if entry.pubkey ≠ pubkey then .error "validator ready consensus key mismatch"
      else
        let readyEpoch :=
          match entry.readyEpoch with
          | none => some epoch
          | some current => some (min current epoch)
        .ok (replace { entry with readyEpoch } registry)

def requestExit (epoch : Int) (address : Bytes) (registry : ValidatorRegistry) :
    Except String ValidatorRegistry :=
  if epoch < 0 then .error "validator exit epoch is negative"
  else
    match find address registry with
    | none => .error "validator bond not found"
    | some entry =>
      if entry.exitEpoch ≠ none then .error "validator exit already requested"
      else .ok (replace { entry with exitEpoch := some epoch } registry)

/-- The registry without the entry of an address, and the returned bond. -/
def withdraw (parameters : ValidatorEntry.Parameters) (currentEpoch : Int)
    (activeAddresses : List Bytes) (address : Bytes) (registry : ValidatorRegistry) :
    Except String (ValidatorRegistry × Int) :=
  match find address registry with
  | none => .error "validator bond not found"
  | some entry =>
    if activeAddresses.contains address then .error "active validator cannot withdraw"
    else
      match entry.canWithdraw parameters currentEpoch with
      | .error reason => .error reason
      | .ok false => .error "validator unbonding period is not complete"
      | .ok true => .ok ({ registry with entries := others address registry.entries }, entry.bond)

def evidenceFresh (currentEpoch evidenceEpochs : Int) (record : SlashRecord) : Bool :=
  record.evidenceEpoch ≤ currentEpoch &&
    int64Sub currentEpoch record.evidenceEpoch < evidenceEpochs

/-- The registry without the entry of an offender, and the slashed bond. -/
def applySlash (currentEpoch evidenceEpochs : Int) (evidence : VerifiedEvidence)
    (registry : ValidatorRegistry) : Except String (ValidatorRegistry × Int) :=
  let retained := registry.slashes.filter (evidenceFresh currentEpoch evidenceEpochs)
  if retained.any fun record => record.id = evidence.id then
    .error "validator evidence already applied"
  else
    match find evidence.offender registry with
    | none => .error "validator bond not found"
    | some entry =>
      let record : SlashRecord :=
        { id := evidence.id
          offender := evidence.offender
          evidenceEpoch := evidence.evidenceEpoch
          appliedEpoch := currentEpoch
          amount := entry.bond }
      let next : ValidatorRegistry :=
        { entries := others evidence.offender registry.entries
          slashes := canonicalSlashes (record :: retained) }
      (validate texts next).map fun _ => (next, record.amount)

end Operations
end ValidatorRegistry
end LiteNode
