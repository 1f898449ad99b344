import LiteNode.Data.Decimal
import LiteNode.Data.Results
import LiteNode.Data.Table

/-!
# Key policies

What is stored of a circle: its owner, its stable storage, and for each outbox
intent its status, the claims of relays, how claims and the intent were
resolved, and the packet that came in.

When a key of a circle may be used, how the owner changes that, and the four
cells of the stable storage that say so.
-/

namespace LiteNode
namespace Circles

/-- A code, and a text for the reader. -/
abbrev Refusal := String × Bytes

def refuse (code message : String) : Except Refusal α := .error (code, Bytes.ofAscii message)

structure Limits where
  maxStableBytes : Int64
  maxInlineValue : Int64

structure CircleInfo where
  owner : Bytes
  limits : Limits

/-- Values that are stored in place, and the keys of values that are not. -/
structure StableStorage where
  inline : Table Bytes Bytes
  blobRefs : List Bytes

inductive OutboxStatus
  | «open»
  | claimed
  | fulfilled
  | expired
  | cancelled
  deriving DecidableEq

structure OutboxIntent where
  intentId : Bytes
  createdEpoch : Int64
  expiryEpoch : Int64
  relayPolicyHash : Bytes
  payloadHash : Bytes
  ciphertextBlobHash : Option Bytes
  deliveryKeyId : Option Bytes
  maxResponseBytes : Int64
  feeBudget : Int64
  routeHint : Option Bytes
  callbackPolicyHash : Option Bytes
  deriving DecidableEq

structure OutboxOpenPayload where
  intentId : Bytes
  expiryEpoch : Int64
  relayPolicyHash : Bytes
  payloadHash : Bytes
  ciphertextBlobHash : Option Bytes
  deliveryKeyId : Option Bytes
  maxResponseBytes : Int64
  feeBudget : Int64
  routeHint : Option Bytes
  callbackPolicyHash : Option Bytes

structure RelayClaim where
  intentId : Bytes
  relayId : Bytes
  claimEpoch : Int64
  claimExpiryEpoch : Int64
  signature : Bytes
  deriving DecidableEq

inductive ResolutionReason
  | fulfilledDelivery
  | relayCancelled
  | ownerCancelled
  | intentExpired
  | claimExpired
  | claimSetExhausted
  | deliveryKeyInactive
  | deliveryKeyExpired
  | deliveryKeyRevoked
  | deliveryKeyErased
  deriving DecidableEq

structure RelayCancel where
  intentId : Bytes
  relayId : Bytes
  cancelEpoch : Int64
  reason : ResolutionReason
  relatedKeyId : Option Bytes
  signature : Bytes

structure OutboxResolution where
  intentId : Bytes
  status : OutboxStatus
  reason : ResolutionReason
  resolvedEpoch : Int64
  actorId : Option Bytes
  relatedKeyId : Option Bytes
  deriving DecidableEq

structure IngressPacket where
  intentId : Bytes
  relayId : Bytes
  ingressNonce : Int64
  resultCode : Int
  responsePayloadHash : Bytes
  responseSizeBytes : Int64
  responseCiphertextBlobHash : Option Bytes
  externalReceiptHash : Option Bytes
  signature : Bytes
  deriving DecidableEq

/-- An ingress commit holds what its packet holds. -/
abbrev IngressCommitPayload := IngressPacket

/-- What is stored below one outbox intent. -/
structure OutboxNode where
  intent : Option OutboxIntent
  status : Option OutboxStatus
  /-- The claim that was made last. -/
  claim : Option RelayClaim
  claims : Table Bytes RelayClaim
  claimResolutions : Table Bytes OutboxResolution
  resolution : Option OutboxResolution

def OutboxNode.empty : OutboxNode := ⟨none, none, none, ∅, ∅, none⟩

structure Circle where
  info : Option CircleInfo
  stable : StableStorage
  outbox : Bytes → OutboxNode
  /-- The intents that are delivered with a key. -/
  byDeliveryKey : Bytes → List Bytes
  packets : Bytes → Option IngressPacket

structure KeyPolicy where
  activateAfterEpoch : Option Int64
  expireAfterEpoch : Option Int64
  revoked : Bool
  erased : Bool
  deriving DecidableEq

structure KeyPolicyPutPayload where
  keyId : Bytes
  activateAfterEpoch : Option Int64
  expireAfterEpoch : Option Int64
  revoked : Bool
  erased : Bool

structure KeyGrantPayload where
  keyId : Bytes
  activateAfterEpoch : Option Int64
  expireAfterEpoch : Option Int64

structure KeyExtendPayload where
  keyId : Bytes
  expireAfterEpoch : Int64

inductive KeyState
  | scheduled
  | live
  | expired
  | revoked
  | erased
  deriving DecidableEq

def KeyState.isLive : KeyState → Bool
  | .live => true
  | .scheduled | .expired | .revoked | .erased => false

def KeyState.terminalForDelivery : KeyState → Bool
  | .expired | .revoked | .erased => true
  | .scheduled | .live => false

namespace KeyPolicy

/-- The epoch at which a key expires is over. -/
def expiredAt (policy : KeyPolicy) (currentEpoch : Int64) : Bool :=
  policy.expireAfterEpoch.any fun value => value ≤ currentEpoch

/-- The epoch at which a key becomes live is still to come. -/
def pendingAt (policy : KeyPolicy) (currentEpoch : Int64) : Bool :=
  policy.activateAfterEpoch.any fun value => currentEpoch < value

def classify (policy : KeyPolicy) (currentEpoch : Int64) : KeyState :=
  if policy.erased then .erased
  else if policy.revoked then .revoked
  else if policy.expiredAt currentEpoch then .expired
  else if policy.pendingAt currentEpoch then .scheduled
  else .live

def activationEpoch (currentEpoch : Int64) (policy : KeyPolicy) : Int64 :=
  policy.activateAfterEpoch.getD currentEpoch

def survives (policy : KeyPolicy) (currentEpoch : Int64) : Bool :=
  policy.expireAfterEpoch.all fun value =>
    currentEpoch < value && policy.activationEpoch currentEpoch < value

def deliverableByDeadline (currentEpoch deadlineEpoch : Int64) (policy : KeyPolicy) : Bool :=
  match policy.classify currentEpoch with
  | .expired | .revoked | .erased => false
  | .scheduled | .live =>
    policy.activationEpoch currentEpoch < deadlineEpoch && policy.survives currentEpoch

def live (policy : KeyPolicy) (currentEpoch : Int64) : Bool :=
  let activateOk := policy.activateAfterEpoch.all fun value => value ≤ currentEpoch
  let expireOk := policy.expireAfterEpoch.all fun value => currentEpoch < value
  !policy.revoked && !policy.erased && activateOk && expireOk

def validateWindow (currentEpoch : Int64) (activateAfterEpoch expireAfterEpoch : Option Int64) :
    Except Refusal Unit :=
  match activateAfterEpoch, expireAfterEpoch with
  | some activate, some expire =>
    if expire ≤ activate then
      refuse "invalid_circle_key_window"
        "expire_after_epoch must be greater than activate_after_epoch"
    else if expire ≤ currentEpoch ∧ activate ≤ currentEpoch then
      refuse "invalid_circle_key_window" "expire_after_epoch must be in the future"
    else .ok ()
  | none, some expire =>
    if expire ≤ currentEpoch then
      refuse "invalid_circle_key_window" "expire_after_epoch must be in the future"
    else .ok ()
  | _, none => .ok ()

def grant (currentEpoch : Int64) (policy : KeyPolicy)
    (payload : KeyGrantPayload) : Except Refusal KeyPolicy :=
  if policy.erased then refuse "circle_key_erased" "erased keys cannot be granted again"
  else do
    validateWindow currentEpoch payload.activateAfterEpoch payload.expireAfterEpoch
    return ⟨payload.activateAfterEpoch, payload.expireAfterEpoch, false, false⟩

def extend (currentEpoch : Int64) (policy : KeyPolicy)
    (payload : KeyExtendPayload) : Except Refusal KeyPolicy :=
  if policy.erased then refuse "circle_key_erased" "erased keys cannot be extended"
  else if policy.revoked then
    refuse "circle_key_revoked" "revoked keys must be granted again before extension"
  else if payload.expireAfterEpoch ≤ policy.activationEpoch currentEpoch then
    refuse "invalid_circle_key_window"
      "expire_after_epoch must be greater than activation epoch"
  else if payload.expireAfterEpoch ≤ currentEpoch then
    refuse "invalid_circle_key_window" "expire_after_epoch must be in the future"
  else .ok { policy with expireAfterEpoch := some payload.expireAfterEpoch }

def revoke (policy : KeyPolicy) : Except Refusal KeyPolicy :=
  if policy.erased then refuse "circle_key_erased" "erased keys cannot be revoked again"
  else .ok { policy with revoked := true }

def erase (policy : KeyPolicy) : Except Refusal KeyPolicy :=
  .ok { policy with revoked := true, erased := true }

end KeyPolicy

def isSpace (byte : UInt8) : Bool := byte = 32 || byte = 9 || byte = 10 || byte = 12 || byte = 13

def trim (text : Bytes) : Bytes := ((text.dropWhile isSpace).reverse.dropWhile isSpace).reverse

def lowercaseAscii (text : Bytes) : Bytes :=
  text.map fun byte => if 65 ≤ byte ∧ byte ≤ 90 then byte + 32 else byte

def boolValue : Option Bytes → Bool
  | some value =>
    let value := lowercaseAscii (trim value)
    value = Bytes.ofAscii "1" || value = Bytes.ofAscii "true" || value = Bytes.ofAscii "yes"
  | none => false

def int64Value (value : Option Bytes) : Option Int64 := do
  let value ← value
  let value ← intOfString int64Bits (trim value)
  return Int64.ofInt value

def int64ToString (value : Int64) : Bytes := intToString value.toInt

namespace KeyPolicy

def keyBase (keyId : Bytes) : Bytes := Bytes.ofAscii "key_policy:" ++ keyId ++ Bytes.ofAscii ":"

def activateAfterKey (keyId : Bytes) : Bytes :=
  keyBase keyId ++ Bytes.ofAscii "activate_after_epoch"

def expireAfterKey (keyId : Bytes) : Bytes := keyBase keyId ++ Bytes.ofAscii "expire_after_epoch"

def revokedKey (keyId : Bytes) : Bytes := keyBase keyId ++ Bytes.ofAscii "revoked"

def erasedKey (keyId : Bytes) : Bytes := keyBase keyId ++ Bytes.ofAscii "erased"

def ofStoredValues (activateAfterRaw expireAfterRaw revokedRaw erasedRaw :
    Option Bytes) : KeyPolicy where
  activateAfterEpoch := int64Value activateAfterRaw
  expireAfterEpoch := int64Value expireAfterRaw
  revoked := boolValue revokedRaw
  erased := boolValue erasedRaw

def flag (value : Bool) : Option Bytes := if value then some (Bytes.ofAscii "true") else none

def writeSnapshot (storage : Table Bytes Bytes)
    (payload : KeyPolicyPutPayload) : Table Bytes Bytes :=
  (((storage.alter (activateAfterKey payload.keyId,
      payload.activateAfterEpoch.map int64ToString)).alter
    (expireAfterKey payload.keyId, payload.expireAfterEpoch.map int64ToString)).alter
    (revokedKey payload.keyId, flag payload.revoked)).alter
    (erasedKey payload.keyId, flag payload.erased)

def putPayloadOf (keyId : Bytes) (policy : KeyPolicy) : KeyPolicyPutPayload :=
  ⟨keyId, policy.activateAfterEpoch, policy.expireAfterEpoch, policy.revoked, policy.erased⟩

def ofPutPayload (payload : KeyPolicyPutPayload) : KeyPolicy :=
  ⟨payload.activateAfterEpoch, payload.expireAfterEpoch, payload.revoked, payload.erased⟩

end KeyPolicy

def loadCircleStableStorage (stable : StableStorage) : Except Bytes (Table Bytes Bytes) :=
  if stable.blobRefs = [] then .ok stable.inline
  else .error (Bytes.ofAscii "circle stable storage contains non-inline values")

def readCircleStableInlineValue (stable : StableStorage) (key : Bytes) : Option Bytes :=
  stable.inline.find? key

def entryBytes (entry : Bytes × Bytes) : Int := entry.1.length + entry.2.length

def validateStableStorage (limits : Limits) (storage : Table Bytes Bytes) : Except Bytes Unit :=
  let totalBytes := (storage.toList.map entryBytes).sum
  match storage.toList.find? fun entry => limits.maxInlineValue.toInt < entry.2.length with
  | some (key, value) =>
    .error
      (Bytes.ofAscii "circle stable value exceeds max_inline_value key=" ++
        key ++ Bytes.ofAscii " bytes=" ++ intToString value.length ++
        Bytes.ofAscii " limit=" ++ int64ToString limits.maxInlineValue)
  | none =>
    if limits.maxStableBytes.toInt < totalBytes then
      .error
        (Bytes.ofAscii
            "circle stable storage exceeds max_stable_bytes bytes=" ++
          intToString totalBytes ++ Bytes.ofAscii " limit=" ++ int64ToString limits.maxStableBytes)
    else .ok ()

def saveCircleStableStorageChecked (limits : Limits)
    (storage : Table Bytes Bytes) : Except Bytes StableStorage := do
  validateStableStorage limits storage
  return ⟨storage, []⟩

def loadKeyPolicy (stable : StableStorage) (keyId : Bytes) : KeyPolicy :=
  KeyPolicy.ofStoredValues
    (readCircleStableInlineValue stable (KeyPolicy.activateAfterKey keyId))
    (readCircleStableInlineValue stable (KeyPolicy.expireAfterKey keyId))
    (readCircleStableInlineValue stable (KeyPolicy.revokedKey keyId))
    (readCircleStableInlineValue stable (KeyPolicy.erasedKey keyId))

end Circles
end LiteNode
