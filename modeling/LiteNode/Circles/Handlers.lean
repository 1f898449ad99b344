import LiteNode.Circles.Transport

/-!
# Transactions on a circle

How the transactions on keys and on the outbox of a circle are checked and
applied. A transaction that is refused leaves the circle as it was.
-/

namespace LiteNode
namespace Circles

/-- The sender of a transaction, whether the fee is taken, and which signatures
are accepted. -/
structure TxContext where
  sender : Bytes
  debit : Except Bytes Unit
  verifyClaim : RelayClaim → Except Refusal Unit
  verifyCancel : RelayCancel → Except Refusal Unit
  verifyIngress : IngressCommitPayload → Except Refusal Unit

inductive CircleTx
  | keyPolicyPut (payload : KeyPolicyPutPayload)
  | keyGrant (payload : KeyGrantPayload)
  | keyExtend (payload : KeyExtendPayload)
  | keyRevoke (keyId : Bytes)
  | keyErase (keyId : Bytes)
  | outboxOpen (payload : OutboxOpenPayload)
  | relayClaim (claim : RelayClaim)
  | relayCancel (cancel : RelayCancel)
  | ingressCommit (payload : IngressCommitPayload)

def debitFee (context : TxContext) : Except Refusal Unit :=
  context.debit.mapError fun err => ("insufficient_balance", err)

def storageResult (result : Except Bytes α) : Except Refusal α :=
  result.mapError fun err => ("circle_stable_storage_invalid", err)

def circleInfo (circle : Circle) : Except Refusal CircleInfo :=
  match circle.info with
  | none => refuse "circle_not_found" "circle does not exist"
  | some info => .ok info

def Circle.setNode (circle : Circle) (intentId : Bytes) (node : OutboxNode) : Circle :=
  { circle with outbox := Function.update circle.outbox intentId node }

/-- Resolve an intent whose key is shut down, unless it is resolved already. -/
def shutdownIntent (keyId : Bytes) (currentEpoch : Int64)
    (reason : ResolutionReason) (circle : Circle) (intentId : Bytes) : Circle :=
  let node := circle.outbox intentId
  match node.intent, node.storedStatus with
  | none, _ => circle
  | some _, .fulfilled | some _, .cancelled | some _, .expired => circle
  | some _, .open | some _, .claimed =>
    let resolution := OutboxResolution.make none (some keyId) intentId currentEpoch reason
    circle.setNode intentId
      { node with
        claimResolutions := (node.activeOutboxClaims currentEpoch).foldl
          (fun table claim => table.replace claim.relayId resolution)
          node.claimResolutions
        resolution := some resolution
        status := some .cancelled }

def materializeShutdown (keyId : Bytes) (currentEpoch : Int64)
    (policy : KeyPolicy) (circle : Circle) : Circle :=
  match (policy.classify currentEpoch).outboxReason with
  | none => circle
  | some reason =>
    (sortUniq (circle.byDeliveryKey keyId)).foldl (shutdownIntent keyId currentEpoch reason) circle

def validateEpochWindow (name : String) (activateAfterEpoch expireAfterEpoch : Option Int64) :
    Except Refusal Unit :=
  match activateAfterEpoch, expireAfterEpoch with
  | some activate, some expire =>
    if expire ≤ activate then
      refuse name "expire_after_epoch must be greater than activate_after_epoch"
    else .ok ()
  | _, _ => .ok ()

def checkKeyOwner (context : TxContext) (info : CircleInfo) (keyId : Bytes) : Except Refusal Unit :=
  if info.owner ≠ context.sender then
    refuse "circle_access_denied" "only the owner can modify circle key policy"
  else if keyId = [] then refuse "invalid_circle_key_id" "key_id must not be empty"
  else .ok ()

/-- Write the cells of a key, and resolve the intents that it no longer
delivers. -/
def saveKeyPolicy (info : CircleInfo) (currentEpoch : Int64)
    (payload : KeyPolicyPutPayload) (circle : Circle) :
    Except Refusal Circle := do
  let storage ← storageResult (loadCircleStableStorage circle.stable)
  let stable ← storageResult (saveCircleStableStorageChecked info.limits
    (KeyPolicy.writeSnapshot storage payload))
  return materializeShutdown payload.keyId currentEpoch
    (KeyPolicy.ofPutPayload payload) { circle with stable := stable }

def processKeyPolicyPut (context : TxContext) (currentEpoch : Int64)
    (payload : KeyPolicyPutPayload) (circle : Circle) :
    Except Refusal Circle := do
  let info ← circleInfo circle
  checkKeyOwner context info payload.keyId
  validateEpochWindow "invalid_circle_key_window" payload.activateAfterEpoch
    payload.expireAfterEpoch
  debitFee context
  saveKeyPolicy info currentEpoch payload circle

def processKeyTransition (context : TxContext) (currentEpoch : Int64)
    (keyId : Bytes) (apply : KeyPolicy → Except Refusal KeyPolicy)
    (circle : Circle) : Except Refusal Circle := do
  let info ← circleInfo circle
  checkKeyOwner context info keyId
  debitFee context
  let nextPolicy ← apply (loadKeyPolicy circle.stable keyId)
  saveKeyPolicy info currentEpoch (KeyPolicy.putPayloadOf keyId nextPolicy) circle

def openEnvelope (currentEpoch : Int64) (payload : OutboxOpenPayload) : Except Refusal Unit :=
  if payload.intentId = [] then refuse "invalid_circle_intent_id" "intent_id must not be empty"
  else if payload.relayPolicyHash.length ≠ 64 then
    refuse "invalid_circle_relay_policy_hash"
      "relay_policy_hash must be a 64-char hex string"
  else if payload.payloadHash.length ≠ 64 then
    refuse "invalid_circle_payload_hash" "payload_hash must be a 64-char hex string"
  else if payload.expiryEpoch ≤ currentEpoch then
    refuse "invalid_circle_expiry_epoch" "expiry_epoch must be in the future"
  else .ok ()

def openIntent (currentEpoch : Int64) (policy : TransportPolicy)
    (deliveryKeyDeliverable existingIntent : Bool)
    (payload : OutboxOpenPayload) : Except Refusal OutboxIntent := do
  openEnvelope currentEpoch payload
  if ¬ deliveryKeyDeliverable then
    refuse "circle_delivery_key_inactive"
      "delivery key is not deliverable before intent expiry"
  else if policy.maxResponseBytes.any (· < payload.maxResponseBytes) then
    refuse "circle_transport_policy_violation"
      "max_response_bytes exceeds circle transport policy"
  else if existingIntent then refuse "circle_outbox_exists" "outbox intent already exists"
  else
    return {
      intentId := payload.intentId
      createdEpoch := currentEpoch
      expiryEpoch := payload.expiryEpoch
      relayPolicyHash := payload.relayPolicyHash
      payloadHash := payload.payloadHash
      ciphertextBlobHash := payload.ciphertextBlobHash
      deliveryKeyId := payload.deliveryKeyId
      maxResponseBytes := payload.maxResponseBytes
      feeBudget := payload.feeBudget
      routeHint := payload.routeHint
      callbackPolicyHash := payload.callbackPolicyHash }

def addIntent (intents : List Bytes) (intentId : Bytes) : List Bytes :=
  if intents.contains intentId then intents else intentId :: intents

def saveOutboxIntent (circle : Circle) (intent : OutboxIntent) : Circle :=
  let node := circle.outbox intent.intentId
  let stored := circle.setNode intent.intentId
    { node with intent := some intent, status := some .open }
  match intent.deliveryKeyId with
  | none => stored
  | some keyId =>
    { stored with
      byDeliveryKey := Function.update stored.byDeliveryKey keyId
        (addIntent (stored.byDeliveryKey keyId) intent.intentId) }

def processOutboxOpen (context : TxContext) (currentEpoch : Int64)
    (policy : TransportPolicy) (payload : OutboxOpenPayload)
    (circle : Circle) : Except Refusal Circle := do
  let info ← circleInfo circle
  if info.owner ≠ context.sender then
    refuse "circle_access_denied" "only the owner can open circle outbox intents"
  else do
    openEnvelope currentEpoch payload
    let intent ← openIntent currentEpoch policy
      (deliverableForDeadline circle.stable currentEpoch payload.expiryEpoch payload.deliveryKeyId)
      (circle.outbox payload.intentId).intent.isSome payload
    debitFee context
    return saveOutboxIntent circle intent

def relayClaimEnvelope (sender : Bytes) (currentEpoch : Int64)
    (claim : RelayClaim) : Except Refusal Unit :=
  if claim.intentId = [] then refuse "invalid_circle_intent_id" "intent_id must not be empty"
  else if sender ≠ claim.relayId then
    refuse "circle_relay_claim_sender_mismatch" "claim relay_id must match tx sender"
  else if claim.claimEpoch ≠ currentEpoch then
    refuse "circle_relay_claim_epoch_invalid" "claim_epoch must match the current epoch"
  else .ok ()

def outboxIntent (circle : Circle) (intentId : Bytes) : Except Refusal OutboxIntent :=
  match (circle.outbox intentId).intent with
  | none => refuse "circle_outbox_not_found" "outbox intent does not exist"
  | some intent => .ok intent

/-- A claim of a relay takes the place of its former one and lifts what
resolved that. -/
def saveOutboxClaim (circle : Circle) (claim : RelayClaim) : Circle :=
  let node := circle.outbox claim.intentId
  circle.setNode claim.intentId
    { node with
      claims := node.claims.replace claim.relayId claim
      claimResolutions := node.claimResolutions.remove claim.relayId
      claim := some claim
      status := some .claimed }

def processRelayClaim (context : TxContext) (currentEpoch : Int64)
    (policy : TransportPolicy) (claim : RelayClaim) (circle : Circle) :
    Except Refusal Circle := do
  let _ ← circleInfo circle
  relayClaimEnvelope context.sender currentEpoch claim
  if ¬ policy.relayAllowed claim.relayId then
    refuse "circle_transport_policy_violation"
      "relay is not allowed by circle transport policy"
  else if policy.maxClaimWindowEpochs.any
      (· < claim.claimExpiryEpoch - claim.claimEpoch) then
    refuse "circle_transport_policy_violation"
      "relay claim window exceeds circle transport policy"
  else do
    context.verifyClaim claim
    let intent ← outboxIntent circle claim.intentId
    let node := circle.outbox claim.intentId
    claimAdmissible currentEpoch policy intent node.storedStatus
      (deliverableForDeadline circle.stable currentEpoch claim.claimExpiryEpoch
        intent.deliveryKeyId)
      node.outboxClaims (node.activeOutboxClaims currentEpoch) claim
    debitFee context
    return saveOutboxClaim circle claim

def relayCancelEnvelope (sender : Bytes) (currentEpoch : Int64)
    (cancel : RelayCancel) : Except Refusal Unit :=
  if cancel.intentId = [] then refuse "invalid_circle_intent_id" "intent_id must not be empty"
  else if sender ≠ cancel.relayId then
    refuse "circle_relay_cancel_sender_mismatch" "cancel relay_id must match tx sender"
  else if cancel.cancelEpoch ≠ currentEpoch then
    refuse "circle_relay_cancel_epoch_invalid" "cancel_epoch must match the current epoch"
  else .ok ()

/-- The last active claim that is cancelled resolves the intent. -/
def saveRelayCancel (currentEpoch : Int64) (key : DeliveryKeyStatus)
    (cancel : RelayCancel) (circle : Circle) : Circle :=
  let node := circle.outbox cancel.intentId
  let claimResolution := OutboxResolution.make (some cancel.relayId) key.keyId
    cancel.intentId currentEpoch cancel.reason
  let remaining := (node.activeOutboxClaims currentEpoch).filter
    fun claim => claim.relayId ≠ cancel.relayId
  circle.setNode cancel.intentId
    { node with
      claimResolutions := node.claimResolutions.replace cancel.relayId claimResolution
      resolution := if remaining = [] then some claimResolution else node.resolution
      status := some (if remaining = [] then claimResolution.status else .claimed) }

def processRelayCancel (context : TxContext) (currentEpoch : Int64)
    (cancel : RelayCancel) (circle : Circle) : Except Refusal Circle := do
  let _ ← circleInfo circle
  relayCancelEnvelope context.sender currentEpoch cancel
  context.verifyCancel cancel
  let intent ← outboxIntent circle cancel.intentId
  let node := circle.outbox cancel.intentId
  let key := deliveryKeyStatus circle.stable currentEpoch intent
  relayCancelAdmissible currentEpoch intent node.storedStatus key.state
    node.outboxClaims (node.activeOutboxClaims currentEpoch) cancel
  debitFee context
  return saveRelayCancel currentEpoch key cancel circle

def ingressEnvelope (sender : Bytes) (payload : IngressCommitPayload) : Except Refusal Unit :=
  if payload.intentId = [] then refuse "invalid_circle_intent_id" "intent_id must not be empty"
  else if sender ≠ payload.relayId then
    refuse "circle_ingress_sender_mismatch" "ingress relay_id must match tx sender"
  else if payload.responsePayloadHash.length ≠ 64 then
    refuse "invalid_circle_response_payload_hash"
      "response_payload_hash must be a 64-char hex string"
  else if payload.responseSizeBytes < 0 then
    refuse "invalid_circle_response_size_bytes" "response_size_bytes must not be negative"
  else .ok ()

def ingressCommit (currentEpoch : Int64) (policy : TransportPolicy)
    (intent : OutboxIntent) (status : OutboxStatus) (key : DeliveryKeyStatus)
    (activeClaims : List RelayClaim) (existingPacket : Bool)
    (payload : IngressCommitPayload) : Except Refusal Unit :=
  if ¬ policy.relayAllowed payload.relayId then
    refuse "circle_transport_policy_violation"
      "relay is not allowed by circle transport policy"
  else if ¬ key.state.isLive then
    refuse "circle_delivery_key_inactive" "outbox delivery key is not live"
  else if policy.requireResponseCiphertext ∧ payload.responseCiphertextBlobHash.isNone then
    refuse "circle_transport_policy_violation"
      "circle transport policy requires response ciphertext"
  else if policy.requireExternalReceipt ∧ payload.externalReceiptHash.isNone
      then
    refuse "circle_transport_policy_violation"
      "circle transport policy requires external receipt"
  else if ¬ policy.resultCodeAllowed payload.resultCode then
    refuse "circle_transport_policy_violation"
      "result_code is not allowed by circle transport policy"
  else if intent.maxResponseBytes < payload.responseSizeBytes then
    refuse "circle_transport_policy_violation"
      "response_size_bytes exceeds outbox intent limit"
  else if ¬ policy.responseSizeAllowed payload.responseSizeBytes then
    refuse "circle_transport_policy_violation"
      "response_size_bytes exceeds circle transport policy"
  else do
    ingressAdmissible currentEpoch policy intent status activeClaims payload
    if existingPacket then refuse "circle_ingress_packet_exists" "ingress packet already exists"
    else return ()

def saveIngress (currentEpoch : Int64) (key : DeliveryKeyStatus)
    (payload : IngressCommitPayload) (circle : Circle) : Circle :=
  let node := circle.outbox payload.intentId
  let stored := circle.setNode payload.intentId
    { node with
      resolution := some (OutboxResolution.make (some payload.relayId)
        key.keyId payload.intentId currentEpoch .fulfilledDelivery)
      status := some .fulfilled }
  { stored with
    packets := Function.update stored.packets payload.intentId (some payload) }

def ingressSignature (result : Except Refusal Unit) : Except Refusal Unit :=
  result.mapError fun refusal =>
    if refusal.1 = "circle_relay_signature_invalid" then
      ("circle_ingress_signature_invalid", refusal.2)
    else refusal

def processIngressCommit (context : TxContext) (currentEpoch : Int64)
    (policy : TransportPolicy) (payload : IngressCommitPayload)
    (circle : Circle) : Except Refusal Circle := do
  let _ ← circleInfo circle
  ingressEnvelope context.sender payload
  ingressSignature (context.verifyIngress payload)
  let intent ← outboxIntent circle payload.intentId
  let node := circle.outbox payload.intentId
  let key := deliveryKeyStatus circle.stable currentEpoch intent
  ingressCommit currentEpoch policy intent node.storedStatus key
    (node.activeOutboxClaims currentEpoch)
    (circle.packets payload.intentId).isSome payload
  debitFee context
  return saveIngress currentEpoch key payload circle

def process (context : TxContext) (currentEpoch : Int64)
    (policy : TransportPolicy) (circle : Circle) :
    CircleTx → Except Refusal Circle
  | .keyPolicyPut payload => processKeyPolicyPut context currentEpoch payload circle
  | .keyGrant payload =>
    processKeyTransition context currentEpoch payload.keyId
      (fun stored => stored.grant currentEpoch payload) circle
  | .keyExtend payload =>
    processKeyTransition context currentEpoch payload.keyId
      (fun stored => stored.extend currentEpoch payload) circle
  | .keyRevoke keyId => processKeyTransition context currentEpoch keyId KeyPolicy.revoke circle
  | .keyErase keyId => processKeyTransition context currentEpoch keyId KeyPolicy.erase circle
  | .outboxOpen payload => processOutboxOpen context currentEpoch policy payload circle
  | .relayClaim claim => processRelayClaim context currentEpoch policy claim circle
  | .relayCancel cancel => processRelayCancel context currentEpoch cancel circle
  | .ingressCommit payload => processIngressCommit context currentEpoch policy payload circle

/-- A transaction at an epoch. -/
structure Move where
  epoch : Int64
  context : TxContext
  tx : CircleTx

def step (policy : TransportPolicy) (circle : Circle) (move : Move) : Circle :=
  match process move.context move.epoch policy circle move.tx with
  | .ok circle => circle
  | .error _ => circle

def run (policy : TransportPolicy) (circle : Circle) (moves : List Move) : Circle :=
  moves.foldl (step policy) circle

end Circles
end LiteNode
