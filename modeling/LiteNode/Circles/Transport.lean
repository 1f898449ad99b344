import LiteNode.Circles.KeyPolicy
import LiteNode.Data.Ordered

/-!
# Transport of outbox intents

Which relays may claim an intent, how many at a time and for how long, which of
them brings the packet in, and what is reported of the intent meanwhile.
-/

namespace LiteNode
namespace Circles

/-! ## Policies -/

inductive RelayMode
  | anyRegistered
  | allowlist
  deriving DecidableEq

inductive LeaseClass
  | reopenOnExpiry
  | terminalOnExpiry
  | cancelOnExpiry
  deriving DecidableEq

inductive ClaimStrategy
  | anyReplacement
  | sameRelayOnly
  | noReplacement
  deriving DecidableEq

inductive ClaimTopology
  | singleRelay
  | parallelRelays
  | quorumRelays
  deriving DecidableEq

inductive QuorumMode
  | countQuorum
  | weightedQuorum
  deriving DecidableEq

inductive IngressStrategy
  | anyReadyRelay
  | primaryOldest
  | primaryNewest
  | primaryHeaviest
  | primaryHeaviestOldest
  | primaryHeaviestNewest
  deriving DecidableEq

structure TransportPolicy where
  relayMode : RelayMode
  leaseClass : LeaseClass
  claimStrategy : ClaimStrategy
  claimTopology : ClaimTopology
  quorumMode : QuorumMode
  ingressStrategy : IngressStrategy
  quorumThreshold : Option Int
  quorumWeightThreshold : Option Int
  maxActiveClaims : Option Int
  relayAllowlist : List Bytes
  relayWeights : List (Bytes × Int)
  maxClaimWindowEpochs : Option Int64
  maxResponseBytes : Option Int64
  requireResponseCiphertext : Bool
  requireExternalReceipt : Bool
  acceptedResultCodes : Option (List Int)

namespace TransportPolicy

/-- A policy in which nothing is chosen. -/
def default : TransportPolicy where
  relayMode := .anyRegistered
  leaseClass := .reopenOnExpiry
  claimStrategy := .anyReplacement
  claimTopology := .singleRelay
  quorumMode := .countQuorum
  ingressStrategy := .anyReadyRelay
  quorumThreshold := none
  quorumWeightThreshold := none
  maxActiveClaims := none
  relayAllowlist := []
  relayWeights := []
  maxClaimWindowEpochs := none
  maxResponseBytes := none
  requireResponseCiphertext := false
  requireExternalReceipt := false
  acceptedResultCodes := none

def maxInt : Int := 4611686018427387903

def validateTopology (policy : TransportPolicy) : Except Refusal Unit :=
  match policy.claimTopology with
  | .singleRelay =>
    if policy.quorumThreshold.any (· ≠ 1) then
      refuse "invalid_circle_transport_quorum_threshold"
        "single_relay topology requires quorum_threshold = 1"
    else if policy.quorumWeightThreshold.any (· ≠ 1) then
      refuse "invalid_circle_transport_quorum_weight_threshold"
        ("single_relay topology requires quorum_weight_threshold = 1 " ++ "when provided")
    else if policy.maxActiveClaims.any (· ≠ 1) then
      refuse "invalid_circle_transport_max_active_claims"
        "single_relay topology requires max_active_claims = 1"
    else .ok ()
  | .parallelRelays =>
    if policy.quorumThreshold.any (· ≠ 1) then
      refuse "invalid_circle_transport_quorum_threshold"
        "parallel_relays topology requires quorum_threshold = 1 when provided"
    else if policy.quorumWeightThreshold.any (· ≠ 1) then
      refuse "invalid_circle_transport_quorum_weight_threshold"
        ("parallel_relays topology requires quorum_weight_threshold = 1 " ++ "when provided")
    else .ok ()
  | .quorumRelays =>
    let threshold := policy.quorumThreshold.getD 2
    let weightThreshold := policy.quorumWeightThreshold.getD 2
    if threshold < 2 then
      refuse "invalid_circle_transport_quorum_threshold"
        "quorum_relays topology requires quorum_threshold >= 2"
    else if policy.quorumMode = .weightedQuorum ∧ weightThreshold < 2 then
      refuse "invalid_circle_transport_quorum_weight_threshold"
        "weighted quorum requires quorum_weight_threshold >= 2"
    else if policy.maxActiveClaims.any (· < threshold) then
      refuse "invalid_circle_transport_quorum_threshold"
        "quorum_threshold must not exceed max_active_claims"
    else .ok ()

def validate (policy : TransportPolicy) : Except Refusal Unit :=
  if policy.relayWeights.any fun entry => entry.2 ≤ 0 then
    refuse "invalid_circle_transport_relay_weight" "relay weights must be positive"
  else if policy.quorumThreshold.any (· ≤ 0) then
    refuse "invalid_circle_transport_quorum_threshold" "quorum_threshold must be positive"
  else if policy.maxActiveClaims.any (· ≤ 0) then
    refuse "invalid_circle_transport_max_active_claims" "max_active_claims must be positive"
  else if policy.quorumWeightThreshold.any (· ≤ 0) then
    refuse "invalid_circle_transport_quorum_weight_threshold"
      "quorum_weight_threshold must be positive"
  else policy.validateTopology

def relayAllowed (policy : TransportPolicy) (relayId : Bytes) : Bool :=
  match policy.relayMode with
  | .anyRegistered => true
  | .allowlist => policy.relayAllowlist.contains relayId

def resultCodeAllowed (policy : TransportPolicy) (resultCode : Int) : Bool :=
  policy.acceptedResultCodes.all fun codes => codes.contains resultCode

def responseSizeAllowed (policy : TransportPolicy) (sizeBytes : Int64) : Bool :=
  policy.maxResponseBytes.all fun limit => sizeBytes ≤ limit

def singleRelay (policy : TransportPolicy) : Bool := policy.claimTopology = .singleRelay

def activeClaimLimit (policy : TransportPolicy) : Int :=
  match policy.claimTopology with
  | .singleRelay => 1
  | _ => policy.maxActiveClaims.getD maxInt

def quorumThresholdValue (policy : TransportPolicy) : Int :=
  match policy.claimTopology with
  | .singleRelay | .parallelRelays => 1
  | .quorumRelays => policy.quorumThreshold.getD 2

def quorumWeightThresholdValue (policy : TransportPolicy) : Int :=
  match policy.claimTopology with
  | .singleRelay | .parallelRelays => 1
  | .quorumRelays => policy.quorumWeightThreshold.getD 2

def relayWeight (policy : TransportPolicy) (relayId : Bytes) : Int :=
  match policy.relayWeights.lookup relayId with
  | some weight => if 0 < weight then weight else 1
  | none => 1

/-- Weights are added as native integers. -/
def claimsWeight (policy : TransportPolicy) (claims : List RelayClaim) : Int :=
  claims.foldl (fun acc claim => (acc + policy.relayWeight claim.relayId).bmod (2 ^ 63)) 0

/-- Enough claims are active for a packet to come in. -/
def claimReady (policy : TransportPolicy) (activeClaims : List RelayClaim) : Bool :=
  if policy.claimTopology = .quorumRelays ∧ policy.quorumMode = .weightedQuorum then
    policy.quorumWeightThresholdValue ≤ policy.claimsWeight activeClaims
  else policy.quorumThresholdValue ≤ activeClaims.length

end TransportPolicy

namespace RelayClaim

def liveAt (currentEpoch : Int64) (claim : RelayClaim) : Bool :=
  claim.claimEpoch ≤ currentEpoch && currentEpoch < claim.claimExpiryEpoch

def expiredAt (currentEpoch : Int64) (claim : RelayClaim) : Bool :=
  claim.claimExpiryEpoch ≤ currentEpoch

def matchesIngress (claim : RelayClaim) (payload : IngressCommitPayload) : Bool :=
  claim.intentId = payload.intentId && claim.relayId = payload.relayId

def windowValid (currentEpoch intentExpiryEpoch : Int64) (claim : RelayClaim) : Bool :=
  currentEpoch ≤ claim.claimEpoch &&
    claim.claimEpoch < claim.claimExpiryEpoch &&
    claim.claimExpiryEpoch ≤ intentExpiryEpoch

end RelayClaim

def compareInt64 (left right : Int64) : Ordering := compare left.toInt right.toInt

/-- The newest claim comes first, and of two the one that lasts longer. -/
def compareClaims (left right : RelayClaim) : Ordering :=
  (compareInt64 right.claimEpoch left.claimEpoch).then
    ((compareInt64 right.claimExpiryEpoch left.claimExpiryEpoch).then
      (compareBytes left.relayId right.relayId))

def sortClaims (compare : RelayClaim → RelayClaim → Ordering)
    (claims : List RelayClaim) : List RelayClaim :=
  claims.insertionSort fun left right => compare left right ≠ .gt

def latestClaim (claims : List RelayClaim) : Option RelayClaim :=
  (sortClaims compareClaims claims).head?

def findClaimByRelay (claims : List RelayClaim) (relayId : Bytes) : Option RelayClaim :=
  claims.find? fun claim => claim.relayId = relayId

def claimLive (currentEpoch : Int64) (cancelledRelays : List Bytes) (claim : RelayClaim) : Bool :=
  claim.liveAt currentEpoch && !cancelledRelays.contains claim.relayId

def liveClaims (currentEpoch : Int64) (cancelledRelays : List Bytes)
    (claims : List RelayClaim) : List RelayClaim :=
  (sortClaims compareClaims claims).filter (claimLive currentEpoch cancelledRelays)

def cancelledRelayIds (resolutions : List OutboxResolution) : List Bytes :=
  sortUniq (resolutions.filterMap OutboxResolution.actorId)

namespace OutboxNode

def outboxClaims (node : OutboxNode) : List RelayClaim := node.claims.values

def activeOutboxClaims (node : OutboxNode) (currentEpoch : Int64) : List RelayClaim :=
  liveClaims currentEpoch (cancelledRelayIds node.claimResolutions.values) node.outboxClaims

/-- A status that is not stored is that of an open intent. -/
def storedStatus (node : OutboxNode) : OutboxStatus := node.status.getD .open

end OutboxNode

def TransportPolicy.expiredClaimStatus (policy : TransportPolicy) : OutboxStatus :=
  match policy.leaseClass with
  | .reopenOnExpiry => .open
  | .terminalOnExpiry => .expired
  | .cancelOnExpiry => .cancelled

def TransportPolicy.replacementAllowed (policy : TransportPolicy)
    (currentEpoch : Int64) (existingClaim : Option RelayClaim) (incomingRelayId : Bytes) : Bool :=
  match existingClaim with
  | none => true
  | some claim =>
    if ¬ claim.expiredAt currentEpoch then false
    else
      match policy.claimStrategy with
      | .anyReplacement => true
      | .sameRelayOnly => claim.relayId = incomingRelayId
      | .noReplacement => false

def compareOldest (left right : RelayClaim) : Ordering := compareClaims right left

def TransportPolicy.compareWeighted (preferNewest : Bool)
    (policy : TransportPolicy) (left right : RelayClaim) : Ordering :=
  (compare (policy.relayWeight right.relayId)
      (policy.relayWeight left.relayId)).then
    (if preferNewest then compareClaims left right else compareOldest left right)

def TransportPolicy.rankedClaims (policy : TransportPolicy)
    (claims : List RelayClaim) : List RelayClaim :=
  match policy.ingressStrategy with
  | .anyReadyRelay => sortClaims compareClaims claims
  | .primaryOldest => sortClaims compareOldest claims
  | .primaryNewest => sortClaims compareClaims claims
  | .primaryHeaviest => sortClaims (policy.compareWeighted true) claims
  | .primaryHeaviestOldest => sortClaims (policy.compareWeighted false) claims
  | .primaryHeaviestNewest => sortClaims (policy.compareWeighted true) claims

def TransportPolicy.primaryClaim (policy : TransportPolicy)
    (claims : List RelayClaim) : Option RelayClaim :=
  (policy.rankedClaims claims).head?

/-- A relay is selected by the claims that are active. -/
def TransportPolicy.selected (policy : TransportPolicy)
    (claims : List RelayClaim) (relayId : Bytes) : Bool :=
  match policy.ingressStrategy with
  | .anyReadyRelay => claims.any fun claim => claim.relayId = relayId
  | _ => (policy.primaryClaim claims).any fun claim => claim.relayId = relayId

def ResolutionReason.status : ResolutionReason → OutboxStatus
  | .fulfilledDelivery => .fulfilled
  | .relayCancelled | .ownerCancelled | .claimSetExhausted
  | .deliveryKeyInactive | .deliveryKeyExpired | .deliveryKeyRevoked
  | .deliveryKeyErased => .cancelled
  | .intentExpired | .claimExpired => .expired

def OutboxResolution.make (actorId relatedKeyId : Option Bytes)
    (intentId : Bytes) (resolvedEpoch : Int64) (reason : ResolutionReason) : OutboxResolution :=
  ⟨intentId, reason.status, reason, resolvedEpoch, actorId, relatedKeyId⟩

def KeyState.outboxReason : KeyState → Option ResolutionReason
  | .expired => some .deliveryKeyExpired
  | .revoked => some .deliveryKeyRevoked
  | .erased => some .deliveryKeyErased
  | .scheduled | .live => none

def KeyState.matchesReason (state : KeyState) (reason : ResolutionReason) : Bool :=
  match state.outboxReason with
  | some expected => expected = reason || reason = .deliveryKeyInactive
  | none => false

structure DeliveryKeyStatus where
  keyId : Option Bytes
  state : KeyState

def deliveryKeyStatus (stable : StableStorage) (currentEpoch : Int64)
    (intent : OutboxIntent) : DeliveryKeyStatus :=
  match intent.deliveryKeyId with
  | none => ⟨none, .live⟩
  | some keyId => ⟨some keyId, (loadKeyPolicy stable keyId).classify currentEpoch⟩

def deliverableForDeadline (stable : StableStorage)
    (currentEpoch deadlineEpoch : Int64) (keyId : Option Bytes) : Bool :=
  keyId.all fun keyId =>
    (loadKeyPolicy stable keyId).deliverableByDeadline currentEpoch deadlineEpoch

structure Evaluation where
  effectiveStatus : OutboxStatus
  effectiveResolution : Option OutboxResolution

def evaluateOutbox (currentEpoch : Int64) (policy : TransportPolicy)
    (intent : OutboxIntent) (storedStatus : OutboxStatus)
    (storedResolution : Option OutboxResolution)
    (activeClaims : List RelayClaim) (key : DeliveryKeyStatus) : Evaluation :=
  let synthetic (relatedKeyId : Option Bytes) (reason : ResolutionReason) :=
    OutboxResolution.make none relatedKeyId intent.intentId currentEpoch reason
  if storedStatus = .fulfilled ∨ storedStatus = .cancelled then ⟨storedStatus, storedResolution⟩
  else if key.state.terminalForDelivery then
    let keyReason := key.state.outboxReason.getD .deliveryKeyInactive
    ⟨.cancelled, some (storedResolution.getD (synthetic key.keyId keyReason))⟩
  else if intent.expiryEpoch ≤ currentEpoch then
    ⟨.expired, some (storedResolution.getD (synthetic none .intentExpired))⟩
  else if storedStatus = .claimed then
    if activeClaims ≠ [] then ⟨.claimed, storedResolution⟩
    else
      match policy.expiredClaimStatus with
      | .expired => ⟨.expired, some (storedResolution.getD (synthetic none .claimExpired))⟩
      | .cancelled =>
        ⟨.cancelled, some (storedResolution.getD (synthetic none .claimSetExhausted))⟩
      | other => ⟨other, storedResolution⟩
  else ⟨storedStatus, storedResolution⟩

def claimAdmissible (currentEpoch : Int64) (policy : TransportPolicy)
    (intent : OutboxIntent) (status : OutboxStatus)
    (deliveryKeyDeliverable : Bool) (existingClaims activeClaims :
      List RelayClaim) (claim : RelayClaim) : Except Refusal Unit :=
  if ¬ policy.relayAllowed claim.relayId then
    refuse "circle_transport_policy_violation"
      "relay is not allowed by circle transport policy"
  else if ¬ deliveryKeyDeliverable then
    refuse "circle_delivery_key_inactive"
      "outbox delivery key is not deliverable for the claim window"
  else if intent.expiryEpoch ≤ currentEpoch then
    refuse "circle_outbox_expired" "outbox intent already expired"
  else if ¬ claim.windowValid currentEpoch intent.expiryEpoch then
    refuse "circle_relay_claim_window_invalid"
      "relay claim window is invalid for this intent"
  else
    match status with
    | .fulfilled => refuse "circle_outbox_already_fulfilled" "outbox intent already fulfilled"
    | .cancelled => refuse "circle_outbox_cancelled" "outbox intent is cancelled"
    | .expired => refuse "circle_outbox_expired" "outbox intent already expired"
    | .open | .claimed =>
      if (findClaimByRelay activeClaims claim.relayId).isSome then
        refuse "circle_relay_claim_duplicate"
          "relay already has an active claim for this intent"
      else if policy.singleRelay then
        if 0 < activeClaims.length then
          refuse "circle_relay_claim_strategy_rejected"
            "outbox already has an active relay claim"
        else if policy.replacementAllowed currentEpoch
            (latestClaim existingClaims) claim.relayId then .ok ()
        else
          refuse "circle_relay_claim_strategy_rejected"
            "outbox relay claim strategy rejected this replacement"
      else if policy.activeClaimLimit ≤ activeClaims.length then
        refuse "circle_relay_claim_capacity_exceeded"
          "outbox active relay claim capacity is exhausted"
      else
        match findClaimByRelay existingClaims claim.relayId with
        | some relayClaim =>
          if ¬ relayClaim.expiredAt currentEpoch then
            refuse "circle_relay_claim_duplicate"
              "relay already has a stored claim for this intent"
          else if policy.claimStrategy = .noReplacement then
            refuse "circle_relay_claim_strategy_rejected"
              "relay claim strategy rejected this relay re-claim"
          else .ok ()
        | none => .ok ()

def ingressAdmissible (currentEpoch : Int64) (policy : TransportPolicy)
    (intent : OutboxIntent) (status : OutboxStatus)
    (activeClaims : List RelayClaim) (payload : IngressCommitPayload) : Except Refusal Unit :=
  if intent.expiryEpoch ≤ currentEpoch then
    refuse "circle_outbox_expired" "outbox intent already expired"
  else
    match status with
    | .open => refuse "circle_relay_claim_required" "outbox intent requires a live relay claim"
    | .claimed =>
      if activeClaims = [] then
        refuse "circle_relay_claim_inactive" "relay claim is missing or expired"
      else if ¬ policy.claimReady activeClaims then
        refuse "circle_relay_quorum_pending" "outbox relay quorum is not yet satisfied"
      else
        match findClaimByRelay activeClaims payload.relayId with
        | none =>
          refuse "circle_relay_claim_mismatch"
            "ingress relay does not match an active relay claim"
        | some claim =>
          if ¬ policy.selected activeClaims payload.relayId then
            refuse "circle_relay_primary_required"
              ("ingress relay is not the selected relay for the current " ++ "claim-set")
          else if claim.matchesIngress payload then .ok ()
          else
            refuse "circle_relay_claim_mismatch"
              "ingress relay does not match the active relay claim"
    | .fulfilled => refuse "circle_outbox_already_fulfilled" "outbox intent already fulfilled"
    | .cancelled => refuse "circle_outbox_cancelled" "outbox intent is cancelled"
    | .expired => refuse "circle_outbox_expired" "outbox intent already expired"

def relayCancelAdmissible (currentEpoch : Int64) (intent : OutboxIntent)
    (status : OutboxStatus) (deliveryKeyState : KeyState)
    (existingClaims activeClaims : List RelayClaim) (cancel : RelayCancel) : Except Refusal Unit :=
  match status with
  | .fulfilled => refuse "circle_outbox_already_fulfilled" "outbox intent already fulfilled"
  | .cancelled => refuse "circle_outbox_cancelled" "outbox intent is cancelled"
  | .expired => refuse "circle_outbox_expired" "outbox intent already expired"
  | .open => refuse "circle_relay_claim_required" "outbox intent has no relay claim to cancel"
  | .claimed =>
    if (findClaimByRelay activeClaims cancel.relayId).isSome then
      if cancel.reason = .relayCancelled then .ok ()
      else if deliveryKeyState.matchesReason cancel.reason then .ok ()
      else
        refuse "circle_relay_cancel_reason_invalid"
          "active relay cancel reason is not allowed"
    else
      match findClaimByRelay existingClaims cancel.relayId with
      | some claim =>
        if intent.expiryEpoch ≤ currentEpoch then
          if cancel.reason = .intentExpired then .ok ()
          else
            refuse "circle_relay_cancel_reason_invalid"
              "intent expiry requires intent_expired reason"
        else if claim.expiredAt currentEpoch then
          if cancel.reason = .claimExpired then .ok ()
          else if deliveryKeyState.matchesReason cancel.reason then .ok ()
          else
            refuse "circle_relay_cancel_reason_invalid"
              "expired relay cancel reason is not allowed"
        else
          refuse "circle_relay_claim_inactive"
            "relay claim is no longer active for cancellation"
      | none => refuse "circle_relay_claim_mismatch" "cancel relay does not match a claimed relay"

end Circles
end LiteNode
