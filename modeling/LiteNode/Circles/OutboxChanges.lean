import LiteNode.Circles.KeyRuns

/-!
# How an outbox intent changes

Of all transactions few change what is stored of an intent, and each in its own
way.
-/

namespace LiteNode
namespace Circles

/-- What an accepted transaction may do to an intent and to its packet. -/
inductive NodeChange (currentEpoch : Int64) (policy : TransportPolicy)
    (stable : StableStorage) (tx : CircleTx) (intentId : Bytes)
    (node node' : OutboxNode) (packet packet' : Option IngressPacket) : Prop
  | same (node_eq : node' = node) (packet_eq : packet' = packet)
  | opened (intent : OutboxIntent) (fresh : node.intent = none)
      (named : intent.intentId = intentId) (nonempty : intentId ≠ [])
      (future : currentEpoch < intent.expiryEpoch)
      (node_eq : node' = { node with intent := some intent, status := some .open })
      (packet_eq : packet' = packet)
  | claimed (claim : RelayClaim) (intent : OutboxIntent)
      (is : tx = .relayClaim claim) (named : claim.intentId = intentId)
      (known : node.intent = some intent) (now : claim.claimEpoch = currentEpoch)
      (admitted : claimAdmissible currentEpoch policy intent
        node.storedStatus
        (deliverableForDeadline stable currentEpoch claim.claimExpiryEpoch intent.deliveryKeyId)
        node.outboxClaims (node.activeOutboxClaims currentEpoch) claim = .ok ())
      (node_eq : node' =
        { node with
          claims := node.claims.replace claim.relayId claim
          claimResolutions := node.claimResolutions.remove claim.relayId
          claim := some claim
          status := some .claimed })
      (packet_eq : packet' = packet)
  | cancelled (cancel : RelayCancel) (intent : OutboxIntent)
      (state : KeyState) (resolution : OutboxResolution)
      (status : OutboxStatus) (outboxResolution : Option OutboxResolution)
      (is : tx = .relayCancel cancel) (named : cancel.intentId = intentId)
      (known : node.intent = some intent)
      (admitted : relayCancelAdmissible currentEpoch intent node.storedStatus
        state node.outboxClaims (node.activeOutboxClaims currentEpoch)
        cancel = .ok ())
      (settled : status = cancel.reason.status ∨ status = .claimed)
      (wasClaimed : node.storedStatus = .claimed)
      (unfulfilled : status ≠ .fulfilled) (reopened : status ≠ .open)
      (actor : resolution.actorId = some cancel.relayId) (node_eq : node' =
        { node with
          claimResolutions := node.claimResolutions.replace cancel.relayId resolution
          resolution := outboxResolution
          status := some status })
      (packet_eq : packet' = packet)
  | committed (payload : IngressCommitPayload) (intent : OutboxIntent)
      (resolution : OutboxResolution)
      (is : tx = .ingressCommit payload) (named : payload.intentId = intentId)
      (known : node.intent = some intent)
      (admitted : ingressCommit currentEpoch policy intent node.storedStatus
        (deliveryKeyStatus stable currentEpoch intent)
        (node.activeOutboxClaims currentEpoch) packet.isSome payload = .ok ())
      (node_eq : node' =
        { node with
          resolution := some resolution, status := some .fulfilled })
      (packet_eq : packet' = some payload)
  | shut (resolution : OutboxResolution) (intent : OutboxIntent)
      (about : tx.keyId.isSome) (known : node.intent = some intent)
      (unresolved : node.storedStatus = .open ∨ node.storedStatus = .claimed)
      (actor : resolution.actorId = none) (node_eq : node' =
        { node with
          claimResolutions := (node.activeOutboxClaims currentEpoch).foldl
            (fun table claim => table.replace claim.relayId resolution)
            node.claimResolutions
          resolution := some resolution
          status := some .cancelled })
      (packet_eq : packet' = packet)

/-- What is stored of an intent once its key is shut down. -/
def shutNode (keyId : Bytes) (currentEpoch : Int64) (reason : ResolutionReason)
    (intentId : Bytes) (node : OutboxNode) : OutboxNode :=
  match node.intent, node.storedStatus with
  | none, _ => node
  | some _, .fulfilled | some _, .cancelled | some _, .expired => node
  | some _, .open | some _, .claimed =>
    let resolution := OutboxResolution.make none (some keyId) intentId currentEpoch reason
    { node with
      claimResolutions := (node.activeOutboxClaims currentEpoch).foldl
        (fun table claim => table.replace claim.relayId resolution)
        node.claimResolutions
      resolution := some resolution
      status := some .cancelled }

section Shutdown

variable (keyId : Bytes) (currentEpoch : Int64) (reason : ResolutionReason)

theorem outbox_shutdownIntent (circle : Circle) (intentId other : Bytes) :
    (shutdownIntent keyId currentEpoch reason circle intentId).outbox other =
      if other = intentId then shutNode keyId currentEpoch reason intentId (circle.outbox intentId)
      else circle.outbox other := by
  unfold shutdownIntent shutNode
  dsimp only
  split <;> split <;> simp_all [Circle.setNode, Function.update_apply]

theorem packets_shutdownIntent (circle : Circle) (intentId : Bytes) :
    (shutdownIntent keyId currentEpoch reason circle intentId).packets = circle.packets ∧
    (shutdownIntent keyId currentEpoch reason circle intentId).byDeliveryKey =
      circle.byDeliveryKey := by
  unfold shutdownIntent
  dsimp only
  split <;> exact ⟨rfl, rfl⟩

theorem outbox_shutdownIntents
    {intents : List Bytes} (distinct : intents.Nodup) (circle : Circle) (intentId : Bytes) :
    (intents.foldl (shutdownIntent keyId currentEpoch reason) circle).outbox
        intentId =
      if intentId ∈ intents then
        shutNode keyId currentEpoch reason intentId (circle.outbox intentId)
      else circle.outbox intentId := by
  induction intents generalizing circle with
  | nil => simp
  | cons first rest ih =>
    obtain ⟨unlisted, distinct⟩ := List.nodup_cons.mp distinct
    rw [List.foldl_cons, ih distinct, outbox_shutdownIntent]
    by_cases here : intentId = first
    · subst here
      simp [unlisted]
    · simp [here]

end Shutdown

/-- The intents that a key delivers are resolved when it is shut down. -/
theorem outbox_materializeShutdown {keyId : Bytes} {currentEpoch : Int64} {policy : KeyPolicy}
    {reason : ResolutionReason} (shut : (policy.classify currentEpoch).outboxReason = some reason)
    (circle : Circle) (intentId : Bytes) :
    (materializeShutdown keyId currentEpoch policy circle).outbox intentId =
      if intentId ∈ circle.byDeliveryKey keyId then
        shutNode keyId currentEpoch reason intentId (circle.outbox intentId)
      else circle.outbox intentId := by
  have distinct : (sortUniq (circle.byDeliveryKey keyId)).Nodup := List.nodup_dedup _
  have listed : intentId ∈ sortUniq (circle.byDeliveryKey keyId) ↔
      intentId ∈ circle.byDeliveryKey keyId := by
    simp [sortUniq]
  unfold materializeShutdown
  rw [shut]
  simp only [outbox_shutdownIntents _ _ _ distinct, listed]

theorem materializeShutdown_none {keyId : Bytes} {currentEpoch : Int64} {policy : KeyPolicy}
    (kept : (policy.classify currentEpoch).outboxReason = none) (circle : Circle) :
    materializeShutdown keyId currentEpoch policy circle = circle := by
  unfold materializeShutdown
  rw [kept]

theorem packets_materializeShutdown (keyId : Bytes) (currentEpoch : Int64) (policy : KeyPolicy)
    (circle : Circle) :
    (materializeShutdown keyId currentEpoch policy circle).packets = circle.packets ∧
      (materializeShutdown keyId currentEpoch policy circle).byDeliveryKey =
        circle.byDeliveryKey := by
  unfold materializeShutdown
  split
  · exact ⟨rfl, rfl⟩
  · next reason shut =>
    generalize sortUniq (circle.byDeliveryKey keyId) = intents
    induction intents generalizing circle with
    | nil => exact ⟨rfl, rfl⟩
    | cons first rest ih =>
      obtain ⟨packets, keys⟩ := packets_shutdownIntent keyId currentEpoch reason circle first
      rw [List.foldl_cons]
      obtain ⟨packets', keys'⟩ := ih (shutdownIntent keyId currentEpoch reason circle first)
      exact ⟨packets'.trans packets, keys'.trans keys⟩

theorem shutNode_change (keyId : Bytes) (currentEpoch : Int64) (reason : ResolutionReason)
    (policy : TransportPolicy) (stable : StableStorage) {tx : CircleTx}
    (about : tx.keyId.isSome) (intentId : Bytes) (node : OutboxNode)
    (packet : Option IngressPacket) :
    NodeChange currentEpoch policy stable tx intentId node
      (shutNode keyId currentEpoch reason intentId node) packet packet := by
  unfold shutNode
  split
  · exact .same rfl rfl
  · exact .same rfl rfl
  · exact .same rfl rfl
  · exact .same rfl rfl
  · next intent known is =>
    exact .shut _ intent about known (Or.inl is) rfl rfl rfl
  · next intent known is =>
    exact .shut _ intent about known (Or.inr is) rfl rfl rfl

/-- A cancellation is admitted for a claimed intent, and not as a delivery. -/
theorem relayCancelAdmissible_eq_ok
    {currentEpoch : Int64} {intent : OutboxIntent} {status : OutboxStatus}
    {state : KeyState} {existing active : List RelayClaim} {cancel : RelayCancel}
    (admitted : relayCancelAdmissible currentEpoch intent status state existing
      active cancel = .ok ()) :
    status = .claimed ∧ cancel.reason ≠ .fulfilledDelivery := by
  have unmatched : ∀ state : KeyState, state.matchesReason .fulfilledDelivery = false := by
    intro state
    cases state <;> rfl
  unfold relayCancelAdmissible at admitted
  split at admitted
  · cases admitted
  · cases admitted
  · cases admitted
  · cases admitted
  · refine ⟨rfl, ?_⟩
    intro delivered
    simp only [delivered, unmatched, reduceCtorEq, if_false, Bool.false_eq_true] at admitted
    split at admitted
    · cases admitted
    · split at admitted
      · split at admitted
        · cases admitted
        · split at admitted <;> cases admitted
      · cases admitted

theorem status_of_reason
    {reason : ResolutionReason} (undelivered : reason ≠ .fulfilledDelivery) :
    reason.status = .cancelled ∨ reason.status = .expired := by
  cases reason <;> simp_all [ResolutionReason.status]

section Changes

variable {context : TxContext} {currentEpoch : Int64}
  {policy : TransportPolicy} {circle circle' : Circle} {tx : CircleTx}

theorem outbox_saveOutboxIntent (circle : Circle) (intent : OutboxIntent) :
    (saveOutboxIntent circle intent).outbox =
      Function.update circle.outbox intent.intentId
        { circle.outbox intent.intentId with
          intent := some intent, status := some .open } := by
  unfold saveOutboxIntent
  split <;> rfl

theorem packets_saveOutboxIntent (circle : Circle) (intent : OutboxIntent) :
    (saveOutboxIntent circle intent).packets = circle.packets := by
  unfold saveOutboxIntent
  split <;> rfl

theorem nodeChange_saveOutboxIntent {intent : OutboxIntent} (nonempty : intent.intentId ≠ [])
    (fresh : (circle.outbox intent.intentId).intent = none)
    (future : currentEpoch < intent.expiryEpoch) (intentId : Bytes) :
    NodeChange currentEpoch policy circle.stable tx intentId
      (circle.outbox intentId) ((saveOutboxIntent circle intent).outbox intentId)
      (circle.packets intentId)
      ((saveOutboxIntent circle intent).packets intentId) := by
  rw [outbox_saveOutboxIntent, packets_saveOutboxIntent]
  by_cases here : intent.intentId = intentId
  · subst here
    exact .opened intent fresh rfl nonempty future (Function.update_self ..) rfl
  · exact .same (Function.update_of_ne (Ne.symm here) ..) rfl

theorem nodeChange_of_process
    (done : process context currentEpoch policy circle tx = .ok circle') (intentId : Bytes) :
    NodeChange currentEpoch policy circle.stable tx intentId
      (circle.outbox intentId) (circle'.outbox intentId)
      (circle.packets intentId) (circle'.packets intentId) := by
  cases about : tx.keyId with
  | some keyId =>
    obtain ⟨next, stable, -, rfl, -⟩ := process_key done about
    rw [(packets_materializeShutdown _ _ _ _).1]
    cases shut : (next.classify currentEpoch).outboxReason with
    | none =>
      rw [materializeShutdown_none shut]
      exact .same rfl rfl
    | some reason =>
      rw [outbox_materializeShutdown shut]
      split
      · exact shutNode_change keyId currentEpoch reason policy _ (by rw [about]; rfl) ..
      · exact .same rfl rfl
  | none =>
    cases tx with
    | outboxOpen payload =>
      obtain ⟨intent, nonempty, fresh, future, rfl⟩ := processOutboxOpen_spec done
      exact nodeChange_saveOutboxIntent nonempty fresh future intentId
    | relayClaim claim =>
      obtain ⟨intent, known, now, admitted, rfl⟩ := processRelayClaim_spec done
      by_cases here : claim.intentId = intentId
      · subst here
        refine .claimed claim intent rfl rfl known now admitted ?_ rfl
        exact Function.update_self ..
      · exact .same (Function.update_of_ne (Ne.symm here) ..) rfl
    | relayCancel cancel =>
      obtain ⟨intent, known, admitted, rfl⟩ := processRelayCancel_spec done
      obtain ⟨wasClaimed, undelivered⟩ := relayCancelAdmissible_eq_ok admitted
      by_cases here : cancel.intentId = intentId
      · subst here
        refine .cancelled cancel intent _ _ _ _ rfl rfl known admitted ?_
          wasClaimed ?_ ?_ rfl (Function.update_self ..) rfl
        · split
          · exact Or.inl rfl
          · exact Or.inr rfl
        · split
          · rcases status_of_reason undelivered with is | is <;>
              simp [OutboxResolution.make, is]
          · simp
        · split
          · rcases status_of_reason undelivered with is | is <;>
              simp [OutboxResolution.make, is]
          · simp
      · exact .same (Function.update_of_ne (Ne.symm here) ..) rfl
    | ingressCommit payload =>
      obtain ⟨intent, known, admitted, rfl⟩ := processIngressCommit_spec done
      by_cases here : payload.intentId = intentId
      · subst here
        exact .committed payload intent _ rfl rfl known admitted
          (Function.update_self ..) (Function.update_self ..)
      · exact .same (Function.update_of_ne (Ne.symm here) ..)
          (Function.update_of_ne (Ne.symm here) ..)
    | keyPolicyPut payload => cases about
    | keyGrant payload => cases about
    | keyExtend payload => cases about
    | keyRevoke keyId => cases about
    | keyErase keyId => cases about

end Changes
end Circles
end LiteNode
