import LiteNode.Circles.OutboxSound

/-!
# Runs of an outbox

What holds of every intent after every run of transactions whose epochs do not
go back.
-/

namespace LiteNode
namespace Circles

/-- The epochs of a run do not go back, from the first to the last. -/
def Ordered (first last : Int64) : List Move → Prop
  | [] => first ≤ last
  | move :: rest => first ≤ move.epoch ∧ Ordered move.epoch last rest

variable {policy : TransportPolicy} {circle circle' : Circle} {first last epoch : Int64}

variable {moves : List Move} {intentId keyId : Bytes} {move : Move}

theorem Ordered.le (ordered : Ordered first last moves) : first ≤ last := by
  induction moves generalizing first with
  | nil => exact ordered
  | cons move rest ih => exact Int64.le_trans ordered.1 (ih ordered.2)

/-- The relay of a claim cancels it in the course of a run. -/
def Cancels (policy : TransportPolicy) (claim : RelayClaim) (circle : Circle) : List Move → Prop
  | [] => False
  | move :: rest =>
    (∃ cancel circle', move.tx = .relayCancel cancel ∧
      cancel.intentId = claim.intentId ∧ cancel.relayId = claim.relayId ∧
      process move.context move.epoch policy circle move.tx = .ok circle') ∨
    Cancels policy claim (step policy circle move) rest

/-- No intent has been opened. -/
structure Circle.Unopened (circle : Circle) : Prop where
  outbox : ∀ intentId, circle.outbox intentId = .empty
  keys : ∀ keyId, circle.byDeliveryKey keyId = []
  packets : ∀ intentId, circle.packets intentId = none

/-- Every intent is sound, and is listed under the key that delivers it. -/
structure Circle.Sound (policy : TransportPolicy) (epoch : Int64) (circle : Circle) : Prop where
  node : ∀ intentId, NodeSound policy epoch intentId (circle.outbox intentId)
    (circle.packets intentId)
  listed : ∀ intentId intent keyId, (circle.outbox intentId).intent = some intent →
    intent.deliveryKeyId = some keyId → intentId ∈ circle.byDeliveryKey keyId

theorem activeClaimLimit_pos (valid : policy.validate = .ok ()) : 0 < policy.activeClaimLimit := by
  unfold TransportPolicy.validate at valid
  split at valid
  · cases valid
  split at valid
  · cases valid
  split at valid
  · cases valid
  next positive =>
  unfold TransportPolicy.activeClaimLimit
  split
  · decide
  · cases limit : policy.maxActiveClaims with
    | none => decide
    | some value =>
      simp only [limit, Option.any_some, decide_eq_true_iff] at positive
      exact Int.not_le.mp positive

theorem Circle.Unopened.sound (unopened : circle.Unopened) (valid : policy.validate = .ok ())
    (epoch : Int64) : circle.Sound policy epoch where
  node intentId := by
    rw [unopened.outbox, unopened.packets]
    refine ⟨⟨?_, ?_⟩, fun _ => rfl, by decide, ?_⟩
    · intro relayId claim stored
      cases stored
    · intro relayId resolution stored
      cases stored
    · intro later after
      exact Int.le_of_lt (activeClaimLimit_pos valid)
  listed intentId intent keyId known := by
    rw [unopened.outbox] at known
    cases known

theorem Circle.Sound.later (sound : circle.Sound policy first) (after : first ≤ epoch) :
    circle.Sound policy epoch where
  node intentId := (sound.node intentId).later after
  listed := sound.listed

theorem intent_shutNode (keyId : Bytes) (currentEpoch : Int64) (reason : ResolutionReason)
    (intentId : Bytes) (node : OutboxNode) :
    (shutNode keyId currentEpoch reason intentId node).intent = node.intent := by
  unfold shutNode
  split <;> rfl

theorem intent_materializeShutdown (keyId : Bytes) (currentEpoch : Int64) (next : KeyPolicy)
    (circle : Circle) (intentId : Bytes) :
    ((materializeShutdown keyId currentEpoch next circle).outbox
      intentId).intent = (circle.outbox intentId).intent := by
  cases shut : (next.classify currentEpoch).outboxReason with
  | none => rw [materializeShutdown_none shut]
  | some reason =>
    rw [outbox_materializeShutdown shut]
    split
    · exact intent_shutNode ..
    · rfl

theorem intent_setNode {node : OutboxNode}
    (kept : node.intent = (circle.outbox intentId).intent) (other : Bytes) :
    ((circle.setNode intentId node).outbox other).intent = (circle.outbox other).intent := by
  simp only [Circle.setNode, Function.update_apply]
  split
  · next same => rw [kept, same]
  · rfl

theorem mem_addIntent {intents : List Bytes} {other : Bytes} : other ∈ addIntent intents intentId ↔
      other = intentId ∨ other ∈ intents := by
  unfold addIntent
  split
  · next present =>
    have present := List.contains_iff_mem.mp present
    constructor
    · exact Or.inr
    · rintro (rfl | listed)
      · exact present
      · exact listed
  · exact List.mem_cons

theorem mem_byDeliveryKey_saveOutboxIntent {opened : OutboxIntent} :
    intentId ∈ (saveOutboxIntent circle opened).byDeliveryKey keyId ↔
      opened.deliveryKeyId = some keyId ∧ intentId = opened.intentId ∨
        intentId ∈ circle.byDeliveryKey keyId := by
  unfold saveOutboxIntent
  dsimp only [Circle.setNode]
  split
  · next undelivered => simp [undelivered]
  · next own delivered =>
    rw [delivered, Option.some_inj]
    simp only [Function.update_apply]
    by_cases same : keyId = own
    · rw [if_pos same, mem_addIntent, same]
      simp
    · simp [same, Ne.symm same]

theorem listed_saveOutboxIntent (listed : ∀ intentId intent keyId,
      (circle.outbox intentId).intent = some intent → intent.deliveryKeyId = some keyId →
      intentId ∈ circle.byDeliveryKey keyId) {opened intent : OutboxIntent}
    (known : ((saveOutboxIntent circle opened).outbox intentId).intent =
      some intent) (delivers : intent.deliveryKeyId = some keyId) :
    intentId ∈ (saveOutboxIntent circle opened).byDeliveryKey keyId := by
  rw [outbox_saveOutboxIntent] at known
  rw [mem_byDeliveryKey_saveOutboxIntent]
  by_cases same : intentId = opened.intentId
  · subst same
    rw [Function.update_self] at known
    cases known
    exact Or.inl ⟨delivers, rfl⟩
  · rw [Function.update_of_ne same] at known
    exact Or.inr (listed intentId intent keyId known delivers)

theorem listed_of_process {context : TxContext} {tx : CircleTx}
    (done : process context epoch policy circle tx = .ok circle')
    (listed : ∀ intentId intent keyId, (circle.outbox intentId).intent = some intent →
      intent.deliveryKeyId = some keyId →
      intentId ∈ circle.byDeliveryKey keyId) {intent : OutboxIntent}
    (known : (circle'.outbox intentId).intent = some intent)
    (delivers : intent.deliveryKeyId = some keyId) : intentId ∈ circle'.byDeliveryKey keyId := by
  cases about : tx.keyId with
  | some changed =>
    obtain ⟨next, stable, -, rfl, -⟩ := process_key done about
    rw [intent_materializeShutdown] at known
    rw [(packets_materializeShutdown _ _ _ _).2]
    exact listed intentId intent keyId known delivers
  | none =>
    cases tx with
    | outboxOpen payload =>
      obtain ⟨opened, -, -, -, rfl⟩ := processOutboxOpen_spec done
      exact listed_saveOutboxIntent listed known delivers
    | relayClaim claim =>
      obtain ⟨_, -, -, -, rfl⟩ := processRelayClaim_spec done
      exact listed intentId intent keyId
        ((intent_setNode (by rfl) intentId).symm.trans known) delivers
    | relayCancel cancel =>
      obtain ⟨_, -, -, rfl⟩ := processRelayCancel_spec done
      exact listed intentId intent keyId
        ((intent_setNode (by rfl) intentId).symm.trans known) delivers
    | ingressCommit payload =>
      obtain ⟨_, -, -, rfl⟩ := processIngressCommit_spec done
      exact listed intentId intent keyId
        ((intent_setNode (by rfl) intentId).symm.trans known) delivers
    | keyPolicyPut payload => cases about
    | keyGrant payload => cases about
    | keyExtend payload => cases about
    | keyRevoke keyId => cases about
    | keyErase keyId => cases about

theorem Circle.Sound.process
    {context : TxContext} {tx : CircleTx} (sound : circle.Sound policy epoch)
    (done : process context epoch policy circle tx = .ok circle') :
    circle'.Sound policy epoch where
  node intentId := (nodeChange_of_process done intentId).sound (sound.node intentId)
  listed _ _ _ known delivers := listed_of_process done sound.listed known delivers

theorem Circle.Sound.step (sound : circle.Sound policy first) (after : first ≤ move.epoch) :
    (step policy circle move).Sound policy move.epoch := by
  rcases step_spec policy circle move with same | done
  · rw [same]
    exact sound.later after
  · exact (sound.later after).process done

theorem Circle.Sound.run (sound : circle.Sound policy first) (ordered : Ordered first last moves) :
    (run policy circle moves).Sound policy last := by
  induction moves generalizing circle first with
  | nil => exact sound.later ordered
  | cons move rest ih => exact ih (sound.step ordered.1) ordered.2

theorem final_step (sound : circle.Sound policy first)
    (after : first ≤ move.epoch) (intentId : Bytes) :
    ((circle.outbox intentId).storedStatus.Final →
      ((step policy circle move).outbox intentId).storedStatus =
        (circle.outbox intentId).storedStatus) ∧
    ((circle.packets intentId).isSome →
      (step policy circle move).packets intentId = circle.packets intentId) := by
  rcases step_spec policy circle move with same | done
  · rw [same]
    exact ⟨fun _ => rfl, fun _ => rfl⟩
  · exact (nodeChange_of_process done intentId).final ((sound.later after).node intentId)

/-- A final status and a packet are kept for ever. -/
theorem final_run (sound : circle.Sound policy first)
    (ordered : Ordered first last moves) (intentId : Bytes) :
    ((circle.outbox intentId).storedStatus.Final →
      ((run policy circle moves).outbox intentId).storedStatus =
        (circle.outbox intentId).storedStatus) ∧
    ((circle.packets intentId).isSome →
      (run policy circle moves).packets intentId = circle.packets intentId) := by
  induction moves generalizing circle first with
  | nil => exact ⟨fun _ => rfl, fun _ => rfl⟩
  | cons move rest ih =>
    obtain ⟨status, packet⟩ := final_step sound ordered.1 intentId
    obtain ⟨status', packet'⟩ := ih (sound.step ordered.1) ordered.2
    constructor
    · intro final
      have same := status final
      exact (status' (same ▸ final)).trans same
    · intro stored
      have same := packet stored
      exact (packet' (same ▸ stored)).trans same

theorem active_step (sound : circle.Sound policy first)
    (after : first ≤ move.epoch) {claim : RelayClaim} (active : claim ∈
      (circle.outbox claim.intentId).activeOutboxClaims first)
    (lasts : move.epoch < claim.claimExpiryEpoch)
    (kept : ∀ cancel circle', move.tx = .relayCancel cancel →
      cancel.intentId = claim.intentId → cancel.relayId = claim.relayId →
      process move.context move.epoch policy circle move.tx ≠ .ok circle') :
    claim ∈ ((step policy circle move).outbox claim.intentId).activeOutboxClaims move.epoch := by
  have node := (sound.node claim.intentId).filed
  have current : claim ∈ (circle.outbox claim.intentId).activeOutboxClaims move.epoch := by
    obtain ⟨stored, made, -, uncancelled⟩ := node.mem_active.mp active
    exact node.mem_active.mpr ⟨stored, Int64.le_trans made after, lasts, uncancelled⟩
  rcases step_spec policy circle move with same | done
  · rw [same]
    exact current
  · apply (nodeChange_of_process done claim.intentId).active
      ((sound.later after).node claim.intentId) current
    intro cancel is named relay
    exact kept cancel _ is named relay done

/-- A claim stays live until it expires or its relay cancels it. -/
theorem active_run (sound : circle.Sound policy first)
    (ordered : Ordered first last moves) {claim : RelayClaim} (active : claim ∈
      (circle.outbox claim.intentId).activeOutboxClaims first)
    (lasts : last < claim.claimExpiryEpoch) (kept : ¬ Cancels policy claim circle moves) :
    claim ∈ ((run policy circle moves).outbox claim.intentId).activeOutboxClaims last := by
  induction moves generalizing circle first with
  | nil =>
    have node := (sound.node claim.intentId).filed
    obtain ⟨stored, made, -, uncancelled⟩ := node.mem_active.mp active
    exact node.mem_active.mpr ⟨stored, Int64.le_trans made ordered, lasts, uncancelled⟩
  | cons move rest ih =>
    rw [Cancels, not_or] at kept
    have lasts' : move.epoch < claim.claimExpiryEpoch := Int64.lt_of_le_of_lt ordered.2.le lasts
    apply ih (sound.step ordered.1) ordered.2
    · apply active_step sound ordered.1 active lasts'
      intro cancel circle' is named relay done
      exact kept.1 ⟨cancel, circle', is, named, relay, done⟩
    · exact kept.2

end Circles
end LiteNode
