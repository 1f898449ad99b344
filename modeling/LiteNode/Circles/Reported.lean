import LiteNode.Circles.OutboxRuns

/-!
# What is reported of an intent

Readers see a status that is computed from leases, epochs and keys. Where it
comes from the stored status, from the end of the intent or from its key, the
transactions go by it too.
-/

/-! ## What is accepted for an intent -/

namespace LiteNode
namespace Circles

variable {policy : TransportPolicy} {circle circle' : Circle}
  {first last epoch : Int64} {intentId : Bytes} {intent : OutboxIntent}

/-- A claim or a packet for an intent is accepted. -/
def Accepts (policy : TransportPolicy) (circle : Circle) (epoch : Int64)
    (intentId : Bytes) : Prop :=
  ∃ context tx circle', ((∃ claim, tx = .relayClaim claim ∧ claim.intentId = intentId) ∨
      ∃ payload, tx = .ingressCommit payload ∧ payload.intentId = intentId) ∧
    process context epoch policy circle tx = .ok circle'

/-- The key that delivers an intent can no longer do so. -/
def KeyOver (circle : Circle) (epoch : Int64) (intent : OutboxIntent) : Prop :=
  ∃ keyId, intent.deliveryKeyId = some keyId ∧
    ((circle.keyPolicy keyId).classify epoch).terminalForDelivery = true

theorem keyOver_iff :
    KeyOver circle epoch intent ↔
      (deliveryKeyStatus circle.stable epoch intent).state.terminalForDelivery = true := by
  unfold KeyOver deliveryKeyStatus
  cases intent.deliveryKeyId with
  | none => simp [KeyState.terminalForDelivery]
  | some keyId => simp [Circle.keyPolicy]

theorem not_keyOver_of_deliverable {deadline : Int64}
    (deliverable : deliverableForDeadline circle.stable epoch deadline
      intent.deliveryKeyId = true) : ¬ KeyOver circle epoch intent := by
  rintro ⟨keyId, delivers, over_⟩
  rw [deliverableForDeadline, delivers, Option.all_some,
    KeyPolicy.deliverableByDeadline] at deliverable
  rw [Circle.keyPolicy] at over_
  cases state : (loadKeyPolicy circle.stable keyId).classify epoch with
  | expired | revoked | erased => simp [state] at deliverable
  | scheduled | live => simp [state, KeyState.terminalForDelivery] at over_

theorem claimAdmissible_deliverable
    {currentEpoch : Int64} {status : OutboxStatus} {deliverable : Bool}
    {existing active : List RelayClaim} {claim : RelayClaim}
    (admitted : claimAdmissible currentEpoch policy intent status deliverable
      existing active claim = .ok ()) :
    deliverable = true ∧ claim.claimExpiryEpoch ≤ intent.expiryEpoch := by
  unfold claimAdmissible at admitted
  split at admitted
  · cases admitted
  split at admitted
  · cases admitted
  next deliverable =>
  split at admitted
  · cases admitted
  split at admitted
  · cases admitted
  next window =>
  simp only [RelayClaim.windowValid, not_not, Bool.and_eq_true, decide_eq_true_iff] at window
  exact ⟨not_not.mp deliverable, window.2⟩

/-- What is accepted is accepted for an intent that is open or claimed, before
it expires, and with a key that can deliver. -/
theorem Accepts.spec (accepts : Accepts policy circle epoch intentId)
    (known : (circle.outbox intentId).intent = some intent) :
    ¬ (circle.outbox intentId).storedStatus.Final ∧
      epoch < intent.expiryEpoch ∧ ¬ KeyOver circle epoch intent := by
  obtain ⟨context, tx, circle', about, done⟩ := accepts
  rcases about with ⟨claim, rfl, rfl⟩ | ⟨payload, rfl, rfl⟩
  · obtain ⟨found, known', -, admitted, -⟩ := processRelayClaim_spec done
    obtain rfl : found = intent := Option.some.inj (known'.symm.trans known)
    obtain ⟨unresolved, future, -⟩ := claimAdmissible_eq_ok admitted
    refine ⟨?_, future, not_keyOver_of_deliverable (claimAdmissible_deliverable admitted).1⟩
    rcases unresolved with is | is <;> rw [is, OutboxStatus.Final] <;> decide
  · obtain ⟨found, known', admitted, -⟩ := processIngressCommit_spec done
    obtain rfl : found = intent := Option.some.inj (known'.symm.trans known)
    obtain ⟨claimed, -, future, live, -⟩ := ingressCommit_eq_ok admitted
    refine ⟨?_, future, ?_⟩
    · rw [claimed, OutboxStatus.Final]
      decide
    · rw [keyOver_iff]
      intro terminal
      revert live terminal
      generalize (deliveryKeyStatus circle.stable epoch found).state = state
      cases state <;> decide

/-! ## Traces -/

/-- What is stored of an intent goes back to its opening: its claims end with
it, and only the key that delivers it lists it. -/
structure Circle.Traced (circle : Circle) : Prop where
  named : ∀ intentId, (circle.outbox intentId).intent ≠ none → intentId ≠ []
  claims : ∀ intentId relayId claim, (circle.outbox intentId).claims.find? relayId = some claim →
    (circle.outbox intentId).storedStatus ≠ .open ∧
      ∃ intent, (circle.outbox intentId).intent = some intent ∧
        claim.claimExpiryEpoch ≤ intent.expiryEpoch
  listed : ∀ intentId keyId, intentId ∈ circle.byDeliveryKey keyId →
    ∃ intent, (circle.outbox intentId).intent = some intent ∧ intent.deliveryKeyId = some keyId

variable {stable : StableStorage} {tx : CircleTx} {node node' : OutboxNode}
  {packet packet' : Option IngressPacket}

theorem NodeChange.known (change : NodeChange epoch policy stable tx intentId node node' packet
      packet') (known : node.intent = some intent) : node'.intent = some intent := by
  cases change with
  | same node_eq packet_eq => rw [node_eq, known]
  | opened other fresh named nonempty future node_eq packet_eq =>
    rw [known] at fresh
    cases fresh
  | claimed claim other is named _ now admitted node_eq packet_eq => rw [node_eq, known]
  | cancelled cancel other state resolution status outboxResolution is named _
      admitted settled wasClaimed unfulfilled reopened actor node_eq
      packet_eq =>
      rw [node_eq, known]
  | committed payload other resolution is named _ admitted node_eq packet_eq => rw [node_eq, known]
  | shut resolution other about _ was actor node_eq packet_eq => rw [node_eq, known]

theorem named_of_change (change : NodeChange epoch policy stable tx intentId node node' packet
      packet') (named : node.intent ≠ none → intentId ≠ [])
    (known : node'.intent ≠ none) : intentId ≠ [] := by
  cases change with
  | same node_eq packet_eq => exact named (node_eq ▸ known)
  | opened other fresh _ nonempty future node_eq packet_eq => exact nonempty
  | claimed claim other is _ before now admitted node_eq packet_eq =>
    exact named (by simp [before])
  | cancelled cancel other state resolution status outboxResolution is _
      before admitted settled wasClaimed unfulfilled reopened actor node_eq
      packet_eq =>
      exact named (by simp [before])
  | committed payload other resolution is _ before admitted node_eq
      packet_eq =>
      exact named (by simp [before])
  | shut resolution other about before was actor node_eq packet_eq =>
    exact named (by simp [before])

/-- A claim that is stored was stored before, or is admitted now. -/
theorem claims_of_change (change : NodeChange epoch policy stable tx intentId node node' packet
      packet') (claims : ∀ relayId claim, node.claims.find? relayId = some claim →
      node.storedStatus ≠ .open ∧ ∃ intent, node.intent = some intent ∧
        claim.claimExpiryEpoch ≤ intent.expiryEpoch) {relayId : Bytes} {claim : RelayClaim}
    (stored : node'.claims.find? relayId = some claim) :
    node'.storedStatus ≠ .open ∧ ∃ intent, node'.intent = some intent ∧
      claim.claimExpiryEpoch ≤ intent.expiryEpoch := by
  cases change with
  | same node_eq packet_eq =>
    subst node_eq
    exact claims relayId claim stored
  | opened other fresh named nonempty future node_eq packet_eq =>
    subst node_eq
    obtain ⟨-, intent, known, -⟩ := claims relayId claim stored
    rw [fresh] at known
    cases known
  | claimed made other is named known now admitted node_eq packet_eq =>
    subst node_eq
    refine ⟨by simp [OutboxNode.storedStatus], other, known, ?_⟩
    rw [Table.find?_replace_eq_ite] at stored
    split at stored
    · cases stored
      exact (claimAdmissible_deliverable admitted).2
    · obtain ⟨-, intent, known', ends⟩ := claims relayId claim stored
      rw [known] at known'
      cases known'
      exact ends
  | cancelled cancel other state resolution status outboxResolution is named
      known admitted settled wasClaimed unfulfilled reopened actor node_eq
      packet_eq =>
      subst node_eq
      exact ⟨by simpa [OutboxNode.storedStatus] using reopened, (claims relayId claim stored).2⟩
  | committed payload other resolution is named known admitted node_eq
      packet_eq =>
      subst node_eq
      exact ⟨by simp [OutboxNode.storedStatus], (claims relayId claim stored).2⟩
  | shut resolution other about known was actor node_eq packet_eq =>
    subst node_eq
    exact ⟨by simp [OutboxNode.storedStatus], (claims relayId claim stored).2⟩

theorem delivers_of_process {context : TxContext}
    (done : process context epoch policy circle tx = .ok circle')
    (listed : ∀ intentId keyId, intentId ∈ circle.byDeliveryKey keyId →
      ∃ intent, (circle.outbox intentId).intent = some intent ∧
        intent.deliveryKeyId = some keyId) {intentId keyId : Bytes}
    (present : intentId ∈ circle'.byDeliveryKey keyId) :
    ∃ intent, (circle'.outbox intentId).intent = some intent ∧
      intent.deliveryKeyId = some keyId := by
  have kept : intentId ∈ circle.byDeliveryKey keyId →
      ∃ intent, (circle'.outbox intentId).intent = some intent ∧
        intent.deliveryKeyId = some keyId := by
    intro before
    obtain ⟨intent, known, delivers⟩ := listed intentId keyId before
    exact ⟨intent, (nodeChange_of_process done intentId).known known, delivers⟩
  cases about : tx.keyId with
  | some changed =>
    obtain ⟨next, stable, -, rfl, -⟩ := process_key done about
    rw [(packets_materializeShutdown _ _ _ _).2] at present
    exact kept present
  | none =>
    cases tx with
    | outboxOpen payload =>
      obtain ⟨opened, -, -, -, rfl⟩ := processOutboxOpen_spec done
      rw [mem_byDeliveryKey_saveOutboxIntent] at present
      rcases present with ⟨delivers, rfl⟩ | before
      · refine ⟨opened, ?_, delivers⟩
        rw [outbox_saveOutboxIntent, Function.update_self]
      · exact kept before
    | relayClaim claim =>
      obtain ⟨_, -, -, -, rfl⟩ := processRelayClaim_spec done
      exact kept present
    | relayCancel cancel =>
      obtain ⟨_, -, -, rfl⟩ := processRelayCancel_spec done
      exact kept present
    | ingressCommit payload =>
      obtain ⟨_, -, -, rfl⟩ := processIngressCommit_spec done
      exact kept present
    | keyPolicyPut payload => cases about
    | keyGrant payload => cases about
    | keyExtend payload => cases about
    | keyRevoke keyId => cases about
    | keyErase keyId => cases about

theorem Circle.Traced.step (traced : circle.Traced) (move : Move) :
    (step policy circle move).Traced := by
  rcases step_spec policy circle move with same | done
  · rw [same]
    exact traced
  · constructor
    · intro intentId known
      exact named_of_change (nodeChange_of_process done intentId) (traced.named intentId) known
    · intro intentId relayId claim stored
      exact claims_of_change (nodeChange_of_process done intentId) (traced.claims intentId) stored
    · intro intentId keyId present
      exact delivers_of_process done traced.listed present

theorem Circle.Traced.run (traced : circle.Traced) (moves : List Move) :
    (run policy circle moves).Traced := by
  induction moves generalizing circle with
  | nil => exact traced
  | cons move rest ih => exact ih (traced.step move)

theorem Circle.Unopened.traced (unopened : circle.Unopened) : circle.Traced where
  named intentId known := by
    rw [unopened.outbox] at known
    exact absurd rfl known
  claims intentId relayId claim stored := by
    rw [unopened.outbox] at stored
    cases stored
  listed intentId keyId present := by
    rw [unopened.keys] at present
    cases present

variable {policy : TransportPolicy} {circle circle' : Circle}
  {first last epoch : Int64} {intentId : Bytes} {intent : OutboxIntent}

/-- The status that is reported of an intent. -/
def Circle.reported (policy : TransportPolicy) (epoch : Int64)
    (circle : Circle) (intentId : Bytes) (intent : OutboxIntent) : OutboxStatus :=
  (evaluateOutbox epoch policy intent (circle.outbox intentId).storedStatus
    (circle.outbox intentId).resolution
    ((circle.outbox intentId).activeOutboxClaims epoch)
    (deliveryKeyStatus circle.stable epoch intent)).effectiveStatus

/-- The intent is claimed, but no claim is live any more. -/
structure LeasesLapsed (circle : Circle) (epoch : Int64) (intentId : Bytes)
    (intent : OutboxIntent) : Prop where
  keyUsable : ¬ KeyOver circle epoch intent
  future : epoch < intent.expiryEpoch
  claimed : (circle.outbox intentId).storedStatus = .claimed
  none : (circle.outbox intentId).activeOutboxClaims epoch = []

/-- Where a reported status comes from. -/
inductive Reports (policy : TransportPolicy) (circle : Circle) (epoch : Int64)
    (intentId : Bytes) (intent : OutboxIntent) (status : OutboxStatus) : Prop
  | resolved (stored : (circle.outbox intentId).storedStatus = status)
      (is : status = .fulfilled ∨ status = .cancelled)
  | keyOver (unfulfilled : (circle.outbox intentId).storedStatus ≠ .fulfilled)
      (ended : KeyOver circle epoch intent) (is : status = .cancelled)
  | ended (unfulfilled : (circle.outbox intentId).storedStatus ≠ .fulfilled)
      (uncancelled : (circle.outbox intentId).storedStatus ≠ .cancelled)
      (keyUsable : ¬ KeyOver circle epoch intent)
      (past : intent.expiryEpoch ≤ epoch ∨ (circle.outbox intentId).storedStatus = .expired)
      (is : status = .expired)
  | claimed (stored : (circle.outbox intentId).storedStatus = .claimed)
      (future : epoch < intent.expiryEpoch) (is : status = .claimed)
  | lapsed (leases : LeasesLapsed circle epoch intentId intent)
      (is : status = policy.expiredClaimStatus)
  | «open» (stored : (circle.outbox intentId).storedStatus = .open)
      (keyUsable : ¬ KeyOver circle epoch intent)
      (future : epoch < intent.expiryEpoch) (is : status = .open)

theorem reports_reported :
    Reports policy circle epoch intentId intent
      (circle.reported policy epoch intentId intent) := by
  unfold Circle.reported evaluateOutbox
  split
  · next resolved => exact .resolved rfl resolved
  next unresolved =>
  rw [not_or] at unresolved
  split
  · next keyOver =>
    exact .keyOver unresolved.1 (keyOver_iff.mpr keyOver) rfl
  next keyUsable =>
  have keyUsable : ¬ KeyOver circle epoch intent := keyUsable ∘ keyOver_iff.mp
  split
  · next past =>
    exact .ended unresolved.1 unresolved.2 keyUsable (Or.inl past) rfl
  next future =>
  have future : epoch < intent.expiryEpoch := Int64.not_le.mp future
  split
  · next claimed =>
    split
    · exact .claimed claimed future rfl
    · next none =>
      apply Reports.lapsed ⟨keyUsable, future, claimed, not_not.mp none⟩
      split <;> simp_all
  · next unclaimed =>
    cases stored : (circle.outbox intentId).storedStatus with
    | «open» => exact .open stored keyUsable future rfl
    | claimed => exact absurd stored unclaimed
    | fulfilled => exact absurd stored unresolved.1
    | cancelled => exact absurd stored unresolved.2
    | expired => exact .ended unresolved.1 unresolved.2 keyUsable (Or.inr stored) rfl

theorem reported_of_resolved {status : OutboxStatus}
    (stored : (circle.outbox intentId).storedStatus = status)
    (is : status = .fulfilled ∨ status = .cancelled) :
    circle.reported policy epoch intentId intent = status := by
  unfold Circle.reported evaluateOutbox
  rw [stored, if_pos is]

theorem reported_of_keyOver (unfulfilled : (circle.outbox intentId).storedStatus ≠ .fulfilled)
    (ended : KeyOver circle epoch intent) :
    circle.reported policy epoch intentId intent = .cancelled := by
  by_cases cancelled : (circle.outbox intentId).storedStatus = .cancelled
  · exact reported_of_resolved cancelled (Or.inr rfl)
  · unfold Circle.reported evaluateOutbox
    rw [if_neg (not_or.mpr ⟨unfulfilled, cancelled⟩), if_pos (keyOver_iff.mp ended)]

/-- An intent that is over is reported as expired, or as cancelled for its
key. -/
theorem reported_of_past (unfulfilled : (circle.outbox intentId).storedStatus ≠ .fulfilled)
    (past : intent.expiryEpoch ≤ epoch ∨ (circle.outbox intentId).storedStatus = .expired) :
    (circle.reported policy epoch intentId intent = .expired ∨
      circle.reported policy epoch intentId intent = .cancelled) ∧
    ((circle.outbox intentId).storedStatus ≠ .cancelled → ¬ KeyOver circle epoch intent →
      circle.reported policy epoch intentId intent = .expired) := by
  have current : ∀ status, (circle.outbox intentId).storedStatus = status →
      status ≠ .expired → ¬ epoch < intent.expiryEpoch := by
    rintro status rfl unexpired future
    rcases past with past | expired
    · exact absurd past (Int64.not_le.mpr future)
    · exact unexpired expired
  cases @reports_reported policy circle epoch intentId intent with
  | resolved stored is =>
    rcases is with is | is
    · exact absurd (stored.trans is) unfulfilled
    · exact ⟨Or.inr is, fun other => absurd (stored.trans is) other⟩
  | keyOver _ ended is => exact ⟨Or.inr is, fun _ usable => absurd ended usable⟩
  | ended _ _ _ _ is => exact ⟨Or.inl is, fun _ _ => is⟩
  | claimed stored future is => exact absurd future (current _ stored (by decide))
  | lapsed leases is => exact absurd leases.future (current _ leases.claimed (by decide))
  | «open» stored _ future is => exact absurd future (current _ stored (by decide))

theorem known_run {moves : List Move} (known : (circle.outbox intentId).intent = some intent) :
    ((run policy circle moves).outbox intentId).intent = some intent := by
  induction moves generalizing circle with
  | nil => exact known
  | cons move rest ih =>
    apply ih
    rcases step_spec policy circle move with same | done
    · rw [same]
      exact known
    · exact (nodeChange_of_process done intentId).known known

/-- No claim outlives its intent. -/
theorem Circle.Traced.active_eq_nil (traced : circle.Traced) (sound : circle.Sound policy epoch)
    (known : (circle.outbox intentId).intent = some intent) (past : intent.expiryEpoch ≤ epoch) :
    (circle.outbox intentId).activeOutboxClaims epoch = [] := by
  rw [List.eq_nil_iff_forall_not_mem]
  intro claim active
  obtain ⟨stored, -, lasts, -⟩ := (sound.node intentId).filed.mem_active.mp active
  obtain ⟨-, other, known', ends⟩ := traced.claims intentId _ claim stored
  obtain rfl : other = intent := Option.some.inj (known'.symm.trans known)
  exact absurd (Int64.lt_of_lt_of_le lasts (Int64.le_trans ends past)) Int64.lt_irrefl

theorem reason_of_past {status : OutboxStatus} {state : KeyState} {existing : List RelayClaim}
    {cancel : RelayCancel}
    (admitted : relayCancelAdmissible epoch intent status state existing [] cancel = .ok ())
    (past : intent.expiryEpoch ≤ epoch) : cancel.reason = .intentExpired := by
  unfold relayCancelAdmissible at admitted
  cases status with
  | claimed =>
    simp only [findClaimByRelay, List.find?_nil, Option.isSome_none,
      Bool.false_eq_true, if_false, past, if_true] at admitted
    split at admitted
    · split at admitted
      · next is => exact is
      · cases admitted
    · cases admitted
  | «open» => cases admitted
  | fulfilled => cases admitted
  | cancelled => cases admitted
  | expired => cases admitted

theorem terminal_of_outboxReason {state : KeyState} {reason : ResolutionReason}
    (shut : state.outboxReason = some reason) : state.terminalForDelivery = true := by
  cases state with
  | scheduled => cases shut
  | live => cases shut
  | expired => rfl
  | revoked => rfl
  | erased => rfl

/-- A transaction on a key changes an intent if the key delivers it and can no
longer do so. -/
theorem keyOver_of_change {context : TxContext} {tx : CircleTx} (traced : circle.Traced)
    (done : process context epoch policy circle tx = .ok circle') (about : tx.keyId.isSome)
    (known : (circle.outbox intentId).intent = some intent)
    (changed : (circle'.outbox intentId).storedStatus ≠ (circle.outbox intentId).storedStatus) :
    KeyOver circle' epoch intent := by
  obtain ⟨keyId, about⟩ := Option.isSome_iff_exists.mp about
  obtain ⟨next, stable, -, rfl, read⟩ := process_key done about
  cases shut : (next.classify epoch).outboxReason with
  | none =>
    rw [materializeShutdown_none shut] at changed
    exact absurd rfl changed
  | some reason =>
    rw [outbox_materializeShutdown shut] at changed
    split at changed
    · next listed =>
      obtain ⟨other, known', delivers⟩ := traced.listed intentId keyId listed
      obtain rfl : other = intent := Option.some.inj (known'.symm.trans known)
      refine ⟨keyId, delivers, ?_⟩
      rw [Circle.keyPolicy, stable_materializeShutdown, read, if_pos rfl]
      exact terminal_of_outboxReason shut
    · exact absurd rfl changed

/-- An intent that is not fulfilled by its end. -/
structure Ended (circle : Circle) (epoch : Int64) (intentId : Bytes)
    (intent : OutboxIntent) : Prop where
  known : (circle.outbox intentId).intent = some intent
  past : intent.expiryEpoch ≤ epoch ∨ (circle.outbox intentId).storedStatus = .expired
  unfulfilled : (circle.outbox intentId).storedStatus ≠ .fulfilled

theorem Ended.not_accepts (ended : Ended circle epoch intentId intent) :
    ¬ Accepts policy circle epoch intentId := by
  intro accepts
  obtain ⟨unresolved, future, -⟩ := accepts.spec ended.known
  rcases ended.past with past | expired
  · exact absurd past (Int64.not_le.mpr future)
  · exact unresolved (Or.inr (Or.inr expired))

theorem Ended.process {context : TxContext} {tx : CircleTx}
    (ended : Ended circle epoch intentId intent)
    (sound : circle.Sound policy epoch) (traced : circle.Traced)
    (done : process context epoch policy circle tx = .ok circle') :
    Ended circle' epoch intentId intent ∧
      ((circle.outbox intentId).storedStatus ≠ .cancelled → ¬ KeyOver circle' epoch intent →
        (circle'.outbox intentId).storedStatus ≠ .cancelled) := by
  have change := nodeChange_of_process done intentId
  have known := change.known ended.known
  rcases ended.past with past | expired
  · have past' : intent.expiryEpoch ≤ epoch ∨
        (circle'.outbox intentId).storedStatus = .expired := Or.inl past
    have none := traced.active_eq_nil sound ended.known past
    cases change with
    | same node_eq packet_eq =>
      rw [node_eq]
      exact ⟨⟨node_eq ▸ known, past', node_eq ▸ ended.unfulfilled⟩, fun kept _ => kept⟩
    | opened other fresh named nonempty future node_eq packet_eq =>
      rw [ended.known] at fresh
      cases fresh
    | claimed claim other is named before now admitted node_eq packet_eq =>
      obtain rfl := Option.some.inj (before.symm.trans ended.known)
      exact absurd (claimAdmissible_eq_ok admitted).2.1 (Int64.not_lt.mpr past)
    | cancelled cancel other state resolution status outboxResolution is named
        before admitted settled wasClaimed unfulfilled reopened actor node_eq
        packet_eq =>
        obtain rfl := Option.some.inj (before.symm.trans ended.known)
        rw [none] at admitted
        have reason := reason_of_past admitted past
        have stored : (circle'.outbox intentId).storedStatus = status := by
          rw [node_eq]
          rfl
        refine ⟨⟨known, past', stored ▸ unfulfilled⟩, fun _ _ => ?_⟩
        rw [stored]
        rw [reason] at settled
        rcases settled with rfl | rfl <;> decide
    | committed payload other resolution is named before admitted node_eq
        packet_eq =>
        obtain rfl := Option.some.inj (before.symm.trans ended.known)
        exact absurd (ingressCommit_eq_ok admitted).2.2.1 (Int64.not_lt.mpr past)
    | shut resolution other about before was actor node_eq packet_eq =>
      have stored : (circle'.outbox intentId).storedStatus = .cancelled := by
        rw [node_eq]
        rfl
      refine ⟨⟨known, past', by rw [stored]; decide⟩, fun kept usable => ?_⟩
      exact absurd (keyOver_of_change traced done about ended.known (stored ▸ kept.symm)) usable
  · have kept := (change.final (sound.node intentId)).1 (Or.inr (Or.inr expired))
    rw [expired] at kept
    exact ⟨⟨known, Or.inr kept, by rw [kept]; decide⟩, fun _ _ => by rw [kept]; decide⟩

end Circles
end LiteNode
