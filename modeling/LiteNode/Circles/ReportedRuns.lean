import LiteNode.Circles.Reported
import LiteNode.Circles.LifeCycle

/-!
# What is reported over a run

A status that is reported of an intent is kept by every run, as far as its key
lets it, and an intent that is reported as open can be claimed.
-/

namespace LiteNode
namespace Circles

variable {policy : TransportPolicy} {circle circle' : Circle}
  {first last epoch : Int64} {intentId : Bytes} {intent : OutboxIntent}

/-- The key of an intent can no longer deliver after some move of a run. -/
def KeyEnds (policy : TransportPolicy) (intent : OutboxIntent) (circle : Circle) : List Move → Prop
  | [] => False
  | move :: rest =>
    KeyOver (step policy circle move) move.epoch intent ∨
      KeyEnds policy intent (step policy circle move) rest

/-- A transaction on the key of an intent is accepted in the course of a
run. -/
def ChangesKey (policy : TransportPolicy) (intent : OutboxIntent)
    (circle : Circle) : List Move → Prop
  | [] => False
  | move :: rest =>
    (∃ keyId circle', intent.deliveryKeyId = some keyId ∧ move.tx.keyId = some keyId ∧
      process move.context move.epoch policy circle move.tx = .ok circle') ∨
    ChangesKey policy intent (step policy circle move) rest

theorem terminal_later {stored : KeyPolicy} {epoch' : Int64}
    (terminal : (stored.classify epoch).terminalForDelivery = true) (after : epoch ≤ epoch') :
    (stored.classify epoch').terminalForDelivery = true := by
  unfold KeyPolicy.classify at terminal ⊢
  split
  · rfl
  next kept =>
  rw [if_neg kept] at terminal
  split
  · rfl
  next unrevoked =>
  rw [if_neg unrevoked] at terminal
  have expired : stored.expiredAt epoch = true := by
    split at terminal
    · next expired => exact expired
    · split at terminal <;> cases terminal
  rw [KeyPolicy.expiredAt, Option.any_eq_true] at expired
  obtain ⟨value, known, past⟩ := expired
  have expired : stored.expiredAt epoch' = true := by
    rw [KeyPolicy.expiredAt, Option.any_eq_true]
    exact ⟨value, known, decide_eq_true (Int64.le_trans (of_decide_eq_true past) after)⟩
  rw [if_pos expired]
  rfl

theorem KeyOver.later (ended : KeyOver circle first intent) (after : first ≤ epoch) :
    KeyOver circle epoch intent := by
  obtain ⟨keyId, delivers, terminal⟩ := ended
  exact ⟨keyId, delivers, terminal_later terminal after⟩

theorem KeyChange.about {stored next : KeyPolicy} {tx : CircleTx} {keyId : Bytes}
    (change : KeyChange epoch stored tx keyId next) : tx.keyId = some keyId := by
  cases change with
  | put payload is named _ => rw [is, ← named]; rfl
  | grant payload is named _ => rw [is, ← named]; rfl
  | extend payload is named _ => rw [is, ← named]; rfl
  | revoke is _ => rw [is]; rfl
  | erase is _ => rw [is]; rfl

/-- A key that can no longer deliver, and the intent that it leaves behind. -/
structure Abandoned (circle : Circle) (epoch : Int64) (intentId : Bytes)
    (intent : OutboxIntent) : Prop where
  known : (circle.outbox intentId).intent = some intent
  ended : KeyOver circle epoch intent
  unfulfilled : (circle.outbox intentId).storedStatus ≠ .fulfilled

theorem fulfilled_of_change {stable : StableStorage} {tx : CircleTx} {node node' : OutboxNode}
    {packet packet' : Option IngressPacket}
    (change : NodeChange epoch policy stable tx intentId node node' packet
      packet') (known : node.intent = some intent)
    (unfulfilled : node.storedStatus ≠ .fulfilled) (fulfilled : node'.storedStatus = .fulfilled) :
    (deliveryKeyStatus stable epoch intent).state.isLive = true := by
  cases change with
  | same node_eq packet_eq =>
    rw [node_eq] at fulfilled
    exact absurd fulfilled unfulfilled
  | opened other fresh named nonempty future node_eq packet_eq =>
    rw [known] at fresh
    cases fresh
  | claimed claim other is named before now admitted node_eq packet_eq =>
    rw [node_eq] at fulfilled
    cases fulfilled
  | cancelled cancel other state resolution status outboxResolution is named
      before admitted settled wasClaimed unfulfilled' reopened actor node_eq
      packet_eq =>
      rw [node_eq] at fulfilled
      exact absurd fulfilled unfulfilled'
  | committed payload other resolution is named before admitted node_eq
      packet_eq =>
      obtain rfl := Option.some.inj (before.symm.trans known)
      exact (ingressCommit_eq_ok admitted).2.2.2.1
  | shut resolution other about before was actor node_eq packet_eq =>
    rw [node_eq] at fulfilled
    cases fulfilled

theorem Abandoned.step (abandoned : Abandoned circle first intentId intent) {move : Move}
    (after : first ≤ move.epoch) (kept : ∀ keyId circle', intent.deliveryKeyId = some keyId →
      move.tx.keyId = some keyId →
      process move.context move.epoch policy circle move.tx ≠ .ok circle') :
    Abandoned (step policy circle move) move.epoch intentId intent := by
  have ended := abandoned.ended.later after
  rcases step_spec policy circle move with same | done
  · rw [same]
    exact ⟨abandoned.known, ended, abandoned.unfulfilled⟩
  have change := nodeChange_of_process done intentId
  refine ⟨change.known abandoned.known, ?_, ?_⟩
  · obtain ⟨keyId, delivers, terminal⟩ := ended
    refine ⟨keyId, delivers, ?_⟩
    rcases keyPolicy_of_process done keyId with same | changed
    · rw [Circle.keyPolicy, same]
      exact terminal
    · exact absurd done (kept keyId _ delivers changed.about)
  · intro fulfilled
    have live := fulfilled_of_change change abandoned.known abandoned.unfulfilled fulfilled
    have terminal := keyOver_iff.mp ended
    revert live terminal
    generalize (deliveryKeyStatus circle.stable move.epoch intent).state = state
    cases state <;> decide

variable {moves : List Move}

theorem Abandoned.run (abandoned : Abandoned circle first intentId intent)
    (ordered : Ordered first last moves) (kept : ¬ ChangesKey policy intent circle moves) :
    Abandoned (run policy circle moves) last intentId intent := by
  induction moves generalizing circle first with
  | nil => exact ⟨abandoned.known, abandoned.ended.later ordered, abandoned.unfulfilled⟩
  | cons move rest ih =>
    rw [ChangesKey, not_or] at kept
    apply ih _ ordered.2 kept.2
    apply abandoned.step ordered.1
    intro keyId circle' delivers about done
    exact kept.1 ⟨keyId, circle', delivers, about, done⟩

theorem Ended.later (ended : Ended circle first intentId intent) (after : first ≤ epoch) :
    Ended circle epoch intentId intent where
  known := ended.known
  past := ended.past.imp_left fun past => Int64.le_trans past after
  unfulfilled := ended.unfulfilled

theorem Ended.run (ended : Ended circle first intentId intent)
    (sound : circle.Sound policy first) (traced : circle.Traced)
    (ordered : Ordered first last moves) :
    Ended (run policy circle moves) last intentId intent ∧
      ((circle.outbox intentId).storedStatus ≠ .cancelled → ¬ KeyEnds policy intent circle moves →
        ((run policy circle moves).outbox intentId).storedStatus ≠
          .cancelled) := by
  induction moves generalizing circle first with
  | nil => exact ⟨ended.later ordered, fun kept _ => kept⟩
  | cons move rest ih =>
    have step : Ended (step policy circle move) move.epoch intentId
        intent ∧
        ((circle.outbox intentId).storedStatus ≠ .cancelled →
          ¬ KeyOver (step policy circle move) move.epoch intent →
          ((step policy circle move).outbox intentId).storedStatus ≠
            .cancelled) := by
      rcases step_spec policy circle move with same | done
      · rw [same]
        exact ⟨ended.later ordered.1, fun kept _ => kept⟩
      · exact (ended.later ordered.1).process (sound.later ordered.1) traced done
    obtain ⟨ended', kept'⟩ := ih step.1 (sound.step ordered.1) (traced.step move) ordered.2
    refine ⟨ended', fun kept usable => ?_⟩
    rw [KeyEnds, not_or] at usable
    exact kept' (step.2 kept usable.1) usable.2

/-- The claims that are stored leave room for one of a relay. -/
def LeaseAllows (policy : TransportPolicy) (epoch : Int64)
    (existing : List RelayClaim) (relayId : Bytes) : Prop :=
  if policy.singleRelay then policy.replacementAllowed epoch (latestClaim existing) relayId = true
  else
    ∀ claim, findClaimByRelay existing relayId = some claim →
      claim.expiredAt epoch = true ∧ policy.claimStrategy ≠ .noReplacement

/-- A relay may claim an intent: it is permitted, its lease rules allow it, and
its window fits the intent, the policy and the key. -/
structure MayClaim (policy : TransportPolicy) (circle : Circle)
    (epoch : Int64) (intent : OutboxIntent) (context : TxContext)
    (claim : RelayClaim) : Prop where
  info : circle.info.isSome
  sender : context.sender = claim.relayId
  signed : context.verifyClaim claim = .ok ()
  paid : context.debit = .ok ()
  now : claim.claimEpoch = epoch
  lasts : epoch < claim.claimExpiryEpoch
  ends : claim.claimExpiryEpoch ≤ intent.expiryEpoch
  permitted : policy.relayAllowed claim.relayId = true
  window : policy.maxClaimWindowEpochs.any (· < claim.claimExpiryEpoch - claim.claimEpoch) = false
  delivers : deliverableForDeadline circle.stable epoch claim.claimExpiryEpoch
    intent.deliveryKeyId = true
  lease : LeaseAllows policy epoch (circle.outbox claim.intentId).outboxClaims claim.relayId

/-- An intent that is reported as open is unresolved, and no claim on it is
live. -/
theorem unclaimed_of_reported (sound : circle.Sound policy epoch) (traced : circle.Traced)
    (reported : circle.reported policy epoch intentId intent = .open) :
    ((circle.outbox intentId).storedStatus = .open ∨
      (circle.outbox intentId).storedStatus = .claimed) ∧
    (circle.outbox intentId).activeOutboxClaims epoch = [] ∧ epoch < intent.expiryEpoch := by
  have reports := @reports_reported policy circle epoch intentId intent
  rw [reported] at reports
  cases reports with
  | resolved stored is => rcases is with is | is <;> cases is
  | keyOver _ _ is => cases is
  | ended _ _ _ _ is => cases is
  | claimed _ _ is => cases is
  | lapsed leases is => exact ⟨Or.inr leases.claimed, leases.none, leases.future⟩
  | «open» stored _ future _ =>
    refine ⟨Or.inl stored, ?_, future⟩
    rw [List.eq_nil_iff_forall_not_mem]
    intro claim active
    have filed := (sound.node intentId).filed
    exact (traced.claims intentId _ claim (filed.mem_active.mp active).1).1 stored

theorem claimAdmissible_of_mayClaim {context : TxContext} {claim : RelayClaim}
    (may : MayClaim policy circle epoch intent context claim) (room : 0 < policy.activeClaimLimit)
    (future : epoch < intent.expiryEpoch) {status : OutboxStatus}
    (unresolved : status = .open ∨ status = .claimed) :
    claimAdmissible epoch policy intent status
      (deliverableForDeadline circle.stable epoch claim.claimExpiryEpoch intent.deliveryKeyId)
      (circle.outbox claim.intentId).outboxClaims [] claim = .ok () := by
  have window : claim.windowValid epoch intent.expiryEpoch = true := by
    simp [RelayClaim.windowValid, may.now, may.lasts, may.ends]
  have lease := may.lease
  unfold claimAdmissible
  rw [if_neg (not_not.mpr may.permitted), if_neg (not_not.mpr may.delivers),
    if_neg (Int64.not_le.mpr future), if_neg (not_not.mpr window)]
  have unclaimed : ¬ (findClaimByRelay [] claim.relayId).isSome := by simp [findClaimByRelay]
  have room : ¬ policy.activeClaimLimit ≤ ([] : List RelayClaim).length := Int.not_le.mpr room
  unfold LeaseAllows at lease
  rcases unresolved with rfl | rfl
  all_goals
    dsimp only
    rw [if_neg unclaimed]
    split
    · next single =>
      rw [if_pos single] at lease
      rw [if_pos lease]
      rfl
    · next several =>
      rw [if_neg several] at lease
      split
      · next stored found =>
        obtain ⟨expired, replaces⟩ := lease stored found
        rw [if_neg (not_not.mpr expired), if_neg replaces]
      · rfl

theorem process_of_mayClaim {context : TxContext} {claim : RelayClaim}
    (may : MayClaim policy circle epoch intent context claim)
    (valid : policy.validate = .ok ()) (sound : circle.Sound policy epoch)
    (traced : circle.Traced) (known : (circle.outbox claim.intentId).intent = some intent)
    (reported : circle.reported policy epoch claim.intentId intent = .open) :
    process context epoch policy circle (.relayClaim claim) =
      .ok (saveOutboxClaim circle claim) := by
  obtain ⟨unresolved, none, future⟩ := unclaimed_of_reported sound traced reported
  obtain ⟨info, exists_⟩ := Option.isSome_iff_exists.mp may.info
  have named := traced.named claim.intentId (by rw [known]; simp)
  have admitted := claimAdmissible_of_mayClaim may (activeClaimLimit_pos valid) future unresolved
  have enveloped : relayClaimEnvelope context.sender epoch claim = .ok () := by
    rw [relayClaimEnvelope, if_neg named, if_neg (not_not.mpr may.sender),
      if_neg (not_not.mpr may.now)]
  simp only [process, processRelayClaim, circleInfo, exists_, enveloped,
    may.permitted, may.window, may.signed, outboxIntent, known, none,
    admitted, debitFee, may.paid, Except.mapError, not_true_eq_false,
    if_false, Bool.false_eq_true, bind, Except.bind, pure, Except.pure]

theorem fulfilled_reported
    (reported : circle.reported policy epoch intentId intent = .fulfilled) :
    (circle.outbox intentId).storedStatus = .fulfilled := by
  have reports := @reports_reported policy circle epoch intentId intent
  rw [reported] at reports
  cases reports with
  | resolved stored _ => exact stored
  | keyOver _ _ is => cases is
  | ended _ _ _ _ is => cases is
  | claimed _ _ is => cases is
  | lapsed leases is =>
    unfold TransportPolicy.expiredClaimStatus at is
    split at is <;> cases is
  | «open» _ _ _ is => cases is

theorem cancelled_reported
    (reported : circle.reported policy epoch intentId intent = .cancelled)
    (kept : ¬ LeasesLapsed circle epoch intentId intent) :
    (circle.outbox intentId).storedStatus = .cancelled ∨
      (circle.outbox intentId).storedStatus ≠ .fulfilled ∧ KeyOver circle epoch intent := by
  have reports := @reports_reported policy circle epoch intentId intent
  rw [reported] at reports
  cases reports with
  | resolved stored _ => exact Or.inl stored
  | keyOver unfulfilled ended _ => exact Or.inr ⟨unfulfilled, ended⟩
  | ended _ _ _ _ is => cases is
  | claimed _ _ is => cases is
  | lapsed leases _ => exact absurd leases kept
  | «open» _ _ _ is => cases is

theorem expired_reported (known : (circle.outbox intentId).intent = some intent)
    (reported : circle.reported policy epoch intentId intent = .expired)
    (kept : ¬ LeasesLapsed circle epoch intentId intent) :
    Ended circle epoch intentId intent ∧ (circle.outbox intentId).storedStatus ≠ .cancelled := by
  have reports := @reports_reported policy circle epoch intentId intent
  rw [reported] at reports
  cases reports with
  | resolved _ is => rcases is with is | is <;> cases is
  | keyOver _ _ is => cases is
  | ended unfulfilled uncancelled _ past _ => exact ⟨⟨known, past, unfulfilled⟩, uncancelled⟩
  | claimed _ _ is => cases is
  | lapsed leases _ => exact absurd leases kept
  | «open» _ _ _ is => cases is

theorem resolved_run {status : OutboxStatus}
    (sound : circle.Sound policy first) (ordered : Ordered first last moves)
    (known : (circle.outbox intentId).intent = some intent)
    (stored : (circle.outbox intentId).storedStatus = status)
    (is : status = .fulfilled ∨ status = .cancelled) :
    (run policy circle moves).reported policy last intentId intent = status ∧
      ¬ Accepts policy (run policy circle moves) last intentId := by
  have final : status.Final := by
    rcases is with rfl | rfl
    · exact Or.inl rfl
    · exact Or.inr (Or.inl rfl)
  have stored' := ((final_run sound ordered intentId).1 (stored ▸ final)).trans stored
  refine ⟨reported_of_resolved stored' is, fun accepts => ?_⟩
  exact (accepts.spec (known_run known)).1 (stored' ▸ final)

/-- What is reported of an intent after a run, unless its leases have merely
lapsed, and what the transactions go by from there: a packet or a cancellation
is for ever, a key that is over stands while nobody changes it, an intent that
is over is never taken up again, and one that is open can be claimed. -/
theorem reported_of_run (unopened : circle.Unopened) (valid : policy.validate = .ok ())
    {moves : List Move} (ordered : Ordered first epoch moves) :
    let reached := run policy circle moves
    ∀ intentId intent, (reached.outbox intentId).intent = some intent →
    (∀ last later, Ordered epoch last later →
      let following := run policy reached later
      (reached.reported policy epoch intentId intent = .fulfilled →
        following.reported policy last intentId intent = .fulfilled ∧
          ¬ Accepts policy following last intentId) ∧
      (reached.reported policy epoch intentId intent = .cancelled →
        ¬ LeasesLapsed reached epoch intentId intent →
        (reached.outbox intentId).storedStatus = .cancelled ∨
          ¬ ChangesKey policy intent reached later →
        following.reported policy last intentId intent = .cancelled ∧
          ¬ Accepts policy following last intentId) ∧
      (reached.reported policy epoch intentId intent = .expired →
        ¬ LeasesLapsed reached epoch intentId intent →
        (following.reported policy last intentId intent = .expired ∨
          following.reported policy last intentId intent = .cancelled) ∧
        (¬ KeyEnds policy intent reached later →
          ¬ KeyOver following last intent →
          following.reported policy last intentId intent = .expired) ∧
        ¬ Accepts policy following last intentId)) ∧
    (reached.reported policy epoch intentId intent = .open →
      ∀ context claim, claim.intentId = intentId →
        MayClaim policy reached epoch intent context claim →
        ∃ circle', process context epoch policy reached (.relayClaim claim) = .ok circle') := by
  dsimp only
  have sound := (unopened.sound valid first).run ordered
  have traced : (run policy circle moves).Traced := unopened.traced.run moves
  intro intentId intent known
  refine ⟨fun last later following => ⟨?_, ?_, ?_⟩, ?_⟩
  · intro reported
    exact resolved_run sound following known (fulfilled_reported reported) (Or.inl rfl)
  · intro reported kept stands
    rcases cancelled_reported reported kept with stored | ⟨unfulfilled, ended⟩
    · exact resolved_run sound following known stored (Or.inr rfl)
    · by_cases stored : ((run policy circle moves).outbox
          intentId).storedStatus = .cancelled
      · exact resolved_run sound following known stored (Or.inr rfl)
      · have abandoned := Abandoned.run ⟨known, ended, unfulfilled⟩ following
          (stands.resolve_left stored)
        exact ⟨reported_of_keyOver abandoned.unfulfilled abandoned.ended,
          fun accepts => (accepts.spec abandoned.known).2.2 abandoned.ended⟩
  · intro reported kept
    obtain ⟨ended, uncancelled⟩ := expired_reported known reported kept
    obtain ⟨ended', kept'⟩ := ended.run sound traced following
    obtain ⟨either, expired⟩ := @reported_of_past policy _ _ _ _ ended'.unfulfilled ended'.past
    exact ⟨either, fun usable current =>
      expired (kept' uncancelled usable) current, ended'.not_accepts⟩
  · rintro reported context claim rfl may
    exact ⟨_, process_of_mayClaim may valid sound traced known reported⟩

namespace Lapse

def hash : Bytes := Delivery.hash

def delivered (intentId : Bytes) (expiryEpoch : Int64) : OutboxIntent :=
  ⟨intentId, 3, expiryEpoch, hash, hash, none, some [107], 64, 0, none, none⟩

/-- An intent that the granted key delivers. -/
def opened (intentId : Bytes) (expiryEpoch : Int64) : Move :=
  ⟨3, PutBack.context, .outboxOpen
    ⟨intentId, expiryEpoch, hash, hash, none, some [107], 64, 0, none, none⟩⟩

/-- The key lasts until epoch 9, one intent until epoch 6, the other until
epoch 20. -/
def start : List Move := [PutBack.grant, opened [105] 6, opened [106] 20]

def extend : Move := ⟨10, PutBack.context, .keyExtend ⟨[107], 30⟩⟩

/-- The key becomes live when both intents are over. -/
def postponed : Move := ⟨4, PutBack.context, .keyPolicyPut ⟨[107], some 50, none, false, false⟩⟩

def claim (epoch : Int64) : RelayClaim := ⟨[106], [65], epoch, 15, []⟩

end Lapse

open Lapse in
/-- Of two intents with one key the one that outlasts the key is reported as
cancelled, and is claimed once the key is extended; the other is reported as
expired, and later as cancelled. While the key is postponed an intent is
reported as open, and no claim on it is accepted. -/
theorem not_authoritative :
    ((run .default PutBack.owned start).reported .default 10 [106]
        (delivered [106] 20) = .cancelled ∧
      Accepts .default (run .default PutBack.owned (start ++ [extend])) 10 [106]) ∧
    ((run .default PutBack.owned start).reported .default 7 [105]
        (delivered [105] 6) = .expired ∧
      (run .default PutBack.owned start).reported .default 10 [105]
        (delivered [105] 6) = .cancelled) ∧
    (run .default PutBack.owned (start ++ [postponed])).reported .default 4
        [106] (delivered [106] 20) = .open ∧
      ∀ context claim circle', claim.intentId = [106] →
        process context 4 .default
          (run .default PutBack.owned (start ++ [postponed]))
          (.relayClaim claim) ≠ .ok circle' := by
  refine ⟨⟨by decide +kernel, ?_⟩, ⟨by decide +kernel, by decide +kernel⟩,
    by decide +kernel, ?_⟩
  · refine ⟨PutBack.context, .relayClaim (claim 10), _, Or.inl ⟨_, rfl, rfl⟩, rfl⟩
  · intro context claim circle' named done
    obtain ⟨stored, known, -, admitted, -⟩ := processRelayClaim_spec done
    obtain ⟨deliverable, ends⟩ := claimAdmissible_deliverable admitted
    have same : ((run .default PutBack.owned (start ++ [postponed])).outbox
        [106]).intent = some (delivered [106] 20) := by
      decide +kernel
    rw [named, same] at known
    cases known
    have key : (run .default PutBack.owned
        (start ++ [postponed])).keyPolicy [107] = ⟨some 50, none, false, false⟩ := by
      decide +kernel
    rw [deliverableForDeadline, delivered, Option.all_some] at deliverable
    rw [Circle.keyPolicy] at key
    rw [key] at deliverable
    have scheduled : KeyPolicy.classify ⟨some 50, none, false, false⟩ 4 = .scheduled := by
      decide
    simp only [KeyPolicy.deliverableByDeadline, scheduled, Bool.and_eq_true,
      decide_eq_true_iff] at deliverable
    exact absurd (Int64.lt_of_lt_of_le deliverable.1 ends) (by decide)

open Lapse in
theorem reported_of_run_claim :
    ∃ circle', process PutBack.context 4 .default
      (run .default PutBack.owned start) (.relayClaim (claim 4)) = .ok circle' := by
  have ordered : Ordered 0 4 start := ⟨by decide, by decide, by decide, Int64.le_of_lt (by decide)⟩
  refine (reported_of_run ⟨fun _ => rfl, fun _ => rfl, fun _ => rfl⟩ rfl
    ordered [106] (delivered [106] 20) (by decide +kernel)).2
      (by decide +kernel) PutBack.context (claim 4) rfl ?_
  refine ⟨rfl, rfl, rfl, rfl, rfl, by decide, by decide, rfl, rfl, by decide +kernel, ?_⟩
  have single : TransportPolicy.default.singleRelay = true := rfl
  rw [LeaseAllows, if_pos single]
  decide +kernel

end Circles
end LiteNode
