import LiteNode.Circles.OutboxRuns

/-!
# The life of an outbox intent

An intent is open or claimed until it is fulfilled, cancelled or expired, and
what resolved it is never undone.
-/

namespace LiteNode
namespace Circles

variable {policy : TransportPolicy} {circle circle' : Circle} {first last epoch : Int64}

/-- Enough claims are active, by their number or by their weight. -/
def TransportPolicy.QuorumMet (policy : TransportPolicy) (claims : List RelayClaim) : Prop :=
  if policy.claimTopology = .quorumRelays ∧ policy.quorumMode = .weightedQuorum then
    policy.quorumWeightThresholdValue ≤
      (claims.map fun claim => policy.relayWeight claim.relayId).sum
  else policy.quorumThresholdValue ≤ claims.length

/-- The relay of a packet has a live claim and is selected among enough of
them, and the key that delivers the intent is live. -/
structure Admits (policy : TransportPolicy) (circle : Circle) (epoch : Int64)
    (packet : IngressPacket) : Prop where
  claimed : ∃ claim ∈ (circle.outbox packet.intentId).activeOutboxClaims epoch,
    claim.intentId = packet.intentId ∧ claim.relayId = packet.relayId
  quorum : policy.QuorumMet ((circle.outbox packet.intentId).activeOutboxClaims epoch)
  selected : policy.selected
    ((circle.outbox packet.intentId).activeOutboxClaims epoch)
    packet.relayId = true
  delivered : ∃ intent, (circle.outbox packet.intentId).intent = some intent ∧
    ∀ keyId ∈ intent.deliveryKeyId, (circle.keyPolicy keyId).live epoch = true

theorem relayWeight_pos (policy : TransportPolicy) (relayId : Bytes) :
    0 < policy.relayWeight relayId := by
  unfold TransportPolicy.relayWeight
  split
  · split <;> omega
  · decide

/-- Native sums of weights do not exceed true ones. -/
theorem claimsWeight_le (policy : TransportPolicy) (claims : List RelayClaim) :
    policy.claimsWeight claims ≤
      (claims.map fun claim => policy.relayWeight claim.relayId).sum := by
  have from_ : ∀ acc : Int, -2 ^ 62 ≤ acc →
      claims.foldl
        (fun acc claim => (acc + policy.relayWeight claim.relayId).bmod (2 ^ 63)) acc ≤
        acc + (claims.map fun claim => policy.relayWeight claim.relayId).sum := by
    induction claims with
    | nil =>
      intro acc _
      simp
    | cons claim rest ih =>
      intro acc least
      have positive := relayWeight_pos policy claim.relayId
      have bounded : -2 ^ 62 ≤ (acc + policy.relayWeight claim.relayId).bmod (2 ^ 63) :=
        Int.le_bmod (by decide)
      have short :
          (acc + policy.relayWeight claim.relayId).bmod (2 ^ 63) ≤
            acc + policy.relayWeight claim.relayId := by
        unfold Int.bmod
        dsimp only
        split <;> omega
      have rest := ih _ bounded
      rw [List.foldl_cons, List.map_cons, List.sum_cons]
      omega
  have all := from_ 0 (by decide)
  rwa [Int.zero_add] at all

theorem quorumMet_of_claimReady
    {claims : List RelayClaim} (ready : policy.claimReady claims = true) :
    policy.QuorumMet claims := by
  unfold TransportPolicy.claimReady at ready
  unfold TransportPolicy.QuorumMet
  split
  · next weighted =>
    rw [if_pos weighted] at ready
    exact Int.le_trans (of_decide_eq_true ready) (claimsWeight_le policy claims)
  · next counted =>
    rw [if_neg counted] at ready
    exact of_decide_eq_true ready

theorem live_of_classify {stored : KeyPolicy} (live : (stored.classify epoch).isLive = true) :
    stored.live epoch = true := by
  unfold KeyPolicy.classify at live
  split at live
  · cases live
  next kept =>
  split at live
  · cases live
  next unrevoked =>
  split at live
  · cases live
  next current =>
  split at live
  · cases live
  next active =>
  rw [KeyPolicy.expiredAt, Option.any_eq_true, not_exists] at current
  rw [KeyPolicy.pendingAt, Option.any_eq_true, not_exists] at active
  rw [live_iff]
  refine ⟨Bool.not_eq_true _ ▸ unrevoked, Bool.not_eq_true _ ▸ kept, ?_, ?_⟩
  · intro value known
    exact Int64.not_lt.mp fun early => active value ⟨known, decide_eq_true early⟩
  · intro value known
    exact Int64.not_le.mp fun late => current value ⟨known, decide_eq_true late⟩

theorem outboxReason_of_terminal
    {state : KeyState} (terminal : state.terminalForDelivery = true) :
    ∃ reason, state.outboxReason = some reason := by
  cases state with
  | expired => exact ⟨_, rfl⟩
  | revoked => exact ⟨_, rfl⟩
  | erased => exact ⟨_, rfl⟩
  | scheduled => cases terminal
  | live => cases terminal

theorem final_shutNode (keyId : Bytes) (currentEpoch : Int64) (reason : ResolutionReason)
    (intentId : Bytes) {node : OutboxNode} {intent : OutboxIntent}
    (known : node.intent = some intent) :
    (shutNode keyId currentEpoch reason intentId node).storedStatus.Final := by
  unfold shutNode
  split
  · next unknown =>
    rw [known] at unknown
    cases unknown
  · next is => exact Or.inl is
  · next is => exact Or.inr (Or.inl is)
  · next is => exact Or.inr (Or.inr is)
  · exact Or.inr (Or.inl rfl)
  · exact Or.inr (Or.inl rfl)

/-- A key that can no longer deliver leaves none of its intents unresolved. -/
theorem final_of_shutdown {context : TxContext} {tx : CircleTx} (sound : circle.Sound policy epoch)
    (done : process context epoch policy circle tx = .ok circle')
    {keyId : Bytes} (about : tx.keyId = some keyId) (terminal : ((circle'.keyPolicy keyId).classify
      epoch).terminalForDelivery = true) {intentId : Bytes} {intent : OutboxIntent}
    (known : (circle'.outbox intentId).intent = some intent)
    (delivers : intent.deliveryKeyId = some keyId) :
    (circle'.outbox intentId).storedStatus.Final := by
  obtain ⟨next, stable, -, rfl, read⟩ := process_key done about
  rw [Circle.keyPolicy, stable_materializeShutdown, read, if_pos rfl] at terminal
  obtain ⟨reason, shut⟩ := outboxReason_of_terminal terminal
  rw [intent_materializeShutdown] at known
  rw [outbox_materializeShutdown shut, if_pos (sound.listed intentId intent keyId known delivers)]
  exact final_shutNode keyId epoch reason intentId known

theorem admits_of_process {context : TxContext} {tx : CircleTx} (sound : circle.Sound policy epoch)
    (done : process context epoch policy circle tx = .ok circle')
    {intentId : Bytes} {packet : IngressPacket} (none : circle.packets intentId = none)
    (some : circle'.packets intentId = some packet) :
    packet.intentId = intentId ∧ Admits policy circle epoch packet := by
  have kept : circle'.packets intentId ≠ circle.packets intentId := by
    rw [none, some]
    exact Option.some_ne_none packet
  cases nodeChange_of_process done intentId with
  | same node_eq packet_eq => exact absurd packet_eq kept
  | opened intent fresh named nonempty future node_eq packet_eq => exact absurd packet_eq kept
  | claimed claim intent is named known now admitted node_eq packet_eq =>
    exact absurd packet_eq kept
  | cancelled cancel intent state resolution status outboxResolution is named
      known admitted settled wasClaimed unfulfilled reopened actor node_eq
      packet_eq =>
      exact absurd packet_eq kept
  | shut resolution intent about known was actor node_eq packet_eq => exact absurd packet_eq kept
  | committed payload intent resolution is named known admitted node_eq
      packet_eq =>
      rw [some] at packet_eq
      cases packet_eq
      subst named
      obtain ⟨-, -, -, live, ready, selected, claim, found⟩ := ingressCommit_eq_ok admitted
      have filed := (sound.node packet.intentId).filed
      obtain ⟨active, relay⟩ := filed.find_active.mp found
      refine ⟨rfl, ⟨claim, active, ?_, relay⟩, quorumMet_of_claimReady ready,
        selected, intent, known, ?_⟩
      · exact (filed.named _ _ (filed.mem_active.mp active).1).2.1
      · intro keyId delivers
        unfold deliveryKeyStatus at live
        rw [Option.mem_def.mp delivers] at live
        exact live_of_classify live

/-- What holds of an intent at an epoch, and of every transaction and every run
from there. -/
structure LifeCycle (policy : TransportPolicy) (epoch : Int64)
    (circle : Circle) (intentId : Bytes) : Prop where
  /-- There is a packet where the intent is fulfilled. -/
  delivered : (circle.packets intentId).isSome ↔ (circle.outbox intentId).storedStatus = .fulfilled
  distinct : (((circle.outbox intentId).activeOutboxClaims epoch).map RelayClaim.relayId).Nodup
  within : ((circle.outbox intentId).activeOutboxClaims epoch).length ≤ policy.activeClaimLimit
  /-- A status that is final never changes. -/
  final : ∀ last later, Ordered epoch last later → (circle.outbox intentId).storedStatus.Final →
    ((run policy circle later).outbox intentId).storedStatus = (circle.outbox intentId).storedStatus
  /-- A packet is never replaced. -/
  once : ∀ last later, Ordered epoch last later → ∀ packet, circle.packets intentId = some packet →
    (run policy circle later).packets intentId = some packet
  /-- A packet comes in from a relay that is selected. -/
  admitted : ∀ context tx circle', process context epoch policy circle tx = .ok circle' →
    ∀ packet, circle.packets intentId = none → circle'.packets intentId = some packet →
    packet.intentId = intentId ∧ Admits policy circle epoch packet
  /-- A claim that is accepted is live. -/
  live : ∀ context claim circle',
    process context epoch policy circle (.relayClaim claim) = .ok circle' →
    claim.intentId = intentId → claim ∈ (circle'.outbox intentId).activeOutboxClaims epoch
  /-- A claim that is live stays so until it expires or its relay cancels it. -/
  stays : ∀ claim ∈ (circle.outbox intentId).activeOutboxClaims epoch,
    ∀ last later, Ordered epoch last later → last < claim.claimExpiryEpoch →
    ¬ Cancels policy claim circle later →
    claim ∈ ((run policy circle later).outbox intentId).activeOutboxClaims last
  /-- A key that can no longer deliver leaves no intent unresolved. -/
  shut : ∀ context tx circle' keyId, process context epoch policy circle tx = .ok circle' →
    tx.keyId = some keyId → ((circle'.keyPolicy keyId).classify epoch).terminalForDelivery = true →
    ∀ intent, (circle'.outbox intentId).intent = some intent → intent.deliveryKeyId = some keyId →
    (circle'.outbox intentId).storedStatus.Final

theorem Circle.Sound.lifeCycle (sound : circle.Sound policy epoch) (intentId : Bytes) :
    LifeCycle policy epoch circle intentId where
  delivered := (sound.node intentId).delivered
  distinct := (sound.node intentId).filed.nodup_relays epoch
  within := (sound.node intentId).within epoch (Int64.le_refl epoch)
  final last later ordered final := (final_run sound ordered intentId).1 final
  once last later ordered packet stored := by
    rw [(final_run sound ordered intentId).2 (by rw [stored]; rfl), stored]
  admitted context tx circle' done packet none some := admits_of_process sound done none some
  live context claim circle' done named := by
    obtain ⟨intent, known, now, admitted, rfl⟩ := processRelayClaim_spec done
    subst named
    have window := (claimAdmissible_eq_ok admitted).2.2.1
    unfold saveOutboxClaim
    dsimp only [Circle.setNode]
    rw [Function.update_self]
    exact active_of_claimed (sound.node claim.intentId).filed rfl now window _
  stays claim active last later ordered lasts kept := by
    have filed := (sound.node intentId).filed
    obtain ⟨stored, -⟩ := filed.mem_active.mp active
    obtain ⟨-, named, -⟩ := filed.named _ _ stored
    subst named
    exact active_run sound ordered active lasts kept
  shut context tx circle' keyId done about terminal intent known delivers :=
    final_of_shutdown sound done about terminal known delivers

/-- Every run whose epochs do not go back keeps the life cycle of every
intent. -/
theorem lifeCycle_of_run (unopened : circle.Unopened) (valid : policy.validate = .ok ())
    {moves : List Move} (ordered : Ordered first epoch moves) (intentId : Bytes) :
    LifeCycle policy epoch (run policy circle moves) intentId :=
  ((unopened.sound valid first).run ordered).lifeCycle intentId

namespace Delivery

def hash : Bytes := List.replicate 64 48

/-- An intent that the granted key delivers, open for six epochs. -/
def opened : Move :=
  ⟨3, PutBack.context, .outboxOpen ⟨[105], 9, hash, hash, none, some [107], 64, 0, none, none⟩⟩

def claimed : Move := ⟨4, PutBack.context, .relayClaim ⟨[105], [65], 4, 8, []⟩⟩

end Delivery

open Delivery in
theorem lifeCycle_of_run_claimed :
    LifeCycle .default 4 (run .default PutBack.owned [PutBack.grant, opened, claimed]) [105] := by
  have ordered : Ordered 0 4 [PutBack.grant, opened, claimed] :=
    ⟨by decide, by decide, by decide, Int64.le_refl 4⟩
  exact lifeCycle_of_run ⟨fun _ => rfl, fun _ => rfl, fun _ => rfl⟩ rfl ordered [105]

end Circles
end LiteNode
