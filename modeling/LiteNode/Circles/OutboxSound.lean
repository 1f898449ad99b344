import LiteNode.Circles.OutboxChanges

/-!
# What changes keep of an intent

Every change of an intent keeps its claims under their relays, their number
within the limit, and a packet exactly where the intent is fulfilled.
-/

/-! ## What holds of every intent -/

namespace LiteNode
namespace Circles

variable {claim : RelayClaim}

theorem mem_sortClaims {compare : RelayClaim → RelayClaim → Ordering} {claims : List RelayClaim} :
    claim ∈ sortClaims compare claims ↔ claim ∈ claims :=
  (List.perm_insertionSort _ claims).mem_iff

theorem mem_cancelledRelayIds {resolutions : List OutboxResolution} {relayId : Bytes} :
    relayId ∈ cancelledRelayIds resolutions ↔
      ∃ resolution ∈ resolutions, resolution.actorId = some relayId := by
  simp [cancelledRelayIds, sortUniq]

theorem liveAt_iff {epoch : Int64} : claim.liveAt epoch = true ↔
      claim.claimEpoch ≤ epoch ∧ epoch < claim.claimExpiryEpoch := by
  simp [RelayClaim.liveAt]

namespace OutboxNode

/-- A relay has cancelled its own claim. -/
def Cancelled (node : OutboxNode) (relayId : Bytes) : Prop :=
  ∃ resolution, node.claimResolutions.find? relayId = some resolution ∧
    resolution.actorId = some relayId

/-- Claims and their resolutions are stored under their relays. -/
structure Filed (node : OutboxNode) (intentId : Bytes) (epoch : Int64) : Prop where
  named : ∀ relayId claim, node.claims.find? relayId = some claim →
    claim.relayId = relayId ∧ claim.intentId = intentId ∧ claim.claimEpoch ≤ epoch
  actors : ∀ relayId resolution, node.claimResolutions.find? relayId = some resolution →
    resolution.actorId = none ∨ resolution.actorId = some relayId

variable {node : OutboxNode} {intentId : Bytes} {epoch : Int64}

theorem Filed.later (filed : node.Filed intentId epoch) {epoch' : Int64}
    (after : epoch ≤ epoch') : node.Filed intentId epoch' where
  named relayId claim stored :=
    have ⟨relay, intent, made⟩ := filed.named relayId claim stored
    ⟨relay, intent, Int64.le_trans made after⟩
  actors := filed.actors

theorem Filed.mem_cancelled (filed : node.Filed intentId epoch) {relayId : Bytes} :
    relayId ∈ cancelledRelayIds node.claimResolutions.values ↔ node.Cancelled relayId := by
  rw [mem_cancelledRelayIds]
  constructor
  · rintro ⟨resolution, listed, actor⟩
    obtain ⟨other, stored⟩ := Table.mem_values.mp listed
    rcases filed.actors other resolution stored with none | same
    · rw [none] at actor
      cases actor
    · obtain rfl : other = relayId := Option.some.inj (same.symm.trans actor)
      exact ⟨resolution, stored, actor⟩
  · rintro ⟨resolution, stored, actor⟩
    exact ⟨resolution, Table.mem_values.mpr ⟨relayId, stored⟩, actor⟩

variable {current : Int64}

theorem Filed.mem_active (filed : node.Filed intentId epoch) {claim : RelayClaim} :
    claim ∈ node.activeOutboxClaims current ↔
      node.claims.find? claim.relayId = some claim ∧
        claim.claimEpoch ≤ current ∧ current < claim.claimExpiryEpoch ∧
        ¬ node.Cancelled claim.relayId := by
  rw [activeOutboxClaims, liveClaims, List.mem_filter, mem_sortClaims,
    claimLive, Bool.and_eq_true, liveAt_iff, Bool.not_eq_true',
    ← Bool.not_eq_true, List.contains_iff_mem, filed.mem_cancelled, and_assoc,
    outboxClaims, Table.mem_values]
  refine and_congr_left fun _ => ?_
  constructor
  · rintro ⟨relayId, stored⟩
    rw [(filed.named relayId claim stored).1]
    exact stored
  · exact fun stored => ⟨_, stored⟩

/-- Live claims are those of different relays. -/
theorem Filed.nodup_relays (filed : node.Filed intentId epoch) (current : Int64) :
    ((node.activeOutboxClaims current).map RelayClaim.relayId).Nodup := by
  have keys : node.outboxClaims.map RelayClaim.relayId = node.claims.toList.map Prod.fst := by
    rw [outboxClaims, Table.values, List.map_map]
    apply List.map_congr_left
    rintro ⟨relayId, claim⟩ listed
    exact (filed.named relayId claim (Table.mem_toList.mp listed)).1
  have distinct : (node.outboxClaims.map RelayClaim.relayId).Nodup := by
    rw [keys]
    exact node.claims.nodup_keys
  have sorted : ((sortClaims compareClaims node.outboxClaims).map RelayClaim.relayId).Nodup :=
    ((List.perm_insertionSort _ _).map _).nodup_iff.mpr distinct
  exact (List.filter_sublist.map _).nodup sorted

/-- A search among live claims finds the claim of the relay. -/
theorem Filed.find_active (filed : node.Filed intentId epoch) {relayId : Bytes}
    {claim : RelayClaim} :
    findClaimByRelay (node.activeOutboxClaims current) relayId = some claim ↔
      claim ∈ node.activeOutboxClaims current ∧ claim.relayId = relayId := by
  unfold findClaimByRelay
  constructor
  · intro found
    have same := List.find?_some found
    exact ⟨List.mem_of_find?_eq_some found, of_decide_eq_true same⟩
  · rintro ⟨listed, rfl⟩
    cases found : (node.activeOutboxClaims current).find?
        fun other => other.relayId = claim.relayId with
    | none =>
      have missed := List.find?_eq_none.mp found claim listed
      simp at missed
    | some other =>
      have matched := List.find?_some found
      have same : other.relayId = claim.relayId := of_decide_eq_true matched
      have stored := (filed.mem_active.mp listed).1
      have stored' := (filed.mem_active.mp (List.mem_of_find?_eq_some found)).1
      rw [same, stored] at stored'
      exact stored'.symm

/-- There are no more live claims than relays that may have one. -/
theorem Filed.length_active_le (filed : node.Filed intentId epoch) (current : Int64)
    (relays : List Bytes) (listed : ∀ claim ∈ node.activeOutboxClaims current,
      claim.relayId ∈ relays) :
    (node.activeOutboxClaims current).length ≤ relays.length := by
  have subset : (node.activeOutboxClaims current).map RelayClaim.relayId ⊆
      relays := by
    intro relayId relay
    obtain ⟨claim, active, rfl⟩ := List.mem_map.mp relay
    exact listed claim active
  have short := (List.subperm_of_subset (filed.nodup_relays current) subset).length_le
  rwa [List.length_map] at short

theorem Filed.length_active_le_active {node' : OutboxNode} (filed' : node'.Filed intentId epoch)
    (subset : node'.activeOutboxClaims current ⊆ node.activeOutboxClaims current) :
    (node'.activeOutboxClaims current).length ≤ (node.activeOutboxClaims current).length := by
  have short := filed'.length_active_le current
    ((node.activeOutboxClaims current).map RelayClaim.relayId)
    fun claim active => List.mem_map_of_mem (subset active)
  rwa [List.length_map] at short

end OutboxNode

def OutboxStatus.Final (status : OutboxStatus) : Prop :=
  status = .fulfilled ∨ status = .cancelled ∨ status = .expired

/-- A claim is admitted while there is room for it, by a relay that has none. -/
theorem claimAdmissible_eq_ok
    {currentEpoch : Int64} {policy : TransportPolicy} {intent : OutboxIntent}
    {status : OutboxStatus} {deliverable : Bool} {existing active : List RelayClaim}
    (admitted : claimAdmissible currentEpoch policy intent status deliverable
      existing active claim = .ok ()) :
    (status = .open ∨ status = .claimed) ∧ currentEpoch < intent.expiryEpoch ∧
      claim.claimEpoch < claim.claimExpiryEpoch ∧ findClaimByRelay active claim.relayId = none ∧
      active.length < policy.activeClaimLimit := by
  unfold claimAdmissible at admitted
  split at admitted
  · cases admitted
  split at admitted
  · cases admitted
  split at admitted
  · cases admitted
  next early =>
  split at admitted
  · cases admitted
  next window =>
  simp only [RelayClaim.windowValid, not_not, Bool.and_eq_true, decide_eq_true_iff] at window
  refine ⟨?_, Int64.not_le.mp early, window.1.2, ?_⟩
  · cases status with
    | «open» => exact Or.inl rfl
    | claimed => exact Or.inr rfl
    | fulfilled => cases admitted
    | cancelled => cases admitted
    | expired => cases admitted
  · have unclaimed : ¬ (findClaimByRelay active claim.relayId).isSome := by
      intro found
      cases status <;> simp [found, refuse] at admitted
    refine ⟨Option.not_isSome_iff_eq_none.mp unclaimed, ?_⟩
    by_cases single : policy.claimTopology = .singleRelay
    · have limit : policy.activeClaimLimit = 1 := by
        unfold TransportPolicy.activeClaimLimit
        rw [single]
      have none : ¬ 0 < active.length := by
        intro some
        cases status <;>
          simp [unclaimed, TransportPolicy.singleRelay, single, some, refuse] at admitted
      rw [limit]
      omega
    · by_contra full
      have full : policy.activeClaimLimit ≤ active.length := by omega
      cases status <;>
        simp [unclaimed, TransportPolicy.singleRelay, single, full, refuse] at admitted

/-- A packet is admitted from a relay that is selected among enough live
claims, while the key is live. -/
theorem ingressCommit_eq_ok
    {currentEpoch : Int64} {policy : TransportPolicy} {intent : OutboxIntent}
    {status : OutboxStatus} {key : DeliveryKeyStatus}
    {active : List RelayClaim} {existing : Bool} {payload : IngressCommitPayload}
    (admitted : ingressCommit currentEpoch policy intent status key active
      existing payload = .ok ()) :
    status = .claimed ∧ existing = false ∧
      currentEpoch < intent.expiryEpoch ∧ key.state.isLive = true ∧
      policy.claimReady active = true ∧ policy.selected active payload.relayId = true ∧
      ∃ claim, findClaimByRelay active payload.relayId = some claim := by
  unfold ingressCommit at admitted
  iterate 7
    split at admitted
    · cases admitted
  next key _ _ _ _ _ =>
  obtain ⟨_, admissible, fresh⟩ := bind_eq_ok admitted
  have existing : existing = false := by
    by_contra packet
    rw [Bool.not_eq_false] at packet
    simp [packet, refuse] at fresh
  unfold ingressAdmissible at admissible
  split at admissible
  · cases admissible
  next early =>
  cases status with
  | «open» => cases admissible
  | fulfilled => cases admissible
  | cancelled => cases admissible
  | expired => cases admissible
  | claimed =>
    dsimp only at admissible
    split at admissible
    · cases admissible
    split at admissible
    · cases admissible
    next ready =>
    split at admissible
    · cases admissible
    next claim found =>
    split at admissible
    · cases admissible
    next selected =>
    exact ⟨rfl, existing, Int64.not_le.mp early, not_not.mp key,
      not_not.mp ready, not_not.mp selected, claim, found⟩

/-- What holds of an intent at an epoch, and of its packet. -/
structure NodeSound (policy : TransportPolicy) (epoch : Int64)
    (intentId : Bytes) (node : OutboxNode) (packet : Option IngressPacket) :
    Prop where
  filed : node.Filed intentId epoch
  blank : node.intent = none → node.status = none
  delivered : packet.isSome ↔ node.storedStatus = .fulfilled
  within : ∀ later, epoch ≤ later → (node.activeOutboxClaims later).length ≤ policy.activeClaimLimit

section Changes

variable {policy : TransportPolicy} {epoch : Int64} {intentId : Bytes}
  {node node' : OutboxNode} {packet packet' : Option IngressPacket}
  {stable : StableStorage} {tx : CircleTx}

theorem NodeSound.later (sound : NodeSound policy epoch intentId node packet) {epoch' : Int64}
    (after : epoch ≤ epoch') :
    NodeSound policy epoch' intentId node packet where
  filed := sound.filed.later after
  blank := sound.blank
  delivered := sound.delivered
  within later following := sound.within later (Int64.le_trans after following)

theorem NodeSound.packet_eq_none (sound : NodeSound policy epoch intentId node packet)
    (unfulfilled : node.storedStatus ≠ .fulfilled) : packet = none := by
  rw [← Option.not_isSome_iff_eq_none, sound.delivered]
  exact unfulfilled

theorem storedStatus_of_blank (blank : node.status = none) : node.storedStatus = .open := by
  rw [OutboxNode.storedStatus, blank]
  rfl

variable {claim : RelayClaim} {status : OutboxStatus} {relayId : Bytes}
  {resolution : OutboxResolution}

theorem filed_claimed (filed : node.Filed intentId epoch)
    (named : claim.intentId = intentId) (now : claim.claimEpoch = epoch) (status : OutboxStatus) :
    OutboxNode.Filed
      { node with
        claims := node.claims.replace claim.relayId claim
        claimResolutions := node.claimResolutions.remove claim.relayId
        claim := some claim
        status := some status } intentId epoch where
  named relayId stored found := by
    rw [Table.find?_replace_eq_ite] at found
    split at found
    · next same =>
      cases found
      exact ⟨same.symm, named, now ▸ Int64.le_refl _⟩
    · exact filed.named relayId stored found
  actors relayId resolution found := by
    rw [Table.find?_remove_eq_ite] at found
    split at found
    · cases found
    · exact filed.actors relayId resolution found

theorem cancelled_claimed : OutboxNode.Cancelled { node with
        claims := node.claims.replace claim.relayId claim
        claimResolutions := node.claimResolutions.remove claim.relayId
        claim := some claim
        status := some status } relayId ↔
      relayId ≠ claim.relayId ∧ node.Cancelled relayId := by
  unfold OutboxNode.Cancelled
  by_cases same : relayId = claim.relayId
  · simp [Table.find?_remove_eq_ite, same]
  · simp [Table.find?_remove_eq_ite, same]

theorem filed_cancelled
    (filed : node.Filed intentId epoch) (actor : resolution.actorId = some relayId)
    (outboxResolution : Option OutboxResolution) (status : OutboxStatus) :
    OutboxNode.Filed
      { node with
        claimResolutions := node.claimResolutions.replace relayId resolution
        resolution := outboxResolution
        status := some status } intentId epoch where
  named := filed.named
  actors other stored found := by
    rw [Table.find?_replace_eq_ite] at found
    split at found
    · next same =>
      cases found
      exact Or.inr (same ▸ actor)
    · exact filed.actors other stored found

theorem cancelled_cancelled (actor : resolution.actorId = some relayId)
    {outboxResolution : Option OutboxResolution} {other : Bytes} :
    OutboxNode.Cancelled
      { node with
        claimResolutions := node.claimResolutions.replace relayId resolution
        resolution := outboxResolution
        status := some status } other ↔
      other = relayId ∨ node.Cancelled other := by
  unfold OutboxNode.Cancelled
  by_cases same : other = relayId
  · simp [same, actor]
  · simp [Table.find?_replace_eq_ite, same]

theorem find?_foldl_replace (resolution : OutboxResolution) (claims : List RelayClaim)
    (table : Table Bytes OutboxResolution) (relayId : Bytes) :
    (claims.foldl (fun table claim => table.replace claim.relayId resolution)
      table).find? relayId =
      if relayId ∈ claims.map RelayClaim.relayId then some resolution
      else table.find? relayId := by
  induction claims generalizing table with
  | nil => simp
  | cons claim rest ih =>
    rw [List.foldl_cons, ih, Table.find?_replace_eq_ite, List.map_cons]
    by_cases listed : relayId ∈ rest.map RelayClaim.relayId
    · rw [if_pos listed, if_pos (List.mem_cons_of_mem _ listed)]
    · by_cases same : relayId = claim.relayId
      · rw [if_neg listed, if_pos same, if_pos]
        rw [same]
        exact List.mem_cons_self ..
      · rw [if_neg listed, if_neg same, if_neg]
        rw [List.mem_cons, not_or]
        exact ⟨same, listed⟩

theorem filed_shut (filed : node.Filed intentId epoch)
    (actor : resolution.actorId = none) (claims : List RelayClaim)
    (outboxResolution : Option OutboxResolution) (status : OutboxStatus) :
    OutboxNode.Filed
      { node with
        claimResolutions := claims.foldl
          (fun table claim => table.replace claim.relayId resolution)
          node.claimResolutions
        resolution := outboxResolution
        status := some status } intentId epoch where
  named := filed.named
  actors other stored found := by
    rw [find?_foldl_replace] at found
    split at found
    · cases found
      exact Or.inl actor
    · exact filed.actors other stored found

/-- The claims that a shutdown resolves are not cancelled by their relays. -/
theorem cancelled_shut (filed : node.Filed intentId epoch)
    (actor : resolution.actorId = none) {current : Int64}
    {outboxResolution : Option OutboxResolution} :
    OutboxNode.Cancelled
      { node with
        claimResolutions := (node.activeOutboxClaims current).foldl
          (fun table claim => table.replace claim.relayId resolution)
          node.claimResolutions
        resolution := outboxResolution
        status := some status } relayId ↔
      node.Cancelled relayId := by
  unfold OutboxNode.Cancelled
  rw [find?_foldl_replace]
  split
  · next listed =>
    obtain ⟨claim, active, rfl⟩ := List.mem_map.mp listed
    have uncancelled := (filed.mem_active.mp active).2.2.2
    constructor
    · rintro ⟨stored, found, by_⟩
      cases found
      rw [actor] at by_
      cases by_
    · exact fun cancelled => absurd cancelled uncancelled
  · exact Iff.rfl

/-- A change keeps what holds of an intent. -/
theorem NodeChange.sound (change : NodeChange epoch policy stable tx intentId node node' packet
      packet') (sound : NodeSound policy epoch intentId node packet) :
    NodeSound policy epoch intentId node' packet' := by
  cases change with
  | same node_eq packet_eq =>
    subst node_eq packet_eq
    exact sound
  | opened intent fresh named nonempty future node_eq packet_eq =>
    subst node_eq packet_eq
    have «open» := storedStatus_of_blank (sound.blank fresh)
    have none := sound.packet_eq_none (by rw [«open»]; decide)
    refine ⟨⟨sound.filed.named, sound.filed.actors⟩, ?_, ?_, sound.within⟩
    · intro unknown
      cases unknown
    · simp [none, OutboxNode.storedStatus]
  | claimed claim intent is named known now admitted node_eq packet_eq =>
    subst node_eq packet_eq
    obtain ⟨unresolved, -, -, -, room⟩ := claimAdmissible_eq_ok admitted
    have none := sound.packet_eq_none (by
      rcases unresolved with is | is <;> rw [is] <;> decide)
    have filed := filed_claimed sound.filed named now .claimed
    refine ⟨filed, ?_, ?_, ?_⟩
    · intro unknown
      rw [known] at unknown
      cases unknown
    · simp [none, OutboxNode.storedStatus]
    · intro later after
      have relays := (filed.later after).length_active_le later
        (claim.relayId :: (node.activeOutboxClaims epoch).map RelayClaim.relayId) ?_
      · rw [List.length_cons, List.length_map] at relays
        omega
      · intro other active
        obtain ⟨stored, -, lasts, uncancelled⟩ := filed.mem_active.mp active
        by_cases same : other.relayId = claim.relayId
        · rw [same]
          exact List.mem_cons_self ..
        · rw [cancelled_claimed, not_and] at uncancelled
          rw [Table.find?_replace_ne same] at stored
          refine List.mem_cons_of_mem _ (List.mem_map_of_mem ?_)
          exact sound.filed.mem_active.mpr ⟨stored, (sound.filed.named _ _ stored).2.2,
            Int64.lt_of_le_of_lt after lasts, uncancelled same⟩
  | cancelled cancel intent state resolution status outboxResolution is named
      known admitted settled wasClaimed unfulfilled reopened actor node_eq
      packet_eq =>
      subst node_eq packet_eq
      have none := sound.packet_eq_none (by rw [wasClaimed]; decide)
      have filed := filed_cancelled sound.filed actor outboxResolution status
      refine ⟨filed, ?_, ?_, ?_⟩
      · intro unknown
        rw [known] at unknown
        cases unknown
      · simp [none, OutboxNode.storedStatus, unfulfilled]
      · intro later after
        refine Int.le_trans (Int.ofNat_le.mpr ?_) (sound.within later after)
        apply (filed.later after).length_active_le_active
        intro other active
        obtain ⟨stored, made, lasts, uncancelled⟩ := filed.mem_active.mp active
        rw [cancelled_cancelled actor, not_or] at uncancelled
        apply sound.filed.mem_active.mpr
        exact ⟨stored, made, lasts, uncancelled.2⟩
  | committed payload intent resolution is named known admitted node_eq
      packet_eq =>
      subst node_eq packet_eq
      refine ⟨⟨sound.filed.named, sound.filed.actors⟩, ?_, ?_, sound.within⟩
      · intro unknown
        rw [known] at unknown
        cases unknown
      · simp [OutboxNode.storedStatus]
  | shut resolution intent about known unresolved actor node_eq packet_eq =>
    subst node_eq packet_eq
    have none := sound.packet_eq_none (by
      rcases unresolved with is | is <;> rw [is] <;> decide)
    have filed := filed_shut sound.filed actor
      (node.activeOutboxClaims epoch) (some resolution) .cancelled
    refine ⟨filed, ?_, ?_, ?_⟩
    · intro unknown
      rw [known] at unknown
      cases unknown
    · simp [none, OutboxNode.storedStatus]
    · intro later after
      refine Int.le_trans (Int.ofNat_le.mpr ?_) (sound.within later after)
      apply (filed.later after).length_active_le_active
      intro other active
      obtain ⟨stored, made, lasts, uncancelled⟩ := filed.mem_active.mp active
      rw [cancelled_shut sound.filed actor] at uncancelled
      apply sound.filed.mem_active.mpr
      exact ⟨stored, made, lasts, uncancelled⟩

/-- A status that is final, and a packet, are kept. -/
theorem NodeChange.final (change : NodeChange epoch policy stable tx intentId node node' packet
      packet') (sound : NodeSound policy epoch intentId node packet) :
    (node.storedStatus.Final → node'.storedStatus = node.storedStatus) ∧
      (packet.isSome → packet' = packet) := by
  have unresolved :
      (node.storedStatus = .open ∨ node.storedStatus = .claimed) → ¬ node.storedStatus.Final := by
    rintro (is | is) <;> rw [is, OutboxStatus.Final] <;> decide
  cases change with
  | same node_eq packet_eq =>
    subst node_eq packet_eq
    exact ⟨fun _ => rfl, fun _ => rfl⟩
  | opened intent fresh named nonempty future node_eq packet_eq =>
    have «open» := storedStatus_of_blank (sound.blank fresh)
    exact ⟨fun final => absurd final (unresolved (Or.inl «open»)), fun _ => packet_eq⟩
  | claimed claim intent is named known now admitted node_eq packet_eq =>
    have was := (claimAdmissible_eq_ok admitted).1
    exact ⟨fun final => absurd final (unresolved was), fun _ => packet_eq⟩
  | cancelled cancel intent state resolution status outboxResolution is named
      known admitted settled wasClaimed unfulfilled reopened actor node_eq
      packet_eq =>
      exact ⟨fun final => absurd final (unresolved (Or.inr wasClaimed)), fun _ => packet_eq⟩
  | committed payload intent resolution is named known admitted node_eq
      packet_eq =>
      obtain ⟨wasClaimed, fresh, -⟩ := ingressCommit_eq_ok admitted
      refine ⟨fun final => absurd final (unresolved (Or.inr wasClaimed)), ?_⟩
      intro stored
      rw [stored] at fresh
      cases fresh
  | shut resolution intent about known was actor node_eq packet_eq =>
    exact ⟨fun final => absurd final (unresolved was), fun _ => packet_eq⟩

/-- A claim that is live stays so unless its relay cancels it. -/
theorem NodeChange.active (change : NodeChange epoch policy stable tx intentId node node' packet
      packet')
    (sound : NodeSound policy epoch intentId node packet) (active : claim ∈ node.activeOutboxClaims epoch)
    (kept : ∀ cancel, tx = .relayCancel cancel → cancel.intentId = intentId →
      cancel.relayId ≠ claim.relayId) :
    claim ∈ node'.activeOutboxClaims epoch := by
  obtain ⟨stored, made, lasts, uncancelled⟩ := sound.filed.mem_active.mp active
  have sound' := change.sound sound
  rw [sound'.filed.mem_active]
  cases change with
  | same node_eq packet_eq =>
    subst node_eq
    exact ⟨stored, made, lasts, uncancelled⟩
  | opened intent fresh named nonempty future node_eq packet_eq =>
    subst node_eq
    exact ⟨stored, made, lasts, uncancelled⟩
  | claimed other intent is named known now admitted node_eq packet_eq =>
    subst node_eq
    have unclaimed := (claimAdmissible_eq_ok admitted).2.2.2.1
    have different : claim.relayId ≠ other.relayId := by
      intro same
      have found := sound.filed.find_active.mpr ⟨active, same⟩
      rw [found] at unclaimed
      cases unclaimed
    rw [cancelled_claimed, Table.find?_replace_ne different]
    exact ⟨stored, made, lasts, fun before => uncancelled before.2⟩
  | cancelled cancel intent state resolution status outboxResolution is named
      known admitted settled wasClaimed unfulfilled reopened actor node_eq
      packet_eq =>
      subst node_eq
      rw [cancelled_cancelled actor, not_or]
      exact ⟨stored, made, lasts, (kept cancel is named).symm, uncancelled⟩
  | committed payload intent resolution is named known admitted node_eq
      packet_eq =>
      subst node_eq
      exact ⟨stored, made, lasts, uncancelled⟩
  | shut resolution intent about known was actor node_eq packet_eq =>
    subst node_eq
    rw [cancelled_shut sound.filed actor]
    exact ⟨stored, made, lasts, uncancelled⟩

/-- A claim is live once it is made. -/
theorem active_of_claimed (filed : node.Filed intentId epoch)
    (named : claim.intentId = intentId) (now : claim.claimEpoch = epoch)
    (window : claim.claimEpoch < claim.claimExpiryEpoch) (status : OutboxStatus) :
    claim ∈ OutboxNode.activeOutboxClaims
      { node with
        claims := node.claims.replace claim.relayId claim
        claimResolutions := node.claimResolutions.remove claim.relayId
        claim := some claim
        status := some status } epoch := by
  rw [(filed_claimed filed named now status).mem_active, cancelled_claimed]
  subst now
  exact ⟨Table.find?_replace .., Int64.le_refl _, window, fun before => before.1 rfl⟩

end Changes
end Circles
end LiteNode
