import LiteNode.Query.Credits

/-!
# Soundness of a query gate

Every message leaves a gate within its limits and is answered without an
overflow.
-/

namespace LiteNode
namespace Query

def groupName (validator : Bool) (name : Bytes) : Bytes :=
  if validator then .ofAscii "validator:" ++ name
  else .ofAscii "public:" ++ name

theorem group_eq (request : Request) :
    ∃ name, request.group = groupName request.validator name := by
  cases lane : request.validator with
  | true => exact ⟨request.peer, by simp [Request.group, groupName, lane]⟩
  | false => exact ⟨request.network, by simp [Request.group, groupName, lane]⟩

theorem lane_of_groupName {first second : Bool} {left right : Bytes}
    (same : groupName first left = groupName second right) : first = second := by
  cases first <;> cases second <;> simp_all [groupName, Bytes.ofAscii]

structure Peer.Within (lo hi clock : Int) (saved : Peer) : Prop where
  bucket : saved.bucket.Within lo hi (capacityOf saved.validator)
  touched : saved.bucket.atTime ≤ saved.seen
  past : saved.seen ≤ clock

/-- A job within limits whose buckets are remembered. -/
structure Job.Backed (state : State) (job : Job) : Prop where
  least : 1 ≤ job.cost
  most : job.cost ≤ 16
  nonneg : 0 ≤ job.bytes
  reply : job.bytes ≤ replyLimit
  id : 0 ≤ job.id ∧ job.id < state.next
  peer : ∃ saved, state.peers.find? job.peer = some saved ∧ saved.validator = job.validator
  network : ∃ saved, state.networks.find? job.network = some saved ∧ saved.validator = job.validator

def laneCount (jobs : List Job) (validator : Bool) : Nat :=
  jobs.countP fun job => job.validator = validator ∧ job.phase = .building

/-- What holds of a gate whose last request came at some time. -/
structure Sound (lo hi clock : Int) (state : State) : Prop where
  publics : state.publics.Within lo hi 16
  validators : state.validators.Within lo hi 64
  peers : ∀ name saved, state.peers.find? name = some saved → saved.Within lo hi clock
  networks : ∀ name saved, state.networks.find? name = some saved →
    saved.Within lo hi clock ∧ ∃ who, name = groupName saved.validator who
  ids : (state.active.map (·.id)).Nodup
  lonely : (state.active.map (·.peer)).Nodup
  building : ∀ lane, laneCount state.active lane ≤ 2
  replies : ∀ lane, laneBytes state lane ≤ laneLimit
  jobs : ∀ job ∈ state.active, job.Backed state
  waiting : ∀ item ∈ state.waiting, 1 ≤ item.cost ∧ item.cost ≤ 16
  next : 0 ≤ state.next ∧ state.next ≤ maxInt

def laneShare (validator : Bool) (job : Job) : Int :=
  if job.validator = validator then job.bytes else 0

theorem laneBytes_eq (state : State) (validator : Bool) :
    laneBytes state validator = (state.active.map (laneShare validator)).sum := by
  have general : ∀ (jobs : List Job) (total : Int), jobs.foldl (fun total job =>
        if job.validator = validator then total + job.bytes else total) total =
          total + (jobs.map (laneShare validator)).sum := by
    intro jobs
    induction jobs with
    | nil => simp
    | cons job rest ih =>
      intro total
      rw [List.foldl_cons, ih, List.map_cons, List.sum_cons]
      by_cases same : job.validator = validator <;> simp [laneShare, same, add_assoc]
  simp only [laneBytes]
  rw [general, zero_add]

theorem sum_laneShare_le {jobs fewer : List Job} (validator : Bool)
    (nonneg : ∀ job ∈ jobs, 0 ≤ job.bytes) (kept : fewer.Sublist jobs) :
    (fewer.map (laneShare validator)).sum ≤ (jobs.map (laneShare validator)).sum := by
  apply (kept.map _).sum_le_sum
  intro share member
  obtain ⟨job, known, rfl⟩ := List.mem_map.mp member
  simp only [laneShare]
  split
  · exact nonneg job known
  · exact le_refl 0

variable {lo hi clock : Int} {state : State}

theorem Sound.finish (sound : Sound lo hi clock state) (id : Int) :
    Sound lo hi clock (finish state id).1 := by
  have kept : (state.active.filter (·.id ≠ id)).Sublist state.active := List.filter_sublist
  refine {
    publics := sound.publics
    validators := sound.validators
    peers := sound.peers
    networks := sound.networks
    ids := sound.ids.sublist (kept.map _)
    lonely := sound.lonely.sublist (kept.map _)
    building := fun lane => le_trans kept.countP_le (sound.building lane)
    replies := ?_
    jobs := ?_
    waiting := sound.waiting
    next := sound.next }
  · intro lane
    have limited := sound.replies lane
    rw [laneBytes_eq] at limited ⊢
    apply le_trans _ limited
    exact sum_laneShare_le lane (fun job known => (sound.jobs job known).nonneg) kept
  · intro job member
    have backed := sound.jobs job (List.mem_of_mem_filter member)
    exact { backed with }

/-- What is refunded when a reply is prepared. -/
structure Refunds (state : State) (job : Job) (bytes cost : Int) : Prop where
  known : job ∈ state.active
  building : job.phase = .building
  nonneg : 0 ≤ bytes
  reply : bytes ≤ replyLimit
  least : 1 ≤ cost
  most : cost ≤ job.cost

theorem prepared_cases (state : State) (id bytes cost : Int) :
    prepared state id bytes cost = (state, none) ∨
      ∃ job, state.active.find? (·.id = id) = some job ∧ Refunds state job bytes cost ∧
        prepared state id bytes cost = (prepare state job bytes cost, some id) := by
  simp only [prepared]
  split
  · exact .inl rfl
  · next job found =>
      split
      · next allowed =>
          obtain ⟨building, nonneg, reply, least, most⟩ := allowed
          exact .inr ⟨job, found,
            ⟨List.mem_of_find?_eq_some found, building, nonneg, reply, least, most⟩, rfl⟩
      · exact .inl rfl

section Prepared

variable {job : Job} {bytes cost : Int}

theorem Sound.refund (sound : Sound lo hi clock state) (refunds : Refunds state job bytes cost) :
    credit (job.cost - cost) = (job.cost - cost) * unitCredit ∧ 0 ≤ (job.cost - cost) * unitCredit ∧
      (job.cost - cost) * unitCredit ≤ 64 * unitCredit := by
  have backed := sound.jobs job refunds.known
  have most := backed.most
  have least := refunds.least
  have less := refunds.most
  refine ⟨credit_eq (by omega) (by omega), ?_, ?_⟩ <;> simp only [unitCredit] <;> omega

theorem Sound.eq_of_id (sound : Sound lo hi clock state) {first second : Job}
    (left : first ∈ state.active) (right : second ∈ state.active)
    (same : first.id = second.id) : first = second :=
  List.inj_on_of_nodup_map sound.ids left right same

/-- The entry of a peer or network after a refund to a job. -/
def refunded (job : Job) (cost : Int) (saved : Peer) : Peer :=
  { saved with
    bucket := restore (credit (job.cost - cost)) (capacityOf job.validator) saved.bucket }

theorem capacityOf_bounds (validator : Bool) :
    0 ≤ capacityOf validator ∧ capacityOf validator ≤ 64 := by
  cases validator <;> simp [capacityOf]

theorem Sound.within_refunded (sound : Sound lo hi clock state)
    (refunds : Refunds state job bytes cost) {saved : Peer} (within : saved.Within lo hi clock)
    (lane : saved.validator = job.validator) : (refunded job cost saved).Within lo hi clock := by
  obtain ⟨amount, gift, small⟩ := sound.refund refunds
  have bucket := within.bucket
  obtain ⟨least, most⟩ := capacityOf_bounds job.validator
  rw [lane] at bucket
  refine ⟨?_, within.touched, within.past⟩
  simp only [refunded, amount, lane]
  exact bucket.restore least most gift small

theorem find?_refunded (table : StringMap Peer) (key name : Bytes) :
    (table.update key (·.map (refunded job cost))).find? name =
      if name = key then (table.find? key).map (refunded job cost)
      else table.find? name :=
  StringMap.find?_update ..

/-- A refund keeps the lane of every entry. -/
theorem lane_of_update {table : StringMap Peer} {key name : Bytes} {lane : Bool}
    (known : ∃ saved, table.find? name = some saved ∧ saved.validator = lane) :
    ∃ saved, (table.update key (·.map (refunded job cost))).find? name =
      some saved ∧ saved.validator = lane := by
  obtain ⟨saved, found, rfl⟩ := known
  rw [find?_refunded]
  split
  · next same =>
      subst same
      exact ⟨refunded job cost saved, by simp [found], rfl⟩
  · exact ⟨saved, found, rfl⟩

theorem within_of_update {table : StringMap Peer} {key : Bytes} {P : Bytes → Peer → Prop}
    (within : ∀ name saved, table.find? name = some saved → P name saved)
    (keeps : ∀ saved, table.find? key = some saved →
      P key (refunded job cost saved)) {name : Bytes} {saved : Peer}
    (found : (table.update key (·.map (refunded job cost))).find? name =
      some saved) : P name saved := by
  rw [find?_refunded] at found
  split at found
  · next same =>
      subst same
      obtain ⟨old, before, rfl⟩ := Option.map_eq_some_iff.mp found
      exact keeps old before
  · exact within name saved found

theorem Sound.prepare (sound : Sound lo hi clock state) (refunds : Refunds state job bytes cost) :
    Sound lo hi clock (prepare state job bytes cost) := by
  obtain ⟨amount, gift, small⟩ := sound.refund refunds
  have backed := sound.jobs job refunds.known
  have only : ∀ found ∈ state.active, found.id = job.id → found = job :=
    fun found known same => sound.eq_of_id known refunds.known same
  refine {
    publics := ?_
    validators := ?_
    peers := ?_
    networks := ?_
    ids := ?_
    lonely := ?_
    building := ?_
    replies := ?_
    jobs := ?_
    waiting := sound.waiting
    next := sound.next }
  · simp only [Query.prepare, amount]
    split
    · exact sound.publics
    · exact sound.publics.restore (by simp) (by simp) gift small
  · simp only [Query.prepare, amount]
    split
    · exact sound.validators.restore (by simp) (by simp) gift small
    · exact sound.validators
  · intro name saved found
    apply @within_of_update job cost _ _ _ sound.peers _ _ _ found
    intro old before
    obtain ⟨mine, same, lane⟩ := backed.peer
    rw [before] at same
    cases same
    exact sound.within_refunded refunds (sound.peers _ old before) lane
  · intro name saved found
    apply @within_of_update job cost _ _ _ sound.networks _ _ _ found
    intro old before
    obtain ⟨mine, same, lane⟩ := backed.network
    rw [before] at same
    cases same
    obtain ⟨within, named⟩ := sound.networks _ old before
    exact ⟨sound.within_refunded refunds within lane, named⟩
  · have ids := sound.ids
    simp only [Query.prepare, List.map_map]
    rwa [List.map_congr_left (g := (·.id))]
    intro found known
    simp only [Function.comp_apply]
    split <;> simp
  · have lonely := sound.lonely
    simp only [Query.prepare, List.map_map]
    rwa [List.map_congr_left (g := (·.peer))]
    intro found known
    simp only [Function.comp_apply]
    split <;> simp
  · intro lane
    apply le_trans _ (sound.building lane)
    simp only [laneCount, Query.prepare, List.countP_map]
    apply List.countP_mono_left
    intro found known
    simp only [Function.comp_apply]
    split <;> simp
  · intro lane
    apply le_trans _ (sound.replies lane)
    rw [laneBytes_eq, laneBytes_eq]
    simp only [Query.prepare, List.map_map]
    apply List.sum_le_sum
    intro found known
    simp only [Function.comp_apply]
    split
    · next same =>
        have twin := only found known same
        subst twin
        have whole : found.bytes = replyLimit := by simp [Job.bytes, refunds.building]
        have reply := refunds.reply
        simp only [laneShare, whole]
        split <;> simp_all [Job.bytes]
    · exact le_refl _
  · intro found member
    simp only [Query.prepare, List.mem_map] at member
    obtain ⟨old, known, rfl⟩ := member
    have before := sound.jobs old known
    have peer := @lane_of_update job cost _ job.peer _ _ before.peer
    have network := @lane_of_update job cost _ job.network _ _ before.network
    split
    · next same =>
        have twin := only old known same
        subst twin
        exact {
          least := refunds.least
          most := le_trans refunds.most before.most
          nonneg := refunds.nonneg
          reply := refunds.reply
          id := before.id
          peer := peer
          network := network }
    · exact { before with peer := peer, network := network }

theorem Sound.preparedFits (sound : Sound lo hi clock state)
    (id bytes cost : Int) : preparedFits state id bytes cost := by
  intro job found allowed
  obtain ⟨building, nonneg, reply, least, most⟩ := allowed
  have known := List.mem_of_find?_eq_some found
  have refunds : Refunds state job bytes cost := ⟨known, building, nonneg, reply, least, most⟩
  obtain ⟨amount, gift, small⟩ := sound.refund refunds
  obtain ⟨lower, upper⟩ := capacityOf_bounds job.validator
  have wide : ∀ saved : Peer, saved.Within lo hi clock →
      saved.bucket.Within lo hi 64 := fun saved within =>
    within.bucket.mono (capacityOf_bounds saved.validator).2
  refine ⟨?_, ?_, ?_, ?_⟩
  · rw [fits64_iff]
    simp only [unitCredit] at gift small ⊢
    omega
  · intro saved before
    exact restoreFits_of_within (wide saved (sound.peers _ saved before)) lower upper gift small
  · intro saved before
    exact restoreFits_of_within (wide saved (sound.networks _ saved before).1)
      lower upper gift small
  · cases lane : job.validator with
    | true =>
      exact restoreFits_of_within sound.validators (by simp [laneCapacity])
        (by simp [laneCapacity]) gift small
    | false =>
      exact restoreFits_of_within (sound.publics.mono (by simp))
        (by simp [laneCapacity]) (by simp [laneCapacity]) gift small

end Prepared

/-! ## Requests -/

/-- What the first checks of a request guarantee. -/
structure Considered (state : State) (request : Request) : Prop where
  idle : ∀ job ∈ state.active, job.peer ≠ request.peer
  few : laneCount state.active request.validator < 2
  replies : laneBytes state request.validator ≤ laneLimit - replyLimit
  least : 1 ≤ request.cost
  most : request.cost ≤ 16
  next : state.next ≠ maxInt

theorem considered_of_refuses {request : Request}
    (passes : refuses state request = false) : Considered state request := by
  simp only [refuses, Bool.or_eq_false_iff, decide_eq_false_iff_not,
    List.any_eq_false, decide_eq_true_eq] at passes
  obtain ⟨⟨⟨⟨⟨idle, few⟩, replies⟩, least⟩, most⟩, next⟩ := passes
  refine ⟨idle, ?_, by omega, by omega, by omega, next⟩
  simp only [laneCount]
  simpa using few

/-- How a request is answered. -/
inductive Answers (state : State) (request : Request) : State × Option Int → Prop where
  | ignored : Answers state request (state, none)
  | delayed (considered : Considered state request) :
      Answers state request
        ({ state with
          peers := recentPeers state request.now
          networks := recentNetworks state request.now
          waiting := enlisted (recentPeers state request.now)
            (stillWaiting state request) request }, none)
  | granted (considered : Considered state request)
      (paid : payable state (recentPeers state request.now)
        (recentNetworks state request.now) request = true) :
      Answers state request
        (admission state (recentPeers state request.now)
          (recentNetworks state request.now) request, some state.next)

theorem start_answers (state : State) (request : Request) :
    Answers state request (start state request) := by
  simp only [start]
  split
  · exact .ignored
  · next passes =>
      have considered := considered_of_refuses (by simpa using passes)
      split
      · exact .ignored
      · split
        · next paid => exact .granted considered paid
        · exact .delayed considered

variable {now : Int}

theorem found_of_recentPeers {name : Bytes} {saved : Peer}
    (found : (recentPeers state now).find? name = some saved) :
    state.peers.find? name = some saved := by
  rw [recentPeers, StringMap.find?_filter, Option.filter_eq_some_iff] at found
  exact found.1

theorem found_of_recentNetworks {name : Bytes} {saved : Peer}
    (found : (recentNetworks state now).find? name = some saved) :
    state.networks.find? name = some saved := by
  rw [recentNetworks, StringMap.find?_filter, Option.filter_eq_some_iff] at found
  exact found.1

/-- The peer and the network of a job are not forgotten. -/
theorem recent_of_active {job : Job} (known : job ∈ state.active) :
    (recentPeers state now).find? job.peer = state.peers.find? job.peer ∧
      (recentNetworks state now).find? job.network = state.networks.find? job.network := by
  have peer : state.active.any (·.peer = job.peer) = true :=
    List.any_eq_true.mpr ⟨job, known, by simp⟩
  have network : state.active.any (·.network = job.network) = true :=
    List.any_eq_true.mpr ⟨job, known, by simp⟩
  rw [recentPeers, recentNetworks, StringMap.find?_filter, StringMap.find?_filter]
  constructor
  · cases state.peers.find? job.peer <;> simp [Option.filter_some, remembered, peer]
  · cases state.networks.find? job.network <;>
      simp [Option.filter_some, remembered, network]

section Requests

variable {request : Request}

theorem stillWaiting_bounds (sound : Sound lo hi clock state)
    (considered : Considered state request) :
    ∀ item ∈ stillWaiting state request, 1 ≤ item.cost ∧ item.cost ≤ 16 := by
  intro item member
  obtain ⟨old, kept, rfl⟩ := List.mem_map.mp member
  split
  · exact ⟨considered.least, considered.most⟩
  · exact sound.waiting old (List.mem_of_mem_filter kept)

theorem enlisted_bounds {waiting : List Waiting} {peers : StringMap Peer}
    (bounds : ∀ item ∈ waiting, 1 ≤ item.cost ∧ item.cost ≤ 16)
    (considered : Considered state request) :
    ∀ item ∈ enlisted peers waiting request, 1 ≤ item.cost ∧ item.cost ≤ 16 := by
  intro item member
  simp only [enlisted] at member
  split at member
  · exact bounds item member
  · rcases List.mem_append.mp member with old | new
    · exact bounds item old
    · rw [List.mem_singleton.mp new]
      exact ⟨considered.least, considered.most⟩

theorem Sound.delayed (sound : Sound lo hi clock state)
    (considered : Considered state request) (order : clock ≤ request.now) :
    Sound lo hi request.now
      { state with
        peers := recentPeers state request.now
        networks := recentNetworks state request.now
        waiting := enlisted (recentPeers state request.now)
          (stillWaiting state request) request } where
  publics := sound.publics
  validators := sound.validators
  peers := by
    intro name saved found
    have within := sound.peers name saved (found_of_recentPeers found)
    exact { within with past := le_trans within.past order }
  networks := by
    intro name saved found
    obtain ⟨within, named⟩ := sound.networks name saved (found_of_recentNetworks found)
    exact ⟨{ within with past := le_trans within.past order }, named⟩
  ids := sound.ids
  lonely := sound.lonely
  building := sound.building
  replies := sound.replies
  jobs := by
    intro job known
    have backed := sound.jobs job known
    obtain ⟨peer, network⟩ := @recent_of_active state request.now _ known
    exact {
      backed with
      peer := by
        rw [peer]
        exact backed.peer
      network := by
        rw [network]
        exact backed.network }
  waiting := enlisted_bounds (stillWaiting_bounds sound considered) considered
  next := sound.next

theorem rateOf_bounds (validator : Bool) : 1 ≤ rateOf validator ∧ rateOf validator ≤ 16 := by
  cases validator <;> simp [rateOf]

/-- Buckets of peers or of networks, as a request may find them. -/
def Filled (lo hi clock : Int) (table : StringMap Peer) : Prop :=
  ∀ name saved, table.find? name = some saved → saved.Within lo hi clock

theorem Sound.filledPeers (sound : Sound lo hi clock state) (now : Int) :
    Filled lo hi clock (recentPeers state now) := fun name saved found =>
  sound.peers name saved (found_of_recentPeers found)

theorem Sound.filledNetworks (sound : Sound lo hi clock state) (now : Int) :
    Filled lo hi clock (recentNetworks state now) := fun name saved found =>
  (sound.networks name saved (found_of_recentNetworks found)).1

theorem bucketsFit_of_filled (timely : Timely lo hi) {table : StringMap Peer}
    (filled : Filled lo hi clock table) (early : lo ≤ request.now)
    (late : request.now ≤ hi) : bucketsFit table request := by
  intro name saved found
  obtain ⟨least, most⟩ := capacityOf_bounds request.validator
  obtain ⟨gain, slow⟩ := rateOf_bounds request.validator
  have within := (filled name saved found).bucket.mono (capacityOf_bounds saved.validator).2
  exact refillFits_of_within timely within least most (by omega) slow early late

theorem bucketFor_within (timely : Timely lo hi) {table : StringMap Peer}
    (filled : Filled lo hi clock table) (early : lo ≤ request.now)
    (late : request.now ≤ hi) (order : clock ≤ request.now) (name : Bytes) :
    (bucketFor table name request).Within lo hi
        (capacityOf request.validator) ∧
      (bucketFor table name request).atTime = request.now := by
  obtain ⟨least, most⟩ := capacityOf_bounds request.validator
  obtain ⟨gain, slow⟩ := rateOf_bounds request.validator
  simp only [bucketFor]
  split
  · exact ⟨within_initial least most early late, rfl⟩
  · next saved found =>
      have entry := filled name saved found
      have wide := entry.bucket.mono (capacityOf_bounds saved.validator).2
      have touched := entry.touched
      have past := entry.past
      refine ⟨wide.refill timely least most gain slow early late, ?_⟩
      simp only [refill]
      omega

theorem laneCapacity_bounds (validator : Bool) :
    0 ≤ laneCapacity validator ∧ laneCapacity validator ≤ 64 := by
  cases validator <;> simp [laneCapacity]

theorem laneRate_bounds (validator : Bool) : 1 ≤ laneRate validator ∧ laneRate validator ≤ 16 := by
  cases validator <;> simp [laneRate]

theorem Sound.lane (sound : Sound lo hi clock state) (validator : Bool) :
    (state.lane validator).Within lo hi (laneCapacity validator) := by
  cases validator with
  | true => exact sound.validators
  | false => exact sound.publics

theorem laneBucket_within (timely : Timely lo hi)
    (sound : Sound lo hi clock state) (early : lo ≤ request.now) (late : request.now ≤ hi) :
    (laneBucket state request).Within lo hi (laneCapacity request.validator) := by
  obtain ⟨least, most⟩ := laneCapacity_bounds request.validator
  obtain ⟨gain, slow⟩ := laneRate_bounds request.validator
  exact ((sound.lane request.validator).mono most).refill timely least most gain slow early late

theorem price_le_of_room (considered : Considered state request) {funds : Int}
    {first : Option Waiting} (bounds : ∀ item ∈ first, 1 ≤ item.cost ∧ item.cost ≤ 16)
    (enough : room request funds first = true) : request.cost * unitCredit ≤ funds := by
  have least := considered.least
  have most := considered.most
  have price := @credit_eq request.cost (by omega) (by omega)
  simp only [room] at enough
  split at enough
  · next item =>
      obtain ⟨low, high⟩ := bounds item rfl
      have theirs := @credit_eq item.cost (by omega) (by omega)
      have fits : Fits64 (request.cost * unitCredit + item.cost * unitCredit) := by
        rw [fits64_iff]
        simp only [unitCredit]
        omega
      split at enough
      · rw [price, theirs, int64Add_eq fits, decide_eq_true_eq] at enough
        simp only [unitCredit] at enough ⊢
        omega
      · rw [price] at enough
        simpa using enough
  · rw [price] at enough
    simpa using enough

/-- What a request that can be paid finds in its buckets. -/
structure Affords (state : State) (request : Request) : Prop where
  peer : request.cost * unitCredit ≤
    (bucketFor (recentPeers state request.now) request.peer request).credit
  network : request.cost * unitCredit ≤
    (bucketFor (recentNetworks state request.now) request.group request).credit
  lane : request.cost * unitCredit ≤ (laneBucket state request).credit

theorem affords_of_payable (sound : Sound lo hi clock state) (considered : Considered state request)
    (paid : payable state (recentPeers state request.now)
      (recentNetworks state request.now) request = true) :
    Affords state request := by
  have least := considered.least
  have most := considered.most
  have price := @credit_eq request.cost (by omega) (by omega)
  have bounds := stillWaiting_bounds sound considered
  simp only [payable, Bool.and_eq_true, decide_eq_true_eq, price] at paid
  obtain ⟨⟨⟨peer, network⟩, lane⟩, _⟩ := paid
  refine ⟨peer, network, price_le_of_room considered ?_ lane⟩
  intro item found
  exact bounds item (List.mem_of_find?_eq_some found)

/-- The entry that a granted request leaves. -/
theorem within_charged (considered : Considered state request) {bucket : Bucket}
    (within : bucket.Within lo hi (capacityOf request.validator))
    (touched : bucket.atTime = request.now) (enough : request.cost * unitCredit ≤ bucket.credit) :
    (⟨bucket.charge (credit request.cost), request.now,
      request.validator⟩ : Peer).Within lo hi request.now := by
  have least := considered.least
  have most := considered.most
  have price := @credit_eq request.cost (by omega) (by omega)
  have paid : 0 ≤ request.cost * unitCredit := by
    simp only [unitCredit]
    omega
  rw [price]
  refine ⟨within.charge (capacityOf_bounds _).2 paid enough, ?_, le_refl _⟩
  simp [Bucket.charge, touched]

theorem Sound.granted (timely : Timely lo hi)
    (sound : Sound lo hi clock state) (considered : Considered state request)
    (affords : Affords state request) (order : clock ≤ request.now)
    (early : lo ≤ request.now) (late : request.now ≤ hi) :
    Sound lo hi request.now
      (admission state (recentPeers state request.now)
        (recentNetworks state request.now) request) := by
  have least := considered.least
  have most := considered.most
  have price := @credit_eq request.cost (by omega) (by omega)
  have paid : 0 ≤ request.cost * unitCredit := by
    simp only [unitCredit]
    omega
  obtain ⟨peerWithin, peerTouched⟩ := bucketFor_within timely
    (sound.filledPeers request.now) early late order request.peer
  obtain ⟨groupWithin, groupTouched⟩ := bucketFor_within timely
    (sound.filledNetworks request.now) early late order request.group
  have laneWithin := (laneBucket_within timely sound early late).charge
    (laneCapacity_bounds _).2 paid affords.lane
  have newPeer := within_charged considered peerWithin peerTouched affords.peer
  have newGroup := within_charged considered groupWithin groupTouched affords.network
  have busy : ∀ job ∈ state.active, job.id ≠ state.next := by
    intro job known same
    have below := (sound.jobs job known).id
    omega
  refine {
    publics := ?_
    validators := ?_
    peers := ?_
    networks := ?_
    ids := ?_
    lonely := ?_
    building := ?_
    replies := ?_
    jobs := ?_
    waiting := ?_
    next := ?_ }
  · simp only [admission, price]
    split
    · exact sound.publics
    · next lane => simpa [lane, laneCapacity] using laneWithin
  · simp only [admission, price]
    split
    · next lane => simpa [lane, laneCapacity] using laneWithin
    · exact sound.validators
  · intro name saved found
    simp only [admission] at found
    rw [StringMap.find?_add] at found
    split at found
    · cases found
      exact newPeer
    · have within := sound.peers name saved (found_of_recentPeers found)
      exact { within with past := le_trans within.past order }
  · intro name saved found
    simp only [admission] at found
    rw [StringMap.find?_add] at found
    split at found
    · next same =>
        cases found
        subst same
        exact ⟨newGroup, group_eq request⟩
    · obtain ⟨within, named⟩ := sound.networks name saved (found_of_recentNetworks found)
      exact ⟨{ within with past := le_trans within.past order }, named⟩
  · simp only [admission, List.map_cons, List.nodup_cons]
    refine ⟨?_, sound.ids⟩
    intro member
    obtain ⟨job, known, same⟩ := List.mem_map.mp member
    exact busy job known same
  · simp only [admission, List.map_cons, List.nodup_cons]
    refine ⟨?_, sound.lonely⟩
    intro member
    obtain ⟨job, known, same⟩ := List.mem_map.mp member
    exact considered.idle job known same
  · intro lane
    have before := sound.building lane
    have few := considered.few
    simp only [admission, laneCount, List.countP_cons] at before few ⊢
    by_cases same : request.validator = lane
    · subst same
      simp only [decide_true, and_self, if_true] at few ⊢
      omega
    · simpa [same] using before
  · intro lane
    have before := sound.replies lane
    have replies := considered.replies
    rw [laneBytes_eq] at before replies ⊢
    simp only [admission, List.map_cons, List.sum_cons, laneShare, Job.bytes]
    by_cases same : request.validator = lane
    · subst same
      rw [if_pos rfl]
      omega
    · rw [if_neg same]
      omega
  · intro job member
    rcases List.mem_cons.mp member with rfl | known
    · refine {
        least := considered.least
        most := considered.most
        nonneg := by simp [Job.bytes, replyLimit]
        reply := by simp [Job.bytes]
        id := ⟨sound.next.1, by simp [admission]⟩
        peer := ?_
        network := ?_ }
      · simp only [admission]
        rw [StringMap.find?_add, if_pos rfl]
        exact ⟨_, rfl, rfl⟩
      · simp only [admission]
        rw [StringMap.find?_add, if_pos rfl]
        exact ⟨_, rfl, rfl⟩
    · have backed := sound.jobs job known
      obtain ⟨peer, network⟩ := @recent_of_active state request.now _ known
      refine {
        backed with
        id := ⟨backed.id.1, ?_⟩
        peer := ?_
        network := ?_ }
      · simp only [admission]
        have below := backed.id.2
        omega
      · simp only [admission]
        rw [StringMap.find?_add, if_neg (considered.idle job known), peer]
        exact backed.peer
      · simp only [admission]
        rw [StringMap.find?_add]
        split
        · next same =>
            obtain ⟨saved, found, lane⟩ := backed.network
            obtain ⟨_, who, named⟩ := sound.networks _ saved found
            obtain ⟨name, group⟩ := group_eq request
            have lanes := lane_of_groupName (named.symm.trans (same.trans group))
            exact ⟨_, rfl, lanes.symm.trans lane⟩
        · rw [network]
          exact backed.network
  · intro item member
    exact stillWaiting_bounds sound considered item (List.mem_of_mem_filter member)
  · have bound := sound.next
    have room := considered.next
    simp only [admission]
    omega

theorem Sound.startFits (timely : Timely lo hi)
    (sound : Sound lo hi clock state) (order : clock ≤ request.now)
    (early : lo ≤ request.now) (late : request.now ≤ hi) : startFits state request := by
  have span := timely.span
  have after := timely.most
  have before := timely.least
  simp only [waitSpan] at after
  have recent : ∀ saved : Peer, saved.Within lo hi clock → rememberedFits request.now saved := by
    intro saved within seen
    have since := within.bucket.early
    have touched := within.touched
    rw [fits64_iff]
    omega
  intro passes
  have considered := considered_of_refuses passes
  have least := considered.least
  have most := considered.most
  refine ⟨fun name saved found => recent saved (sound.peers name saved found),
    fun name saved found => recent saved (sound.networks name saved found).1,
    fun _ => ⟨?_, ?_, ?_, ?_, ?_, ?_, ?_, ?_⟩⟩
  · rw [fits64_iff]
    obtain ⟨low, high⟩ := capacityOf_bounds request.validator
    simp only [unitCredit]
    omega
  · rw [fits64_iff]
    simp only [unitCredit]
    omega
  · exact bucketsFit_of_filled timely (sound.filledPeers request.now) early late
  · exact bucketsFit_of_filled timely (sound.filledNetworks request.now) early late
  · obtain ⟨low, high⟩ := laneCapacity_bounds request.validator
    obtain ⟨gain, slow⟩ := laneRate_bounds request.validator
    exact refillFits_of_within timely ((sound.lane _).mono high) low high
      (by omega) slow early late
  · rw [fits64_iff]
    simp only [waitSpan]
    omega
  · intro item member
    obtain ⟨low, high⟩ := stillWaiting_bounds sound considered item member
    rw [fits64_iff, fits64_iff]
    simp only [unitCredit]
    omega
  · intro paid
    have affords := affords_of_payable sound considered paid
    have peer := (bucketFor_within timely (sound.filledPeers request.now) early
      late order request.peer).1
    have network := (bucketFor_within timely
      (sound.filledNetworks request.now) early late order request.group).1
    have lane := laneBucket_within timely sound early late
    have exact : ∀ (bucket : Bucket) (capacity : Int), capacity ≤ 64 →
        bucket.Within lo hi capacity →
        request.cost * unitCredit ≤ bucket.credit →
          Fits64 (bucket.credit - request.cost * unitCredit) := by
      intro bucket capacity small within enough
      have bounded := within.most
      rw [fits64_iff]
      simp only [unitCredit] at bounded enough ⊢
      omega
    exact ⟨exact _ _ (capacityOf_bounds _).2 peer affords.peer,
      exact _ _ (capacityOf_bounds _).2 network affords.network,
      exact _ _ (laneCapacity_bounds _).2 lane affords.lane⟩

end Requests

/-- The time of the last request after a message. -/
def clockAfter (clock : Int) : Message → Int
  | .start request => request.now
  | .finish _ | .prepared .. => clock

/-- Requests come in order, with times of a range. -/
def InTime (lo hi clock : Int) : Message → Prop
  | .start request => clock ≤ request.now ∧ lo ≤ request.now ∧ request.now ≤ hi
  | .finish _ | .prepared .. => True

theorem Sound.later (sound : Sound lo hi clock state) {later : Int}
    (order : clock ≤ later) : Sound lo hi later state where
  publics := sound.publics
  validators := sound.validators
  peers := fun name saved found =>
    { sound.peers name saved found with
      past := le_trans (sound.peers name saved found).past order }
  networks := fun name saved found =>
    ⟨{ (sound.networks name saved found).1 with
        past := le_trans (sound.networks name saved found).1.past order },
      (sound.networks name saved found).2⟩
  ids := sound.ids
  lonely := sound.lonely
  building := sound.building
  replies := sound.replies
  jobs := sound.jobs
  waiting := sound.waiting
  next := sound.next

/-- Every message leaves a gate sound. -/
theorem Sound.step (timely : Timely lo hi) (sound : Sound lo hi clock state)
    {message : Message} (inTime : InTime lo hi clock message) :
    Sound lo hi (clockAfter clock message) (step state message).1 := by
  cases message with
  | start request =>
    obtain ⟨order, early, late⟩ := inTime
    have answers := start_answers state request
    simp only [Query.step, clockAfter]
    generalize start state request = answer at answers
    cases answers with
    | ignored => exact sound.later order
    | delayed considered => exact sound.delayed considered order
    | granted considered paid =>
      exact sound.granted timely considered
        (affords_of_payable sound considered paid) order early late
  | finish id => exact sound.finish id
  | prepared id bytes cost =>
    simp only [Query.step, clockAfter]
    rcases prepared_cases state id bytes cost with same |
      ⟨job, _, refunds, same⟩
    · rw [same]
      exact sound
    · rw [same]
      exact sound.prepare refunds

theorem Sound.stepFits (timely : Timely lo hi) (sound : Sound lo hi clock state) {message : Message}
    (inTime : InTime lo hi clock message) : StepFits state message := by
  cases message with
  | start request => exact sound.startFits timely inTime.1 inTime.2.1 inTime.2.2
  | finish id => trivial
  | prepared id bytes cost => exact sound.preparedFits id bytes cost

theorem sound_create (early : lo ≤ now) (late : now ≤ hi)
    (clock : Int) : Sound lo hi clock (create now) where
  publics := within_initial (by simp) (by simp) early late
  validators := within_initial (by simp) (by simp) early late
  peers := by
    intro name saved found
    simp [create, StringMap.find?, StringMap.empty] at found
  networks := by
    intro name saved found
    simp [create, StringMap.find?, StringMap.empty] at found
  ids := by simp [create]
  lonely := by simp [create]
  building := by simp [create, laneCount]
  replies := by simp [create, laneBytes, laneLimit, replyLimit]
  jobs := by simp [create]
  waiting := by simp [create]
  next := by simp [create, maxInt]

end Query
end LiteNode
