import LiteNode.Query.Soundness

/-!
# Rates of a query gate

Over any interval a lane, a network or a peer is charged no more than its
capacity and what it earns in the meantime, however often it is forgotten.
-/

namespace LiteNode
namespace Query

def started (state : State) (message : Message) : Option Job :=
  match message, step state message with
  | .start _, (next, some id) => next.active.find? (·.id = id)
  | _, _ => none

/-- The job that a message prepares, and what is refunded to it. -/
def refundOf (state : State) (message : Message) : Option (Job × Int) :=
  match message, step state message with
  | .prepared id _ cost, (_, some _) =>
    (state.active.find? (·.id = id)).map fun job => (job, job.cost - cost)
  | _, _ => none

def startedIn : State → List Message → List Job
  | _, [] => []
  | state, message :: rest =>
    (started state message).toList ++ startedIn (step state message).1 rest

/-- Cost charged to some jobs by a message, less what is refunded to them. -/
def charge (who : Job → Bool) (state : State) (message : Message) : Int :=
  (match started state message with
    | some job => if who job then job.cost else 0
    | none => 0) -
  match refundOf state message with
    | some (job, refund) => if who job then refund else 0
    | none => 0

/-- Cost charged to some jobs, less what is refunded to them. -/
def spent (who : Job → Bool) : State → List Message → Int
  | _, [] => 0
  | state, message :: rest => charge who state message + spent who (step state message).1 rest

def jobOf (state : State) (request : Request) : Job :=
  ⟨state.next, request.peer, request.group, request.validator, request.cost, .building⟩

/-- What a message does to buckets and jobs. -/
inductive Effect (state : State) : Message → State → Prop where
  | none {message : Message} {next : State}
      (publics : next.publics = state.publics)
      (validators : next.validators = state.validators)
      (peers : next.peers = state.peers)
      (networks : next.networks = state.networks)
      (ids : next.next = state.next)
      (free : ∀ who, charge who state message = 0)
      (idle : started state message = none) :
      Effect state message next
  | delayed (request : Request) (waiting : List Waiting)
      (considered : Considered state request)
      (free : ∀ who, charge who state (.start request) = 0)
      (idle : started state (.start request) = Option.none) :
      Effect state (.start request)
        { state with
          peers := recentPeers state request.now
          networks := recentNetworks state request.now
          waiting }
  | granted (request : Request) (considered : Considered state request)
      (affords : Affords state request)
      (paid : ∀ who, charge who state (.start request) =
        if who (jobOf state request) then request.cost else 0)
      (opened : started state (.start request) = some (jobOf state request)) :
      Effect state (.start request)
        (admission state (recentPeers state request.now)
          (recentNetworks state request.now) request)
  | prepared (id bytes cost : Int) (job : Job)
      (refunds : Refunds state job bytes cost)
      (gives : ∀ who, charge who state (.prepared id bytes cost) =
        -if who job then job.cost - cost else 0)
      (idle : started state (.prepared id bytes cost) = Option.none) :
      Effect state (.prepared id bytes cost) (prepare state job bytes cost)

variable {lo hi clock : Int} {state : State}

theorem Sound.effect (sound : Sound lo hi clock state) (message : Message) :
    Effect state message (Query.step state message).1 := by
  cases message with
  | start request =>
    have answers := start_answers state request
    have begun : started state (.start request) =
        (start state request).2.bind fun id =>
          (start state request).1.active.find? (·.id = id) := by
      simp only [started, Query.step]
      rcases start state request with ⟨next, _ | id⟩ <;> simp
    have unpaid : refundOf state (.start request) = none := by simp [refundOf]
    have price : ∀ who, charge who state (.start request) =
        (started state (.start request)).elim 0 fun job => if who job then job.cost else 0 := by
      intro who
      cases opened : started state (.start request) <;> simp [charge, unpaid, opened]
    simp only [Query.step]
    generalize start state request = answer at answers begun
    cases answers with
    | ignored => exact .none rfl rfl rfl rfl rfl (fun who => by simp [price, begun]) begun
    | delayed considered =>
      exact .delayed request _ considered (fun who => by simp [price, begun]) begun
    | granted considered paid =>
      have opened : started state (.start request) = some (jobOf state request) := by
        rw [begun]
        simp [admission, jobOf]
      exact .granted request considered
        (affords_of_payable sound considered paid)
        (fun who => by rw [price, opened]; rfl) opened
  | finish id =>
    exact .none rfl rfl rfl rfl rfl
      (by simp [charge, started, refundOf, Query.step]) (by simp [started])
  | prepared id bytes cost =>
    rcases prepared_cases state id bytes cost with same |
      ⟨job, found, refunds, same⟩
    · simp only [Query.step, same]
      exact .none rfl rfl rfl rfl rfl
        (by simp [charge, started, refundOf, Query.step, same])
        (by simp [started])
    · have gives : refundOf state (.prepared id bytes cost) = some (job, job.cost - cost) := by
        simp [refundOf, Query.step, same, found]
      simp only [Query.step, same]
      exact .prepared id bytes cost job refunds
        (fun who => by simp [charge, started, gives]) (by simp [started])

def Bucket.level (bucket : Bucket) (capacity rate now : Int) : Int :=
  LiteNode.level (capacity * unitCredit) rate bucket.credit bucket.atTime now

/-- The level of a peer or network: one that was forgotten is full. -/
def gauge (capacity rate : Int) (table : StringMap Peer) (key : Bytes) (now : Int) : Int :=
  match table.find? key with
  | none => capacity * unitCredit
  | some saved => saved.bucket.level capacity rate now

section Levels

variable {capacity rate capacity' rate' now : Int}

theorem level_charged {bucket : Bucket} (within : bucket.Within lo hi 64)
    (fits : refillFits now capacity rate bucket) (least : 0 ≤ capacity)
    (most : capacity ≤ 64) (gain : 1 ≤ rate) (room : capacity ≤ capacity')
    (faster : rate ≤ rate') {price : Int} (paid : 0 ≤ price)
    (small : (refill now capacity rate bucket).Within lo hi 64)
    (enough : price ≤ (refill now capacity rate bucket).credit) :
    ((refill now capacity rate bucket).charge price).level capacity' rate'
        now + price ≤ bucket.level capacity' rate' now := by
  have filled := refill_eq fits within.nonneg least most gain
  rw [charge_eq small paid enough]
  rw [filled] at enough ⊢
  have more : LiteNode.level (capacity * unitCredit) rate bucket.credit
      bucket.atTime now ≤ bucket.level capacity' rate' now := by
    apply level_mono _ faster
    simp only [unitCredit]
    omega
  have bound : LiteNode.level (capacity * unitCredit) rate bucket.credit
      bucket.atTime now ≤ capacity * unitCredit := level_le_capacity
  have left := @level_of_le (capacity' * unitCredit) rate'
    (LiteNode.level (capacity * unitCredit) rate bucket.credit bucket.atTime now - price)
    (max now bucket.atTime) now (by simp only [unitCredit] at bound ⊢; omega)
    (le_max_left ..)
  simp only [Bucket.level] at more ⊢
  omega

theorem level_restored {bucket : Bucket} (within : bucket.Within lo hi 64)
    (least : 0 ≤ capacity) (most : capacity ≤ 64) {refund : Int}
    (gift : 0 ≤ refund) (small : refund ≤ 64 * unitCredit) :
    (restore refund capacity bucket).level capacity' rate' now ≤
      bucket.level capacity' rate' now + refund := by
  rw [restore_eq (restoreFits_of_within within least most gift small) least most]
  exact level_refund gift

theorem Bucket.Within.level_nonneg {bucket : Bucket}
    (within : bucket.Within lo hi capacity') (least : 0 ≤ capacity)
    (gain : 0 ≤ rate) : 0 ≤ bucket.level capacity rate now := by
  apply LiteNode.level_nonneg _ gain within.nonneg
  simp only [unitCredit]
  omega

theorem Bucket.level_later (bucket : Bucket) (gain : 0 ≤ rate) {later : Int} (order : now ≤ later) :
    bucket.level capacity rate later ≤ bucket.level capacity rate now + rate * (later - now) :=
  LiteNode.level_later gain order

theorem gauge_le (table : StringMap Peer) (key : Bytes) :
    gauge capacity rate table key now ≤ capacity * unitCredit := by
  simp only [gauge]
  split
  · exact le_refl _
  · exact level_le_capacity

theorem gauge_nonneg {table : StringMap Peer} (filled : Filled lo hi clock table)
    (least : 0 ≤ capacity) (gain : 0 ≤ rate) (key : Bytes) :
    0 ≤ gauge capacity rate table key now := by
  simp only [gauge]
  split
  · simp only [unitCredit]
    omega
  · next saved found => exact (filled key saved found).bucket.level_nonneg least gain

theorem gauge_later (table : StringMap Peer) (key : Bytes) (gain : 0 ≤ rate)
    {later : Int} (order : now ≤ later) :
    gauge capacity rate table key later ≤
      gauge capacity rate table key now + rate * (later - now) := by
  simp only [gauge]
  split
  · have more : 0 ≤ rate * (later - now) := mul_nonneg gain (by omega)
    omega
  · next saved found => exact saved.bucket.level_later gain order

/-- What is forgotten was full. -/
theorem gauge_filter (timely : Timely lo hi) {table : StringMap Peer}
    (filled : Filled lo hi clock table) (late : now ≤ hi)
    (gain : 0 ≤ rate) (fast : capacity ≤ rate * 60) (used : Bytes → Bool) (key : Bytes) :
    gauge capacity rate
        (table.filter fun name saved => remembered now saved (used name)) key
        now ≤ gauge capacity rate table key now := by
  simp only [gauge]
  rw [StringMap.find?_filter]
  cases found : table.find? key with
  | none => simp
  | some saved =>
    have within := filled key saved found
    by_cases kept : remembered now saved (used key) = true
    · simp [Option.filter_some, kept]
    · have early := within.bucket.early
      have touched := within.touched
      have span := timely.span
      simp only [Option.filter_some, if_neg kept]
      simp only [remembered, Bool.or_eq_true, decide_eq_true_eq, not_or] at kept
      obtain ⟨⟨after, old⟩, _⟩ := kept
      have fits : Fits64 (now - saved.seen) := by
        rw [fits64_iff]
        omega
      rw [int64Sub_eq fits] at old
      have full := @level_of_idle (capacity * unitCredit) _ _
        saved.bucket.atTime now within.bucket.nonneg gain idleSpan
        (by simp only [unitCredit, idleSpan]; omega) (by omega)
      simp only [Bucket.level]
      omega

/-- A granted request lowers the level by its price. -/
theorem gauge_granted (timely : Timely lo hi) {request : Request}
    {table : StringMap Peer} (filled : Filled lo hi clock table)
    (order : clock ≤ request.now) (early : lo ≤ request.now) (late : request.now ≤ hi)
    (room : capacityOf request.validator ≤ capacity)
    (faster : rateOf request.validator ≤ rate) {price : Int} (paid : 0 ≤ price) {key : Bytes}
    (enough : price ≤ (bucketFor table key request).credit) (other : Bytes) :
    gauge capacity rate
          (table.add key ⟨(bucketFor table key request).charge price,
            request.now, request.validator⟩) other request.now +
        (if other = key then price else 0) ≤
      gauge capacity rate table other request.now := by
  obtain ⟨least, most⟩ := capacityOf_bounds request.validator
  obtain ⟨gain, slow⟩ := rateOf_bounds request.validator
  have within := (bucketFor_within timely filled early late order key).1
  simp only [gauge]
  rw [StringMap.find?_add]
  by_cases same : other = key
  · subst same
    simp only [if_true]
    cases found : table.find? other with
    | none =>
      have start : bucketFor table other request =
          initial request.now (capacityOf request.validator) := by
        simp [bucketFor, found]
      rw [start] at enough within ⊢
      rw [charge_eq (within.mono most) paid enough]
      simp only [initial] at enough ⊢
      rw [credit_eq (by omega) most] at enough ⊢
      have left := @level_of_le (capacity * unitCredit) rate
        (capacityOf request.validator * unitCredit - price) request.now
        request.now (by simp only [unitCredit]; omega) (le_refl _)
      simp only [Bucket.level]
      rw [left]
      simp only [unitCredit]
      omega
    | some saved =>
      have start : bucketFor table other request =
          refill request.now (capacityOf request.validator)
            (rateOf request.validator) saved.bucket := by
        simp [bucketFor, found]
      rw [start] at enough within ⊢
      have wide := (filled other saved found).bucket.mono (capacityOf_bounds saved.validator).2
      exact level_charged wide
        (bucketsFit_of_filled timely filled early late other saved found)
        least most gain room faster paid (within.mono most) enough
  · simp [same]

/-- A refund raises the level of its job's entry by no more than itself. -/
theorem gauge_refunded {table : StringMap Peer}
    (filled : Filled lo hi clock table) {job : Job} {cost : Int}
    (amount : credit (job.cost - cost) = (job.cost - cost) * unitCredit)
    (gift : 0 ≤ (job.cost - cost) * unitCredit)
    (small : (job.cost - cost) * unitCredit ≤ 64 * unitCredit) (key other : Bytes) :
    gauge capacity rate (table.update key (·.map (refunded job cost))) other
        now ≤
      gauge capacity rate table other now +
        if other = key then (job.cost - cost) * unitCredit else 0 := by
  obtain ⟨least, most⟩ := capacityOf_bounds job.validator
  simp only [gauge]
  rw [find?_refunded]
  by_cases same : other = key
  · subst same
    cases found : table.find? other with
    | none => simpa using gift
    | some saved =>
      have wide := (filled other saved found).bucket.mono (capacityOf_bounds saved.validator).2
      simp only [Option.map_some, refunded, amount]
      exact level_restored wide least most gift small
  · simp [same]

end Levels

/-- Whether a request comes at a time. -/
def AtTime (now : Int) : Message → Prop
  | .start request => request.now = now
  | .finish _ | .prepared .. => True

/-- Credit that bounds what some jobs are charged. -/
structure Meter (lo hi : Int) (who : Job → Bool) (allowed : Job → Prop)
    (capacity rate : Int) (credit : State → Int → Int) : Prop where
  gain : 0 ≤ rate
  most : ∀ state now, credit state now ≤ capacity * unitCredit
  nonneg : ∀ {clock state} now, Sound lo hi clock state → 0 ≤ credit state now
  later : ∀ state {now later}, now ≤ later →
    credit state later ≤ credit state now + rate * (later - now)
  step : ∀ {clock state message} now, Sound lo hi clock state →
    InTime lo hi clock message → AtTime now message →
    (∀ job ∈ started state message, who job = true → allowed job) →
    credit (step state message).1 now + charge who state message * unitCredit ≤ credit state now

theorem meter_lane (timely : Timely lo hi) (lane : Bool) :
    Meter lo hi (fun job => job.validator = lane) (fun _ => True)
      (laneCapacity lane) (laneRate lane)
      (fun state now => (state.lane lane).level (laneCapacity lane) (laneRate lane) now) := by
  obtain ⟨least, most⟩ := laneCapacity_bounds lane
  obtain ⟨gain, slow⟩ := laneRate_bounds lane
  refine {
    gain := by omega
    most := fun state now => level_le_capacity
    nonneg := fun now sound => (sound.lane lane).level_nonneg least (by omega)
    later := fun state _ _ order => (state.lane lane).level_later (by omega) order
    step := ?_ }
  intro clock state message now sound inTime atTime _
  have effect := sound.effect message
  generalize (step state message).1 = next at effect
  cases effect with
  | none publics validators peers networks same free idle =>
    rw [free]
    simp [State.lane, publics, validators]
  | delayed request waiting considered free idle =>
    rw [free]
    simp [State.lane]
  | granted request considered affords paid opened =>
    obtain ⟨order, early, late⟩ := inTime
    subst atTime
    rw [paid]
    by_cases same : request.validator = lane
    · subst same
      have low := considered.least
      have high := considered.most
      have price := @credit_eq request.cost (by omega) (by omega)
      have wide := (sound.lane request.validator).mono most
      have fits := refillFits_of_within timely wide least most (by omega) slow early late
      have charged := @level_charged _ _ _ _ _ _ _ _ wide fits least most gain
        (le_refl _) (le_refl _) (request.cost * unitCredit)
        (by simp only [unitCredit]; omega)
        ((laneBucket_within timely sound early late).mono most) affords.lane
      have lane : (admission state (recentPeers state request.now)
          (recentNetworks state request.now) request).lane request.validator =
          (laneBucket state request).charge (request.cost * unitCredit) := by
        cases lane : request.validator <;> simp [State.lane, admission, lane, price]
      rw [lane]
      simpa [jobOf, laneBucket] using charged
    · have lane : (admission state (recentPeers state request.now)
          (recentNetworks state request.now) request).lane lane = state.lane lane := by
        cases lane <;> cases validator : request.validator <;>
          simp_all [State.lane, admission]
      rw [lane]
      simp [jobOf, same]
  | prepared id bytes cost job refunds gives idle =>
    obtain ⟨amount, gift, small⟩ := sound.refund refunds
    rw [gives]
    by_cases same : job.validator = lane
    · subst same
      have restored := @level_restored _ _ _ (laneCapacity job.validator)
        (laneRate job.validator) now _ ((sound.lane job.validator).mono most)
        least most _ gift small
      have lane : (prepare state job bytes cost).lane job.validator =
          restore ((job.cost - cost) * unitCredit)
            (laneCapacity job.validator) (state.lane job.validator) := by
        cases lane : job.validator <;>
          simp [State.lane, prepare, lane, amount, laneCapacity]
      rw [lane]
      simp only [decide_true, if_true, neg_mul]
      omega
    · have lane : (prepare state job bytes cost).lane lane = state.lane lane := by
        cases lane <;> cases validator : job.validator <;> simp_all [State.lane, prepare]
      rw [lane]
      simp [same]

/-- What credit is kept for beside the lanes. -/
inductive Holder where
  | peer
  | network
deriving DecidableEq

def State.entries (state : State) : Holder → StringMap Peer
  | .peer => state.peers
  | .network => state.networks

def Job.holder (job : Job) : Holder → Bytes
  | .peer => job.peer
  | .network => job.network

theorem Sound.filled (sound : Sound lo hi clock state) (holder : Holder) :
    Filled lo hi clock (state.entries holder) := by
  cases holder with
  | peer => exact sound.peers
  | network => exact fun name saved found => (sound.networks name saved found).1

/-- The entries of a holder that are still remembered. -/
def recentOf (state : State) (now : Int) : Holder → StringMap Peer
  | .peer => recentPeers state now
  | .network => recentNetworks state now

theorem gauge_recent (timely : Timely lo hi) (sound : Sound lo hi clock state)
    {now capacity rate : Int} (late : now ≤ hi) (gain : 0 ≤ rate)
    (fast : capacity ≤ rate * 60) (holder : Holder) (key : Bytes) :
    gauge capacity rate (recentOf state now holder) key now ≤
      gauge capacity rate (state.entries holder) key now := by
  have filled := sound.filled holder
  cases holder <;> exact gauge_filter timely filled late gain fast _ key

theorem meter_holder (timely : Timely lo hi) (holder : Holder) (key : Bytes)
    {capacity rate : Int} (least : 0 ≤ capacity) (gain : 0 ≤ rate) (fast : capacity ≤ rate * 60) :
    Meter lo hi (fun job => job.holder holder = key)
      (fun job => capacityOf job.validator ≤ capacity ∧ rateOf job.validator ≤ rate) capacity rate
      (fun state now => gauge capacity rate (state.entries holder) key now) := by
  refine {
    gain
    most := fun state now => gauge_le ..
    nonneg := fun now sound => gauge_nonneg (sound.filled holder) least gain key
    later := fun state _ _ order => gauge_later _ _ gain order
    step := ?_ }
  intro clock state message now sound inTime atTime allowed
  have effect := sound.effect message
  generalize (step state message).1 = next at effect
  cases effect with
  | none publics validators peers networks same free idle =>
    rw [free]
    cases holder <;> simp [State.entries, peers, networks]
  | delayed request waiting considered free idle =>
    subst atTime
    have recent := @gauge_recent _ _ _ _ timely sound _ capacity _ inTime.2.2 gain fast holder key
    rw [free]
    cases holder <;> simpa [State.entries, recentOf] using recent
  | granted request considered affords paid opened =>
    obtain ⟨order, early, late⟩ := inTime
    subst atTime
    have recent := @gauge_recent _ _ _ _ timely sound _ capacity _ late gain fast holder key
    have low := considered.least
    have high := considered.most
    have price := @credit_eq request.cost (by omega) (by omega)
    have positive : 0 ≤ request.cost * unitCredit := by
      simp only [unitCredit]
      omega
    rw [paid]
    by_cases same : (jobOf state request).holder holder = key
    · obtain ⟨room, faster⟩ := allowed _ opened (by simpa using same)
      cases holder with
      | peer =>
        have charged := gauge_granted timely
          (sound.filledPeers request.now) order early late room faster
          positive affords.peer key
        simp only [Job.holder, jobOf] at same
        simp only [State.entries, admission, recentOf, price, Job.holder,
          jobOf, same, decide_true, if_true] at charged recent ⊢
        omega
      | network =>
        have charged := gauge_granted timely
          (sound.filledNetworks request.now) order early late room faster
          positive affords.network key
        simp only [Job.holder, jobOf] at same
        simp only [State.entries, admission, recentOf, price, Job.holder,
          jobOf, same, decide_true, if_true] at charged recent ⊢
        omega
    · have apart : gauge capacity rate ((admission state
          (recentPeers state request.now) (recentNetworks state request.now)
            request).entries holder) key request.now =
          gauge capacity rate (recentOf state request.now holder) key request.now := by
        cases holder <;>
          · simp only [Job.holder, jobOf] at same
            simp [State.entries, admission, recentOf, gauge, StringMap.find?_add, Ne.symm same]
      rw [apart]
      simpa [same] using recent
  | prepared id bytes cost job refunds gives idle =>
    obtain ⟨amount, gift, small⟩ := sound.refund refunds
    have refunded := @gauge_refunded _ _ _ capacity rate now _
      (sound.filled holder) _ _ amount gift small (job.holder holder) key
    have entries : (prepare state job bytes cost).entries holder =
        (state.entries holder).update (job.holder holder) (·.map (Query.refunded job cost)) := by
      cases holder <;> rfl
    rw [gives, entries]
    by_cases same : job.holder holder = key
    · simp only [same, if_true, decide_true, neg_mul] at refunded ⊢
      omega
    · simpa [same, Ne.symm same] using refunded

/-- Messages whose requests come in order, with times of a range. -/
def InOrder (lo hi : Int) : Int → List Message → Prop
  | _, [] => True
  | clock, message :: rest =>
    InTime lo hi clock message ∧ InOrder lo hi (clockAfter clock message) rest

/-- The time of the last request after some messages. -/
def clockIn (clock : Int) (messages : List Message) : Int := messages.foldl clockAfter clock

theorem Sound.run (timely : Timely lo hi) (sound : Sound lo hi clock state)
    {messages : List Message} (ordered : InOrder lo hi clock messages) :
    Sound lo hi (clockIn clock messages) (run state messages) := by
  induction messages generalizing clock state with
  | nil => exact sound
  | cons message rest ih => exact ih (sound.step timely ordered.1) ordered.2

theorem le_of_inOrder {messages : List Message} (ordered : InOrder lo hi clock messages) :
    ∀ request, .start request ∈ messages → clock ≤ request.now := by
  induction messages generalizing clock with
  | nil => simp
  | cons message rest ih =>
    intro request member
    obtain ⟨inTime, ordered⟩ := ordered
    rcases List.mem_cons.mp member with rfl | later
    · exact inTime.1
    · have after := ih ordered request later
      cases message with
      | start first => exact le_trans inTime.1 after
      | finish id => exact after
      | prepared id bytes cost => exact after

theorem ids_startedIn (timely : Timely lo hi) (sound : Sound lo hi clock state)
    {messages : List Message} (ordered : InOrder lo hi clock messages) :
    (∀ job ∈ startedIn state messages, state.next ≤ job.id) ∧
      ((startedIn state messages).map (·.id)).Pairwise (· < ·) := by
  induction messages generalizing clock state with
  | nil => simp [startedIn]
  | cons message rest ih =>
    obtain ⟨later, increasing⟩ := ih (sound.step timely ordered.1) ordered.2
    have effect := sound.effect message
    simp only [startedIn]
    generalize (step state message).1 = next at effect later increasing
    cases effect with
    | none publics validators peers networks same free idle =>
      rw [idle]
      rw [same] at later
      exact ⟨later, increasing⟩
    | delayed request waiting considered free idle =>
      rw [idle]
      exact ⟨later, increasing⟩
    | granted request considered affords paid opened =>
      rw [opened]
      simp only [admission] at later
      constructor
      · intro job member
        rcases List.mem_cons.mp member with rfl | after
        · exact le_refl _
        · have above := later job after
          omega
      · simp only [Option.toList_some, List.singleton_append, List.map_cons, List.pairwise_cons]
        refine ⟨?_, increasing⟩
        intro id member
        obtain ⟨job, after, rfl⟩ := List.mem_map.mp member
        have above := later job after
        simp only [jobOf]
        omega
    | prepared id bytes cost job refunds gives idle =>
      rw [idle]
      exact ⟨later, increasing⟩

/-- What is charged in a run is paid from the credit at its start and what is
earned until its last request. -/
theorem Meter.run (timely : Timely lo hi) {who : Job → Bool}
    {allowed : Job → Prop} {capacity rate : Int} {credit : State → Int → Int}
    (meter : Meter lo hi who allowed capacity rate credit)
    (sound : Sound lo hi clock state) {messages : List Message}
    (ordered : InOrder lo hi clock messages) {now last : Int}
    (begun : clock ≤ now) (order : now ≤ last) (within : ∀ request, .start request ∈ messages →
      now ≤ request.now ∧ request.now ≤ last) (permitted : ∀ job ∈ startedIn state messages,
      who job = true → allowed job) :
    spent who state messages * unitCredit ≤ credit state now + rate * (last - now) := by
  have gain := meter.gain
  induction messages generalizing clock state now with
  | nil =>
    have some := meter.nonneg now sound
    have more : 0 ≤ rate * (last - now) := mul_nonneg gain (by omega)
    simp only [spent]
    omega
  | cons message rest ih =>
    have ordered' := ordered.2
    have next := sound.step timely ordered.1
    have first : ∀ job ∈ started state message, who job = true → allowed job := fun job begins =>
      permitted job (List.mem_append_left _ (by simpa using begins))
    have others : ∀ job ∈ startedIn (Query.step state message).1 rest,
        who job = true → allowed job := fun job begins =>
      permitted job (List.mem_append_right _ begins)
    have sometime : ∃ now', now ≤ now' ∧ now' ≤ last ∧ AtTime now' message ∧
        clockAfter clock message ≤ now' ∧
        ∀ request, .start request ∈ rest → now' ≤ request.now := by
      cases message with
      | start request =>
        obtain ⟨after, before⟩ := within request (by simp)
        exact ⟨request.now, after, before, rfl, le_refl _, le_of_inOrder ordered'⟩
      | finish | prepared =>
        exact ⟨now, le_refl _, order, trivial, begun, fun request later =>
          (within request (List.mem_cons_of_mem _ later)).1⟩
    obtain ⟨now', after, before, atTime, begun', rest'⟩ := sometime
    have charged := meter.step now' sound ordered.1 atTime first
    have waited := meter.later state after
    have paid := ih next ordered' begun' before
      (fun request later => ⟨rest' request later,
        (within request (List.mem_cons_of_mem _ later)).2⟩) others
    have split : rate * (last - now) = rate * (now' - now) + rate * (last - now') := by
      rw [← mul_add]
      congr 1
      omega
    simp only [spent]
    rw [add_mul]
    omega

/-- The same over an interval that has all requests of the run. -/
theorem Meter.interval (timely : Timely lo hi) {who : Job → Bool}
    {allowed : Job → Prop} {capacity rate : Int} {credit : State → Int → Int}
    (meter : Meter lo hi who allowed capacity rate credit)
    (sound : Sound lo hi clock state) {messages : List Message}
    (ordered : InOrder lo hi clock messages) {a b : Int} (order : a ≤ b)
    (within : ∀ request, .start request ∈ messages →
      a ≤ request.now ∧ request.now ≤ b) (permitted : ∀ job ∈ startedIn state messages,
      who job = true → allowed job) :
    spent who state messages * unitCredit ≤ capacity * unitCredit + rate * (b - a) := by
  have paid := @Meter.run _ _ _ _ timely _ _ _ _ _ meter sound _ ordered
    (max a clock) (max b (max a clock)) (le_max_right ..) (le_max_right ..)
    (fun request member => by
      have after := le_of_inOrder ordered request member
      have bounds := within request member
      omega) permitted
  have most := meter.most state (max a clock)
  have span : max b (max a clock) - max a clock ≤ b - a := by omega
  have earned := mul_le_mul_of_nonneg_left span meter.gain
  omega

theorem step_unknown {id : Int} (unknown : ∀ job ∈ state.active, job.id ≠ id) (bytes cost : Int) :
    step state (.finish id) = (state, none) ∧
      step state (.prepared id bytes cost) = (state, none) := by
  have kept : state.active.filter (·.id ≠ id) = state.active := by
    apply List.filter_eq_self.mpr
    intro job known
    simpa using unknown job known
  have absent : state.active.find? (·.id = id) = none := by
    rw [List.find?_eq_none]
    intro job known
    simpa using unknown job known
  constructor
  · simp only [step, finish, kept]
  · simp [step, prepared, absent]

theorem step_prepared (sound : Sound lo hi clock state) {job : Job}
    (known : job ∈ state.active) (done : job.phase ≠ .building) (bytes cost : Int) :
    step state (.prepared job.id bytes cost) = (state, none) := by
  rcases prepared_cases state job.id bytes cost with same |
    ⟨other, found, refunds, _⟩
  · exact same
  · have named := List.find?_some found
    have twin := sound.eq_of_id refunds.known known (by simpa using named)
    subst twin
    exact absurd refunds.building done

/-- What is promised of a gate after any run of messages. -/
structure Governed (lo hi : Int) (origin : State) (messages : List Message) : Prop where
  ids : ((startedIn origin messages).map (·.id)).Pairwise (· < ·)
  lonely : ((run origin messages).active.map (·.peer)).Nodup
  building : ∀ lane, laneCount (run origin messages).active lane ≤ 2
  replies : ∀ lane, laneBytes (run origin messages) lane ≤ laneLimit
  /-- Every credit lies between nothing and its capacity. -/
  lanes : ∀ lane, 0 ≤ ((run origin messages).lane lane).credit ∧
    ((run origin messages).lane lane).credit ≤ laneCapacity lane * unitCredit
  entries : ∀ holder name saved, ((run origin messages).entries holder).find? name = some saved →
      0 ≤ saved.bucket.credit ∧ saved.bucket.credit ≤ capacityOf saved.validator * unitCredit
  /-- The next message is answered without an overflow. -/
  fits : ∀ message, InTime lo hi (clockIn lo messages) message →
    StepFits (run origin messages) message
  /-- What is charged in an interval is bounded by capacity and rate. -/
  laneRate : ∀ lane during a b, a ≤ b → InOrder lo hi (clockIn lo messages) during →
    (∀ request, .start request ∈ during → a ≤ request.now ∧ request.now ≤ b) →
    spent (fun job => job.validator = lane) (run origin messages) during *
        unitCredit ≤
      laneCapacity lane * unitCredit + laneRate lane * (b - a)
  groupRate : ∀ lane name during a b, a ≤ b → InOrder lo hi (clockIn lo messages) during →
    (∀ request, .start request ∈ during → a ≤ request.now ∧ request.now ≤ b) →
    spent (fun job => job.network = groupName lane name) (run origin messages)
        during * unitCredit ≤
      capacityOf lane * unitCredit + rateOf lane * (b - a)
  /-- A peer is bounded as a validator, unless all jobs it starts are public. -/
  peerRate : ∀ lane peer during a b, a ≤ b → InOrder lo hi (clockIn lo messages) during →
    (∀ request, .start request ∈ during → a ≤ request.now ∧ request.now ≤ b) →
    (lane = false → ∀ job ∈ startedIn (run origin messages) during,
      job.peer = peer → job.validator = false) →
    spent (fun job => job.peer = peer) (run origin messages) during *
        unitCredit ≤
      capacityOf lane * unitCredit + rateOf lane * (b - a)
  /-- Ids that are unknown or finished are ignored. -/
  unknown : ∀ id, (∀ job ∈ (run origin messages).active, job.id ≠ id) →
    ∀ bytes cost, step (run origin messages) (.finish id) = (run origin messages, none) ∧
        step (run origin messages) (.prepared id bytes cost) = (run origin messages, none)
  /-- A job is prepared once. -/
  prepared : ∀ job ∈ (run origin messages).active, job.phase ≠ .building →
    ∀ bytes cost, step (run origin messages) (.prepared job.id bytes cost) =
      (run origin messages, none)

/-- A group is only used by one lane. -/
theorem lane_of_started (timely : Timely lo hi)
    (sound : Sound lo hi clock state) {messages : List Message}
    (ordered : InOrder lo hi clock messages) :
    ∀ job ∈ startedIn state messages, ∃ name, job.network = groupName job.validator name := by
  induction messages generalizing clock state with
  | nil => simp [startedIn]
  | cons message rest ih =>
    intro job member
    have effect := sound.effect message
    rcases List.mem_append.mp member with now | later
    · generalize (step state message).1 = next at effect
      cases effect with
      | none publics validators peers networks same free idle => simp [idle] at now
      | delayed request waiting considered free idle => simp [idle] at now
      | granted request considered affords paid opened =>
        have same : job = jobOf state request := by simpa [opened, eq_comm] using now
        subst same
        exact group_eq request
      | prepared id bytes cost other refunds gives idle => simp [idle] at now
    · exact ih (sound.step timely ordered.1) ordered.2 job later

/-- A gate is governed in every run whose times 64 bits can tell apart. -/
theorem governed_of_run {now : Int} (timely : Timely lo hi) (early : lo ≤ now)
    (late : now ≤ hi) {messages : List Message} (ordered : InOrder lo hi lo messages) :
    Governed lo hi (create now) messages := by
  have start := sound_create early late lo
  have sound := start.run timely ordered
  refine {
    ids := (ids_startedIn timely start ordered).2
    lonely := sound.lonely
    building := sound.building
    replies := sound.replies
    lanes := fun lane => ⟨(sound.lane lane).nonneg, (sound.lane lane).most⟩
    entries := fun holder name saved found =>
      ⟨(sound.filled holder name saved found).bucket.nonneg,
        (sound.filled holder name saved found).bucket.most⟩
    fits := fun message inTime => sound.stepFits timely inTime
    laneRate := ?_
    groupRate := ?_
    peerRate := ?_
    unknown := fun id unknown bytes cost => step_unknown unknown bytes cost
    prepared := fun job known done bytes cost => step_prepared sound known done bytes cost }
  · intro lane during a b order inOrder within
    exact (meter_lane timely lane).interval timely sound inOrder order within fun _ _ _ => trivial
  · intro lane name during a b order inOrder within
    have fast : capacityOf lane ≤ rateOf lane * 60 := by
      cases lane <;> simp [capacityOf, rateOf]
    have gain := (rateOf_bounds lane).1
    apply (meter_holder timely .network (groupName lane name)
      (capacityOf_bounds lane).1 (by omega) fast).interval timely sound inOrder order within
    intro job begins mine
    obtain ⟨who, named⟩ := lane_of_started timely sound inOrder job begins
    have group : job.network = groupName lane name := of_decide_eq_true mine
    have same := lane_of_groupName (named.symm.trans group)
    rw [same]
    exact ⟨le_refl _, le_refl _⟩
  · intro lane peer during a b order inOrder within publics
    have fast : capacityOf lane ≤ rateOf lane * 60 := by
      cases lane <;> simp [capacityOf, rateOf]
    have gain := (rateOf_bounds lane).1
    apply (meter_holder timely .peer peer (capacityOf_bounds lane).1 (by omega)
      fast).interval timely sound inOrder order within
    intro job begins mine
    cases lane with
    | true => cases job.validator <;> simp [capacityOf, rateOf]
    | false =>
      rw [publics rfl job begins (of_decide_eq_true mine)]
      exact ⟨le_refl _, le_refl _⟩

/-- Two requests of a peer that changes its lane. -/
def changingLane : List Message :=
  [.start ⟨0, [80], [65], false, 16⟩, .finish 0,
    .start ⟨3000000000, [80], [65], true, 1⟩, .finish 1,
    .start ⟨3000000000, [80], [66], false, 11⟩, .prepared 2 100 11]

theorem governed_of_run_changingLane : Governed 0 (2 ^ 62) (create 0) changingLane :=
  governed_of_run ⟨by decide, by decide, by decide⟩ (by decide) (by decide) (by
    simp [changingLane, InOrder, InTime, clockAfter])

/-- A request at the last time overflows, a peer that changes its lane spends
more than a public one may, and a prepared job can be finished. -/
theorem not_governed :
    ¬ StepFits (create 0) (.start ⟨2 ^ 63 - 1, [80], [65], false, 1⟩) ∧
      ¬ spent (fun job => job.peer = [80] ∧ job.validator = false) (create 0)
          changingLane * unitCredit ≤
        capacityOf false * unitCredit + rateOf false * 3000000000 ∧
      (run (create 0) changingLane).active.map (fun job => (job.id, job.phase)) =
        [(2, .writing 100)] ∧
      (step (run (create 0) changingLane) (.finish 2)).1.active = [] := by
  refine ⟨?_, by decide +kernel, by decide +kernel, by decide +kernel⟩
  intro fits
  obtain ⟨_, _, _, _, _, later, _⟩ := (fits (by decide +kernel)).2.2 (by decide +kernel)
  exact absurd later (by decide)

end Query
end LiteNode
