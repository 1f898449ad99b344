import LiteNode.Compute.Dispatch

/-!
# Scheduling of a compute pool

Whatever clients ask in whatever order, slots are neither lost nor given out
twice, and each queue is served in order of arrival.
-/

namespace LiteNode
namespace Compute
namespace Pool

/-! ## Histories -/

/-- The grants among the moves of slots, in order. -/
def grants (events : List Event) : List (Priority × Nat) :=
  events.filterMap fun
    | .granted priority id => some (priority, id)
    | .released _ => none

def grantsOf (priority : Priority) (events : List Event) : List Nat :=
  ((grants events).filter (·.1 = priority)).map (·.2)

/-- The slots that were given back, in order. -/
def releases (events : List Event) : List Nat :=
  events.filterMap fun
    | .granted .. => none
    | .released id => some id

@[simp] theorem grants_append (first rest : List Event) :
    grants (first ++ rest) = grants first ++ grants rest := by
  simp [grants]

@[simp] theorem releases_append (first rest : List Event) :
    releases (first ++ rest) = releases first ++ releases rest := by
  simp [releases]

@[simp] theorem grantsOf_append (priority : Priority) (first rest : List Event) :
    grantsOf priority (first ++ rest) = grantsOf priority first ++ grantsOf priority rest := by
  simp [grantsOf]

variable {priority : Priority} {events : List Event} {id : Nat} {t last : Pool}

theorem mem_grantsOf : id ∈ grantsOf priority events ↔ (priority, id) ∈ grants events := by
  simp only [grantsOf, List.mem_map, List.mem_filter, decide_eq_true_eq]
  constructor
  · rintro ⟨⟨ranked, named⟩, ⟨member, rfl⟩, rfl⟩
    exact member
  · intro member
    exact ⟨(priority, id), ⟨member, rfl⟩, rfl⟩

/-- What the moves of slots so far say of a pool. -/
structure Recorded (t : Pool) (events : List Event) : Prop where
  sound : Sound t
  served : ∀ priority id, (priority, id) ∈ grants events →
    ∃ waiter ∈ t.waiters, waiter.id = id ∧ waiter.priority = priority ∧ waiter.state ≠ .waiting
  once : ((grants events).map (·.2)).Nodup
  ordered : ∀ priority, (grantsOf priority events).Pairwise (· < ·)
  first : ∀ priority, ∀ granted ∈ grantsOf priority events,
    ∀ queued ∈ t.queue priority, granted < queued
  held : ∀ waiter ∈ t.waiters, waiter.busy = true → (waiter.priority, waiter.id) ∈ grants events
  ended : ∀ id ∈ releases events, ∃ waiter ∈ t.waiters, waiter.id = id ∧ waiter.state = .cancelled
  freed : (releases events).Nodup
  earned : ∀ id ∈ releases events, id ∈ (grants events).map (·.2)

/-- What no slot moved in is recorded as before. -/
theorem Recorded.quiet {next : Pool} (recorded : Recorded t events) (move : Move t [] next)
    (held : ∀ waiter ∈ next.waiters, waiter.busy = true →
      ∃ old ∈ t.waiters, old.busy = true ∧ old.priority = waiter.priority ∧
        old.id = waiter.id) : Recorded next events where
  sound := recorded.sound.move move
  served := by
    intro priority id granted
    obtain ⟨waiter, known, rfl, rfl, served⟩ := recorded.served _ _ granted
    obtain ⟨new, known, later⟩ := move.later recorded.sound known
    exact ⟨new, known, later.id, later.priority, later.served served⟩
  once := recorded.once
  ordered := recorded.ordered
  first := by
    intro priority granted earlier queued waiting
    rcases move.queue waiting with waiting | rfl
    · exact recorded.first priority granted earlier queued waiting
    · obtain ⟨waiter, known, rfl, _⟩ := recorded.served _ _ (mem_grantsOf.mp earlier)
      have old := recorded.sound.fresh waiter known
      omega
  held := by
    intro waiter known busy
    obtain ⟨old, before, busy, ranked, named⟩ := held waiter known busy
    rw [← ranked, ← named]
    exact recorded.held old before busy
  ended := by
    intro id released
    obtain ⟨waiter, known, rfl, cancelled⟩ := recorded.ended id released
    obtain ⟨new, known, later⟩ := move.later recorded.sound known
    exact ⟨new, known, later.id, later.ended cancelled⟩
  freed := recorded.freed
  earned := recorded.earned

/-- A waiter that is busy after its state changed was so before. -/
theorem busy_of_restate {next : Pool} (sound : Sound t) {moved : Waiter}
    {state : WaiterState} (found : moved ∈ t.waiters)
    (waiters : next.waiters = restate moved.id state t.waiters)
    (still : state = .claimed ∧ moved.busy = true ∨ state = .cancelled)
    {waiter : Waiter} (known : waiter ∈ next.waiters) (busy : waiter.busy = true) :
    ∃ old ∈ t.waiters, old.busy = true ∧ old.priority = waiter.priority ∧ old.id = waiter.id := by
  rw [waiters] at known
  obtain ⟨old, before, named, ranked, ⟨same, changed⟩ | ⟨other, kept⟩⟩ := mem_restate known
  · rcases still with ⟨rfl, held⟩ | rfl
    · have twin := sound.eq_of_id before found same
      subst twin
      exact ⟨old, found, held, ranked.symm, named.symm⟩
    · simp [Waiter.busy, changed] at busy
  · refine ⟨old, before, ?_, ranked.symm, named.symm⟩
    simpa [Waiter.busy, kept] using busy

theorem Recorded.grant (recorded : Recorded t events)
    {rest : List Nat} (free : t.active < t.capacity) (next : t.nextPriority = some priority)
    (first : t.queue priority = id :: rest) :
    Recorded ((t.setQueue priority rest).grant priority id)
      (events ++ [.granted priority id]) := by
  have move := Move.grant priority id rest free next first
  have queued : id ∈ t.queue priority := by simp [first]
  obtain ⟨waiter, known, named, ranked, waits⟩ := recorded.sound.waiting_of_mem queued
  have sorted := recorded.sound.queue_sorted priority
  rw [first, List.pairwise_cons] at sorted
  have waiters : ((t.setQueue priority rest).grant priority id).waiters =
      restate id .granted t.waiters := by
    cases priority <;> simp [Pool.grant, setQueue]
  have recent : ∀ other, grantsOf other [.granted priority id] =
      if priority = other then [id] else [] := by
    intro other
    by_cases same : priority = other <;> simp [grantsOf, grants, same]
  have below : ∀ other, ∀ granted ∈ grantsOf other events,
      ∀ last ∈ grantsOf other [.granted priority id], granted < last := by
    intro other granted earlier last now
    rw [recent] at now
    split at now
    · next same =>
        subst same
        rw [List.mem_singleton.mp now]
        exact recorded.first priority granted earlier id queued
    · cases now
  refine {
    sound := recorded.sound.move move
    served := ?_
    once := ?_
    ordered := ?_
    first := ?_
    held := ?_
    ended := ?_
    freed := ?_
    earned := ?_ }
  · intro other granted member
    rw [grants_append] at member
    rcases List.mem_append.mp member with old | new
    · obtain ⟨waiter, known, rfl, rfl, served⟩ := recorded.served _ _ old
      obtain ⟨new, known, later⟩ := move.later recorded.sound known
      exact ⟨new, known, later.id, later.priority, later.served served⟩
    · simp only [grants, List.filterMap_cons, List.filterMap_nil,
        List.mem_singleton, Prod.mk.injEq] at new
      obtain ⟨rfl, rfl⟩ := new
      refine ⟨{ waiter with state := .granted }, ?_, named, ranked, by simp⟩
      rw [waiters]
      exact List.mem_map.mpr ⟨waiter, known, by simp [named]⟩
  · rw [grants_append, List.map_append, List.nodup_append]
    refine ⟨recorded.once, by simp [grants], ?_⟩
    rintro granted earlier last now rfl
    obtain ⟨⟨other, same⟩, member, rfl⟩ := List.mem_map.mp earlier
    obtain ⟨old, before, oldId, _, served⟩ := recorded.served _ _ member
    simp [grants] at now
    have twin := recorded.sound.eq_of_id before known (oldId.trans (now.trans named.symm))
    exact served (twin ▸ waits)
  · intro other
    rw [grantsOf_append, List.pairwise_append]
    refine ⟨recorded.ordered other, ?_, below other⟩
    rw [recent]
    split <;> simp
  · intro other granted member last waiting
    rw [grantsOf_append] at member
    rw [queue_grant, queue_setQueue] at waiting
    rcases List.mem_append.mp member with old | new
    · have before : last ∈ t.queue other := by
        split at waiting
        · next same =>
            subst same
            rw [first]
            exact List.mem_cons_of_mem _ waiting
        · exact waiting
      exact recorded.first other granted old last before
    · rw [recent] at new
      split at new
      · next same =>
          subst same
          rw [if_pos rfl] at waiting
          rw [List.mem_singleton.mp new]
          exact sorted.1 last waiting
      · cases new
  · intro holder found busy
    rw [grants_append]
    rw [waiters] at found
    obtain ⟨old, before, oldId, oldRank, ⟨same, _⟩ | ⟨_, kept⟩⟩ := mem_restate found
    · have twin := recorded.sound.eq_of_id before known (same.trans named.symm)
      subst twin
      apply List.mem_append_right
      simp [grants, oldId, oldRank, named, ranked]
    · apply List.mem_append_left
      rw [oldId, oldRank]
      apply recorded.held old before
      simpa [Waiter.busy, kept] using busy
  · intro released member
    rw [releases_append] at member
    have member : released ∈ releases events := by simpa [releases] using member
    obtain ⟨waiter, known, rfl, cancelled⟩ := recorded.ended _ member
    obtain ⟨new, known, later⟩ := move.later recorded.sound known
    exact ⟨new, known, later.id, later.ended cancelled⟩
  · have freed := recorded.freed
    simpa [releases] using freed
  · intro released member
    have member : released ∈ releases events := by simpa [releases] using member
    rw [grants_append, List.map_append]
    exact List.mem_append_left _ (recorded.earned released member)

theorem Recorded.free (recorded : Recorded t events) {waiter : Waiter}
    (found : waiter ∈ t.waiters) (busy : waiter.busy = true) :
    Recorded { t.setState waiter.id .cancelled with active := t.active - 1 }
      (events ++ [.released waiter.id]) := by
  have move := Move.free waiter found busy
  have waiters : { t.setState waiter.id .cancelled with
      active := t.active - 1 }.waiters = restate waiter.id .cancelled t.waiters := by
    simp [setState, restate]
  have same : grants (events ++ [.released waiter.id]) = grants events := by simp [grants]
  have sameOf : ∀ priority,
      grantsOf priority (events ++ [.released waiter.id]) = grantsOf priority events := by
    intro priority
    simp [grantsOf, grants]
  refine {
    sound := recorded.sound.move move
    served := ?_
    once := ?_
    ordered := ?_
    first := ?_
    held := ?_
    ended := ?_
    freed := ?_
    earned := ?_ }
  · intro priority id granted
    rw [same] at granted
    obtain ⟨waiter, known, rfl, rfl, served⟩ := recorded.served _ _ granted
    obtain ⟨new, known, later⟩ := move.later recorded.sound known
    exact ⟨new, known, later.id, later.priority, later.served served⟩
  · rw [same]
    exact recorded.once
  · intro priority
    rw [sameOf]
    exact recorded.ordered priority
  · intro priority granted earlier queued waiting
    rw [sameOf] at earlier
    apply recorded.first priority granted earlier queued
    cases priority <;> exact waiting
  · intro holder known held
    obtain ⟨old, before, held, ranked, named⟩ :=
      busy_of_restate recorded.sound found waiters (.inr rfl) known held
    rw [same, ← ranked, ← named]
    exact recorded.held old before held
  · intro id released
    rw [releases_append] at released
    rcases List.mem_append.mp released with old | new
    · obtain ⟨waiter, known, rfl, cancelled⟩ := recorded.ended id old
      obtain ⟨new, known, later⟩ := move.later recorded.sound known
      exact ⟨new, known, later.id, later.ended cancelled⟩
    · have named : id = waiter.id := by simpa [releases] using new
      refine ⟨{ waiter with state := .cancelled }, ?_, named.symm, rfl⟩
      rw [waiters]
      exact List.mem_map.mpr ⟨waiter, found, by simp⟩
  · rw [releases_append, List.nodup_append]
    refine ⟨recorded.freed, by simp [releases], ?_⟩
    rintro id old last new rfl
    obtain ⟨twin, known, named, cancelled⟩ := recorded.ended id old
    have same : id = waiter.id := by simpa [releases] using new
    have twins := recorded.sound.eq_of_id known found (named.trans same)
    subst twins
    simp [Waiter.busy, cancelled] at busy
  · intro id released
    rw [same]
    rw [releases_append] at released
    rcases List.mem_append.mp released with old | new
    · exact recorded.earned id old
    · have named : id = waiter.id := by simpa [releases] using new
      rw [named]
      exact List.mem_map_of_mem (recorded.held waiter found busy)

theorem Recorded.move {before : List Event}
    (recorded : Recorded t before) (move : Move t events last) :
    Recorded last (before ++ events) := by
  cases move with
  | refuse =>
    rw [List.append_nil]
    apply recorded.quiet .refuse
    intro waiter known busy
    exact ⟨waiter, known, busy, rfl, rfl⟩
  | enqueue priority kind room =>
    rw [List.append_nil]
    apply recorded.quiet (.enqueue priority kind room)
    intro waiter known busy
    rcases List.mem_append.mp known with old | new
    · exact ⟨waiter, old, busy, rfl, rfl⟩
    · rw [List.mem_singleton.mp new] at busy
      simp [Waiter.busy] at busy
  | grant priority id rest free next first => exact recorded.grant free next first
  | claim id held =>
    rw [List.append_nil]
    apply recorded.quiet (.claim id held)
    obtain ⟨waiter, known, rfl, granted⟩ := stateOf_eq_some held
    intro holder found busy
    exact busy_of_restate recorded.sound known (waiters_setState ..)
      (.inl ⟨rfl, by simp [Waiter.busy, granted]⟩) found busy
  | withdraw waiter found waits =>
    rw [List.append_nil]
    apply recorded.quiet (.withdraw waiter found waits)
    intro holder known busy
    apply busy_of_restate recorded.sound found _ (.inr rfl) known busy
    simp only [waiters_setState, removeWaiterLocked]
    cases waiter.priority <;> simp [setQueue]
  | free waiter found busy => exact recorded.free found busy

theorem Recorded.moves {before : List Event}
    (recorded : Recorded t before) (moves : Moves t events last) :
    Recorded last (before ++ events) := by
  induction moves generalizing before with
  | refl t => rwa [List.append_nil]
  | step move moves ih =>
    rw [← List.append_assoc]
    exact ih (recorded.move move)

/-! ## Bursts -/

/-- While a speculative waiter is queued, the streak counts required grants. -/
theorem Move.streak (move : Move t events last) (waiting : last.speculativeWaiters ≠ [])
    (required : ∀ grant ∈ grants events, grant.1 = .required) :
    last.requiredStreak = t.requiredStreak + (grants events).length := by
  cases move with
  | refuse => simp [grants]
  | enqueue priority kind room => cases priority <;> simp [grants, setQueue]
  | grant priority id rest free next first =>
    have same : priority = .required := by
      apply required (priority, id)
      simp [grants]
    subst same
    simp only [Pool.grant, noteGrant] at waiting ⊢
    split
    · next empty => simp [empty] at waiting
    · simp [grants, setQueue, setState]
  | claim id held => simp [grants, setState]
  | withdraw waiter found waits =>
    simp only [setState, removeWaiterLocked]
    cases waiter.priority <;> simp [grants, setQueue]
  | free waiter found busy => simp [grants, setState]

theorem Moves.nextId (moves : Moves t events last) : t.nextId ≤ last.nextId := by
  induction moves with
  | refl t => exact Nat.le_refl _
  | step move moves ih => exact Nat.le_trans move.nextId ih

/-- Whoever left a queue does not come back. -/
theorem Moves.queue (moves : Moves t events last)
    (old : id < t.nextId) (queued : id ∈ last.queue priority) : id ∈ t.queue priority := by
  induction moves with
  | refl t => exact queued
  | step move moves ih =>
    have between := ih (Nat.lt_of_lt_of_le old move.nextId) queued
    rcases move.queue between with before | new
    · exact before
    · omega

theorem Moves.streak (moves : Moves t events last) (old : id < t.nextId)
    (queued : id ∈ last.queue .speculative)
    (required : ∀ grant ∈ grants events, grant.1 = .required) :
    last.requiredStreak = t.requiredStreak + (grants events).length := by
  induction moves with
  | refl t => simp [grants]
  | step move moves ih =>
    rw [grants_append] at required ⊢
    have middle := Nat.lt_of_lt_of_le old move.nextId
    have between := moves.queue middle queued
    have waiting := List.ne_nil_of_mem between
    have first := move.streak waiting fun grant member =>
      required grant (List.mem_append_left _ member)
    have rest := ih middle queued fun grant member =>
      required grant (List.mem_append_right _ member)
    rw [rest, first, List.length_append]
    omega

theorem Move.active (move : Move t [] last) :
    last.active = t.active ∧ last.capacity = t.capacity := by
  cases move with
  | refuse => exact ⟨rfl, rfl⟩
  | enqueue priority kind room => cases priority <;> exact ⟨rfl, rfl⟩
  | claim id held => exact ⟨rfl, rfl⟩
  | withdraw waiter found waits =>
    simp only [setState, removeWaiterLocked]
    cases waiter.priority <;> exact ⟨rfl, rfl⟩

theorem dispatchLocked_full (full : t.active = t.capacity)
    (wakes : List Nat) : t.dispatchLocked wakes = ⟨t, [], wakes.reverse⟩ :=
  dispatchLocked_settled (Nat.le_of_eq full) (.inl full) wakes

/-- Giving back a slot of a full pool grants at most the next waiter. -/
theorem grants_release (sound : Sound t) (full : t.active = t.capacity) (id : Nat) :
    grants (t.releaseLocked id).events = [] ∨
      ∃ priority id', t.nextPriority = some priority ∧
        grants (t.releaseLocked id).events = [(priority, id')] := by
  rcases releaseLocked_cases sound id with same |
    ⟨waiter, known, rfl, held, released⟩
  · exact .inl (by simp [same, unmoved, grants])
  · have counted : 0 < t.active := by
      rw [sound.active]
      exact List.countP_pos_iff.mpr ⟨waiter, known, held⟩
    have room : (t.freed waiter.id).active + 1 = (t.freed waiter.id).capacity := by
      simp only [freed, setState]
      omega
    have later : Sound (t.freed waiter.id) := sound.move (.free waiter known held)
    rw [released]
    cases next : t.nextPriority with
    | none =>
      have empty := nextPriority_eq_none_iff.mp next
      have settled : Settled (t.freed waiter.id) := by
        refine .inr fun priority => ?_
        have none := empty priority
        cases priority <;> exact none
      rw [dispatchLocked_settled later.within settled]
      exact .inl (by simp [grants])
    | some priority =>
      have same : (t.freed waiter.id).nextPriority = some priority := next
      obtain ⟨id, rest, first⟩ := exists_first same
      have free : (t.freed waiter.id).active < (t.freed waiter.id).capacity := by omega
      obtain ⟨woken, dispatched⟩ := dispatchLocked_next later free same first []
      have full : (((t.freed waiter.id).setQueue priority rest).grant
          priority id).active = (((t.freed waiter.id).setQueue priority
            rest).grant priority id).capacity := by
        cases priority <;> simpa [Pool.grant, setQueue, setState] using room
      refine .inr ⟨priority, id, rfl, ?_⟩
      rw [dispatched, dispatchLocked_full full]
      simp [grants]

/-- A step of a full pool grants at most the next waiter. -/
theorem grants_step (sound : Sound t) (full : t.active = t.capacity) (request : Request) :
    grants (t.step request).events = [] ∨
      ∃ priority id, t.nextPriority = some priority ∧
        grants (t.step request).events = [(priority, id)] := by
  have dispatched : ∀ next, Move t [] next → (next.dispatchLocked []).events = [] := by
    intro next move
    obtain ⟨active, capacity⟩ := move.active
    rw [dispatchLocked_full (by omega)]
  cases request with
  | acquireAsync priority =>
    have cases := enqueueLocked_cases t priority .async
    left
    simp only [step, acquireAsync]
    simp only [freshWaiter] at cases ⊢
    rcases cases with ⟨refused, _⟩ | ⟨queued, accepted, move⟩
    · simp [refused, unmoved, grants]
    · simp [accepted, dispatched queued move, grants]
  | acquireSync priority =>
    have cases := enqueueLocked_cases t priority .sync
    left
    simp only [step, acquireSync]
    simp only [freshWaiter] at cases ⊢
    rcases cases with ⟨refused, _⟩ | ⟨queued, accepted, move⟩
    · simp [refused, unmoved, grants]
    · simp [accepted, dispatched queued move, grants]
  | tryAcquireSync priority =>
    have cases := enqueueLocked_cases t priority .sync
    left
    simp only [step, tryAcquireSync]
    simp only [freshWaiter] at cases ⊢
    rcases cases with ⟨refused, _⟩ | ⟨queued, accepted, move⟩
    · simp [refused, unmoved, grants]
    · have none := dispatched queued move
      rw [accepted]
      dsimp only
      split <;> simp [none, grants]
  | claim id => exact .inl (by simp [step, unmoved, grants])
  | cancelAsync id =>
    simp only [step, cancelAsync]
    split
    · exact .inl (by simp [unmoved, grants])
    · next waiter found =>
        obtain ⟨known, rfl⟩ := find?_eq_some found
        split
        · next waits =>
            have none := dispatched _ (.withdraw waiter known waits)
            exact .inl (by rw [none]; simp [grants])
        · exact grants_release sound full waiter.id
        · exact .inl (by simp [unmoved, grants])
        · exact .inl (by simp [unmoved, grants])
  | release id => exact grants_release sound full id

theorem full_of_queued (settled : Settled t) (queued : id ∈ t.queue priority) :
    t.active = t.capacity := by
  rcases settled with full | empty
  · exact full
  · rw [empty] at queued
    cases queued

/-- Required grants that come while a speculative waiter is queued fit in
what is left of the burst. -/
theorem burst_of_run (sound : Sound t) (settled : Settled t)
    (requests : List Request) (last : Request) (queued : id ∈ t.queue .speculative)
    (still : id ∈ (t.run requests).1.queue .speculative) {burst : List (Priority × Nat)}
    (start : burst <+: grants (t.run (requests ++ [last])).2)
    (required : ∀ grant ∈ burst, grant.1 = .required) :
    t.requiredStreak + burst.length ≤ t.requiredBurst := by
  have full := full_of_queued settled queued
  have waiting := List.ne_nil_of_mem queued
  have streak := sound.streak
  induction requests generalizing t burst with
  | nil =>
    simp only [List.nil_append, run, List.append_nil] at start
    rcases grants_step sound full last with none |
      ⟨priority, id, next, one⟩
    · rw [none, List.prefix_nil] at start
      subst start
      simpa using streak
    · rw [one] at start
      cases burst with
      | nil => simpa using streak
      | cons grant burst =>
        obtain ⟨rfl, ended⟩ := List.cons_prefix_cons.mp start
        have below := streak_of_required (required (priority, id) (by simp) ▸ next) waiting
        rw [List.prefix_nil] at ended
        subst ended
        simp only [List.length_cons, List.length_nil]
        omega
  | cons request rest ih =>
    simp only [List.cons_append, run] at start still
    have turns := turns_step sound settled request
    have later := sound.moves turns.moves
    have setting := turns.moves.setting
    obtain ⟨waiter, known, rfl, _⟩ := sound.waiting_of_mem queued
    have old := sound.fresh waiter known
    have moves := (run_moves later turns.settled rest).1
    have next := moves.queue (Nat.lt_of_lt_of_le old turns.moves.nextId) still
    have count := turns.moves.streak old next
    rw [grants_append] at start
    rcases grants_step sound full request with none |
      ⟨priority, id, _, one⟩
    · rw [none, List.nil_append] at start
      have fits := ih later turns.settled next still start required
        (full_of_queued turns.settled next) (List.ne_nil_of_mem next)
        later.streak
      rw [none] at count
      have same := count (by simp)
      rw [setting.requiredBurst] at fits
      omega
    · rw [one] at start count
      cases burst with
      | nil => simpa using streak
      | cons grant burst =>
        obtain ⟨rfl, begun⟩ := List.cons_prefix_cons.mp start
        have first := required (priority, id) (by simp)
        have fits := ih later turns.settled next still begun
          (fun grant member => required grant (by simp [member]))
          (full_of_queued turns.settled next) (List.ne_nil_of_mem next)
          later.streak
        have one := count (by simpa using first)
        rw [setting.requiredBurst] at fits
        simp only [List.length_cons, List.length_nil] at one ⊢
        omega

/-- What is promised of a pool after any run. -/
structure Scheduled (capacity : Int) (limit : Priority → Int)
    (requiredBurst : Int) (t : Pool) (events : List Event) : Prop where
  /-- The slots in use are those of the waiters that hold one. -/
  active : t.active = t.waiters.countP Waiter.busy
  within : t.active ≤ capacity
  /-- A queue has the waiters of its priority that wait. -/
  queued : ∀ priority, t.queue priority = t.waitingOf priority
  limits : ∀ priority, (t.queue priority).length ≤ limit priority
  /-- No slot is free while a waiter is queued. -/
  settled : t.active = capacity ∨ ∀ priority, t.queue priority = []
  /-- Waiters of one priority are granted in order of arrival. -/
  ordered : ∀ priority, (grantsOf priority events).Pairwise (· < ·)
  first : ∀ priority, ∀ granted ∈ grantsOf priority events,
    ∀ queued ∈ t.queue priority, granted < queued
  /-- Every slot is granted once and given back at most once. -/
  granted : ((grants events).map (·.2)).Nodup
  released : (releases events).Nodup
  earned : ∀ id ∈ releases events, id ∈ (grants events).map (·.2)
  /-- A queued speculative waiter is passed by a bounded burst. -/
  burst : ∀ requests last, ∀ id ∈ t.speculativeWaiters, id ∈ (t.run requests).1.speculativeWaiters →
      ∀ burst, burst <+: grants (t.run (requests ++ [last])).2 →
        (∀ grant ∈ burst, grant.1 = .required) → burst.length ≤ requiredBurst

theorem create_ok {capacity requiredLimit speculativeLimit requiredBurst : Int}
    (created : create capacity requiredLimit speculativeLimit requiredBurst = .ok t) :
    t.active = 0 ∧ t.requiredStreak = 0 ∧ t.waiters = [] ∧
      (∀ priority, t.queue priority = []) ∧ t.capacity = capacity ∧
      t.requiredLimit = requiredLimit ∧ t.speculativeLimit = speculativeLimit ∧
      t.requiredBurst = requiredBurst := by
  simp only [create] at created
  split at created <;> try cases created
  split at created <;> try cases created
  split at created <;> try cases created
  split at created <;> try cases created
  refine ⟨rfl, rfl, rfl, ?_, ?_, ?_, ?_, ?_⟩
  · intro priority
    cases priority <;> simp [queue]
  all_goals
    simp
    omega

theorem recorded_create {capacity requiredLimit speculativeLimit requiredBurst : Int}
    (created : create capacity requiredLimit speculativeLimit requiredBurst =
      .ok t) : Recorded t [] := by
  obtain ⟨active, streak, waiters, empty, _⟩ := create_ok created
  refine {
    sound := ?_
    served := by simp [grants]
    once := by simp [grants]
    ordered := by simp [grantsOf, grants]
    first := by simp [grantsOf, grants]
    held := by simp [waiters]
    ended := by simp [releases]
    freed := by simp [releases]
    earned := by simp [releases] }
  constructor
  · simp [waiters]
  · simp [waiters]
  · simp [waitingOf, waiters, empty]
  · simp [waiters, active]
  · omega
  · simp [empty]
  · omega

/-- Limits as they were asked for. -/
def limits (requiredLimit speculativeLimit : Int) : Priority → Int
  | .required => requiredLimit
  | .speculative => speculativeLimit

/-- Whatever is asked of a pool, its slots and queues are kept in order. -/
theorem scheduled_of_run
    {capacity requiredLimit speculativeLimit requiredBurst : Int} {t : Pool}
    (created : create capacity requiredLimit speculativeLimit requiredBurst =
      .ok t) (requests : List Request) :
    Scheduled capacity (limits requiredLimit speculativeLimit) requiredBurst
      (t.run requests).1 (t.run requests).2 := by
  have start := recorded_create created
  obtain ⟨_, _, _, empty, slots, required, speculative, burst⟩ := create_ok created
  obtain ⟨moves, settled⟩ := run_moves start.sound (.inr empty) requests
  have setting := moves.setting
  have recorded := start.moves moves
  rw [List.nil_append] at recorded
  have sound := recorded.sound
  refine {
    active := sound.active
    within := ?_
    queued := sound.queued
    limits := ?_
    settled := ?_
    ordered := recorded.ordered
    first := recorded.first
    granted := recorded.once
    released := recorded.freed
    earned := recorded.earned
    burst := ?_ }
  · have within := sound.within
    have same := setting.capacity
    omega
  · intro priority
    have limited := sound.limits priority
    have same := setting.limit priority
    cases priority <;> simp only [limit, Pool.limits] at same limited ⊢ <;> omega
  · apply settled.imp _ fun none => none
    intro full
    have same := setting.capacity
    omega
  · intro later last id queued still grants start required
    have fits := burst_of_run sound settled later last queued still start required
    have same := setting.requiredBurst
    omega

/-- A pool of one slot. -/
def narrowPool : Pool where
  capacity := 1
  requiredLimit := 2
  speculativeLimit := 2
  requiredBurst := 1
  active := 0
  nextId := 0
  requiredStreak := 0
  requiredWaiters := []
  speculativeWaiters := []
  waiters := []

theorem scheduled_of_run_narrowPool :
    let requests := [.acquireAsync .required, .acquireAsync .speculative,
      .tryAcquireSync .required, .claim 0, .release 0, .cancelAsync 1]
    Scheduled 1 (limits 2 2) 1 (narrowPool.run requests).1 (narrowPool.run requests).2 :=
  scheduled_of_run rfl _

end Pool
end Compute
end LiteNode
