import LiteNode.Compute.Pool

/-!
# Moves of a pool

Every step of the pool is made of six moves of one waiter, and a pool that is
sound stays so in each of them.
-/

namespace LiteNode
namespace Compute

/-- Whether a waiter holds a slot. -/
def Waiter.busy (waiter : Waiter) : Bool := waiter.state = .granted || waiter.state = .claimed

namespace Pool

def waitingOf (t : Pool) (priority : Priority) : List Nat :=
  (t.waiters.filter fun waiter => waiter.priority = priority ∧ waiter.state = .waiting).map (·.id)

/-- What holds of a pool between any two of its moves. -/
structure Sound (t : Pool) : Prop where
  ids : (t.waiters.map (·.id)).Pairwise (· < ·)
  fresh : ∀ waiter ∈ t.waiters, waiter.id < t.nextId
  queued : ∀ priority, t.queue priority = t.waitingOf priority
  active : t.active = t.waiters.countP Waiter.busy
  within : t.active ≤ t.capacity
  limits : ∀ priority, (t.queue priority).length ≤ t.limit priority
  streak : t.requiredStreak ≤ t.requiredBurst

/-- Whether no slot is free or no waiter is queued. -/
def Settled (t : Pool) : Prop := t.active = t.capacity ∨ ∀ priority, t.queue priority = []

section Waiters

variable {waiters : List Waiter} {id : Nat} {state : WaiterState}

/-- The waiters of a list after one of them has changed its state. -/
def restate (id : Nat) (state : WaiterState) (waiters : List Waiter) : List Waiter :=
  waiters.map fun waiter => if waiter.id = id then { waiter with state } else waiter

@[simp] theorem map_id_restate (id : Nat) (state : WaiterState) (waiters : List Waiter) :
    (restate id state waiters).map (·.id) = waiters.map (·.id) := by
  simp only [restate, List.map_map]
  apply List.map_congr_left
  intro waiter member
  simp only [Function.comp_apply]
  split <;> simp

theorem restate_of_notMem (absent : id ∉ waiters.map (·.id)) :
    restate id state waiters = waiters := by
  simp only [List.mem_map, not_exists, not_and] at absent
  conv_rhs => rw [← List.map_id waiters]
  apply List.map_congr_left
  intro waiter member
  simp [absent waiter member]

theorem waiting_restate (other : state ≠ .waiting) (priority : Priority) :
    ((restate id state waiters).filter fun waiter =>
        waiter.priority = priority ∧ waiter.state = .waiting).map (·.id) =
      ((waiters.filter fun waiter =>
        waiter.priority = priority ∧ waiter.state = .waiting).map (·.id)).filter (· ≠ id) := by
  induction waiters with
  | nil => simp [restate]
  | cons first rest ih =>
    simp only [restate, List.map_cons] at ih ⊢
    by_cases same : first.id = id
    · rw [if_pos same, List.filter_cons_of_neg (by simp [other]), ih]
      by_cases counted : first.priority = priority ∧ first.state = .waiting
      · rw [List.filter_cons_of_pos (by simpa using counted)]
        simp [same]
      · rw [List.filter_cons_of_neg (by simpa using counted)]
    · rw [if_neg same]
      by_cases counted : first.priority = priority ∧ first.state = .waiting
      · rw [List.filter_cons_of_pos (by simpa using counted),
          List.filter_cons_of_pos (by simpa using counted)]
        simp only [List.map_cons]
        rw [List.filter_cons_of_pos (by simpa using same), ih]
      · rw [List.filter_cons_of_neg (by simpa using counted),
          List.filter_cons_of_neg (by simpa using counted), ih]

theorem busy_restate {waiter : Waiter}
    (ids : (waiters.map (·.id)).Nodup) (member : waiter ∈ waiters) :
    (restate waiter.id state waiters).countP Waiter.busy + waiter.busy.toNat =
      waiters.countP Waiter.busy + ({ waiter with state } : Waiter).busy.toNat := by
  obtain ⟨before, after, rfl⟩ := List.append_of_mem member
  simp only [List.map_append, List.map_cons, List.nodup_append, List.nodup_cons] at ids
  obtain ⟨_, ⟨later, _⟩, apart⟩ := ids
  have earlier : waiter.id ∉ before.map (·.id) := fun found =>
    apart waiter.id found waiter.id (List.mem_cons_self ..) rfl
  have split :
      restate waiter.id state (before ++ waiter :: after) =
        before ++ { waiter with state } :: after := by
    have left := @restate_of_notMem _ _ state earlier
    have right := @restate_of_notMem _ _ state later
    simp only [restate] at left right ⊢
    simp [left, right]
  rw [split]
  simp only [List.countP_append, List.countP_cons]
  cases waiter.busy <;> cases ({ waiter with state } : Waiter).busy <;> simp <;> omega

theorem find?_of_mem {waiter : Waiter} (ids : (waiters.map (·.id)).Nodup)
    (member : waiter ∈ waiters) : waiters.find? (·.id = waiter.id) = some waiter := by
  induction waiters with
  | nil => cases member
  | cons first rest ih =>
    simp only [List.map_cons, List.nodup_cons] at ids
    cases member with
    | head => simp
    | tail _ later =>
      have other : first.id ≠ waiter.id := fun same => ids.1 (same ▸ List.mem_map_of_mem later)
      rw [List.find?_cons_of_neg (by simpa using other)]
      exact ih ids.2 later

end Waiters

@[simp] theorem waiters_setState (t : Pool) (id : Nat) (state : WaiterState) :
    (t.setState id state).waiters = restate id state t.waiters := by
  simp [setState, restate]

@[simp] theorem queue_setState (t : Pool) (id : Nat) (state : WaiterState) (priority : Priority) :
    (t.setState id state).queue priority = t.queue priority := by
  cases priority <;> simp [setState, queue]

@[simp] theorem limit_setState (t : Pool) (id : Nat) (state : WaiterState) (priority : Priority) :
    (t.setState id state).limit priority = t.limit priority := by
  cases priority <;> simp [setState, limit]

@[simp] theorem limit_setQueue (t : Pool) (queued priority : Priority) (waiters : List Nat) :
    (t.setQueue queued waiters).limit priority = t.limit priority := by
  cases queued <;> cases priority <;> simp [setQueue, limit]

theorem queue_setQueue (t : Pool) (queued priority : Priority) (waiters : List Nat) :
    (t.setQueue queued waiters).queue priority =
      if priority = queued then waiters else t.queue priority := by
  cases queued <;> cases priority <;> simp [setQueue, queue]

variable {priority : Priority} {waiter : Waiter} {last : Pool} {events : List Event}

theorem mem_waitingOf {t : Pool} {id : Nat} : id ∈ t.waitingOf priority ↔
      ∃ waiter ∈ t.waiters, waiter.priority = priority ∧
        waiter.state = .waiting ∧ waiter.id = id := by
  simp [waitingOf, and_assoc]

theorem find?_eq_some {t : Pool} {id : Nat} (found : t.find? id = some waiter) :
    waiter ∈ t.waiters ∧ waiter.id = id := by
  have here := List.find?_some found
  exact ⟨List.mem_of_find?_eq_some found, by simpa using here⟩

theorem stateOf_eq_some {t : Pool} {id : Nat} {state : WaiterState}
    (found : t.stateOf id = some state) :
    ∃ waiter ∈ t.waiters, waiter.id = id ∧ waiter.state = state := by
  simp only [stateOf, Option.map_eq_some_iff] at found
  obtain ⟨waiter, found, rfl⟩ := found
  obtain ⟨member, named⟩ := find?_eq_some found
  exact ⟨waiter, member, named, rfl⟩

namespace Sound

variable {t : Pool} {id : Nat}

theorem nodup (sound : Sound t) : (t.waiters.map (·.id)).Nodup :=
  sound.ids.imp fun lt => Nat.ne_of_lt lt

theorem stateOf (sound : Sound t) {waiter : Waiter} (member : waiter ∈ t.waiters) :
    t.stateOf waiter.id = some waiter.state := by
  simp only [Pool.stateOf, Pool.find?]
  rw [find?_of_mem sound.nodup member]
  simp

theorem eq_of_id (sound : Sound t) {first second : Waiter}
    (left : first ∈ t.waiters) (right : second ∈ t.waiters)
    (same : first.id = second.id) : first = second := by
  have one := find?_of_mem sound.nodup left
  have two := find?_of_mem sound.nodup right
  rw [same] at one
  exact Option.some.inj (one.symm.trans two)

theorem queue_sorted (sound : Sound t) (priority : Priority) :
    (t.queue priority).Pairwise (· < ·) := by
  rw [sound.queued priority]
  apply List.Pairwise.sublist _ sound.ids
  exact List.filter_sublist.map _

/-- Whoever is queued waits. -/
theorem waiting_of_mem (sound : Sound t) {priority : Priority} (member : id ∈ t.queue priority) :
    ∃ waiter ∈ t.waiters, waiter.id = id ∧ waiter.priority = priority ∧
      waiter.state = .waiting := by
  rw [sound.queued priority] at member
  obtain ⟨waiter, known, ranked, waits, named⟩ := mem_waitingOf.mp member
  exact ⟨waiter, known, named, ranked, waits⟩

end Sound

/-- A pool stays sound when one waiter stops waiting or moves on. -/
theorem Sound.restated {t next : Pool} (sound : Sound t)
    (member : waiter ∈ t.waiters) {state : WaiterState} (other : state ≠ .waiting)
    (waiters : next.waiters = restate waiter.id state t.waiters)
    (nextId : next.nextId = t.nextId) (queue : ∀ priority,
      next.queue priority = (t.queue priority).filter (· ≠ waiter.id))
    (limit : ∀ priority, next.limit priority = t.limit priority)
    (active : next.active + waiter.busy.toNat =
      t.active + ({ waiter with state } : Waiter).busy.toNat)
    (within : next.active ≤ next.capacity)
    (streak : next.requiredStreak ≤ next.requiredBurst) : Sound next where
  ids := by
    have ids := sound.ids
    rwa [waiters, map_id_restate]
  fresh := by
    intro restated known
    have named : restated.id ∈ next.waiters.map (·.id) := List.mem_map_of_mem known
    rw [waiters, map_id_restate] at named
    obtain ⟨old, known, same⟩ := List.mem_map.mp named
    rw [nextId, ← same]
    exact sound.fresh old known
  queued := by
    intro priority
    rw [queue, sound.queued]
    simp only [waitingOf, waiters]
    exact (waiting_restate other priority).symm
  active := by
    have counted := @busy_restate _ state _ sound.nodup member
    have before := sound.active
    rw [waiters]
    omega
  within := within
  limits := by
    intro priority
    have limited := sound.limits priority
    rw [queue, limit]
    exact Nat.le_trans (List.length_filter_le ..) limited
  streak := streak

/-- What one waiter can do to the pool. -/
inductive Move (t : Pool) : List Event → Pool → Prop where
  | refuse : Move t [] { t with nextId := t.nextId + 1 }
  | enqueue (priority : Priority) (kind : Kind)
      (room : (t.queue priority).length < t.limit priority) :
      Move t []
        { t.setQueue priority (t.queue priority ++ [t.nextId]) with
          nextId := t.nextId + 1
          waiters := t.waiters ++ [⟨t.nextId, priority, kind, .waiting⟩] }
  | grant (priority : Priority) (id : Nat) (rest : List Nat)
      (free : t.active < t.capacity)
      (next : t.nextPriority = some priority)
      (first : t.queue priority = id :: rest) :
      Move t [.granted priority id] ((t.setQueue priority rest).grant priority id)
  | claim (id : Nat) (held : t.stateOf id = some .granted) : Move t [] (t.setState id .claimed)
  | withdraw (waiter : Waiter) (found : waiter ∈ t.waiters)
      (waits : waiter.state = .waiting) :
      Move t [] ((t.removeWaiterLocked waiter).setState waiter.id .cancelled)
  | free (waiter : Waiter) (found : waiter ∈ t.waiters)
      (held : waiter.busy = true) :
      Move t [.released waiter.id] { t.setState waiter.id .cancelled with active := t.active - 1 }

inductive Moves : Pool → List Event → Pool → Prop where
  | refl (t : Pool) : Moves t [] t
  | step {t mid last : Pool} {first rest : List Event}
      (move : Move t first mid) (moves : Moves mid rest last) :
      Moves t (first ++ rest) last

theorem Move.moves {t : Pool} (move : Move t events last) : Moves t events last := by
  have moves := Moves.step move (.refl last)
  rwa [List.append_nil] at moves

theorem Moves.trans {t mid : Pool} {first rest : List Event}
    (moves : Moves t first mid) (later : Moves mid rest last) : Moves t (first ++ rest) last := by
  induction moves with
  | refl t => exact later
  | step move moves ih =>
    rw [List.append_assoc]
    exact .step move (ih later)

/-- A waiter that does not wait is not taken out of any queue. -/
theorem Sound.filter_queue {t : Pool} (sound : Sound t) (member : waiter ∈ t.waiters)
    (apart : waiter.state = .waiting → waiter.priority ≠ priority) :
    (t.queue priority).filter (· ≠ waiter.id) = t.queue priority := by
  apply List.filter_eq_self.mpr
  intro id queued
  obtain ⟨twin, known, named, ranked, waits⟩ := sound.waiting_of_mem queued
  simp only [decide_eq_true_eq]
  rintro rfl
  have same := sound.eq_of_id known member named
  subst same
  exact apart waits ranked

theorem Sound.refuse {t : Pool} (sound : Sound t) :
    Sound { t with nextId := t.nextId + 1 } where
  ids := sound.ids
  fresh := fun waiter known => Nat.lt_succ_of_lt (sound.fresh waiter known)
  queued := by
    intro priority
    have queued := sound.queued priority
    cases priority <;> exact queued
  active := sound.active
  within := sound.within
  limits := by
    intro priority
    have limits := sound.limits priority
    cases priority <;> exact limits
  streak := sound.streak

theorem Sound.enqueue {t : Pool} (sound : Sound t)
    (kind : Kind) (room : (t.queue priority).length < t.limit priority) :
    Sound
      { t.setQueue priority (t.queue priority ++ [t.nextId]) with
        nextId := t.nextId + 1
        waiters := t.waiters ++ [⟨t.nextId, priority, kind, .waiting⟩] } where
  ids := by
    simp only [List.map_append, List.map_cons, List.map_nil, List.pairwise_append]
    refine ⟨sound.ids, by simp, ?_⟩
    intro id known last same
    obtain ⟨waiter, old, rfl⟩ := List.mem_map.mp known
    rw [List.mem_singleton.mp same]
    exact sound.fresh waiter old
  fresh := by
    intro waiter known
    rcases List.mem_append.mp known with known | known
    · exact Nat.lt_succ_of_lt (sound.fresh waiter known)
    · rw [List.mem_singleton.mp known]
      simp
  queued := by
    intro ranked
    have queued := sound.queued ranked
    by_cases same : priority = ranked
    · subst same
      cases priority <;> simp_all [queue, setQueue, waitingOf, List.filter_append]
    · cases priority <;> cases ranked <;>
        simp_all [queue, setQueue, waitingOf, List.filter_append]
  active := by
    have active := sound.active
    cases priority <;> simp [setQueue, Waiter.busy, active]
  within := by
    have within := sound.within
    cases priority <;> simpa [setQueue] using within
  limits := by
    intro ranked
    have limits := sound.limits ranked
    cases priority <;> cases ranked <;> simp_all [queue, setQueue, limit] <;> omega
  streak := by
    have streak := sound.streak
    cases priority <;> simpa [setQueue] using streak

theorem streak_of_required {t : Pool} (next : t.nextPriority = some .required)
    (waiting : t.speculativeWaiters ≠ []) : t.requiredStreak < t.requiredBurst := by
  simp only [nextPriority] at next
  split at next
  · cases next
  · next empty => exact absurd empty waiting
  · cases next
  · split at next
    · cases next
    · next below => omega

theorem Sound.grant {t : Pool} (sound : Sound t)
    {id : Nat} {rest : List Nat} (free : t.active < t.capacity)
    (next : t.nextPriority = some priority) (first : t.queue priority = id :: rest) :
    Sound ((t.setQueue priority rest).grant priority id) := by
  have member : id ∈ t.queue priority := by simp [first]
  obtain ⟨waiter, known, rfl, ranked, waits⟩ := sound.waiting_of_mem member
  have sorted := sound.queue_sorted priority
  rw [first, List.pairwise_cons] at sorted
  apply @Sound.restated _ t _ sound known .granted (by simp)
  · cases priority <;> simp [Pool.grant, setQueue]
  · cases priority <;> simp [Pool.grant, setQueue, setState]
  · intro other
    rw [queue_grant, queue_setQueue]
    split
    · next same =>
        subst same
        rw [first, List.filter_cons_of_neg (by simp)]
        symm
        apply List.filter_eq_self.mpr
        intro later queued
        have lt := sorted.1 later queued
        simp
        omega
    · next apart =>
        symm
        apply sound.filter_queue known
        intro _ same
        exact apart (same.symm.trans ranked)
  · intro other
    rw [limit_grant, limit_setQueue]
  · cases priority <;> simp [Pool.grant, setQueue, setState, Waiter.busy, waits]
  · cases priority <;> simp [Pool.grant, setQueue, setState] <;> omega
  · have streak := sound.streak
    cases priority with
    | required =>
      simp only [Pool.grant, noteGrant]
      split
      · simp
      · next waiting =>
          have below := streak_of_required next waiting
          simp only [setQueue, setState]
          omega
    | speculative => simp [Pool.grant, noteGrant]

theorem Sound.claim {t : Pool} (sound : Sound t) {id : Nat} (held : t.stateOf id = some .granted) :
    Sound (t.setState id .claimed) := by
  obtain ⟨waiter, known, rfl, granted⟩ := stateOf_eq_some held
  apply @Sound.restated _ t _ sound known .claimed (by simp)
  · simp
  · simp [setState]
  · intro priority
    rw [queue_setState]
    exact (sound.filter_queue known (by simp [granted])).symm
  · simp
  · simp [setState, Waiter.busy, granted]
  · exact sound.within
  · exact sound.streak

theorem Sound.withdraw {t : Pool} (sound : Sound t)
    (found : waiter ∈ t.waiters) (waits : waiter.state = .waiting) :
    Sound ((t.removeWaiterLocked waiter).setState waiter.id .cancelled) := by
  apply @Sound.restated _ t _ sound found .cancelled (by simp)
  · simp only [waiters_setState, removeWaiterLocked]
    cases waiter.priority <;> simp [setQueue]
  · simp only [setState, removeWaiterLocked]
    cases waiter.priority <;> simp [setQueue]
  · intro priority
    rw [queue_setState, removeWaiterLocked, queue_setQueue]
    split
    · next same => rw [same]
    · next apart => exact (sound.filter_queue found fun _ same => apart same.symm).symm
  · intro priority
    rw [limit_setState, removeWaiterLocked, limit_setQueue]
  · simp only [setState, removeWaiterLocked, Waiter.busy, waits]
    cases waiter.priority <;> simp [setQueue]
  · have within := sound.within
    simp only [setState, removeWaiterLocked]
    cases waiter.priority <;> simpa [setQueue] using within
  · have streak := sound.streak
    simp only [setState, removeWaiterLocked]
    cases waiter.priority <;> simpa [setQueue] using streak

theorem Sound.free {t : Pool} (sound : Sound t)
    (found : waiter ∈ t.waiters) (held : waiter.busy = true) :
    Sound { t.setState waiter.id .cancelled with active := t.active - 1 } := by
  have counted : 0 < t.active := by
    rw [sound.active]
    exact List.countP_pos_iff.mpr ⟨waiter, found, held⟩
  have other : waiter.state ≠ .waiting := by
    intro waits
    simp [Waiter.busy, waits] at held
  apply @Sound.restated _ t _ sound found .cancelled (by simp)
  · simp [restate, setState]
  · simp [setState]
  · intro priority
    have same := @Sound.filter_queue priority _ t sound found fun waits => absurd waits other
    rw [same]
    cases priority <;> simp [setState, queue]
  · intro priority
    cases priority <;> simp [setState, limit]
  · simp only [held]
    simp [Waiter.busy]
    omega
  · have within := sound.within
    simp only [setState]
    omega
  · exact sound.streak

theorem Sound.move {t : Pool} (sound : Sound t) (move : Move t events last) : Sound last := by
  cases move with
  | refuse => exact sound.refuse
  | enqueue priority kind room => exact sound.enqueue kind room
  | grant priority id rest free next first => exact sound.grant free next first
  | claim id held => exact sound.claim held
  | withdraw waiter found waits => exact sound.withdraw found waits
  | free waiter found held => exact sound.free found held

theorem Sound.moves {t : Pool} (sound : Sound t) (moves : Moves t events last) : Sound last := by
  induction moves with
  | refl t => exact sound
  | step move moves ih => exact ih (sound.move move)

/-- What a waiter may become. -/
structure Later (old new : Waiter) : Prop where
  id : new.id = old.id
  priority : new.priority = old.priority
  served : old.state ≠ .waiting → new.state ≠ .waiting
  ended : old.state = .cancelled → new.state = .cancelled

/-- A move adds waiters that wait, or changes one that was not cancelled. -/
theorem Move.changes {t : Pool} (sound : Sound t) (move : Move t events last) :
    (∃ added, last.waiters = t.waiters ++ added ∧
      ∀ waiter ∈ added, waiter.state = .waiting ∧ t.nextId ≤ waiter.id) ∨
    ∃ waiter ∈ t.waiters, ∃ state, state ≠ .waiting ∧ waiter.state ≠ .cancelled ∧
      last.waiters = restate waiter.id state t.waiters := by
  cases move with
  | refuse => exact .inl ⟨[], by simp, by simp⟩
  | enqueue priority kind room => exact .inl ⟨_, rfl, by simp⟩
  | grant priority id rest free next first =>
    have queued : id ∈ t.queue priority := by simp [first]
    obtain ⟨waiter, known, rfl, _, waits⟩ := sound.waiting_of_mem queued
    refine .inr ⟨waiter, known, .granted, by simp, by simp [waits], ?_⟩
    cases priority <;> simp [Pool.grant, setQueue]
  | claim id held =>
    obtain ⟨waiter, known, rfl, granted⟩ := stateOf_eq_some held
    exact .inr ⟨waiter, known, .claimed, by simp, by simp [granted], by simp⟩
  | withdraw waiter found waits =>
    refine .inr ⟨waiter, found, .cancelled, by simp, by simp [waits], ?_⟩
    simp only [waiters_setState, removeWaiterLocked]
    cases waiter.priority <;> simp [setQueue]
  | free waiter found held =>
    refine .inr ⟨waiter, found, .cancelled, by simp, ?_, by
      simp [setState, restate]⟩
    intro cancelled
    simp [Waiter.busy, cancelled] at held

theorem Move.later {t : Pool} (sound : Sound t)
    (move : Move t events last) (known : waiter ∈ t.waiters) :
    ∃ new ∈ last.waiters, Later waiter new := by
  rcases move.changes sound with ⟨added, waiters, _⟩ |
    ⟨moved, found, state, other, going, waiters⟩
  · exact ⟨waiter, by simp [waiters, known], ⟨rfl, rfl, id, id⟩⟩
  · by_cases same : waiter.id = moved.id
    · have twin := sound.eq_of_id known found same
      subst twin
      refine ⟨{ waiter with state }, ?_, ⟨rfl, rfl, fun _ => other, ?_⟩⟩
      · rw [waiters]
        exact List.mem_map.mpr ⟨waiter, known, by simp⟩
      · intro cancelled
        exact absurd cancelled going
    · refine ⟨waiter, ?_, ⟨rfl, rfl, id, id⟩⟩
      rw [waiters]
      exact List.mem_map.mpr ⟨waiter, known, by simp [same]⟩

theorem Moves.later {t : Pool} (sound : Sound t)
    (moves : Moves t events last) (known : waiter ∈ t.waiters) :
    ∃ new ∈ last.waiters, Later waiter new := by
  induction moves generalizing waiter with
  | refl t => exact ⟨waiter, known, ⟨rfl, rfl, id, id⟩⟩
  | step move moves ih =>
    obtain ⟨mid, known, first⟩ := move.later sound known
    obtain ⟨new, known, second⟩ := ih (sound.move move) known
    exact ⟨new, known, second.id.trans first.id, second.priority.trans first.priority,
      fun served => second.served (first.served served),
      fun ended => second.ended (first.ended ended)⟩

/-- Whoever is queued after a move was queued before it or is new. -/
theorem Move.queue {t : Pool} (move : Move t events last) {id : Nat}
    (queued : id ∈ last.queue priority) : id ∈ t.queue priority ∨ id = t.nextId := by
  cases move with
  | refuse | free => exact .inl (by cases priority <;> exact queued)
  | enqueue ranked kind room =>
    have same : id ∈ (t.setQueue ranked (t.queue ranked ++ [t.nextId])).queue priority := by
      cases ranked <;> cases priority <;> exact queued
    rw [queue_setQueue] at same
    split at same
    · next ranked =>
        subst ranked
        rcases List.mem_append.mp same with old | new
        · exact .inl old
        · exact .inr (List.mem_singleton.mp new)
    · exact .inl same
  | grant ranked first rest free next head =>
    rw [queue_grant, queue_setQueue] at queued
    split at queued
    · next same =>
        subst same
        rw [head]
        exact .inl (List.mem_cons_of_mem _ queued)
    · exact .inl queued
  | claim => exact .inl (by rwa [queue_setState] at queued)
  | withdraw waiter found waits =>
    rw [queue_setState, removeWaiterLocked, queue_setQueue] at queued
    split at queued
    · next same =>
        subst same
        exact .inl (List.mem_of_mem_filter queued)
    · exact .inl queued

theorem Move.nextId {t : Pool} (move : Move t events last) : t.nextId ≤ last.nextId := by
  cases move with
  | grant priority id rest free next first =>
    cases priority <;> simp [Pool.grant, setQueue, setState]
  | withdraw waiter found waits =>
    simp only [setState, removeWaiterLocked]
    cases waiter.priority <;> simp [setQueue]
  | refuse | enqueue | claim | free => simp [setState]

theorem mem_restate {waiters : List Waiter} {id : Nat} {state : WaiterState}
    (member : waiter ∈ restate id state waiters) :
    ∃ old ∈ waiters, waiter.id = old.id ∧ waiter.priority = old.priority ∧
      (old.id = id ∧ waiter.state = state ∨ old.id ≠ id ∧ waiter.state = old.state) := by
  simp only [restate, List.mem_map] at member
  obtain ⟨old, known, rfl⟩ := member
  refine ⟨old, known, ?_⟩
  split
  · next same => exact ⟨rfl, rfl, .inl ⟨same, rfl⟩⟩
  · next other => exact ⟨rfl, rfl, .inr ⟨other, rfl⟩⟩

/-- What a pool was created with. -/
structure SameSetting (before after : Pool) : Prop where
  capacity : after.capacity = before.capacity
  limit : ∀ priority, after.limit priority = before.limit priority
  requiredBurst : after.requiredBurst = before.requiredBurst

theorem SameSetting.setQueue (t : Pool) (priority : Priority)
    (waiters : List Nat) : SameSetting t (t.setQueue priority waiters) := by
  cases priority <;> exact ⟨rfl, fun other => by cases other <;> rfl, rfl⟩

theorem SameSetting.trans {first mid : Pool}
    (same : SameSetting first mid) (later : SameSetting mid last) : SameSetting first last :=
  ⟨later.capacity.trans same.capacity,
    fun priority => (later.limit priority).trans (same.limit priority),
    later.requiredBurst.trans same.requiredBurst⟩

theorem Move.setting {t : Pool} (move : Move t events last) : SameSetting t last := by
  cases move with
  | refuse | claim | free => exact ⟨rfl, fun priority => by cases priority <;> rfl, rfl⟩
  | enqueue priority kind room =>
    apply (SameSetting.setQueue t priority _).trans
    exact ⟨rfl, fun other => by cases other <;> rfl, rfl⟩
  | grant priority id rest free next first =>
    apply (SameSetting.setQueue t priority rest).trans
    refine ⟨?_, fun other => limit_grant .., ?_⟩
    · simp [Pool.grant, setState]
    · simp [Pool.grant, setState]
  | withdraw waiter found waits =>
    apply (SameSetting.setQueue t waiter.priority _).trans
    exact ⟨rfl, fun other => by cases other <;> rfl, rfl⟩

theorem Moves.setting {t : Pool} (moves : Moves t events last) : SameSetting t last := by
  induction moves with
  | refl t => exact ⟨rfl, fun _ => rfl, rfl⟩
  | step move moves ih => exact move.setting.trans ih

end Pool
end Compute
end LiteNode
