import LiteNode.Compute.Moves

/-!
# Dispatching

Every step of a pool is made of moves, and leaves no slot free while a waiter
is queued.
-/

namespace LiteNode
namespace Compute
namespace Pool

variable {t : Pool}

theorem nextPriority_eq_none_iff : t.nextPriority = none ↔ ∀ priority, t.queue priority = [] := by
  constructor
  · intro none priority
    simp only [nextPriority] at none
    split at none
    · next required speculative => cases priority <;> simp [queue, required, speculative]
    · cases none
    · cases none
    · split at none <;> cases none
  · intro empty
    have required := empty .required
    have speculative := empty .speculative
    simp only [queue] at required speculative
    simp [nextPriority, required, speculative]

theorem dispatchLocked_settled (within : t.active ≤ t.capacity)
    (settled : Settled t) (wakes : List Nat) : t.dispatchLocked wakes = ⟨t, [], wakes.reverse⟩ := by
  rw [dispatchLocked]
  rcases settled with full | empty
  · rw [if_pos (by omega)]
  · split
    · rfl
    · split
      · rfl
      · next next =>
          rw [nextPriority_eq_none_iff.mpr empty] at next
          cases next

theorem dispatchLocked_next (sound : Sound t) {priority : Priority}
    {id : Nat} {rest : List Nat} (free : t.active < t.capacity)
    (next : t.nextPriority = some priority)
    (first : t.queue priority = id :: rest) (wakes : List Nat) :
    ∃ woken, t.dispatchLocked wakes =
      let turn := ((t.setQueue priority rest).grant priority id).dispatchLocked woken
      { turn with events := .granted priority id :: turn.events } := by
  have took : t.takeLocked priority = some (id, t.setQueue priority rest) := by
    simp [takeLocked, first]
  have waits : (t.setQueue priority rest).stateOf id = some .waiting := by
    have queued : id ∈ t.queue priority := by simp [first]
    obtain ⟨waiter, known, rfl, ranked, waits⟩ := sound.waiting_of_mem queued
    have state := sound.stateOf known
    rw [waits] at state
    cases priority <;> exact state
  rw [dispatchLocked, if_neg (by omega)]
  split
  · next none =>
      rw [next] at none
      cases none
  · next chosen same =>
      rw [next] at same
      cases same
      split
      · next none =>
          rw [took] at none
          cases none
      · next taken same =>
          rw [took] at same
          cases same
          rw [if_neg (by simp [waits])]
          exact ⟨_, rfl⟩

theorem exists_first {priority : Priority} (next : t.nextPriority = some priority) :
    ∃ id rest, t.queue priority = id :: rest := by
  have waiting := queue_of_nextPriority next
  exact List.exists_cons_of_ne_nil waiting

/-- A dispatch is made of grants, and ends with no free slot or no waiter. -/
theorem dispatchLocked_moves {t : Pool} (sound : Sound t) (wakes : List Nat) :
    Moves t (t.dispatchLocked wakes).events (t.dispatchLocked wakes).pool ∧
      Settled (t.dispatchLocked wakes).pool := by
  by_cases settled : Settled t
  · rw [dispatchLocked_settled sound.within settled]
    exact ⟨.refl t, settled⟩
  · simp only [Settled, not_or] at settled
    have within := sound.within
    have free : t.active < t.capacity := by omega
    obtain ⟨priority, next⟩ : ∃ priority, t.nextPriority = some priority := by
      cases next : t.nextPriority with
      | none => exact absurd (nextPriority_eq_none_iff.mp next) settled.2
      | some priority => exact ⟨priority, rfl⟩
    obtain ⟨id, rest, first⟩ := exists_first next
    have move := Move.grant priority id rest free next first
    obtain ⟨woken, dispatched⟩ := dispatchLocked_next sound free next first wakes
    have took : t.takeLocked priority = some (id, t.setQueue priority rest) := by
      simp [takeLocked, first]
    have fewer := queued_take took
    obtain ⟨moves, settled⟩ := dispatchLocked_moves (sound.move move) woken
    rw [dispatched]
    exact ⟨.step move moves, settled⟩
termination_by t.queued
decreasing_by simpa [queued] using fewer

/-- Where a turn of the pool leads. -/
structure Turns (t : Pool) (turn : Turn) : Prop where
  moves : Moves t turn.events turn.pool
  settled : Settled turn.pool

theorem Turns.after {mid : Pool} {events : List Event} {turn : Turn}
    (moves : Moves t events mid) (turns : Turns mid turn) :
    Turns t { turn with events := events ++ turn.events } :=
  ⟨moves.trans turns.moves, turns.settled⟩

theorem Turns.next {last : Pool} {turn : Turn} (turns : Turns t turn)
    (move : Move turn.pool [] last) (settled : Settled last) :
    Turns t { turn with pool := last } := by
  have moves := turns.moves.trans move.moves
  rw [List.append_nil] at moves
  exact ⟨moves, settled⟩

theorem turns_dispatch (sound : Sound t) (wakes : List Nat) : Turns t (t.dispatchLocked wakes) :=
  ⟨(dispatchLocked_moves sound wakes).1, (dispatchLocked_moves sound wakes).2⟩

theorem turns_unmoved (settled : Settled t) : Turns t t.unmoved := ⟨.refl t, settled⟩

theorem Settled.setState (settled : Settled t) (id : Nat)
    (state : WaiterState) : Settled (t.setState id state) := by
  rcases settled with full | empty
  · exact .inl full
  · exact .inr fun priority => by rw [queue_setState, empty]

/-- The pool after a busy waiter gave back its slot. -/
def freed (t : Pool) (id : Nat) : Pool := { t.setState id .cancelled with active := t.active - 1 }

theorem releaseLocked_cases (sound : Sound t) (id : Nat) : t.releaseLocked id = t.unmoved ∨
      ∃ waiter ∈ t.waiters, waiter.id = id ∧ waiter.busy = true ∧
        t.releaseLocked id =
          let turn := (t.freed id).dispatchLocked []
          { turn with events := .released id :: turn.events } := by
  have counted : ∀ waiter ∈ t.waiters, waiter.busy = true →
      (t.setState id .cancelled).active > 0 := by
    intro waiter known held
    simp only [setState, sound.active]
    exact List.countP_pos_iff.mpr ⟨waiter, known, held⟩
  simp only [releaseLocked]
  split
  · next state =>
      obtain ⟨waiter, known, named, granted⟩ := stateOf_eq_some state
      have held : waiter.busy = true := by simp [Waiter.busy, granted]
      rw [if_pos (counted waiter known held)]
      exact .inr ⟨waiter, known, named, held, rfl⟩
  · next state =>
      obtain ⟨waiter, known, named, claimed⟩ := stateOf_eq_some state
      have held : waiter.busy = true := by simp [Waiter.busy, claimed]
      rw [if_pos (counted waiter known held)]
      exact .inr ⟨waiter, known, named, held, rfl⟩
  all_goals exact .inl rfl

theorem turns_release (sound : Sound t) (settled : Settled t)
    (id : Nat) : Turns t (t.releaseLocked id) := by
  rcases releaseLocked_cases sound id with same |
    ⟨waiter, known, rfl, held, released⟩
  · rw [same]
    exact turns_unmoved settled
  · have move := Move.free waiter known held
    rw [released]
    exact (turns_dispatch (sound.move move) []).after move.moves

theorem turns_cancel (sound : Sound t) (settled : Settled t)
    (id : Nat) : Turns t (t.cancelAsync id) := by
  simp only [cancelAsync]
  split
  · exact turns_unmoved settled
  · next waiter found =>
      obtain ⟨known, rfl⟩ := find?_eq_some found
      split
      · next waits =>
          have move := Move.withdraw waiter known waits
          exact (turns_dispatch (sound.move move) []).after move.moves
      · exact turns_release sound settled waiter.id
      · exact turns_unmoved settled
      · exact turns_unmoved settled

theorem claim_move (t : Pool) (id : Nat) : (t.claim id).1 = t ∨ Move t [] (t.claim id).1 := by
  simp only [claim]
  split
  · next held => exact .inr (.claim id held)
  all_goals exact .inl rfl

theorem settled_claim (settled : Settled t) (id : Nat) : Settled (t.claim id).1 := by
  simp only [claim]
  split
  · exact settled.setState id .claimed
  all_goals exact settled

theorem turns_claim (settled : Settled t) (id : Nat) : Turns t (t.claim id).1.unmoved := by
  rcases claim_move t id with same | move
  · rw [same]
    exact turns_unmoved settled
  · exact ⟨move.moves, settled_claim settled id⟩

theorem queue_numbered (t : Pool) (nextId : Nat) (priority : Priority) :
    { t with nextId }.queue priority = t.queue priority := by
  cases priority <;> simp [queue]

theorem limit_numbered (t : Pool) (nextId : Nat) (priority : Priority) :
    { t with nextId }.limit priority = t.limit priority := by
  cases priority <;> simp [limit]

theorem enqueueLocked_cases (t : Pool) (priority : Priority) (kind : Kind) :
    let (waiter, made) := t.freshWaiter priority kind
    (made.enqueueLocked waiter = none ∧ Move t [] made) ∨
      ∃ queued, made.enqueueLocked waiter = some queued ∧ Move t [] queued := by
  simp only [freshWaiter, enqueueLocked, queue_numbered, limit_numbered]
  by_cases full : (t.queue priority).length ≥ t.limit priority
  · rw [if_pos full]
    exact .inl ⟨rfl, .refuse⟩
  · rw [if_neg full]
    have move := Move.enqueue priority kind (by omega : _ < t.limit priority)
    refine .inr ⟨_, rfl, ?_⟩
    cases priority <;> exact move

theorem Settled.refuse (settled : Settled t) : Settled { t with nextId := t.nextId + 1 } := by
  rcases settled with full | empty
  · exact .inl full
  · exact .inr fun priority => by rw [queue_numbered, empty]

theorem turns_refused (settled : Settled t) : Turns t { t with nextId := t.nextId + 1 }.unmoved :=
  ⟨Move.refuse.moves, settled.refuse⟩

theorem turns_acquireAsync (sound : Sound t) (settled : Settled t)
    (priority : Priority) : Turns t (t.acquireAsync priority).1 := by
  have cases := enqueueLocked_cases t priority .async
  simp only [acquireAsync]
  simp only [freshWaiter] at cases ⊢
  rcases cases with ⟨refused, _⟩ | ⟨queued, accepted, move⟩
  · rw [refused]
    exact turns_refused settled
  · rw [accepted]
    exact (turns_dispatch (sound.move move) []).after move.moves

theorem turns_acquireSync (sound : Sound t) (settled : Settled t)
    (priority : Priority) : Turns t (t.acquireSync priority).1 := by
  have cases := enqueueLocked_cases t priority .sync
  simp only [acquireSync]
  simp only [freshWaiter] at cases ⊢
  rcases cases with ⟨refused, _⟩ | ⟨queued, accepted, move⟩
  · rw [refused]
    exact turns_refused settled
  · rw [accepted]
    have turns := (turns_dispatch (sound.move move) []).after move.moves
    rcases claim_move (queued.dispatchLocked []).pool t.nextId with same | claim
    · simp only [same]
      exact turns
    · exact turns.next claim (settled_claim turns.settled t.nextId)

theorem Settled.removeWaiterLocked (settled : Settled t)
    (waiter : Waiter) : Settled (t.removeWaiterLocked waiter) := by
  rcases settled with full | empty
  · refine .inl ?_
    simp only [Pool.removeWaiterLocked]
    cases waiter.priority <;> simpa [setQueue] using full
  · refine .inr fun priority => ?_
    rw [Pool.removeWaiterLocked, queue_setQueue, empty, empty]
    simp

theorem waiters_enqueueLocked {queued : Pool} {waiter : Waiter}
    (accepted : t.enqueueLocked waiter = some queued) : waiter ∈ queued.waiters := by
  simp only [enqueueLocked] at accepted
  split at accepted
  · cases accepted
  · cases accepted
    simp

theorem turns_tryAcquireSync (sound : Sound t) (settled : Settled t) (priority : Priority) :
    Turns t (t.tryAcquireSync priority).1 := by
  have cases := enqueueLocked_cases t priority .sync
  simp only [tryAcquireSync]
  simp only [freshWaiter] at cases ⊢
  rcases cases with ⟨refused, _⟩ | ⟨queued, accepted, move⟩
  · rw [refused]
    exact turns_refused settled
  · have known := waiters_enqueueLocked accepted
    have turns := turns_dispatch (sound.move move) []
    have after := turns.after move.moves
    have last := (sound.move move).moves turns.moves
    rw [accepted]
    dsimp only
    split
    · next held =>
        exact after.next (.claim t.nextId held) (turns.settled.setState t.nextId .claimed)
    · next waits =>
        obtain ⟨new, found, later⟩ := turns.moves.later (sound.move move) known
        have named : new.id = t.nextId := later.id
        have state := last.stateOf found
        rw [named, waits] at state
        have move := Move.withdraw new found (by simpa using state.symm)
        simp only [removeWaiterLocked, later.priority, named] at move
        exact after.next move ((turns.settled.removeWaiterLocked _).setState _ _)
    all_goals exact after

/-- Every step of a settled pool is made of moves and leaves it settled. -/
theorem turns_step (sound : Sound t) (settled : Settled t)
    (request : Request) : Turns t (t.step request) := by
  cases request with
  | acquireAsync priority => exact turns_acquireAsync sound settled priority
  | acquireSync priority => exact turns_acquireSync sound settled priority
  | tryAcquireSync priority => exact turns_tryAcquireSync sound settled priority
  | claim id => exact turns_claim settled id
  | cancelAsync id => exact turns_cancel sound settled id
  | release id => exact turns_release sound settled id

theorem run_moves (sound : Sound t) (settled : Settled t) (requests : List Request) :
    Moves t (t.run requests).2 (t.run requests).1 ∧ Settled (t.run requests).1 := by
  induction requests generalizing t with
  | nil => exact ⟨.refl t, settled⟩
  | cons request rest ih =>
    have turns := turns_step sound settled request
    obtain ⟨moves, settled⟩ := ih (sound.moves turns.moves) turns.settled
    exact ⟨turns.moves.trans moves, settled⟩

end Pool
end Compute
end LiteNode
