import Mathlib.Data.List.Basic

/-!
# The compute pool

Slots for proof and query work. Each definition that ends a step is what the
source does between taking and giving back the pool's mutex.
-/

namespace LiteNode
namespace Compute

inductive Priority where
  | required
  | speculative
deriving DecidableEq

/-- Where a waiter stands. -/
inductive WaiterState where
  | waiting
  | granted
  | claimed
  | cancelled
deriving DecidableEq

/-- Whether a waiter sleeps on a promise or on a condition. -/
inductive Kind where
  | async
  | sync
deriving DecidableEq

structure Waiter where
  id : Nat
  priority : Priority
  kind : Kind
  state : WaiterState
deriving DecidableEq

/-- The pool, with the waiters that were ever queued in order of arrival. -/
structure Pool where
  capacity : Nat
  requiredLimit : Nat
  speculativeLimit : Nat
  requiredBurst : Nat
  active : Nat
  nextId : Nat
  requiredStreak : Nat
  requiredWaiters : List Nat
  speculativeWaiters : List Nat
  waiters : List Waiter
deriving DecidableEq

def create (capacity requiredLimit speculativeLimit requiredBurst : Int) : Except String Pool :=
  if capacity < 1 then .error "compute pool capacity must be positive"
  else if requiredLimit < 1 then .error "compute pool required limit must be positive"
  else if speculativeLimit < 1 then .error "compute pool speculative limit must be positive"
  else if requiredBurst < 1 then .error "compute pool required burst must be positive"
  else
    .ok {
      capacity := capacity.toNat
      requiredLimit := requiredLimit.toNat
      speculativeLimit := speculativeLimit.toNat
      requiredBurst := requiredBurst.toNat
      active := 0
      nextId := 0
      requiredStreak := 0
      requiredWaiters := []
      speculativeWaiters := []
      waiters := [] }

namespace Pool

def find? (t : Pool) (id : Nat) : Option Waiter := t.waiters.find? (·.id = id)

/-- The state of a waiter, if it was ever queued. -/
def stateOf (t : Pool) (id : Nat) : Option WaiterState := (t.find? id).map (·.state)

def setState (t : Pool) (id : Nat) (state : WaiterState) : Pool :=
  { t with
    waiters := t.waiters.map fun waiter =>
      if waiter.id = id then { waiter with state } else waiter }

def queue (t : Pool) : Priority → List Nat
  | .required => t.requiredWaiters
  | .speculative => t.speculativeWaiters

def setQueue (t : Pool) (priority : Priority) (waiters : List Nat) : Pool :=
  match priority with
  | .required => { t with requiredWaiters := waiters }
  | .speculative => { t with speculativeWaiters := waiters }

def limit (t : Pool) : Priority → Nat
  | .required => t.requiredLimit
  | .speculative => t.speculativeLimit

/-- Queue a fresh waiter, unless its queue is full. -/
def enqueueLocked (t : Pool) (waiter : Waiter) : Option Pool :=
  let waiters := t.queue waiter.priority
  if waiters.length ≥ t.limit waiter.priority then none
  else
    some {
      t.setQueue waiter.priority (waiters ++ [waiter.id]) with
      waiters := t.waiters ++ [waiter] }

def removeWaiterLocked (t : Pool) (waiter : Waiter) : Pool :=
  t.setQueue waiter.priority ((t.queue waiter.priority).filter (· ≠ waiter.id))

def takeLocked (t : Pool) (priority : Priority) : Option (Nat × Pool) :=
  match t.queue priority with
  | [] => none
  | id :: rest => some (id, t.setQueue priority rest)

def nextPriority (t : Pool) : Option Priority :=
  match t.requiredWaiters, t.speculativeWaiters with
  | [], [] => none
  | _ :: _, [] => some .required
  | [], _ :: _ => some .speculative
  | _ :: _, _ :: _ =>
    if t.requiredStreak ≥ t.requiredBurst then some .speculative
    else some .required

def noteGrant (t : Pool) : Priority → Pool
  | .required =>
    if t.speculativeWaiters = [] then { t with requiredStreak := 0 }
    else { t with requiredStreak := t.requiredStreak + 1 }
  | .speculative => { t with requiredStreak := 0 }

@[simp] theorem queue_noteGrant (t : Pool) (granted priority : Priority) :
    (t.noteGrant granted).queue priority = t.queue priority := by
  cases granted <;> simp only [noteGrant] <;> try split
  all_goals cases priority <;> simp [queue]

@[simp] theorem limit_noteGrant (t : Pool) (granted priority : Priority) :
    (t.noteGrant granted).limit priority = t.limit priority := by
  cases granted <;> simp only [noteGrant] <;> try split
  all_goals cases priority <;> simp [limit]

@[simp] theorem waiters_noteGrant (t : Pool) (granted : Priority) :
    (t.noteGrant granted).waiters = t.waiters := by
  cases granted <;> simp only [noteGrant] <;> try split
  all_goals simp

@[simp] theorem active_noteGrant (t : Pool) (granted : Priority) :
    (t.noteGrant granted).active = t.active := by
  cases granted <;> simp only [noteGrant] <;> try split
  all_goals simp

@[simp] theorem capacity_noteGrant (t : Pool) (granted : Priority) :
    (t.noteGrant granted).capacity = t.capacity := by
  cases granted <;> simp only [noteGrant] <;> try split
  all_goals simp

@[simp] theorem nextId_noteGrant (t : Pool) (granted : Priority) :
    (t.noteGrant granted).nextId = t.nextId := by
  cases granted <;> simp only [noteGrant] <;> try split
  all_goals simp

@[simp] theorem requiredBurst_noteGrant (t : Pool) (granted : Priority) :
    (t.noteGrant granted).requiredBurst = t.requiredBurst := by
  cases granted <;> simp only [noteGrant] <;> try split
  all_goals simp

/-- Hand a slot to a waiter that was taken from its queue. -/
def grant (t : Pool) (priority : Priority) (id : Nat) : Pool :=
  let granted := t.setState id .granted
  { granted with active := granted.active + 1 }.noteGrant priority

@[simp] theorem queue_grant (t : Pool) (granted priority : Priority) (id : Nat) :
    (t.grant granted id).queue priority = t.queue priority := by
  simp only [grant, queue_noteGrant]
  cases priority <;> simp [queue, setState]

@[simp] theorem limit_grant (t : Pool) (granted priority : Priority) (id : Nat) :
    (t.grant granted id).limit priority = t.limit priority := by
  simp only [grant, limit_noteGrant]
  cases priority <;> simp [limit, setState]

/-- What happens to a slot. -/
inductive Event where
  | granted (priority : Priority) (id : Nat)
  | released (id : Nat)
deriving DecidableEq

/-- The pool after a step, the slots that moved and the waiters to wake. -/
structure Turn where
  pool : Pool
  events : List Event
  wakes : List Nat
deriving DecidableEq

/-- Number of waiters in both queues. -/
def queued (t : Pool) : Nat := (t.queue .required).length + (t.queue .speculative).length

variable {priority : Priority}

theorem takeLocked_eq_some {t taken : Pool} {id : Nat}
    (took : t.takeLocked priority = some (id, taken)) :
    ∃ rest, t.queue priority = id :: rest ∧ taken = t.setQueue priority rest := by
  simp only [takeLocked] at took
  split at took
  · cases took
  · next first rest waiting =>
      obtain ⟨rfl, rfl⟩ := took
      exact ⟨rest, waiting, rfl⟩

theorem queued_take {t taken : Pool} {id : Nat} (took : t.takeLocked priority = some (id, taken)) :
    taken.queued < t.queued := by
  obtain ⟨rest, waiting, rfl⟩ := takeLocked_eq_some took
  cases priority <;> simp_all [queue, queued, setQueue]

theorem queue_of_nextPriority {t : Pool}
    (next : t.nextPriority = some priority) : t.queue priority ≠ [] := by
  simp only [nextPriority] at next
  split at next
  · cases next
  · cases next
    simp_all [queue]
  · cases next
    simp_all [queue]
  · split at next
    all_goals
      cases next
      simp_all [queue]

/-- Grant free slots for as long as waiters are queued. -/
def dispatchLocked (t : Pool) (wakes : List Nat) : Turn :=
  if t.active ≥ t.capacity then ⟨t, [], wakes.reverse⟩
  else
    match _next : t.nextPriority with
    | none => ⟨t, [], wakes.reverse⟩
    | some priority =>
      match _took : t.takeLocked priority with
      | none => dispatchLocked t wakes
      | some (id, taken) =>
        if taken.stateOf id ≠ some .waiting then dispatchLocked taken wakes
        else
          let woken :=
            if (taken.find? id).map (·.kind) = some .sync then wakes
            else id :: wakes
          let rest := dispatchLocked (taken.grant priority id) woken
          { rest with events := .granted priority id :: rest.events }
termination_by t.queued
decreasing_by
  · exact absurd _took (by
      have waiting := queue_of_nextPriority _next
      cases queued : t.queue priority <;> simp_all [takeLocked])
  all_goals
    have fewer := queued_take _took
    simpa [queued] using fewer

/-- The step that changes nothing. -/
def unmoved (t : Pool) : Turn := ⟨t, [], []⟩

def releaseLocked (t : Pool) (id : Nat) : Turn :=
  match t.stateOf id with
  | some .granted | some .claimed =>
    let cancelled := t.setState id .cancelled
    let freed :=
      if cancelled.active > 0 then { cancelled with active := cancelled.active - 1 }
      else cancelled
    let turn := freed.dispatchLocked []
    { turn with events := .released id :: turn.events }
  | some .waiting | some .cancelled | none => t.unmoved

def cancelAsync (t : Pool) (id : Nat) : Turn :=
  match t.find? id with
  | none => t.unmoved
  | some waiter =>
    match waiter.state with
    | .waiting => ((t.removeWaiterLocked waiter).setState id .cancelled).dispatchLocked []
    | .granted => t.releaseLocked id
    | .claimed | .cancelled => t.unmoved

/-- Claim a granted slot, and whether there was one. -/
def claim (t : Pool) (id : Nat) : Pool × Bool :=
  match t.stateOf id with
  | some .granted => (t.setState id .claimed, true)
  | some .waiting | some .claimed | some .cancelled | none => (t, false)

def freshWaiter (t : Pool) (priority : Priority) (kind : Kind) : Waiter × Pool :=
  (⟨t.nextId, priority, kind, .waiting⟩, { t with nextId := t.nextId + 1 })

def acquireAsync (t : Pool) (priority : Priority) : Turn × Option Nat :=
  let (waiter, made) := t.freshWaiter priority .async
  match made.enqueueLocked waiter with
  | none => (made.unmoved, none)
  | some queued => (queued.dispatchLocked [], some waiter.id)

/-- The part of a blocking acquire before it first waits on its condition.
Once the condition holds, the rest of it is a claim. -/
def acquireSync (t : Pool) (priority : Priority) : Turn × Option Nat :=
  let (waiter, made) := t.freshWaiter priority .sync
  match made.enqueueLocked waiter with
  | none => (made.unmoved, none)
  | some queued =>
    let turn := queued.dispatchLocked []
    ({ turn with pool := (turn.pool.claim waiter.id).1 }, some waiter.id)

def tryAcquireSync (t : Pool) (priority : Priority) : Turn × Option Nat :=
  let (waiter, made) := t.freshWaiter priority .sync
  match made.enqueueLocked waiter with
  | none => (made.unmoved, none)
  | some queued =>
    let turn := queued.dispatchLocked []
    match turn.pool.stateOf waiter.id with
    | some .granted =>
      let claimed := turn.pool.setState waiter.id .claimed
      ({ turn with pool := claimed }, some waiter.id)
    | some .waiting =>
      let removed := turn.pool.removeWaiterLocked waiter
      let cancelled := removed.setState waiter.id .cancelled
      ({ turn with pool := cancelled }, none)
    | some .claimed | some .cancelled | none => (turn, none)

/-- What a client can ask of the pool. -/
inductive Request where
  | acquireAsync (priority : Priority)
  | acquireSync (priority : Priority)
  | tryAcquireSync (priority : Priority)
  | claim (id : Nat)
  | cancelAsync (id : Nat)
  | release (id : Nat)
deriving DecidableEq

def step (t : Pool) : Request → Turn
  | .acquireAsync priority => (t.acquireAsync priority).1
  | .acquireSync priority => (t.acquireSync priority).1
  | .tryAcquireSync priority => (t.tryAcquireSync priority).1
  | .claim id => (t.claim id).1.unmoved
  | .cancelAsync id => t.cancelAsync id
  | .release id => t.releaseLocked id

/-- The pool after some requests, with every move of a slot. -/
def run : Pool → List Request → Pool × List Event
  | t, [] => (t, [])
  | t, request :: rest =>
    let turn := t.step request
    let (last, events) := run turn.pool rest
    (last, turn.events ++ events)

end Pool
end Compute
end LiteNode
