import LiteNode.Data.Bytes

/-!
# Requests for ranges of epochs

An actor answers requests for ranges. It runs one job at a time, keeps few
waiting ones, and keeps what large jobs read for a while. Its messages come in
any order, with a worker that goes on when nobody waits for it any more.
-/

namespace LiteNode
namespace SyncRange

/-- `Range_part.encoded`: a response, with its hash when it is sent in parts. -/
structure Encoded where
  raw : Bytes
  digest : Option Bytes
  deriving DecidableEq

def Encoded.size (encoded : Encoded) : Nat := encoded.raw.length

structure Query (η : Type) where
  fromEpoch : Int
  maxEpochs : Int
  part : Option Int
  hash : Option Bytes
  head : Option η
  pubkeys : List (Bytes × Bytes)
  activation : Option Int
  deriving DecidableEq

structure Loaded where
  body : Bytes
  status : Bytes
  records : Int
  encoded : Option Encoded
  deriving DecidableEq

inductive Error
  | busy
  | expired
  | stopped
  | changed
  | missing
  | invalid (reason : String)
  deriving DecidableEq

abbrev Reply := Except Error Loaded

inductive Listener
  | waiting
  | released
  deriving DecidableEq

structure Cache (τ : Type) where
  fromEpoch : Int
  maxEpochs : Int
  encoded : Encoded
  status : Bytes
  records : Int
  expires : τ
  deriving DecidableEq

structure Job (η τ : Type) where
  id : Int
  generation : Int
  query : Query η
  deadline : τ
  listener : Listener
  cached : Option (Cache τ)
  deriving DecidableEq

structure State (η τ : Type) where
  isOpen : Bool
  generation : Int
  lastId : Int
  active : Option (Job η τ)
  queued : List (Job η τ)
  cache : List (Cache τ)

inductive Message (η τ : Type)
  | ask (id : Int) (query : Query η) (now : τ)
  | completed (id generation : Int) (now : τ) (reply : Reply)
  | cancel (id : Int)
  | tick (now : τ)
  | stop

inductive Effect (η τ : Type)
  | run (job : Job η τ)
  | interrupt (id : Int)
  | reply (id : Int) (reply : Reply)

/-- The times at which a request that comes now expires, and at which what is
read now does; the latter is later than now. -/
structure Clock (τ : Type) [LT τ] where
  lifetime : τ → τ
  retention : τ → τ
  retained : ∀ now, now < retention now

def capacity : Nat := 4

def cacheBytes : Nat := 64 * 1024 * 1024

section Actor

variable {η τ : Type} [DecidableEq η] [LinearOrder τ]

/-- Keep the first entries that fit. -/
def trim (count bytes : Nat) : List (Cache τ) → List (Cache τ)
  | [] => []
  | entry :: rest =>
    let size := entry.encoded.size
    if count = 0 ∨ bytes < size then []
    else entry :: trim (count - 1) (bytes - size) rest

def empty : State η τ where
  isOpen := true
  generation := 0
  lastId := 0
  active := none
  queued := []
  cache := []

/-- Drop what has expired, and answer those whose time is over. -/
def expire (now : τ) (state : State η τ) : State η τ × List (Effect η τ) :=
  let state := { state with
    cache := state.cache.filter fun entry => decide (now < entry.expires) }
  let expired := state.queued.filter fun job => decide (job.deadline ≤ now)
  let queued := state.queued.filter fun job => !decide (job.deadline ≤ now)
  let effects : List (Effect η τ) := expired.map fun job => .reply job.id (.error .expired)
  match state.active with
  | some job =>
    if job.listener = .waiting ∧ job.deadline ≤ now then
      ({ state with queued, active := some { job with listener := .released } },
        .interrupt job.id :: .reply job.id (.error .expired) :: effects)
    else ({ state with queued }, effects)
  | none => ({ state with queued }, effects)

/-- Run the first waiting job when none is running. -/
def advance (state : State η τ) : State η τ × List (Effect η τ) :=
  match state.active, state.queued with
  | none, job :: rest =>
    let cached := state.cache.find? fun entry =>
      decide (job.query.part ≠ none ∧ entry.fromEpoch = job.query.fromEpoch ∧
        entry.maxEpochs = job.query.maxEpochs ∧
        (job.query.hash = none ∨ job.query.hash = entry.encoded.digest))
    let job := { job with cached }
    ({ state with active := some job, queued := rest }, [.run job])
  | _, _ => (state, [])

def State.jobs (state : State η τ) : List (Job η τ) := state.active.toList ++ state.queued

variable (clock : Clock τ)

/-- The cache after a job, with a response that is sent in parts put first. -/
def cacheAfter (state : State η τ) (job : Job η τ) (now : τ) (reply : Reply) : List (Cache τ) :=
  match reply, job.listener with
  | .ok { encoded := some encoded, status, records, .. }, .waiting =>
    if encoded.digest ≠ none then
      let entry : Cache τ :=
        { fromEpoch := job.query.fromEpoch
          maxEpochs := job.query.maxEpochs
          encoded
          status
          records
          expires := clock.retention now }
      let rest := state.cache.filter fun row =>
        decide (row.fromEpoch ≠ entry.fromEpoch ∨ row.maxEpochs ≠ entry.maxEpochs ∨
          row.encoded.digest ≠ encoded.digest)
      trim 4 cacheBytes (entry :: rest)
    else state.cache
  | _, _ => state.cache

def ask (state : State η τ) (id : Int) (query : Query η) (now : τ) :
    State η τ × List (Effect η τ) :=
  if id ≤ state.lastId then (state, [])
  else if !state.isOpen then ({ state with lastId := id }, [.reply id (.error .stopped)])
  else
    let (state, expired) := expire now { state with lastId := id }
    let jobs := state.jobs
    if capacity ≤ jobs.length ∨ ∃ job ∈ jobs, job.query = query then
      (state, expired ++ [.reply id (.error .busy)])
    else
      let job : Job η τ :=
        { id
          generation := state.generation
          query
          deadline := clock.lifetime now
          listener := .waiting
          cached := none }
      let (state, effects) := advance { state with queued := state.queued ++ [job] }
      (state, expired ++ effects)

/-- Whether a completion is of the running job. -/
def State.completes (state : State η τ) (id generation : Int) : Bool :=
  match state.active with
  | some job =>
    state.isOpen && job.id = id && job.generation = generation &&
      generation = state.generation
  | none => false

def completed (state : State η τ) (id generation : Int) (now : τ)
    (reply : Reply) : State η τ × List (Effect η τ) :=
  if state.completes id generation then
    let (state, expired) := expire now state
    match state.active with
    | some job =>
      let cache := cacheAfter clock state job now reply
      let (state, effects) := advance { state with active := none, cache }
      let replies : List (Effect η τ) := if job.listener = .waiting then [.reply id reply] else []
      (state, expired ++ replies ++ effects)
    | none => (state, expired)
  else (state, [])

def cancel (state : State η τ) (id : Int) : State η τ × List (Effect η τ) :=
  let active := state.active.map fun job =>
    if job.id = id then { job with listener := .released } else job
  ({ state with
    active
    queued := state.queued.filter fun job => decide (job.id ≠ id) }, [.interrupt id])

def stop (state : State η τ) : State η τ × List (Effect η τ) :=
  if !state.isOpen then (state, [])
  else
    ({ empty with
      isOpen := false
      generation := state.generation + 1
      lastId := state.lastId }, state.jobs.flatMap fun job =>
        .interrupt job.id ::
          if job.listener = .waiting then [.reply job.id (.error .stopped)]
          else [])

def delta (state : State η τ) : Message η τ → State η τ × List (Effect η τ)
  | .ask id query now => ask clock state id query now
  | .completed id generation now reply => completed clock state id generation now reply
  | .cancel id => cancel state id
  | .tick now => expire now state
  | .stop => stop state

/-- The state after some messages, and all that was done. -/
def run (state : State η τ) : List (Message η τ) → State η τ × List (Effect η τ)
  | [] => (state, [])
  | message :: rest =>
    let (state, effects) := delta clock state message
    let (state, later) := run state rest
    (state, effects ++ later)

end Actor

section Accounts

variable {η τ : Type} {state middle state' : State η τ}

/-- Ids of the jobs whose requesters still wait, the running one first. -/
def State.waitingIds (state : State η τ) : List Int :=
  (state.jobs.filter fun job => decide (job.listener = .waiting)).map Job.id

def State.queuedIds (state : State η τ) : List Int := state.queued.map Job.id

def repliedIds (effects : List (Effect η τ)) : List Int :=
  effects.filterMap fun
    | .reply id _ => some id
    | _ => none

def runJobs (effects : List (Effect η τ)) : List (Job η τ) :=
  effects.filterMap fun
    | .run job => some job
    | _ => none

def runIds (effects : List (Effect η τ)) : List Int := (runJobs effects).map Job.id

@[simp] theorem repliedIds_append (first last : List (Effect η τ)) :
    repliedIds (first ++ last) = repliedIds first ++ repliedIds last :=
  List.filterMap_append

@[simp] theorem runJobs_append (first last : List (Effect η τ)) :
    runJobs (first ++ last) = runJobs first ++ runJobs last :=
  List.filterMap_append

@[simp] theorem runIds_append (first last : List (Effect η τ)) :
    runIds (first ++ last) = runIds first ++ runIds last := by
  simp [runIds]

@[simp] theorem repliedIds_nil : repliedIds ([] : List (Effect η τ)) = [] := rfl

@[simp] theorem runJobs_nil : runJobs ([] : List (Effect η τ)) = [] := rfl

@[simp] theorem repliedIds_reply (id : Int) (reply : Reply) (effects : List (Effect η τ)) :
    repliedIds (.reply id reply :: effects) = id :: repliedIds effects := rfl

@[simp] theorem repliedIds_interrupt (id : Int) (effects : List (Effect η τ)) :
    repliedIds (.interrupt id :: effects) = repliedIds effects := rfl

@[simp] theorem repliedIds_run (job : Job η τ) (effects : List (Effect η τ)) :
    repliedIds (.run job :: effects) = repliedIds effects := rfl

@[simp] theorem runJobs_reply (id : Int) (reply : Reply) (effects : List (Effect η τ)) :
    runJobs (.reply id reply :: effects) = runJobs effects := rfl

@[simp] theorem runJobs_interrupt (id : Int) (effects : List (Effect η τ)) :
    runJobs (.interrupt id :: effects) = runJobs effects := rfl

@[simp] theorem runJobs_run (job : Job η τ) (effects : List (Effect η τ)) :
    runJobs (.run job :: effects) = job :: runJobs effects := rfl

/-- Every id that waited or was asked is answered, waits or was given up, and
jobs start in the order in which they were asked. -/
structure Accounts (state : State η τ) (asked dropped : List Int)
    (effects : List (Effect η τ)) (state' : State η τ) : Prop where
  waiting : (state.waitingIds ++ asked).Perm (repliedIds effects ++ (state'.waitingIds ++ dropped))
  order : (runIds effects ++ state'.queuedIds).Sublist (state.queuedIds ++ asked)

theorem Accounts.refl (state : State η τ) : Accounts state [] [] [] state where
  waiting := by simp
  order := by simp [runIds]

/-- Accounts of two stretches add up. -/
theorem Accounts.trans {asked asked' dropped dropped' : List Int}
    {effects effects' : List (Effect η τ)} (first : Accounts state asked dropped effects middle)
    (last : Accounts middle asked' dropped' effects' state') :
    Accounts state (asked ++ asked') (dropped ++ dropped') (effects ++ effects') state' where
  waiting := by
    have both : (state.waitingIds ++ (asked ++ asked')).Perm
        (repliedIds effects ++ ((middle.waitingIds ++ asked') ++ dropped)) := by
      rw [← List.append_assoc]
      refine (first.waiting.append_right asked').trans ?_
      rw [List.append_assoc]
      refine List.Perm.append_left _ ?_
      rw [List.append_assoc, List.append_assoc]
      exact List.Perm.append_left _ List.perm_append_comm
    rw [repliedIds_append, List.append_assoc]
    refine both.trans (List.Perm.append_left _ ?_)
    refine (last.waiting.append_right dropped).trans ?_
    rw [List.append_assoc, List.append_assoc]
    exact List.Perm.append_left _ (List.Perm.append_left _ List.perm_append_comm)
  order := by
    rw [runIds_append, List.append_assoc, ← List.append_assoc state.queuedIds]
    refine (last.order.append_left _).trans ?_
    rw [← List.append_assoc]
    exact first.order.append_right asked'

/-- Whoever waits for the running job. -/
def State.attendedIds (state : State η τ) : List Int :=
  (state.active.toList.filter fun job => decide (job.listener = .waiting)).map Job.id

/-- Nobody has left a job that has not been started. -/
def State.Attended (state : State η τ) : Prop := ∀ job ∈ state.queued, job.listener = .waiting

theorem State.Attended.waitingIds_eq (attended : state.Attended) :
    state.waitingIds = state.attendedIds ++ state.queuedIds := by
  have all : state.queued.filter (fun job => decide (job.listener = .waiting)) = state.queued :=
    List.filter_eq_self.mpr fun job listed => by simpa using attended job listed
  rw [waitingIds, jobs, List.filter_append, all, List.map_append]
  rfl

end Accounts

section Expiry

variable {η τ : Type} [LinearOrder τ] {state : State η τ} {now : τ}

theorem repliedIds_expired (jobs : List (Job η τ)) :
    repliedIds (jobs.map fun job =>
      (.reply job.id (.error .expired) : Effect η τ)) = jobs.map Job.id := by
  simp [repliedIds, List.filterMap_map, Function.comp_def]

theorem runJobs_expired (jobs : List (Job η τ)) :
    runJobs (jobs.map fun job => (.reply job.id (.error .expired) : Effect η τ)) = [] := by
  simp [runJobs, List.filterMap_map, Function.comp_def]

theorem queued_expire (now : τ) (state : State η τ) :
    (expire now state).1.queued = state.queued.filter fun job => !decide (job.deadline ≤ now) := by
  unfold expire
  dsimp only
  split
  · split <;> rfl
  · rfl

theorem cache_expire (now : τ) (state : State η τ) :
    (expire now state).1.cache = state.cache.filter fun entry => decide (now < entry.expires) := by
  unfold expire
  dsimp only
  split
  · split <;> rfl
  · rfl

/-- The running job stays, though its requester may be sent away. -/
theorem active_expire (now : τ) (state : State η τ) :
    (expire now state).1.active = state.active.map fun job =>
      if job.listener = .waiting ∧ job.deadline ≤ now then { job with listener := .released }
      else job := by
  unfold expire
  dsimp only
  split
  · next job running =>
    split <;> simp_all
  · next idle => simp [idle]

theorem rest_expire (now : τ) (state : State η τ) :
    (expire now state).1.isOpen = state.isOpen ∧
      (expire now state).1.generation = state.generation ∧
      (expire now state).1.lastId = state.lastId := by
  unfold expire
  dsimp only
  split
  · split <;> exact ⟨rfl, rfl, rfl⟩
  · exact ⟨rfl, rfl, rfl⟩

theorem runJobs_expire (now : τ) (state : State η τ) : runJobs (expire now state).2 = [] := by
  unfold expire
  dsimp only
  split
  · split
    · exact runJobs_expired _
    · exact runJobs_expired _
  · exact runJobs_expired _

theorem attended_expire (attended : state.Attended) : (expire now state).1.Attended := by
  intro job listed
  rw [queued_expire] at listed
  exact attended job (List.mem_filter.mp listed).1

/-- Whoever waited for the running job waits on or is answered, as are those
whose jobs are dropped. -/
theorem repliedIds_expire (now : τ) (state : State η τ) :
    repliedIds (expire now state).2 ++ (expire now state).1.attendedIds =
        state.attendedIds ++ (state.queued.filter fun job =>
          decide (job.deadline ≤ now)).map Job.id ∨
      repliedIds (expire now state).2 = (state.queued.filter fun job =>
          decide (job.deadline ≤ now)).map Job.id ∧
        (expire now state).1.attendedIds = state.attendedIds := by
  unfold expire State.attendedIds
  dsimp only
  split
  · next job running =>
    split
    · next due =>
      left
      simp [running, due.1, repliedIds_expired]
    · right
      simp [running, repliedIds_expired]
  · next idle =>
    right
    simp [idle, repliedIds_expired]

/-- Whoever is dropped for the time is answered. -/
theorem accounts_expire (attended : state.Attended) :
    Accounts state [] [] (expire now state).2 (expire now state).1 where
  waiting := by
    have parted : state.queuedIds.Perm
        ((state.queued.filter fun job => decide (job.deadline ≤ now)).map Job.id ++
          (expire now state).1.queuedIds) := by
      rw [State.queuedIds, State.queuedIds, queued_expire, ← List.map_append]
      exact (List.filter_append_perm _ state.queued).symm.map Job.id
    rw [attended.waitingIds_eq, (attended_expire attended).waitingIds_eq,
      List.append_nil, List.append_nil]
    refine (parted.append_left _).trans ?_
    rw [← List.append_assoc, ← List.append_assoc]
    refine List.Perm.append_right _ ?_
    rcases repliedIds_expire now state with answered | ⟨answered, same⟩
    · rw [answered]
    · rw [answered, same]
      exact List.perm_append_comm
  order := by
    rw [runIds, runJobs_expire, List.append_nil, State.queuedIds, queued_expire]
    exact List.filter_sublist.map Job.id

end Expiry

section Parts

variable {η τ : Type} {state : State η τ}

theorem accounts_reply (state : State η τ) (id : Int) (reply : Reply) :
    Accounts state [id] [] [.reply id reply] state where
  waiting := by simpa using List.perm_append_comm
  order := by simp [runIds]

theorem accounts_enqueue {job : Job η τ} (state : State η τ) (waits : job.listener = .waiting) :
    Accounts state [job.id] [] [] { state with queued := state.queued ++ [job] } where
  waiting := by simp [State.waitingIds, State.jobs, waits]
  order := by simp [State.queuedIds, runIds]

/-- Whoever waits for the job that ends is answered. -/
theorem accounts_finish {job : Job η τ} (running : state.active = some job)
    (cache : List (Cache τ)) (reply : Reply) :
    Accounts state [] []
      (if job.listener = .waiting then [.reply job.id reply] else [])
      { state with active := none, cache } where
  waiting := by
    split
    · next waits => simp [State.waitingIds, State.jobs, running, waits]
    · next left => simp [State.waitingIds, State.jobs, running, left]
  order := by
    split <;> simp [State.queuedIds, runIds]

/-- A job that is cancelled is given up by who asked for it. -/
theorem accounts_cancel (state : State η τ) (id : Int) :
    Accounts state [] (state.waitingIds.filter fun other => decide (other = id))
      (cancel state id).2 (cancel state id).1 where
  waiting := by
    have left : (cancel state id).1.waitingIds =
        state.waitingIds.filter fun other => !decide (other = id) := by
      have queued : ∀ jobs : List (Job η τ),
          ((jobs.filter fun job => decide (job.id ≠ id)).filter fun job =>
            decide (job.listener = .waiting)).map Job.id =
          ((jobs.filter fun job => decide (job.listener = .waiting)).map
            Job.id).filter fun other => !decide (other = id) := by
        intro jobs
        rw [List.filter_map, List.filter_comm]
        simp [Function.comp_def]
      simp only [State.waitingIds, State.jobs, cancel, List.filter_append, List.map_append]
      rw [queued]
      congr 1
      cases state.active with
      | none => rfl
      | some job =>
        by_cases same : job.id = id <;> by_cases waits : job.listener = .waiting <;>
          simp [same, waits]
    rw [left]
    simpa [cancel] using (List.perm_append_comm.trans
      (List.filter_append_perm _ state.waitingIds)).symm
  order := by
    simpa [cancel, runIds, State.queuedIds] using
      (List.filter_sublist (l := state.queued)).map Job.id

theorem repliedIds_stopped (jobs : List (Job η τ)) :
    repliedIds (jobs.flatMap fun job =>
      (.interrupt job.id : Effect η τ) ::
        if job.listener = .waiting then [.reply job.id (.error .stopped)]
        else []) =
      (jobs.filter fun job => decide (job.listener = .waiting)).map Job.id := by
  induction jobs with
  | nil => rfl
  | cons job rest ih =>
    rw [List.flatMap_cons, repliedIds_append, ih]
    by_cases waits : job.listener = .waiting <;> simp [waits]

theorem runJobs_stopped (jobs : List (Job η τ)) :
    runJobs (jobs.flatMap fun job =>
      (.interrupt job.id : Effect η τ) ::
        if job.listener = .waiting then [.reply job.id (.error .stopped)]
        else []) = [] := by
  induction jobs with
  | nil => rfl
  | cons job rest ih =>
    rw [List.flatMap_cons, runJobs_append, ih]
    by_cases waits : job.listener = .waiting <;> simp [waits]

/-- Everybody is answered at the end. -/
theorem accounts_stop (state : State η τ) : Accounts state [] [] (stop state).2 (stop state).1 := by
  by_cases opened : state.isOpen
  · have stopped : (stop state) = ({ empty with
        isOpen := false
        generation := state.generation + 1
        lastId := state.lastId }, (stop state).2) := by
      simp [stop, opened]
    rw [stopped]
    exact {
      waiting := by simp [stop, opened, repliedIds_stopped, State.waitingIds, State.jobs, empty]
      order := by simp [stop, opened, runIds, runJobs_stopped, State.queuedIds, empty] }
  · have same : stop state = (state, []) := by simp [stop, opened]
    rw [same]
    exact Accounts.refl state

/-- Starting the next job changes nothing for those who wait. -/
theorem accounts_advance (state : State η τ) :
    Accounts state [] [] (advance state).2 (advance state).1 := by
  unfold advance
  split
  · next job rest idle waiting =>
    exact {
      waiting := by
        by_cases waits : job.listener = .waiting <;>
          simp [State.waitingIds, State.jobs, idle, waiting, waits]
      order := by simp [State.queuedIds, runIds, waiting] }
  · exact Accounts.refl state

end Parts
end SyncRange
end LiteNode
