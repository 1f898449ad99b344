import LiteNode.Catchup.SyncRange
import Mathlib.Algebra.Order.BigOperators.Group.List
import Mathlib.Algebra.Order.Group.Nat
import Mathlib.Algebra.Ring.Nat

/-!
# Runs of the actor for ranges

What one message can do is stated once. Each invariant follows from it, and
whole runs by induction: who asks is answered once, jobs start in the order in
which they were asked, one at a time, and what is kept stays small.
-/

namespace LiteNode
namespace SyncRange

section Steps

variable {η τ : Type} [DecidableEq η] [LinearOrder τ]
variable (clock : Clock τ) (state : State η τ)

def newJob (id : Int) (query : Query η) (now : τ) : Job η τ where
  id := id
  generation := state.generation
  query := query
  deadline := clock.lifetime now
  listener := .waiting
  cached := none

/-- The state once a new id was seen, and what had expired was dropped. -/
def heard (id : Int) (now : τ) : State η τ := (expire now { state with lastId := id }).1

def enqueue (id : Int) (query : Query η) (now : τ) : State η τ :=
  { state with queued := state.queued ++ [newJob clock state id query now] }

/-- The state in which the running job has ended. -/
def finish (job : Job η τ) (now : τ) (reply : Reply) : State η τ :=
  { state with active := none, cache := cacheAfter clock state job now reply }

/-- What one message does. -/
inductive Does : Message η τ → List (Effect η τ) → State η τ → Prop
  | old {id query now} (known : id ≤ state.lastId) : Does (.ask id query now) [] state
  | refused {id query now} (fresh : state.lastId < id) (closed : state.isOpen = false) :
      Does (.ask id query now) [.reply id (.error .stopped)] { state with lastId := id }
  | busy {id query now} (fresh : state.lastId < id) (opened : state.isOpen) :
      Does (.ask id query now)
        ((expire now { state with lastId := id }).2 ++ [.reply id (.error .busy)])
        (heard state id now)
  | queued {id query now} (fresh : state.lastId < id) (opened : state.isOpen)
      (room : (heard state id now).jobs.length < capacity) :
      Does (.ask id query now)
        ((expire now { state with lastId := id }).2 ++
          (advance (enqueue clock (heard state id now) id query now)).2)
        (advance (enqueue clock (heard state id now) id query now)).1
  | stale {id generation now reply} (other : state.completes id generation = false) :
      Does (.completed id generation now reply) [] state
  | finished {id generation now reply} (job : Job η τ) (completes : state.completes id generation)
      (running : (expire now state).1.active = some job) (same : job.id = id) :
      Does (.completed id generation now reply)
        ((expire now state).2 ++ (if job.listener = .waiting then [.reply job.id reply] else []) ++
          (advance (finish clock (expire now state).1 job now reply)).2)
        (advance (finish clock (expire now state).1 job now reply)).1
  | cancelled {id} : Does (.cancel id) (cancel state id).2 (cancel state id).1
  | ticked {now} : Does (.tick now) (expire now state).2 (expire now state).1
  | stopped : Does .stop (stop state).2 (stop state).1

variable {state}

/-- A completion is of the running job when both ids and generations agree. -/
theorem completes_iff {id generation : Int} :
    state.completes id generation ↔ state.isOpen ∧ ∃ job,
      state.active = some job ∧ job.id = id ∧ job.generation = generation ∧
        generation = state.generation := by
  unfold State.completes
  cases state.active with
  | none => simp
  | some job => simp [and_assoc]

theorem active_expire_of_running {job : Job η τ} (now : τ) (running : state.active = some job) :
    ∃ job', (expire now state).1.active = some job' ∧ job'.id = job.id ∧
      job'.generation = job.generation ∧ job'.deadline = job.deadline := by
  rw [active_expire, running, Option.map_some]
  refine ⟨_, rfl, ?_⟩
  split <;> exact ⟨rfl, rfl, rfl⟩

theorem ask_does (id : Int) (query : Query η) (now : τ) :
    Does clock state (.ask id query now) (ask clock state id query now).2
      (ask clock state id query now).1 := by
  unfold ask
  split
  · next known => exact .old known
  · next fresh =>
    have fresh : state.lastId < id := by omega
    split
    · next closed => exact .refused fresh (by simpa using closed)
    · next opened =>
      have opened : state.isOpen := by simpa using opened
      dsimp only
      split
      · exact .busy fresh opened
      · next free =>
        have room : (heard state id now).jobs.length < capacity := by
          simpa [heard] using (not_or.mp free).1
        exact .queued fresh opened room

theorem completed_does (id generation : Int) (now : τ) (reply : Reply) :
    Does clock state (.completed id generation now reply)
      (completed clock state id generation now reply).2
      (completed clock state id generation now reply).1 := by
  by_cases completes : state.completes id generation
  · obtain ⟨opened, job, running, same, _⟩ := completes_iff.mp completes
    obtain ⟨job', running', same', _⟩ := active_expire_of_running now running
    have done : completed clock state id generation now reply =
        ((advance (finish clock (expire now state).1 job' now reply)).1, (expire now state).2 ++
          (if job'.listener = .waiting then [.reply job'.id reply] else []) ++
          (advance (finish clock (expire now state).1 job' now reply)).2) := by
      unfold completed
      rw [if_pos completes]
      simp only [running', same', same]
      rfl
    rw [done]
    exact .finished job' completes running' (same'.trans same)
  · have done : completed clock state id generation now reply = (state, []) := by
      unfold completed
      rw [if_neg completes]
    rw [done]
    exact .stale (by simpa using completes)

theorem delta_does (message : Message η τ) :
    Does clock state message (delta clock state message).2 (delta clock state message).1 := by
  cases message with
  | ask id query now => exact ask_does clock id query now
  | completed id generation now reply => exact completed_does clock id generation now reply
  | cancel id => exact .cancelled
  | tick now => exact .ticked
  | stop => exact .stopped

end Steps

section Jobs

variable {η τ : Type}

/-- What of a job never changes. -/
def Job.key (job : Job η τ) : Int × Int × τ := (job.id, job.generation, job.deadline)

def State.keys (state : State η τ) : List (Int × Int × τ) := state.jobs.map Job.key

theorem keys_eq (state : State η τ) :
    state.keys = (state.active.map Job.key).toList ++ state.queued.map Job.key := by
  rw [State.keys, State.jobs, List.map_append]
  cases state.active <;> rfl

/-- The job that is started is the one that runs. -/
theorem activeKey_advance (state : State η τ) :
    ((advance state).1.active.map Job.key).toList =
      (state.active.map Job.key).toList ++ (runJobs (advance state).2).map Job.key := by
  unfold advance
  split
  · next idle _ =>
    rw [idle]
    rfl
  · simp

theorem keys_advance (state : State η τ) : (advance state).1.keys = state.keys := by
  unfold advance
  split
  · next job rest idle waiting =>
    rw [keys_eq, keys_eq, idle, waiting]
    rfl
  · rfl

theorem activeKey_cancel (state : State η τ) (id : Int) :
    (cancel state id).1.active.map Job.key = state.active.map Job.key := by
  cases running : state.active with
  | none => simp [cancel, running]
  | some job => by_cases named : job.id = id <;> simp [cancel, running, named, Job.key]

theorem keys_cancel (state : State η τ) (id : Int) :
    (cancel state id).1.keys.Sublist state.keys := by
  rw [keys_eq, keys_eq, activeKey_cancel]
  exact (List.filter_sublist.map Job.key).append_left _

variable [LinearOrder τ] {state : State η τ} {now : τ}

theorem activeKey_expire (now : τ) (state : State η τ) :
    (expire now state).1.active.map Job.key = state.active.map Job.key := by
  rw [active_expire]
  cases state.active with
  | none => rfl
  | some job =>
    rw [Option.map_some, Option.map_some]
    split <;> rfl

theorem keys_expire (now : τ) (state : State η τ) :
    (expire now state).1.keys.Sublist state.keys := by
  rw [keys_eq, keys_eq, activeKey_expire, queued_expire]
  exact (List.filter_sublist.map Job.key).append_left _

/-- Nobody waits beyond the deadline once time has passed. -/
theorem not_due_expire {job : Job η τ} (listed : job ∈ (expire now state).1.jobs)
    (waits : job.listener = .waiting) : now < job.deadline := by
  rw [State.jobs, List.mem_append] at listed
  rcases listed with running | queued
  · rw [active_expire] at running
    cases before : state.active with
    | none => simp [before] at running
    | some job' =>
      rw [before, Option.map_some] at running
      split at running
      · next due =>
        have := List.mem_singleton.mp running
        rw [this] at waits
        exact absurd waits (by simp)
      · next early =>
        have same := List.mem_singleton.mp running
        rw [same] at waits ⊢
        exact lt_of_not_ge fun due => early ⟨waits, due⟩
  · rw [queued_expire] at queued
    simpa using (List.mem_filter.mp queued).2

end Jobs

section Kept

variable {τ : Type}

/-- What an entry holds a response to. -/
def Cache.key (entry : Cache τ) : Int × Int × Option Bytes :=
  (entry.fromEpoch, entry.maxEpochs, entry.encoded.digest)

/-- Few responses are kept, each once, and not much in all. -/
structure Kept (cache : List (Cache τ)) : Prop where
  few : cache.length ≤ 4
  distinct : cache.Pairwise fun entry other => entry.key ≠ other.key
  small : (cache.map fun entry => entry.encoded.size).sum ≤ cacheBytes

theorem Kept.sublist {cache fewer : List (Cache τ)} (kept : Kept cache)
    (sublist : fewer.Sublist cache) : Kept fewer where
  few := sublist.length_le.trans kept.few
  distinct := kept.distinct.sublist sublist
  small := ((sublist.map _).sum_le_sum (fun _ _ => Nat.zero_le _)).trans kept.small

theorem trim_sublist (count bytes : Nat) (cache : List (Cache τ)) :
    (trim count bytes cache).Sublist cache := by
  induction cache generalizing count bytes with
  | nil => exact List.Sublist.refl _
  | cons entry rest ih =>
    rw [trim]
    split
    · exact List.nil_sublist _
    · exact (ih _ _).cons_cons entry

theorem length_trim (count bytes : Nat) (cache : List (Cache τ)) :
    (trim count bytes cache).length ≤ count := by
  induction cache generalizing count bytes with
  | nil => exact Nat.zero_le _
  | cons entry rest ih =>
    rw [trim]
    split
    · exact Nat.zero_le _
    · next fits =>
      have := ih (count - 1) (bytes - entry.encoded.size)
      rw [List.length_cons]
      omega

theorem size_trim (count bytes : Nat) (cache : List (Cache τ)) :
    ((trim count bytes cache).map fun entry => entry.encoded.size).sum ≤ bytes := by
  induction cache generalizing count bytes with
  | nil => exact Nat.zero_le _
  | cons entry rest ih =>
    rw [trim]
    split
    · exact Nat.zero_le _
    · next fits =>
      have := ih (count - 1) (bytes - entry.encoded.size)
      rw [List.map_cons, List.sum_cons]
      omega

variable {η : Type} {state : State η τ}

theorem cache_advance (state : State η τ) : (advance state).1.cache = state.cache := by
  unfold advance
  split <;> rfl

variable {entry : Cache τ}

/-- A job is started with something that is kept, if with anything. -/
theorem cached_advance {job : Job η τ}
    (started : job ∈ runJobs (advance state).2) (cached : job.cached = some entry) :
    entry ∈ state.cache := by
  unfold advance at started
  split at started
  · next head rest idle waiting =>
    have same : job = _ := List.mem_singleton.mp started
    rw [same] at cached
    exact List.mem_of_find?_eq_some cached
  · exact absurd started (List.not_mem_nil)

variable [LinearOrder τ] {clock : Clock τ} {now : τ}

theorem kept_expire (kept : Kept state.cache) : Kept (expire now state).1.cache := by
  rw [cache_expire]
  exact kept.sublist List.filter_sublist

/-- A response that is kept takes the place of the one with its key. -/
theorem kept_cacheAfter (kept : Kept state.cache) (job : Job η τ) (reply : Reply) :
    Kept (cacheAfter clock state job now reply) := by
  unfold cacheAfter
  split
  · next encoded status records listener =>
    split
    · dsimp only
      refine ⟨length_trim _ _ _, ?_, size_trim _ _ _⟩
      refine List.Pairwise.sublist (trim_sublist _ _ _) ?_
      refine List.pairwise_cons.mpr ⟨?_, kept.distinct.sublist List.filter_sublist⟩
      intro row listed same
      have differs := (List.mem_filter.mp listed).2
      simp only [Cache.key, Prod.mk.injEq] at same
      simp [← same.1, ← same.2.1, ← same.2.2] at differs
    · exact kept
  · exact kept

/-- What is kept after a job has not expired. -/
theorem fresh_cacheAfter (job : Job η τ) (reply : Reply)
    (fresh : ∀ entry ∈ state.cache, now < entry.expires)
    (listed : entry ∈ cacheAfter clock state job now reply) : now < entry.expires := by
  unfold cacheAfter at listed
  split at listed
  · split at listed
    · dsimp only at listed
      rcases List.mem_cons.mp ((trim_sublist _ _ _).subset listed) with rfl | held
      · exact clock.retained now
      · exact fresh entry (List.mem_filter.mp held).1
    · exact fresh entry listed
  · exact fresh entry listed

theorem fresh_expire (listed : entry ∈ (expire now state).1.cache) : now < entry.expires := by
  rw [cache_expire] at listed
  simpa using (List.mem_filter.mp listed).2

end Kept

section Invariant

variable {η τ : Type} {state state' : State η τ}

/-- The jobs have ids in the order in which they were asked, are of this
generation, and are few; nobody has left one that waits. -/
structure State.Keyed (state : State η τ) : Prop where
  attended : state.Attended
  sorted : (state.keys.map Prod.fst).Pairwise (· < ·)
  bounded : ∀ key ∈ state.keys, key.1 ≤ state.lastId
  current : ∀ key ∈ state.keys, key.2.1 = state.generation
  room : state.keys.length ≤ capacity
  kept : Kept state.cache

/-- Jobs wait only behind a running one, and not after the end. -/
structure State.Sound (state : State η τ) : Prop extends state.Keyed where
  led : state.active = none → state.queued = []
  closed : state.isOpen = false → state.keys = []

/-- Fewer jobs are in order when all were. -/
theorem State.Keyed.of_keys (keyed : state.Keyed) (attended : state'.Attended)
    (fewer : state'.keys.Sublist state.keys) (generation : state'.generation = state.generation)
    (later : state.lastId ≤ state'.lastId) (kept : Kept state'.cache) :
    state'.Keyed where
  attended := attended
  sorted := keyed.sorted.sublist (fewer.map Prod.fst)
  bounded key listed := (keyed.bounded key (fewer.subset listed)).trans later
  current key listed := by
    rw [generation]
    exact keyed.current key (fewer.subset listed)
  room := fewer.length_le.trans keyed.room
  kept := kept

theorem sound_empty : (empty : State η τ).Sound where
  attended _ listed := absurd listed List.not_mem_nil
  sorted := List.Pairwise.nil
  bounded _ listed := absurd listed List.not_mem_nil
  current _ listed := absurd listed List.not_mem_nil
  room := Nat.zero_le _
  kept := ⟨Nat.zero_le _, List.Pairwise.nil, Nat.zero_le _⟩
  led _ := rfl
  closed _ := rfl

variable {id : Int}

theorem State.Keyed.seen (keyed : state.Keyed)
    (fresh : state.lastId < id) : ({ state with lastId := id } : State η τ).Keyed :=
  keyed.of_keys keyed.attended (List.Sublist.refl _) rfl (le_of_lt fresh) keyed.kept

theorem State.Sound.seen (sound : state.Sound) (fresh : state.lastId < id) :
    ({ state with lastId := id } : State η τ).Sound where
  toKeyed := sound.toKeyed.seen fresh
  led := sound.led
  closed := sound.closed

theorem State.Keyed.advance (keyed : state.Keyed) : (SyncRange.advance state).1.Keyed := by
  have same : (SyncRange.advance state).1.generation = state.generation ∧
      (SyncRange.advance state).1.lastId = state.lastId := by
    unfold SyncRange.advance
    split <;> exact ⟨rfl, rfl⟩
  refine keyed.of_keys ?_ (by rw [keys_advance]) same.1 same.2.ge
    (by rw [cache_advance]; exact keyed.kept)
  intro job listed
  refine keyed.attended job ?_
  unfold SyncRange.advance at listed
  split at listed
  · next head rest idle waiting =>
    rw [waiting]
    exact List.mem_cons_of_mem _ listed
  · exact listed

/-- Something is running when a job waits. -/
theorem led_advance (state : State η τ) :
    (advance state).1.active = none → (advance state).1.queued = [] := by
  unfold advance
  split
  · intro idle
    exact absurd idle (by simp)
  · next none_started =>
    intro idle
    cases waiting : state.queued with
    | nil => rfl
    | cons job rest => exact absurd waiting (none_started job rest idle)

theorem isOpen_advance (state : State η τ) : (advance state).1.isOpen = state.isOpen := by
  unfold advance
  split <;> rfl

theorem State.Sound.cancel (sound : state.Sound) (id : Int) :
    (SyncRange.cancel state id).1.Sound where
  toKeyed := sound.toKeyed.of_keys
    (fun job listed => sound.attended job (List.mem_filter.mp listed).1)
    (keys_cancel state id) rfl (le_refl _) sound.kept
  led idle := by
    have idle : state.active = none := Option.map_eq_none_iff.mp idle
    have none_waits := sound.led idle
    simp [SyncRange.cancel, none_waits]
  closed ended := by
    have none_left := keys_cancel state id
    rw [sound.closed ended] at none_left
    exact List.sublist_nil.mp none_left

theorem State.Sound.stop (sound : state.Sound) : (SyncRange.stop state).1.Sound := by
  unfold SyncRange.stop
  split
  · exact sound
  · exact {
      attended := fun _ listed => absurd listed List.not_mem_nil
      sorted := List.Pairwise.nil
      bounded := fun _ listed => absurd listed List.not_mem_nil
      current := fun _ listed => absurd listed List.not_mem_nil
      room := Nat.zero_le _
      kept := ⟨Nat.zero_le _, List.Pairwise.nil, Nat.zero_le _⟩
      led := fun _ => rfl
      closed := fun _ => rfl }

variable [LinearOrder τ] {now : τ}

theorem State.Keyed.expire (keyed : state.Keyed) : (SyncRange.expire now state).1.Keyed := by
  obtain ⟨_, generation, lastId⟩ := rest_expire now state
  exact keyed.of_keys (attended_expire keyed.attended) (keys_expire now state)
    generation lastId.ge (kept_expire keyed.kept)

theorem State.Sound.expire (sound : state.Sound) : (SyncRange.expire now state).1.Sound where
  toKeyed := sound.toKeyed.expire
  led idle := by
    rw [active_expire] at idle
    rw [queued_expire, sound.led (Option.map_eq_none_iff.mp idle)]
    rfl
  closed ended := by
    rw [(rest_expire now state).1] at ended
    have none_left := keys_expire now state
    rw [sound.closed ended] at none_left
    exact List.sublist_nil.mp none_left

variable {clock : Clock τ}

theorem keys_enqueue (state : State η τ) (id : Int) (query : Query η) (now : τ) :
    (enqueue clock state id query now).keys =
      state.keys ++ [(newJob clock state id query now).key] := by
  rw [keys_eq, keys_eq, enqueue, List.map_append, List.append_assoc]
  rfl

/-- A job with a new id fits when there is room. -/
theorem State.Keyed.enqueue {query : Query η} (keyed : state.Keyed)
    (last : state.lastId = id) (newer : ∀ key ∈ state.keys, key.1 < id)
    (room : state.jobs.length < capacity) :
    (SyncRange.enqueue clock state id query now).Keyed where
  attended job listed := by
    rcases List.mem_append.mp listed with before | new
    · exact keyed.attended job before
    · rw [List.mem_singleton.mp new]
      rfl
  sorted := by
    rw [keys_enqueue, List.map_append]
    refine List.pairwise_append.mpr ⟨keyed.sorted, List.pairwise_singleton _ _, ?_⟩
    intro first listed new same
    obtain ⟨key, held, named⟩ := List.mem_map.mp listed
    rw [List.mem_singleton.mp same, ← named]
    exact newer key held
  bounded key listed := by
    rw [keys_enqueue] at listed
    rcases List.mem_append.mp listed with before | new
    · exact keyed.bounded key before
    · rw [List.mem_singleton.mp new]
      exact last.ge
  current key listed := by
    rw [keys_enqueue] at listed
    rcases List.mem_append.mp listed with before | new
    · exact keyed.current key before
    · rw [List.mem_singleton.mp new]
      rfl
  room := by
    have fits : state.keys.length < capacity := by
      rw [State.keys, List.length_map]
      exact room
    rw [keys_enqueue, List.length_append, List.length_singleton]
    omega
  kept := keyed.kept

theorem keys_finish (state : State η τ) (job : Job η τ) (now : τ) (reply : Reply) :
    (finish clock state job now reply).keys.Sublist state.keys := by
  rw [keys_eq, keys_eq]
  exact List.sublist_append_right _ _

theorem State.Keyed.finish (keyed : state.Keyed) (job : Job η τ) (reply : Reply) :
    (SyncRange.finish clock state job now reply).Keyed :=
  keyed.of_keys keyed.attended (keys_finish state job now reply) rfl (le_refl _)
    (kept_cacheAfter keyed.kept job reply)

end Invariant

/-! ## What a step keeps -/

section Step

variable {η τ : Type} [DecidableEq η] [LinearOrder τ] {clock : Clock τ}
variable {state state' : State η τ} {message : Message η τ}
variable {effects : List (Effect η τ)}

def Message.asked : Message η τ → List Int
  | .ask id _ _ => [id]
  | _ => []

def Message.time : Message η τ → Option τ
  | .ask _ _ now => some now
  | .completed _ _ now _ => some now
  | .tick now => some now
  | .cancel _ => none
  | .stop => none

variable {id : Int}

theorem State.Sound.heard (sound : state.Sound) (fresh : state.lastId < id) (now : τ) :
    (SyncRange.heard state id now).Sound :=
  (sound.seen fresh).expire

theorem newer_heard (sound : state.Sound) (fresh : state.lastId < id)
    (now : τ) : ∀ key ∈ (heard state id now).keys, key.1 < id := by
  intro key listed
  have before := (keys_expire now { state with lastId := id }).subset listed
  exact lt_of_le_of_lt (sound.bounded key before) fresh

theorem sound_does (sound : state.Sound)
    (does : Does clock state message effects state') : state'.Sound := by
  cases does with
  | old => exact sound
  | refused fresh => exact sound.seen fresh
  | busy fresh => exact sound.heard fresh _
  | @queued id query now fresh opened room =>
    have heard := sound.heard fresh now
    have last : (SyncRange.heard state id now).lastId = id :=
      (rest_expire now { state with lastId := id }).2.2
    have still : (SyncRange.heard state id now).isOpen = state.isOpen :=
      (rest_expire now { state with lastId := id }).1
    exact {
      toKeyed := (heard.toKeyed.enqueue last (newer_heard sound fresh now) room).advance
      led := led_advance _
      closed := fun ended => by
        rw [isOpen_advance] at ended
        exact absurd (ended.symm.trans (still.trans opened)) (by simp) }
  | stale => exact sound
  | @finished id generation now reply job completes =>
    have still : (expire now state).1.isOpen = state.isOpen := (rest_expire now state).1
    exact {
      toKeyed := (sound.toKeyed.expire.finish job reply).advance
      led := led_advance _
      closed := fun ended => by
        rw [isOpen_advance] at ended
        exact absurd (ended.symm.trans (still.trans (completes_iff.mp completes).1)) (by simp) }
  | cancelled => exact sound.cancel _
  | ticked => exact sound.expire
  | stopped => exact sound.stop

/-- A job is new, or it was there before. -/
theorem keys_does (does : Does clock state message effects state')
    {key : Int × Int × τ} (listed : key ∈ state'.keys) :
    key ∈ state.keys ∨ ∃ id query now, message = .ask id query now ∧
      key.1 = id ∧ key.2.2 = clock.lifetime now := by
  cases does with
  | old => exact .inl listed
  | refused => exact .inl listed
  | @busy id _ now => exact .inl ((keys_expire now { state with lastId := id }).subset listed)
  | @queued id query now =>
    rw [keys_advance, keys_enqueue] at listed
    rcases List.mem_append.mp listed with before | new
    · exact .inl ((keys_expire now { state with lastId := id }).subset before)
    · rw [List.mem_singleton.mp new]
      exact .inr ⟨id, query, now, rfl, rfl, rfl⟩
  | stale => exact .inl listed
  | @finished _ _ now reply job =>
    rw [keys_advance] at listed
    exact .inl ((keys_expire now state).subset ((keys_finish _ job now reply).subset listed))
  | cancelled => exact .inl ((keys_cancel state _).subset listed)
  | @ticked now => exact .inl ((keys_expire now state).subset listed)
  | stopped =>
    unfold stop at listed
    split at listed
    · exact .inl listed
    · exact absurd listed List.not_mem_nil

theorem lastId_does (does : Does clock state message effects state')
    (increasing : ∀ id ∈ message.asked, state.lastId < id) :
    state'.lastId = (message.asked.getLast?).getD state.lastId := by
  have advanced : ∀ middle : State η τ, (advance middle).1.lastId = middle.lastId := by
    intro middle
    unfold advance
    split <;> rfl
  cases does with
  | old known => exact absurd known (not_le_of_gt (increasing _ (List.mem_singleton_self _)))
  | refused => rfl
  | @busy id _ now => exact (rest_expire now { state with lastId := id }).2.2
  | @queued id query now =>
    rw [advanced]
    exact (rest_expire now { state with lastId := id }).2.2
  | stale => rfl
  | @finished _ _ now =>
    rw [advanced]
    exact (rest_expire now state).2.2
  | cancelled => rfl
  | @ticked now => exact (rest_expire now state).2.2
  | stopped =>
    unfold stop
    split <;> rfl

omit [DecidableEq η] [LinearOrder τ] in
/-- Who waits does not depend on the last id. -/
theorem Accounts.of_seen {asked dropped : List Int}
    (accounts : Accounts { state with lastId := id } asked dropped effects state') :
    Accounts state asked dropped effects state' :=
  ⟨accounts.waiting, accounts.order⟩

/-- Whoever asks is answered, waits, or has cancelled. -/
theorem accounts_does (sound : state.Sound) (does : Does clock state message effects state')
    (increasing : ∀ id ∈ message.asked, state.lastId < id) :
    ∃ dropped, (∀ id ∈ dropped, message = .cancel id) ∧
      Accounts state message.asked dropped effects state' := by
  cases does with
  | old known => exact absurd known (not_le_of_gt (increasing _ (List.mem_singleton_self _)))
  | @refused id => exact ⟨[], by simp, (accounts_reply { state with lastId := id } id _).of_seen⟩
  | @busy id _ now fresh =>
    have expired : Accounts _ _ _ _ (heard state id now) :=
      accounts_expire (sound.seen fresh).attended
    exact ⟨[], by simp, (expired.trans (accounts_reply _ id _)).of_seen⟩
  | @queued id query now fresh =>
    have expired : Accounts _ _ _ _ (heard state id now) :=
      accounts_expire (sound.seen fresh).attended
    have waits : (newJob clock (heard state id now) id query now).listener = .waiting := rfl
    have queued : Accounts _ [id] _ _ (enqueue clock (heard state id now) id query now) :=
      accounts_enqueue (heard state id now) waits
    have all := ((expired.trans queued).trans (accounts_advance _)).of_seen
    rw [List.append_nil (expire now _).2] at all
    exact ⟨[], by simp, all⟩
  | stale => exact ⟨[], by simp, Accounts.refl state⟩
  | @finished _ _ now reply job _ running =>
    have ended := accounts_finish running
      (cacheAfter clock (expire now state).1 job now reply) reply
    exact ⟨[], by simp, ((accounts_expire sound.attended).trans ended).trans (accounts_advance _)⟩
  | @cancelled id =>
    refine ⟨_, ?_, accounts_cancel state id⟩
    intro other listed
    simpa [eq_comm] using (List.mem_filter.mp listed).2
  | ticked => exact ⟨[], by simp, accounts_expire sound.attended⟩
  | stopped => exact ⟨[], by simp, accounts_stop state⟩

omit [DecidableEq η] in
/-- The jobs that were started and neither completed nor dropped at the end. -/
def outstanding (jobs : List (Job η τ)) (message : Message η τ)
    (effects : List (Effect η τ)) : List (Job η τ) :=
  (match message with
    | .completed id generation _ _ =>
      jobs.filter fun job => !decide (job.id = id ∧ job.generation = generation)
    | .stop => []
    | _ => jobs) ++ runJobs effects

/-- What was started and has not ended is what is running. -/
theorem outstanding_does (sound : state.Sound)
    (does : Does clock state message effects state') {jobs : List (Job η τ)}
    (running : jobs.map Job.key = (state.active.map Job.key).toList) :
    (outstanding jobs message effects).map Job.key = (state'.active.map Job.key).toList := by
  cases does with
  | old | refused => simpa [outstanding] using running
  | @busy id _ now =>
    have same := activeKey_expire now { state with lastId := id }
    simpa [outstanding, runJobs_expire, heard, same] using running
  | @queued id query now =>
    have same := activeKey_expire now { state with lastId := id }
    rw [activeKey_advance]
    simpa [outstanding, runJobs_expire, enqueue, heard, same] using running
  | @stale id generation _ _ other =>
    have kept : (jobs.filter fun job =>
        !decide (job.id = id ∧ job.generation = generation)) = jobs := by
      refine List.filter_eq_self.mpr fun job listed => ?_
      have started : job.key ∈ jobs.map Job.key := List.mem_map_of_mem listed
      rw [running] at started
      have held : job.key ∈ state.keys := by
        rw [keys_eq]
        exact List.mem_append_left _ started
      obtain ⟨job', active, same⟩ := Option.map_eq_some_iff.mp (Option.mem_toList.mp started)
      by_contra matched
      have matched : job.id = id ∧ job.generation = generation := by simpa using matched
      have opened : state.isOpen := by
        by_contra ended
        rw [sound.closed (by simpa using ended)] at held
        exact List.not_mem_nil held
      have ids := congrArg Prod.fst same
      have generations := congrArg (fun key => key.2.1) same
      refine absurd (completes_iff.mpr ⟨opened, job', active, ids.trans matched.1,
        generations.trans matched.2, ?_⟩) (by simp [other])
      rw [← matched.2]
      exact sound.current job.key held
    simpa only [outstanding, kept, runJobs_nil, List.append_nil] using running
  | @finished id generation now reply job completes =>
    obtain ⟨_, before, active, named, generated, _⟩ := completes_iff.mp completes
    have none_left : (jobs.filter fun job =>
        !decide (job.id = id ∧ job.generation = generation)) = [] := by
      refine List.filter_eq_nil_iff.mpr fun job listed => ?_
      have started : job.key ∈ jobs.map Job.key := List.mem_map_of_mem listed
      rw [running, active] at started
      have same : job.key = before.key := List.mem_singleton.mp started
      have ids : job.id = before.id := congrArg Prod.fst same
      have generations : job.generation = before.generation := congrArg (fun key => key.2.1) same
      simpa using And.intro (ids.trans named) (generations.trans generated)
    rw [activeKey_advance]
    simp only [outstanding, none_left, runJobs_append, runJobs_expire, finish]
    split <;> simp
  | @cancelled id =>
    rw [activeKey_cancel]
    simpa [outstanding, cancel] using running
  | @ticked now =>
    rw [activeKey_expire]
    simpa [outstanding, runJobs_expire] using running
  | stopped =>
    by_cases opened : state.isOpen
    · simp [outstanding, stop, opened, runJobs_stopped, empty]
    · have none_left := sound.closed (by simpa using opened)
      rw [keys_eq] at none_left
      have idle := (List.append_eq_nil_iff.mp none_left).1
      simp [outstanding, stop, opened, idle]

/-- A job is started with nothing that has expired. -/
theorem cached_does {job : Job η τ} {entry : Cache τ}
    (does : Does clock state message effects state')
    (started : job ∈ runJobs effects) (cached : job.cached = some entry) :
    ∃ now, message.time = some now ∧ now < entry.expires := by
  cases does with
  | old | refused | stale => exact absurd started List.not_mem_nil
  | busy | ticked => simp [runJobs_expire] at started
  | @queued id query now =>
    rw [runJobs_append, runJobs_expire, List.nil_append] at started
    have listed := cached_advance started cached
    have held : entry ∈ (heard state id now).cache := listed
    exact ⟨now, rfl, fresh_expire held⟩
  | @finished _ _ now reply job' =>
    have none_replied : runJobs (if job'.listener = .waiting then
        [(.reply job'.id reply : Effect η τ)] else []) = [] := by
      split <;> rfl
    rw [runJobs_append, runJobs_append, runJobs_expire, none_replied,
      List.nil_append, List.nil_append] at started
    exact ⟨now, rfl, fresh_cacheAfter job' reply
      (fun _ listed => fresh_expire listed) (cached_advance started cached)⟩
  | cancelled => simp [cancel] at started
  | stopped =>
    unfold stop at started
    split at started
    · exact absurd started List.not_mem_nil
    · simp [runJobs_stopped] at started

/-- Nothing is started after the end. -/
theorem closed_does (does : Does clock state message effects state')
    (closed : state.isOpen = false) : state'.isOpen = false ∧ runJobs effects = [] := by
  cases does with
  | old => exact ⟨closed, rfl⟩
  | refused => exact ⟨closed, rfl⟩
  | busy _ opened => simp [closed] at opened
  | queued _ opened => simp [closed] at opened
  | stale => exact ⟨closed, rfl⟩
  | finished _ completes => exact absurd (completes_iff.mp completes).1 (by simp [closed])
  | cancelled => exact ⟨closed, rfl⟩
  | @ticked now => exact ⟨(rest_expire now state).1.trans closed, runJobs_expire now state⟩
  | stopped => simp [stop, closed]

end Step

section Settling

variable {η τ : Type} {state : State η τ}

theorem waitingIds_advance (state : State η τ) :
    (advance state).1.waitingIds = state.waitingIds := by
  unfold advance
  split
  · next job rest idle waiting =>
    by_cases waits : job.listener = .waiting <;>
      simp [State.waitingIds, State.jobs, idle, waiting, waits]
  · rfl

variable {id : Int} {deadline : τ}

theorem exists_of_waitingIds (waiting : id ∈ state.waitingIds) :
    ∃ job ∈ state.jobs, job.listener = .waiting ∧ job.id = id := by
  obtain ⟨job, listed, named⟩ := List.mem_map.mp waiting
  have kept := List.mem_filter.mp listed
  exact ⟨job, kept.1, of_decide_eq_true kept.2, named⟩

theorem not_waiting_of_closed (sound : state.Sound)
    (closed : state.isOpen = false) : id ∉ state.waitingIds := by
  intro waiting
  obtain ⟨job, listed, _, _⟩ := exists_of_waitingIds waiting
  have held : job.key ∈ state.keys := List.mem_map_of_mem listed
  rw [sound.closed closed] at held
  exact List.not_mem_nil held

variable [LinearOrder τ]

/-- The jobs for an id end at a deadline. -/
def State.Dated (state : State η τ) (id : Int) (deadline : τ) : Prop :=
  ∀ key ∈ state.keys, key.1 = id → key.2.2 = deadline

/-- A message after which nobody waits for an id: the time has passed, the job
for it has ended, or everything has. -/
def Settles (state : State η τ) (id : Int) (deadline : τ) : Message η τ → Prop
  | .ask _ _ now => deadline ≤ now
  | .completed job generation now _ => state.completes job generation ∧ (job = id ∨ deadline ≤ now)
  | .tick now => deadline ≤ now
  | .cancel _ => False
  | .stop => True

theorem not_waiting_expire {now : τ} (dated : state.Dated id deadline) (due : deadline ≤ now) :
    id ∉ (expire now state).1.waitingIds := by
  intro waiting
  obtain ⟨job, listed, waits, named⟩ := exists_of_waitingIds waiting
  have early := not_due_expire listed waits
  have held : job.key ∈ (expire now state).1.keys := List.mem_map_of_mem listed
  have same : job.deadline = deadline := dated job.key ((keys_expire now state).subset held) named
  rw [same] at early
  exact absurd due (not_le_of_gt early)

variable [DecidableEq η] {clock : Clock τ} {state' : State η τ}
variable {message : Message η τ} {effects : List (Effect η τ)}

theorem dated_does (dated : state.Dated id deadline)
    (does : Does clock state message effects state')
    (other : id ∉ message.asked) : state'.Dated id deadline := by
  intro key listed named
  rcases keys_does does listed with before | ⟨asked, query, now, same, new, _⟩
  · exact dated key before named
  · rw [same, ← new, named] at other
    exact absurd (List.mem_singleton_self _) other

/-- Nobody waits for the job that has ended. -/
theorem not_waiting_finish {job : Job η τ} (sound : state.Sound)
    (running : state.active = some job) (now : τ) (reply : Reply) :
    job.id ∉ (finish clock state job now reply).waitingIds := by
  intro waiting
  obtain ⟨other, listed, _, named⟩ := exists_of_waitingIds waiting
  have sorted := sound.sorted
  rw [keys_eq, running] at sorted
  have later := (List.pairwise_cons.mp sorted).1 other.id
    (List.mem_map.mpr ⟨other.key, List.mem_map_of_mem listed, rfl⟩)
  rw [named] at later
  exact lt_irrefl _ later

theorem settled_does (sound : state.Sound)
    (known : id ≤ state.lastId) (dated : state.Dated id deadline)
    (settles : Settles state id deadline message)
    (increasing : ∀ other ∈ message.asked, state.lastId < other)
    (does : Does clock state message effects state') : id ∉ state'.waitingIds := by
  cases does with
  | old old => exact absurd old (not_le_of_gt (increasing _ (List.mem_singleton_self _)))
  | refused fresh closed => exact not_waiting_of_closed (sound.seen fresh) closed
  | @busy new _ now =>
    have seen : ({ state with lastId := new } : State η τ).Dated id deadline := dated
    exact not_waiting_expire seen settles
  | @queued new query now fresh =>
    have seen : ({ state with lastId := new } : State η τ).Dated id deadline := dated
    have before : id ∉ (heard state new now).waitingIds := not_waiting_expire seen settles
    have all := (accounts_enqueue (heard state new now)
      (show (newJob clock (heard state new now) new query now).listener =
        .waiting from rfl)).waiting
    rw [waitingIds_advance]
    intro waiting
    have earlier := all.mem_iff.mpr (List.mem_append_right _ (List.mem_append_left _ waiting))
    rcases List.mem_append.mp earlier with held | same
    · exact before held
    · have same : id = new := List.mem_singleton.mp same
      omega
  | stale other => simp [Settles, other] at settles
  | @finished other _ now reply job _ running same =>
    rw [waitingIds_advance]
    rcases settles.2 with named | due
    · rw [← named, ← same]
      exact not_waiting_finish sound.expire running now reply
    · intro waiting
      refine not_waiting_expire dated due ?_
      obtain ⟨job', listed, waits, named⟩ := exists_of_waitingIds waiting
      refine List.mem_map.mpr ⟨job', List.mem_filter.mpr ⟨?_, by simpa⟩, named⟩
      exact List.mem_append_right _ listed
  | cancelled => exact settles.elim
  | ticked => exact not_waiting_expire dated settles
  | stopped =>
    by_cases opened : state.isOpen
    · simp [stop, opened, State.waitingIds, State.jobs, empty]
    · have closed : state.isOpen = false := by simpa using opened
      have same : stop state = (state, []) := by simp [stop, closed]
      rw [same]
      exact not_waiting_of_closed sound closed

end Settling

/-! ## Runs -/

section Runs

variable {η τ : Type} [DecidableEq η] [LinearOrder τ] (clock : Clock τ)
variable {state : State η τ}

def askedIds (messages : List (Message η τ)) : List Int := messages.flatMap Message.asked

def outstandingAfter (state : State η τ) (jobs : List (Job η τ)) :
    List (Message η τ) → List (Job η τ)
  | [] => jobs
  | message :: rest =>
    outstandingAfter (delta clock state message).1
      (outstanding jobs message (delta clock state message).2) rest

/-- Ids are asked with in order, all of them new. -/
def Increasing (state : State η τ) (messages : List (Message η τ)) : Prop :=
  (state.lastId :: askedIds messages).Pairwise (· < ·)

theorem run_cons (state : State η τ) (message : Message η τ) (rest : List (Message η τ)) :
    run clock state (message :: rest) =
      ((run clock (delta clock state message).1 rest).1,
        (delta clock state message).2 ++ (run clock (delta clock state message).1 rest).2) := rfl

theorem run_append (state : State η τ) (before after : List (Message η τ)) :
    run clock state (before ++ after) =
      ((run clock (run clock state before).1 after).1, (run clock state before).2 ++
          (run clock (run clock state before).1 after).2) := by
  induction before generalizing state with
  | nil => rfl
  | cons message rest ih =>
    rw [List.cons_append, run_cons, run_cons, ih]
    simp only [List.append_assoc]

variable {rest messages : List (Message η τ)} {id : Int}

theorem Increasing.new {message : Message η τ} (increasing : Increasing state (message :: rest)) :
    ∀ id ∈ message.asked, state.lastId < id := by
  intro id listed
  refine (List.pairwise_cons.mp increasing).1 id ?_
  exact List.mem_flatMap.mpr ⟨message, List.mem_cons_self, listed⟩

theorem Increasing.delta {message : Message η τ} (increasing : Increasing state (message :: rest)) :
    Increasing (delta clock state message).1 rest := by
  have last := lastId_does (delta_does clock message) increasing.new
  unfold Increasing at increasing ⊢
  rw [last]
  cases message with
  | ask id query now => exact (List.pairwise_cons.mp increasing).2
  | _ => exact increasing

theorem Increasing.after {before after : List (Message η τ)}
    (increasing : Increasing state (before ++ after)) :
    Increasing (run clock state before).1 after := by
  induction before generalizing state with
  | nil => exact increasing
  | cons message rest ih =>
    rw [run_cons]
    exact ih (increasing.delta clock)

theorem Increasing.before {before after : List (Message η τ)}
    (increasing : Increasing state (before ++ after)) : Increasing state before := by
  unfold Increasing askedIds at increasing ⊢
  rw [List.flatMap_append, ← List.cons_append] at increasing
  exact (List.pairwise_append.mp increasing).1

theorem sound_run (sound : state.Sound) (messages : List (Message η τ)) :
    (run clock state messages).1.Sound := by
  induction messages generalizing state with
  | nil => exact sound
  | cons message rest ih => exact ih (sound_does sound (delta_does clock message))

/-- Whoever asks in a run is answered, waits, or has cancelled. -/
theorem accounts_run (sound : state.Sound) (increasing : Increasing state messages) :
    ∃ dropped, (∀ id ∈ dropped, .cancel id ∈ messages) ∧
      Accounts state (askedIds messages) dropped (run clock state messages).2
        (run clock state messages).1 := by
  induction messages generalizing state with
  | nil => exact ⟨[], by simp, Accounts.refl state⟩
  | cons message rest ih =>
    have does : Does clock state message _ _ := delta_does clock message
    obtain ⟨dropped, cancels, accounts⟩ := accounts_does sound does increasing.new
    obtain ⟨dropped', cancels', accounts'⟩ := ih (sound_does sound does) (increasing.delta clock)
    refine ⟨dropped ++ dropped', ?_, accounts.trans accounts'⟩
    intro id listed
    rcases List.mem_append.mp listed with now | later
    · rw [cancels id now]
      exact List.mem_cons_self
    · exact List.mem_cons_of_mem _ (cancels' id later)

theorem asked_le_lastId (increasing : Increasing state messages) :
    state.lastId ≤ (run clock state messages).1.lastId ∧
      ∀ id ∈ askedIds messages, id ≤ (run clock state messages).1.lastId := by
  induction messages generalizing state with
  | nil => exact ⟨le_refl _, fun id listed => absurd listed List.not_mem_nil⟩
  | cons message rest ih =>
    have last := lastId_does (delta_does clock message) increasing.new
    obtain ⟨later, all⟩ := ih (increasing.delta clock)
    have new := increasing.new
    cases message with
    | ask id query now =>
      have here : (delta clock state (.ask id query now)).1.lastId = id := last
      rw [here] at later
      have above : state.lastId < id := new id (List.mem_singleton_self _)
      refine ⟨above.le.trans later, fun other listed => ?_⟩
      rcases List.mem_cons.mp listed with rfl | after
      · exact later
      · exact all other after
    | completed | tick | stop =>
      have here : (delta clock state _).1.lastId = state.lastId := last
      exact ⟨here ▸ later, all⟩
    | cancel id => exact ⟨later, all⟩

/-- In a run nobody is answered twice, nor after having cancelled, nor while
still waiting. -/
theorem answered_once (sound : state.Sound)
    (none_waits : state.waitingIds = []) (increasing : Increasing state messages) :
    (repliedIds (run clock state messages).2 ++ (run clock state messages).1.waitingIds).Nodup := by
  obtain ⟨dropped, _, accounts⟩ := accounts_run clock sound increasing
  have all := accounts.waiting
  rw [none_waits, List.nil_append, ← List.append_assoc] at all
  have asked : (askedIds messages).Nodup :=
    (List.pairwise_cons.mp increasing).2.imp fun smaller => ne_of_lt smaller
  exact (List.nodup_append.mp (all.nodup_iff.mp asked)).1

theorem outstanding_run (sound : state.Sound) {jobs : List (Job η τ)}
    (running : jobs.map Job.key = (state.active.map Job.key).toList)
    (messages : List (Message η τ)) :
    (outstandingAfter clock state jobs messages).map Job.key =
      ((run clock state messages).1.active.map Job.key).toList := by
  induction messages generalizing state jobs with
  | nil => exact running
  | cons message rest ih =>
    have does : Does clock state message _ _ := delta_does clock message
    exact ih (sound_does sound does) (outstanding_does sound does running)

theorem closed_run (closed : state.isOpen = false) (messages : List (Message η τ)) :
    runJobs (run clock state messages).2 = [] := by
  induction messages generalizing state with
  | nil => rfl
  | cons message rest ih =>
    obtain ⟨closed', none_now⟩ := closed_does (delta_does clock message) closed
    rw [run_cons, runJobs_append, none_now, ih closed']
    rfl

theorem dated_run {deadline : τ}
    (dated : state.Dated id deadline) (other : id ∉ askedIds messages) :
    (run clock state messages).1.Dated id deadline := by
  induction messages generalizing state with
  | nil => exact dated
  | cons message rest ih =>
    have parts : id ∉ message.asked ∧ id ∉ askedIds rest := by
      simpa [askedIds, List.flatMap_cons] using other
    exact ih (dated_does dated (delta_does clock message) parts.1) parts.2

/-- Nobody waits who neither waited nor asks. -/
theorem not_waiting_run (sound : state.Sound) (increasing : Increasing state messages)
    (idle : id ∉ state.waitingIds) (other : id ∉ askedIds messages) :
    id ∉ repliedIds (run clock state messages).2 ∧
      id ∉ (run clock state messages).1.waitingIds := by
  obtain ⟨dropped, _, accounts⟩ := accounts_run clock sound increasing
  have none_asked : id ∉ state.waitingIds ++ askedIds messages := by simp [idle, other]
  rw [accounts.waiting.mem_iff] at none_asked
  simp only [List.mem_append, not_or] at none_asked
  exact ⟨none_asked.1, none_asked.2.1⟩

theorem Increasing.not_asked (increasing : Increasing state messages) (known : id ≤ state.lastId) :
    id ∉ askedIds messages := fun listed =>
  absurd ((List.pairwise_cons.mp increasing).1 id listed) (not_lt_of_ge known)

/-- Who asked and did not cancel is answered once settled. -/
theorem settled_run {middle : List (Message η τ)} {message : Message η τ} {query : Query η} {now : τ} (sound : state.Sound)
    (increasing : Increasing state (.ask id query now :: (middle ++ message :: rest)))
    (stays : .cancel id ∉ middle ++ message :: rest)
    (settles : Settles (run clock state (.ask id query now :: middle)).1 id
      (clock.lifetime now) message) :
    id ∈ repliedIds (run clock state (.ask id query now :: (middle ++ message :: rest))).2 := by
  obtain ⟨dropped, cancels, accounts⟩ := accounts_run clock sound increasing
  have held := accounts.waiting.mem_iff.mp (List.mem_append_right _ List.mem_cons_self)
  rcases List.mem_append.mp held with replied | held
  · exact replied
  exfalso
  rcases List.mem_append.mp held with waiting | given
  · -- the id stops waiting at the message that settles it, for good
    rw [← List.cons_append] at increasing waiting
    rw [run_append, run_cons] at waiting
    obtain ⟨_, all⟩ := asked_le_lastId clock increasing.before
    have known := all id List.mem_cons_self
    have dated : (run clock state (.ask id query now :: middle)).1.Dated id
        (clock.lifetime now) := by
      rw [run_cons]
      refine dated_run clock ?_ ?_
      · intro key listed named
        rcases keys_does (delta_does clock (.ask id query now)) listed with
          before | ⟨_, _, _, same, _, deadline⟩
        · have fresh := increasing.new id List.mem_cons_self
          have old := sound.bounded key before
          omega
        · cases same
          exact deadline
      · have first := increasing.before.delta clock
        refine first.not_asked ?_
        have last := lastId_does (delta_does clock (.ask id query now)) increasing.new
        exact last.ge
    have later := increasing.after clock
    have gone := settled_does (sound_run clock sound _) known dated settles later.new
      (delta_does clock message)
    have after := later.delta clock
    have here : Increasing _ ([message] ++ rest) := later
    have still := (asked_le_lastId clock here.before).1
    exact (not_waiting_run clock (sound_does (sound_run clock sound _)
      (delta_does clock message)) after gone
      (after.not_asked (known.trans still))).2 waiting
  · rcases List.mem_cons.mp (cancels id given) with same | listed
    · exact absurd same (by simp)
    · exact stays listed

/-- Who has cancelled is not answered any more. -/
theorem cancelled_run (sound : state.Sound) (increasing : Increasing state messages)
    (known : id ≤ state.lastId) : id ∉ repliedIds (run clock (cancel state id).1 messages).2 := by
  refine (not_waiting_run clock (sound.cancel id) increasing ?_ (increasing.not_asked known)).1
  intro waiting
  obtain ⟨job, listed, waits, named⟩ := exists_of_waitingIds waiting
  rcases List.mem_append.mp listed with running | queued
  · cases active : state.active with
    | none => simp [cancel, active] at running
    | some job' =>
      by_cases same : job'.id = id
      · simp [cancel, active, same] at running
        rw [running] at waits
        exact absurd waits (by simp)
      · simp [cancel, active, same] at running
        rw [running] at named
        exact same named
  · exact of_decide_eq_true (List.mem_filter.mp queued).2 named

/-- A job is started in a run with nothing that has expired. -/
theorem cached_delta {message : Message η τ} {job : Job η τ} {entry : Cache τ}
    (started : .run job ∈ (delta clock state message).2) (cached : job.cached = some entry) :
    ∃ now, message.time = some now ∧ now < entry.expires :=
  cached_does (delta_does clock message) (List.mem_filterMap.mpr ⟨.run job, started, rfl⟩) cached

/-- Whoever asks, with ids in order, is answered at most once, and once when it
does not cancel and its time has passed, its job ends or everything does. Jobs are
started one at a time, in the order in which they were asked, and never after
the end. What is kept stays small. -/
theorem requests_answered (messages : List (Message η τ))
    (increasing : (0 :: askedIds messages).Pairwise (· < ·)) :
    (outstandingAfter clock empty [] messages).length ≤ 1 ∧
    (run clock empty messages).1.jobs.length ≤ capacity ∧
    (repliedIds (run clock empty messages).2).Nodup ∧
    (∀ id ∈ repliedIds (run clock empty messages).2, id ∈ askedIds messages) ∧
    (∀ before id query now middle message rest,
      messages = before ++ .ask id query now :: (middle ++ message :: rest) →
      .cancel id ∉ middle ++ message :: rest →
      Settles (run clock (run clock empty before).1
        (.ask id query now :: middle)).1 id (clock.lifetime now) message →
      (repliedIds (run clock empty messages).2).count id = 1) ∧
    (∀ before id after, messages = before ++ .cancel id :: after →
      id ∈ askedIds before →
      id ∉ repliedIds (run clock (run clock empty before).1 (.cancel id :: after)).2) ∧
    (∀ before after, messages = before ++ after →
      ∀ id ∈ repliedIds (run clock empty before).2,
        id ∉ repliedIds (run clock (run clock empty before).1 after).2) ∧
    (runIds (run clock empty messages).2).Sublist (askedIds messages) ∧
    (∀ before id generation now reply after,
      messages = before ++ .completed id generation now reply :: after →
      ¬ ((run clock empty before).1.isOpen ∧ ∃ job,
        (run clock empty before).1.active = some job ∧ job.id = id ∧
        job.generation = generation ∧
        generation = (run clock empty before).1.generation) →
      delta clock (run clock empty before).1 (.completed id generation now reply) =
        ((run clock empty before).1, [])) ∧
    (∀ before after, messages = before ++ .stop :: after →
      runIds (run clock (run clock empty before).1 (.stop :: after)).2 = []) ∧
    Kept (run clock empty messages).1.cache ∧
    (∀ before message after job entry, messages = before ++ message :: after →
      .run job ∈ (delta clock (run clock empty before).1 message).2 →
      job.cached = some entry →
      ∃ now, message.time = some now ∧ now < entry.expires) := by
  have start : Increasing empty messages := increasing
  have once := answered_once clock sound_empty rfl start
  have sound := sound_run clock sound_empty messages
  obtain ⟨dropped, _, accounts⟩ := accounts_run clock sound_empty start
  refine ⟨?_, ?_, (List.nodup_append.mp once).1, ?_, ?_, ?_, ?_, ?_, ?_, ?_,
    sound.kept, ?_⟩
  · have none_yet : ([] : List (Job η τ)).map Job.key =
        ((empty : State η τ).active.map Job.key).toList := rfl
    have same := congrArg List.length (outstanding_run clock sound_empty none_yet messages)
    rw [List.length_map] at same
    rw [same]
    cases (run clock empty messages).1.active with
    | none => exact Nat.zero_le _
    | some job => exact le_refl _
  · have few := sound.room
    rwa [State.keys, List.length_map] at few
  · intro id listed
    exact accounts.waiting.mem_iff.mpr (List.mem_append_left _ listed)
  · intro before id query now middle message rest parts stays settles
    refine List.count_eq_one_of_mem (List.nodup_append.mp once).1 ?_
    rw [parts] at start ⊢
    rw [run_append, repliedIds_append]
    exact List.mem_append_right _ (settled_run clock (sound_run clock sound_empty before)
      (start.after clock) stays settles)
  · intro before id after parts asked
    rw [parts] at start
    have known := (asked_le_lastId clock start.before).2 id asked
    rw [run_cons, repliedIds_append]
    have none_now : id ∉ repliedIds (delta clock (run clock empty before).1 (.cancel id)).2 :=
      List.not_mem_nil
    exact List.not_mem_append none_now (cancelled_run clock (sound_run clock sound_empty before)
      ((start.after clock).delta clock) known)
  · intro before after parts id first later
    rw [parts, run_append, repliedIds_append] at once
    exact (List.nodup_append.mp (List.nodup_append.mp once).1).2.2 id first id later rfl
  · exact (List.sublist_append_left _ _).trans accounts.order
  · intro before id generation now reply after _ other
    have stale : (run clock empty before).1.completes id generation = false := by
      by_contra completes
      exact other (completes_iff.mp (by simpa using completes))
    rw [delta, completed, if_neg (by simp [stale])]
  · intro before after _
    have closed : (delta clock (run clock empty before).1 .stop).1.isOpen = false ∧
        runJobs (delta clock (run clock empty before).1 .stop).2 = [] := by
      by_cases opened : (run clock empty before).1.isOpen
      · simp [delta, stop, opened, runJobs_stopped]
      · simp [delta, stop, opened]
    rw [run_cons, runIds, runJobs_append, closed.2, closed_run clock closed.1]
    rfl
  · intro before message after job entry _ started cached
    exact cached_delta clock started cached

def seconds : Clock Nat where
  lifetime := (· + 15)
  retention := (· + 60)
  retained _ := Nat.lt_add_of_pos_right (by decide)

def anyPart (fromEpoch : Int) : Query Unit where
  fromEpoch := fromEpoch
  maxEpochs := 10
  part := some 0
  hash := none
  head := none
  pubkeys := []
  activation := none

/-- The first job completes twice, the second time when the second one, which is
running, is ended. -/
def lateMessages : List (Message Unit Nat) :=
  [.ask 1 (anyPart 0) 0, .completed 1 0 1 (.error .missing),
    .ask 2 (anyPart 5) 2, .completed 1 0 100 (.error .missing)]

theorem requests_answered_twoJobs :
    (0 :: askedIds (lateMessages ++ [.tick 100])).Pairwise (· < ·) ∧
    (repliedIds (run seconds empty (lateMessages ++ [.tick 100])).2).count 2 = 1 := by
  have increasing : (0 :: askedIds (lateMessages ++ [.tick 100])).Pairwise (· < ·) := by decide
  refine ⟨increasing, ?_⟩
  have answered := requests_answered seconds (lateMessages ++ [.tick 100]) increasing
  have due : seconds.lifetime 2 ≤ 100 := by decide
  refine answered.2.2.2.2.1
    [.ask 1 (anyPart 0) 0, .completed 1 0 1 (.error .missing)] 2 (anyPart 5) 2
    [.completed 1 0 100 (.error .missing)] (.tick 100) [] rfl ?_ due
  simp

/-- A completion of another job settles nobody, though it comes late; and an id
may be given up before it is asked with, or be too small to be heard. -/
theorem requests_unanswered :
    (0 :: askedIds lateMessages).Pairwise (· < ·) ∧
    (lateMessages.filterMap Message.time).Pairwise (· ≤ ·) ∧
    runIds (run seconds empty (lateMessages.take 3)).2 = [1, 2] ∧
    seconds.lifetime 2 ≤ 100 ∧
    2 ∉ repliedIds (run seconds empty lateMessages).2 ∧
    repliedIds (run seconds empty
      [.cancel 1, .ask 1 (anyPart 0) 0, .completed 1 0 1 (.error .missing)]).2 = [1] ∧
    repliedIds (run seconds empty [.ask 0 (anyPart 0) 0, .tick 100, .stop]).2 = [] := by
  decide

end Runs
end SyncRange
end LiteNode
