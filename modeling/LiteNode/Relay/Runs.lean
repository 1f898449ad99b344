import LiteNode.Relay.Book

/-!
# Runs of an outbox

Whatever messages come in whatever order, one item is sent at a time and every
accepted offer has one fate.
-/

namespace LiteNode
namespace Relay

variable [LE τ] [DecidableLE τ]

/-- Whether a message forgets the queue and what is known. -/
def resets (st : State α τ) : Message α τ → Bool
  | .close | .opening _ => true
  | .advance generation _ => st.generation < generation
  | .offer generation _ _ => !st.closed && st.generation < generation
  | .finished .. => false

/-- Whether an offer is taken into the queue. -/
def takes (st : State α τ) (generation : Int) (now : τ) (item : Item α τ) : Bool :=
  let ready := (expire (advance st generation).1 now).1
  !st.closed && st.generation ≤ generation && !known ready item.key &&
    !decide (item.expires ≤ now) && ready.queue.length < capacity

/-- The offer that a message makes, if it is taken. -/
def accepts (st : State α τ) : Message α τ → List (Item α τ)
  | .offer generation now item => if takes st generation now item then [item] else []
  | _ => []

/-- The offers that are taken from a state on. -/
def accepted : State α τ → List (Message α τ) → List (Item α τ)
  | _, [] => []
  | st, message :: rest => accepts st message ++ accepted (step st message).1 rest

/-- Serials of sends after an effect. -/
def noted (serials : List Int) : Effect α τ → List Int
  | .send serial _ => serials ++ [serial]
  | .cancel => []
  | .dropped _ => serials

/-- Serials of sends that were neither finished nor cancelled. -/
def settle (serials : List Int) (message : Message α τ) (effects : List (Effect α τ)) : List Int :=
  let left :=
    match message with
    | .finished serial _ _ => serials.filter (· ≠ serial)
    | _ => serials
  effects.foldl noted left

def outstanding (serials : List Int) : State α τ → List (Message α τ) → List Int
  | _, [] => serials
  | st, message :: rest =>
    outstanding (settle serials message (step st message).2) (step st message).1 rest

/-- Number of sends that a message reports as sent. -/
def reported (st : State α τ) : Message α τ → Nat
  | .finished serial _ .sent => if st.active.map Prod.fst = some serial then 1 else 0
  | _ => 0

def reports : State α τ → List (Message α τ) → Nat
  | _, [] => 0
  | st, message :: rest => reported st message + reports (step st message).1 rest

/-- Whether no message of a run forgets what is known. -/
def Steady : State α τ → List (Message α τ) → Prop
  | _, [] => True
  | st, message :: rest => resets st message = false ∧ Steady (step st message).1 rest

/-- What is still queued at a time. -/
def live (st : State α τ) (now : τ) : List (Item α τ) :=
  st.queue.filter fun item => ¬ item.expires ≤ now

/-- What is dropped from the queue at a time. -/
def drops (st : State α τ) (now : τ) : List (Effect α τ) :=
  (st.queue.filter fun item => item.expires ≤ now).map fun _ => .dropped "expired"

theorem expire_eq (st : State α τ) (now : τ) :
    expire st now = ({ st with queue := live st now }, drops st now) := rfl

/-- Either the first queued item is sent, or none is. -/
theorem start_cases (st : State α τ) (now : τ) :
    (∃ item rest, st.active = none ∧ live st now = item :: rest ∧
      start st now =
        ({ st with serial := st.serial + 1, active := some (st.serial + 1, item), queue := rest },
          drops st now ++ [.send (st.serial + 1) item])) ∨
      start st now = ({ st with queue := live st now }, drops st now) := by
  rw [start, expire_eq]
  rcases active : st.active with _ | sent
  · rcases queued : live st now with _ | ⟨item, rest⟩
    · exact .inr rfl
    · by_cases closed : st.closed = true
      · exact .inr (if_pos closed)
      · exact .inl ⟨item, rest, rfl, rfl, if_neg closed⟩
  · exact .inr rfl

/-- Either nothing is over, or everything is forgotten. -/
theorem advance_cases (st : State α τ) (generation : Int) :
    (generation ≤ st.generation ∧ advance st generation = (st, [])) ∨
      (st.generation < generation ∧ advance st generation =
        ({ st with generation, active := none, queue := [], seen := [] },
          if st.active.isSome then [.cancel] else [])) := by
  rw [advance]
  split
  · next current => exact .inl ⟨current, rfl⟩
  · next gone => exact .inr ⟨not_le.mp gone, rfl⟩

/-- Only the send that is active can be finished. -/
theorem finish_stale {st : State α τ} {serial : Int} (now : τ)
    (outcome : Outcome) (stale : st.active.map Prod.fst ≠ some serial) :
    finish st serial now outcome = (st, []) := by
  rw [finish]
  split
  · next current item active =>
    rw [active] at stale
    rw [if_neg fun same => stale (congrArg some same)]
  · rfl

theorem finish_active {st : State α τ} {serial : Int} {item : Item α τ}
    (now : τ) (outcome : Outcome) (active : st.active = some (serial, item)) :
    finish st serial now outcome =
      let next := start { st with active := none, seen := (report st item outcome).1 } now
      (next.1, (report st item outcome).2 ++ next.2) := by
  rw [finish, active]
  exact if_pos rfl

/-- The state in which an offer is considered. -/
def considered (st : State α τ) (generation : Int) (now : τ) : State α τ :=
  (expire (advance st generation).1 now).1

theorem offer_eq (st : State α τ) (generation : Int) (now : τ) (item : Item α τ) :
    offer st generation now item =
      if st.closed ∨ generation < st.generation then (st, [])
      else
        let ready := considered st generation now
        let effects := (advance st generation).2 ++ drops (advance st generation).1 now
        if known ready item.key then (ready, effects)
        else if item.expires ≤ now then (ready, effects ++ [.dropped "expired"])
        else if capacity ≤ ready.queue.length then (ready, effects ++ [.dropped "full"])
        else
          let next := start { ready with queue := ready.queue ++ [item] } now
          (next.1, effects ++ next.2) := rfl

theorem takes_iff {st : State α τ} {generation : Int} {now : τ} {item : Item α τ} :
    takes st generation now item = true ↔
      ¬ (st.closed = true ∨ generation < st.generation) ∧
        ¬ known (considered st generation now) item.key = true ∧ ¬ item.expires ≤ now ∧
        ¬ capacity ≤ (considered st generation now).queue.length := by
  rw [takes, considered]
  simp only [Bool.and_eq_true, Bool.not_eq_true', decide_eq_true_eq,
    decide_eq_false_iff_not, Bool.not_eq_true, not_le, not_or, not_lt]
  tauto

theorem offer_taken {st : State α τ} {generation : Int} {now : τ}
    {item : Item α τ} (taken : takes st generation now item = true) :
    offer st generation now item =
      let ready := considered st generation now
      let next := start { ready with queue := ready.queue ++ [item] } now
      (next.1, (advance st generation).2 ++ drops (advance st generation).1 now ++ next.2) := by
  obtain ⟨running, new, fresh, room⟩ := takes_iff.mp taken
  rw [offer_eq, if_neg running]
  rw [if_neg new, if_neg fresh, if_neg room]

/-- An offer that is not taken leaves the outbox as it is considered. -/
theorem offer_refused {st : State α τ} {generation : Int} {now : τ}
    {item : Item α τ} (refused : takes st generation now item = false) :
    offer st generation now item = (st, []) ∧ (st.closed = true ∨ generation < st.generation) ∨
      ∃ reasons : List String, offer st generation now item =
          (considered st generation now, (advance st generation).2 ++
            drops (advance st generation).1 now ++ reasons.map .dropped) ∧
        ¬ (st.closed = true ∨ generation < st.generation) := by
  rw [offer_eq]
  split
  · next out => exact .inl ⟨rfl, out⟩
  · next running =>
    refine .inr ?_
    dsimp only
    split
    · refine ⟨[], ?_, running⟩
      rw [List.map_nil, List.append_nil]
    · next new =>
      split
      · exact ⟨["expired"], rfl, running⟩
      · next fresh =>
        split
        · exact ⟨["full"], rfl, running⟩
        · next room =>
          rw [takes_iff.mpr ⟨running, new, fresh, room⟩] at refused
          cases refused

variable {reset : Bool} {book : Book α τ} {st : State α τ}

theorem expire_turns (reset : Bool) (agree : book.queue = st.queue) (now : τ) :
    ∃ next, Turns reset book [] (drops st now) next ∧ next.queue = live st now := by
  have turned := @Turns.expire reset _ _ book fun item : Item α τ => decide (item.expires ≤ now)
  rw [agree] at turned
  refine ⟨_, turned, ?_⟩
  rw [Book.queue_expire, agree, live]
  congr 1
  funext item
  exact (decide_not).symm

theorem start_turns (reset : Bool) (agree : book.queue = st.queue) (now : τ) :
    ∃ next, Turns reset book [] (start st now).2 next ∧ next.queue = (start st now).1.queue := by
  obtain ⟨next, turned, queued⟩ := expire_turns reset agree now
  rcases start_cases st now with ⟨item, rest, -, waits, started⟩ | started
  · rw [started]
    rw [waits] at queued
    exact ⟨_, turned.trans (.send next _ item rest queued), Book.queue_sendFirst _ queued⟩
  · rw [started]
    exact ⟨next, turned, queued⟩

theorem advance_turns (agree : book.queue = st.queue) {generation : Int}
    (resetting : st.generation < generation → reset = true) :
    ∃ next, Turns reset book [] (advance st generation).2 next ∧
      next.queue = (advance st generation).1.queue := by
  rcases advance_cases st generation with ⟨-, kept⟩ | ⟨gone, advanced⟩
  · rw [kept]
    exact ⟨book, .nothing book, agree⟩
  · rw [advanced]
    have discarded := Turns.discard book (resetting gone)
    refine ⟨_, ?_, Book.queue_discard book⟩
    cases st.active with
    | none => exact discarded
    | some sent => exact discarded.trans (.cancel _)

omit [LE τ] [DecidableLE τ] in
theorem dropped_turns (book : Book α τ) (reasons : List String) :
    Turns reset book [] (reasons.map .dropped) book := by
  induction reasons with
  | nil => exact .nothing book
  | cons reason rest ih => exact (Turns.dropped book reason).trans ih

omit [LE τ] [DecidableLE τ] in
theorem report_turns (book : Book α τ) (st : State α τ) (item : Item α τ)
    (outcome : Outcome) : Turns reset book [] (report st item outcome).2 book := by
  cases outcome with
  | sent | cancelled => exact .nothing book
  | expired => exact .dropped book "expired"
  | failed reason => exact .dropped book reason

theorem finish_turns (agree : book.queue = st.queue) (serial : Int) (now : τ) (outcome : Outcome) :
    ∃ next, Turns reset book [] (finish st serial now outcome).2 next ∧
      next.queue = (finish st serial now outcome).1.queue := by
  by_cases stale : st.active.map Prod.fst = some serial
  · obtain ⟨⟨_, item⟩, active, rfl⟩ := Option.map_eq_some_iff.mp stale
    rw [finish_active now outcome active]
    have agree : book.queue = { st with
        active := none, seen := (report st item outcome).1 : State α τ }.queue :=
      agree
    obtain ⟨next, turned, queued⟩ := start_turns reset agree now
    exact ⟨next, (report_turns book st item outcome).trans turned, queued⟩
  · rw [finish_stale now outcome stale]
    exact ⟨book, .nothing book, agree⟩

/-- What becomes of the book up to where an offer is considered. -/
theorem considered_turns (agree : book.queue = st.queue) {generation : Int}
    (now : τ) (resetting : st.generation < generation → reset = true) :
    ∃ next, Turns reset book [] ((advance st generation).2 ++
        drops (advance st generation).1 now) next ∧
      next.queue = (considered st generation now).queue := by
  obtain ⟨between, advanced, queued⟩ := advance_turns agree resetting
  obtain ⟨next, expired, left⟩ := expire_turns reset queued now
  exact ⟨next, advanced.trans expired, left⟩

theorem offer_turns (agree : book.queue = st.queue) (generation : Int) (now : τ) (item : Item α τ) :
    ∃ next, Turns (resets st (.offer generation now item)) book
        (accepts st (.offer generation now item))
        (offer st generation now item).2 next ∧
      next.queue = (offer st generation now item).1.queue := by
  have resetting : ¬ (st.closed = true ∨ generation < st.generation) → st.generation < generation →
      resets st (.offer generation now item) = true := by
    intro running gone
    have : st.closed = false := by
      cases closed : st.closed with
      | false => rfl
      | true => exact absurd (.inl closed) running
    simp [resets, this, gone]
  by_cases taken : takes st generation now item = true
  · have running := (takes_iff.mp taken).1
    obtain ⟨ready, turned, queued⟩ := considered_turns agree now (resetting running)
    have queue : (ready ++ [(item, Fate.waiting)] : Book α τ).queue =
        { considered st generation now with
          queue := (considered st generation now).queue ++ [item] : State α τ }.queue := by
      rw [Book.queue_accept, queued]
    obtain ⟨next, started, left⟩ := start_turns (resets st (.offer generation now item)) queue now
    rw [offer_taken taken, accepts, if_pos taken]
    have turned := (turned.trans (.accept ready item)).trans started
    simp only [List.append_nil, List.nil_append] at turned
    exact ⟨next, turned, left⟩
  · have refused : takes st generation now item = false := by simpa using taken
    rw [accepts, if_neg taken]
    rcases offer_refused refused with ⟨kept, -⟩ | ⟨reasons, left, running⟩
    · rw [kept]
      exact ⟨book, .nothing book, agree⟩
    · rw [left]
      obtain ⟨ready, turned, queued⟩ := considered_turns agree now (resetting running)
      exact ⟨ready, turned.trans (dropped_turns ready reasons), queued⟩

/-- Every message turns the book as its effects say. -/
theorem step_turns (agree : book.queue = st.queue) (message : Message α τ) :
    ∃ next, Turns (resets st message) book (accepts st message)
        (step st message).2 next ∧
      next.queue = (step st message).1.queue := by
  cases message with
  | close | opening =>
    exact ⟨_, (Turns.discard book rfl).trans (.cancel _), Book.queue_discard book⟩
  | advance generation now =>
    obtain ⟨between, advanced, queued⟩ :=
      @advance_turns _ _ _ _ (resets st (.advance generation now)) _ _ agree
        generation fun gone => decide_eq_true gone
    obtain ⟨next, started, left⟩ := start_turns _ queued now
    exact ⟨next, advanced.trans started, left⟩
  | finished serial now outcome => exact finish_turns agree serial now outcome
  | offer generation now item => exact offer_turns agree generation now item

/-- The books of a run, one for each message. -/
inductive Follows : State α τ → Book α τ → List (Message α τ) → Book α τ → Prop
  | nil (st : State α τ) (book : Book α τ) : Follows st book [] book
  | cons {st : State α τ} {book next last : Book α τ} {message : Message α τ}
      {rest : List (Message α τ)}
      (turns : Turns (resets st message) book (accepts st message) (step st message).2 next)
      (follows : Follows (step st message).1 next rest last) :
      Follows st book (message :: rest) last

theorem run_follows (agree : book.queue = st.queue) (messages : List (Message α τ)) :
    ∃ last, Follows st book messages last ∧ last.queue = (run st messages).1.queue := by
  induction messages generalizing st book with
  | nil => exact ⟨book, .nil st book, agree⟩
  | cons message rest ih =>
    obtain ⟨next, turned, queued⟩ := step_turns agree message
    obtain ⟨last, followed, left⟩ := ih queued
    exact ⟨last, .cons turned followed, left⟩

/-- A book that follows a run is turned as its effects say. -/
theorem Follows.turns {messages : List (Message α τ)} {last : Book α τ}
    (follows : Follows st book messages last) :
    Turns true book (accepted st messages) (run st messages).2 last := by
  induction follows with
  | nil => exact .nothing _
  | cons turned _ ih => exact turned.permitted.trans ih

/-- The keys of what is sent and of what is queued. -/
def State.keys (st : State α τ) : List Bytes :=
  (st.active.map fun sent => sent.2.key).toList ++ st.queue.map Item.key

/-- The keys in the outbox are distinct and not known, and there are not too
many of them. -/
structure State.Tidy (st : State α τ) : Prop where
  distinct : st.keys.Nodup
  unseen : ∀ key ∈ st.keys, key ∉ st.seen
  bounded : st.queue.length ≤ capacity

omit [LE τ] [DecidableLE τ] in
/-- An outbox stays tidy when keys go. -/
theorem State.Tidy.of_sublist {next : State α τ} (tidy : st.Tidy)
    (fewer : next.keys.Sublist st.keys) (known : next.seen = st.seen)
    (shorter : next.queue.length ≤ st.queue.length) : next.Tidy where
  distinct := fewer.nodup tidy.distinct
  unseen key listed := known ▸ tidy.unseen key (fewer.subset listed)
  bounded := shorter.trans tidy.bounded

theorem live_sublist (st : State α τ) (now : τ) :
    (live st now).Sublist st.queue := List.filter_sublist

theorem State.Tidy.expire (tidy : st.Tidy) (now : τ) : (expire st now).1.Tidy :=
  tidy.of_sublist
    ((List.Sublist.refl _).append ((live_sublist st now).map Item.key)) rfl
    (live_sublist st now).length_le

theorem State.Tidy.start (tidy : st.Tidy) (now : τ) : (start st now).1.Tidy := by
  rcases start_cases st now with ⟨item, rest, idle, waits, started⟩ | started
  · rw [started]
    have listed := (live_sublist st now).map Item.key
    have shorter := (live_sublist st now).length_le
    rw [waits] at listed shorter
    refine tidy.of_sublist ?_ rfl ?_
    · rw [State.keys, State.keys, idle]
      exact listed
    · exact (Nat.le_succ _).trans shorter
  · rw [started]
    exact tidy.expire now

theorem State.Tidy.advance (tidy : st.Tidy) (generation : Int) :
    (advance st generation).1.Tidy := by
  rcases advance_cases st generation with ⟨-, kept⟩ | ⟨-, advanced⟩
  · rw [kept]
    exact tidy
  · rw [advanced]
    exact ⟨List.nodup_nil, fun _ listed => absurd listed List.not_mem_nil, Nat.zero_le _⟩

omit [LE τ] [DecidableLE τ] in
theorem report_seen {outcome : Outcome} {item : Item α τ} {key : Bytes}
    (listed : key ∈ (report st item outcome).1) : key = item.key ∨ key ∈ st.seen := by
  cases outcome with
  | sent => exact List.mem_cons.mp (List.mem_of_mem_take listed)
  | expired | failed | cancelled => exact .inr listed

theorem State.Tidy.finish (tidy : st.Tidy) (serial : Int) (now : τ)
    (outcome : Outcome) : (finish st serial now outcome).1.Tidy := by
  by_cases stale : st.active.map Prod.fst = some serial
  · obtain ⟨⟨_, item⟩, active, rfl⟩ := Option.map_eq_some_iff.mp stale
    rw [finish_active now outcome active]
    have keys : st.keys = item.key :: st.queue.map Item.key := by
      rw [State.keys, active]
      rfl
    have distinct := tidy.distinct
    have unseen := tidy.unseen
    rw [keys] at distinct unseen
    obtain ⟨apart, distinct⟩ := List.nodup_cons.mp distinct
    apply State.Tidy.start
    refine ⟨distinct, ?_, tidy.bounded⟩
    intro key listed known
    rcases report_seen known with rfl | known
    · exact apart listed
    · exact unseen key (List.mem_cons_of_mem _ listed) known
  · rw [finish_stale now outcome stale]
    exact tidy

omit [LE τ] [DecidableLE τ] in
theorem known_iff {key : Bytes} : known st key = true ↔ key ∈ st.seen ∨ key ∈ st.keys := by
  rw [known, State.keys]
  simp only [Bool.or_eq_true, List.contains_iff_mem, List.any_eq_true,
    decide_eq_true_eq, Option.any_eq_true, List.mem_append, Option.mem_toList,
    Option.map_eq_some_iff, List.mem_map]
  exact or_assoc.trans (or_congr_right or_comm)

theorem State.Tidy.offer (tidy : st.Tidy) (generation : Int) (now : τ)
    (item : Item α τ) : (offer st generation now item).1.Tidy := by
  have ready : (considered st generation now).Tidy := (tidy.advance generation).expire now
  by_cases taken : takes st generation now item = true
  · obtain ⟨-, new, -, room⟩ := takes_iff.mp taken
    rw [known_iff] at new
    push Not at new room
    rw [offer_taken taken]
    apply State.Tidy.start
    have keys : State.keys { considered st generation now with
        queue := (considered st generation now).queue ++ [item] } =
        (considered st generation now).keys ++ [item.key] := by
      rw [State.keys, State.keys, List.append_assoc, List.map_append]
      rfl
    refine ⟨?_, ?_, ?_⟩
    · rw [keys]
      refine List.nodup_append.mpr ⟨ready.distinct, List.nodup_singleton _, ?_⟩
      rintro key listed _ (_ | ⟨_, ⟨⟩⟩) rfl
      exact new.2 listed
    · intro key listed
      rw [keys, List.mem_append, List.mem_singleton] at listed
      rcases listed with listed | rfl
      · exact ready.unseen key listed
      · exact new.1
    · rw [List.length_append]
      exact room
  · rcases offer_refused (by simpa using taken) with
      ⟨kept, -⟩ | ⟨reasons, left, -⟩
    · rw [kept]
      exact tidy
    · rw [left]
      exact ready

/-- Every message leaves the outbox tidy. -/
theorem State.Tidy.step (tidy : st.Tidy) (message : Message α τ) : (step st message).1.Tidy := by
  cases message with
  | close | opening =>
    exact ⟨List.nodup_nil, fun _ listed => absurd listed List.not_mem_nil, Nat.zero_le _⟩
  | advance generation now => exact (tidy.advance generation).start now
  | finished serial now outcome => exact tidy.finish serial now outcome
  | offer generation now item => exact tidy.offer generation now item

theorem State.Tidy.run (tidy : st.Tidy) (messages : List (Message α τ)) :
    (run st messages).1.Tidy := by
  induction messages generalizing st with
  | nil => exact tidy
  | cons message rest ih => exact ih (tidy.step message)

omit [LE τ] [DecidableLE τ] in
theorem tidy_empty : (empty : State α τ).Tidy :=
  ⟨List.nodup_nil, fun _ listed => absurd listed List.not_mem_nil, Nat.zero_le _⟩

end Relay
end LiteNode
