import LiteNode.Data.Bytes

/-!
# The book of an outbox

One item is sent at a time, the next ones wait in a queue. Keys that were sent
lately are known and not sent again before the generation changes.

Every accepted offer is written into a book together with what became of it.
It waits until it is sent, expires or is discarded, and stays what it became.
-/

namespace LiteNode
namespace Relay

/-- An item and when it expires. -/
structure Item (α τ : Type) where
  key : Bytes
  value : α
  expires : τ

structure State (α τ : Type) where
  generation : Int
  serial : Int
  active : Option (Int × Item α τ)
  queue : List (Item α τ)
  seen : List Bytes
  closed : Bool

inductive Outcome
  | sent | expired | failed (reason : String) | cancelled

inductive Message (α τ : Type)
  | offer (generation : Int) (now : τ) (item : Item α τ)
  | finished (serial : Int) (now : τ) (outcome : Outcome)
  | advance (generation : Int) (now : τ)
  | close
  | opening (generation : Int)

inductive Effect (α τ : Type)
  | send (serial : Int) (item : Item α τ)
  | cancel
  | dropped (reason : String)

def capacity : Nat := 4

def empty : State α τ where
  generation := 0
  serial := 0
  active := none
  queue := []
  seen := []
  closed := false

/-- Number of keys that are known after they were sent. -/
def memory : Nat := 64

def recent (count : Nat) (keys : List Bytes) : List Bytes := keys.take count

section Steps

variable [LE τ] [DecidableLE τ]

/-- Drop the queued items that expired. -/
def expire (st : State α τ) (now : τ) : State α τ × List (Effect α τ) :=
  ({ st with queue := st.queue.filter fun item => ¬ item.expires ≤ now },
    (st.queue.filter fun item => item.expires ≤ now).map fun _ => .dropped "expired")

/-- Send the first queued item that did not expire, if none is active. -/
def start (st : State α τ) (now : τ) : State α τ × List (Effect α τ) :=
  let (st, effects) := expire st now
  match st.active, st.queue with
  | none, item :: rest =>
    if st.closed then (st, effects)
    else
      let serial := st.serial + 1
      ({ st with serial, active := some (serial, item), queue := rest },
        effects ++ [.send serial item])
  | _, _ => (st, effects)

def known (st : State α τ) (key : Bytes) : Bool :=
  st.seen.contains key || st.queue.any (fun item => item.key = key) ||
    st.active.any fun sent => sent.2.key = key

/-- Forget everything about a generation that is over. -/
def advance (st : State α τ) (generation : Int) : State α τ × List (Effect α τ) :=
  if generation ≤ st.generation then (st, [])
  else
    ({ st with generation, active := none, queue := [], seen := [] },
      if st.active.isSome then [.cancel] else [])

/-- What is known, and what is dropped, after a send. -/
def report (st : State α τ) (item : Item α τ) : Outcome → List Bytes × List (Effect α τ)
  | .sent => (recent memory (item.key :: st.seen), [])
  | .expired => (st.seen, [.dropped "expired"])
  | .failed reason => (st.seen, [.dropped reason])
  | .cancelled => (st.seen, [])

def finish (st : State α τ) (serial : Int) (now : τ) (outcome : Outcome) :
    State α τ × List (Effect α τ) :=
  match st.active with
  | some (current, item) =>
    if current = serial then
      let (seen, effects) := report st item outcome
      let (st, sends) := start { st with active := none, seen } now
      (st, effects ++ sends)
    else (st, [])
  | none => (st, [])

def offer (st : State α τ) (generation : Int) (now : τ) (item : Item α τ) :
    State α τ × List (Effect α τ) :=
  if st.closed ∨ generation < st.generation then (st, [])
  else
    let (st, effects) := advance st generation
    let (st, expired) := expire st now
    let effects := effects ++ expired
    if known st item.key then (st, effects)
    else if item.expires ≤ now then (st, effects ++ [.dropped "expired"])
    else if capacity ≤ st.queue.length then (st, effects ++ [.dropped "full"])
    else
      let (st, sends) := start { st with queue := st.queue ++ [item] } now
      (st, effects ++ sends)

def step (st : State α τ) : Message α τ → State α τ × List (Effect α τ)
  | .close => ({ st with closed := true, active := none, queue := [], seen := [] }, [.cancel])
  | .opening generation =>
    ({ st with generation, closed := false, active := none, queue := [], seen := [] }, [.cancel])
  | .advance generation now =>
    let (st, effects) := advance st generation
    let (st, sends) := start st now
    (st, effects ++ sends)
  | .finished serial now outcome => finish st serial now outcome
  | .offer generation now item => offer st generation now item

/-- Take messages one after the other. -/
def run : State α τ → List (Message α τ) → State α τ × List (Effect α τ)
  | st, [] => (st, [])
  | st, message :: rest =>
    let (next, effects) := step st message
    let (last, more) := run next rest
    (last, effects ++ more)

end Steps

/-- What became of an accepted offer. -/
inductive Fate
  | waiting | sent (serial : Int) | expired | discarded

/-- Accepted offers in order. -/
abbrev Book (α τ : Type) := List (Item α τ × Fate)

namespace Book

def waiting? : Item α τ × Fate → Option (Item α τ)
  | (item, .waiting) => some item
  | _ => none

def sent? : Item α τ × Fate → Option (Int × Item α τ)
  | (item, .sent serial) => some (serial, item)
  | _ => none

def expired? : Item α τ × Fate → Bool
  | (_, .expired) => true
  | _ => false

def discarded? : Item α τ × Fate → Bool
  | (_, .discarded) => true
  | _ => false

/-- What still waits. -/
def queue (book : Book α τ) : List (Item α τ) := book.filterMap waiting?

/-- What was sent, under which serial. -/
def sends (book : Book α τ) : List (Int × Item α τ) := book.filterMap sent?

def discardEntry : Item α τ × Fate → Item α τ × Fate
  | (item, .waiting) => (item, .discarded)
  | entry => entry

def expireEntry (past : Item α τ → Bool) : Item α τ × Fate → Item α τ × Fate
  | (item, .waiting) => (item, if past item then .expired else .waiting)
  | entry => entry

/-- The first waiting item is sent. -/
def sendFirst (serial : Int) : Book α τ → Book α τ
  | [] => []
  | (item, .waiting) :: rest => (item, .sent serial) :: rest
  | entry :: rest => entry :: sendFirst serial rest

/-! ## Changes of a book -/

theorem queue_discard (book : Book α τ) : queue (book.map discardEntry) = [] := by
  rw [queue, List.filterMap_map, List.filterMap_eq_nil_iff]
  rintro ⟨item, fate⟩ -
  cases fate <;> rfl

theorem sends_discard (book : Book α τ) : sends (book.map discardEntry) = book.sends := by
  rw [sends, sends, List.filterMap_map]
  congr 1
  funext ⟨item, fate⟩
  cases fate <;> rfl

@[simp] theorem queue_waiting (item : Item α τ) (rest : Book α τ) :
    queue ((item, .waiting) :: rest) = item :: queue rest := rfl

theorem queue_settled {entry : Item α τ × Fate}
    (settled : (waiting? entry).isNone) (rest : Book α τ) : queue (entry :: rest) = queue rest := by
  rw [queue, List.filterMap_cons, Option.isNone_iff_eq_none.mp settled]
  rfl

theorem expireEntry_settled (past : Item α τ → Bool) {entry : Item α τ × Fate}
    (settled : (waiting? entry).isNone) : expireEntry past entry = entry := by
  obtain ⟨item, fate⟩ := entry
  cases fate with
  | waiting => cases settled
  | sent | expired | discarded => rfl

theorem queue_expire (past : Item α τ → Bool) (book : Book α τ) :
    queue (book.map (expireEntry past)) = book.queue.filter fun item => !past item := by
  induction book with
  | nil => rfl
  | cons entry rest ih =>
    rw [List.map_cons]
    by_cases settled : (waiting? entry).isNone
    · rw [expireEntry_settled past settled, queue_settled settled, queue_settled settled, ih]
    · obtain ⟨item, fate⟩ := entry
      cases fate with
      | waiting =>
        rw [queue_waiting, List.filter_cons, ← ih]
        rw [expireEntry]
        by_cases gone : past item = true
        · simp only [gone, if_true, Bool.not_true, Bool.false_eq_true, if_false]
          exact queue_settled rfl _
        · simp only [gone, if_false, Bool.not_false, if_true, Bool.false_eq_true, queue_waiting]
      | sent | expired | discarded => exact absurd rfl settled

theorem sends_expire (past : Item α τ → Bool) (book : Book α τ) :
    sends (book.map (expireEntry past)) = book.sends := by
  rw [sends, sends, List.filterMap_map]
  congr 1
  funext ⟨item, fate⟩
  cases fate with
  | waiting =>
    rw [Function.comp_apply, expireEntry]
    split <;> rfl
  | sent | expired | discarded => rfl

theorem expired_expire (past : Item α τ → Bool) (book : Book α τ) :
    (book.map (expireEntry past)).countP expired? =
      book.countP expired? + book.queue.countP past := by
  induction book with
  | nil => rfl
  | cons entry rest ih =>
    rw [List.map_cons, List.countP_cons, List.countP_cons, ih]
    by_cases settled : (waiting? entry).isNone
    · rw [expireEntry_settled past settled, queue_settled settled]
      omega
    · obtain ⟨item, fate⟩ := entry
      cases fate with
      | waiting =>
        rw [queue_waiting, List.countP_cons, expireEntry]
        by_cases gone : past item = true
        · simp only [gone, if_true, expired?, Bool.false_eq_true, if_false]
          omega
        · simp only [gone, if_false, expired?, Bool.false_eq_true]
          omega
      | sent | expired | discarded => exact absurd rfl settled

variable {item : Item α τ} {rest : List (Item α τ)}

theorem sendFirst_spec (serial : Int) {book : Book α τ} (queued : book.queue = item :: rest) :
    ∃ before after, book = before ++ (item, .waiting) :: after ∧ queue before = [] ∧
      sendFirst serial book = before ++ (item, .sent serial) :: after := by
  induction book with
  | nil => cases queued
  | cons entry others ih =>
    obtain ⟨first, fate⟩ := entry
    cases fate with
    | waiting =>
      cases queued
      exact ⟨[], others, rfl, rfl, rfl⟩
    | sent | expired | discarded =>
      obtain ⟨before, after, rfl, none, sent⟩ := ih queued
      exact ⟨(first, _) :: before, after, rfl, none, congrArg ((first, _) :: ·) sent⟩

theorem queue_sendFirst (serial : Int) {book : Book α τ} (queued : book.queue = item :: rest) :
    queue (book.sendFirst serial) = rest := by
  obtain ⟨before, after, rfl, none, sent⟩ := sendFirst_spec serial queued
  have whole : queue (before ++ (item, .waiting) :: after) =
      queue before ++ item :: queue after := by
    rw [queue, List.filterMap_append]
    rfl
  have split : queue (before ++ (item, .sent serial) :: after) = queue before ++ queue after := by
    rw [queue, List.filterMap_append]
    rfl
  rw [whole, none] at queued
  rw [sent, split, none]
  exact (List.cons.inj queued).2

/-- No item waits before one that was sent. -/
def InOrder (book : Book α τ) : Prop :=
  book.Pairwise fun first second => (waiting? first).isSome → (sent? second).isNone

theorem InOrder.map {book : Book α τ} (ordered : book.InOrder)
    (f : Item α τ × Fate → Item α τ × Fate)
    (waits : ∀ entry, (waiting? (f entry)).isSome → (waiting? entry).isSome)
    (sent : ∀ entry, sent? (f entry) = sent? entry) : InOrder (book.map f) := by
  refine List.pairwise_map.mpr (List.Pairwise.imp ?_ ordered)
  intro first second apart still
  rw [sent]
  exact apart (waits first still)

theorem InOrder.discard {book : Book α τ} (ordered : book.InOrder) :
    InOrder (book.map discardEntry) := by
  apply ordered.map
  · rintro ⟨item, fate⟩ still
    cases fate with
    | waiting => cases still
    | sent | expired | discarded => exact still
  · rintro ⟨item, fate⟩
    cases fate <;> rfl

theorem InOrder.expire {book : Book α τ} (ordered : book.InOrder)
    (past : Item α τ → Bool) : InOrder (book.map (expireEntry past)) := by
  apply ordered.map
  · rintro ⟨item, fate⟩ still
    cases fate with
    | waiting => rfl
    | sent | expired | discarded => exact still
  · rintro ⟨item, fate⟩
    cases fate with
    | waiting =>
      rw [expireEntry]
      split <;> rfl
    | sent | expired | discarded => rfl

theorem InOrder.accept {book : Book α τ} (ordered : book.InOrder)
    (item : Item α τ) : InOrder (book ++ [(item, .waiting)]) := by
  refine List.pairwise_append.mpr ⟨ordered, List.pairwise_singleton _ _, ?_⟩
  intro first _ second listed still
  rw [List.mem_singleton.mp listed]
  rfl

/-- The first waiting item is sent after all that were sent before. -/
theorem InOrder.send {book : Book α τ} (ordered : book.InOrder) (serial : Int)
    (queued : book.queue = item :: rest) :
    sends (book.sendFirst serial) = book.sends ++ [(serial, item)] ∧
      InOrder (book.sendFirst serial) := by
  obtain ⟨before, after, rfl, none, sent⟩ := sendFirst_spec serial queued
  obtain ⟨first, others, apart⟩ := List.pairwise_append.mp ordered
  obtain ⟨unsent, last⟩ := List.pairwise_cons.mp others
  have noWait : ∀ entry ∈ before, (waiting? entry).isSome = false := by
    intro entry listed
    rw [List.filterMap_eq_nil_iff.mp none entry listed]
    rfl
  have noSend : sends after = [] := by
    refine List.filterMap_eq_nil_iff.mpr fun entry listed => ?_
    exact Option.isNone_iff_eq_none.mp (unsent entry listed rfl)
  rw [sent]
  constructor
  · have split : sends (before ++ (item, .sent serial) :: after) =
        sends before ++ (serial, item) :: sends after := by
      rw [sends, List.filterMap_append]
      rfl
    have whole : sends (before ++ (item, .waiting) :: after) = sends before ++ sends after := by
      rw [sends, List.filterMap_append]
      rfl
    rw [split, whole, noSend, List.append_nil]
  · refine List.pairwise_append.mpr
      ⟨first, List.pairwise_cons.mpr ⟨?_, last⟩, ?_⟩
    · rintro entry - ⟨⟩
    · intro entry listed _ _ still
      rw [noWait entry listed] at still
      cases still

theorem queue_accept (book : Book α τ) (item : Item α τ) :
    queue (book ++ [(item, .waiting)]) = book.queue ++ [item] := by
  rw [queue, List.filterMap_append]
  rfl

theorem sends_accept (book : Book α τ) (item : Item α τ) :
    sends (book ++ [(item, .waiting)]) = book.sends := by
  rw [sends, List.filterMap_append]
  exact List.append_nil _

end Book

section Turns

/-- What comes of a book in some part of a step that accepts offers and has
effects; only a reset discards what waits. -/
inductive Turns (reset : Bool) : Book α τ → List (Item α τ) → List (Effect α τ) → Book α τ → Prop
  | nothing (book : Book α τ) : Turns reset book [] [] book
  | discard (book : Book α τ) (resets : reset = true) :
      Turns reset book [] [] (book.map Book.discardEntry)
  | expire (book : Book α τ) (past : Item α τ → Bool) :
      Turns reset book []
        ((book.queue.filter past).map fun _ => .dropped "expired")
        (book.map (Book.expireEntry past))
  | send (book : Book α τ) (serial : Int) (item : Item α τ)
      (rest : List (Item α τ)) (queued : book.queue = item :: rest) :
      Turns reset book [] [.send serial item] (book.sendFirst serial)
  | accept (book : Book α τ) (item : Item α τ) :
      Turns reset book [item] [] (book ++ [(item, .waiting)])
  | cancel (book : Book α τ) : Turns reset book [] [.cancel] book
  | dropped (book : Book α τ) (reason : String) : Turns reset book [] [.dropped reason] book
  | trans {first second third : Book α τ} {accepted later : List (Item α τ)}
      {effects more : List (Effect α τ)} (before : Turns reset first accepted effects second)
      (after : Turns reset second later more third) :
      Turns reset first (accepted ++ later) (effects ++ more) third

def sendOf : Effect α τ → Option (Int × Item α τ)
  | .send serial item => some (serial, item)
  | _ => none

def Effect.isDropped : Effect α τ → Bool
  | .dropped _ => true
  | _ => false

namespace Turns

variable {reset : Bool} {book next : Book α τ} {accepted : List (Item α τ)}
  {effects : List (Effect α τ)}

/-- Every offer that is accepted is written down, and nothing else. -/
theorem items (turns : Turns reset book accepted effects next) :
    next.map Prod.fst = book.map Prod.fst ++ accepted := by
  induction turns with
  | nothing | cancel | dropped => rw [List.append_nil]
  | discard | expire =>
    rw [List.map_map, List.append_nil]
    congr 1
    funext ⟨item, fate⟩
    cases fate <;> rfl
  | send book serial item rest queued =>
    obtain ⟨before, after, rfl, -, sent⟩ := Book.sendFirst_spec serial queued
    rw [sent, List.append_nil, List.map_append, List.map_append]
    rfl
  | accept book item => rw [List.map_append]; rfl
  | trans _ _ first second => rw [second, first, List.append_assoc]

/-- What was sent is what the effects send, in the same order. -/
theorem sends (turns : Turns reset book accepted effects next) (ordered : book.InOrder) :
    next.sends = book.sends ++ effects.filterMap sendOf ∧ next.InOrder := by
  induction turns with
  | nothing | cancel | dropped => exact ⟨(List.append_nil _).symm, ordered⟩
  | discard book =>
    exact ⟨(Book.sends_discard book).trans (List.append_nil _).symm, ordered.discard⟩
  | expire book past =>
    refine ⟨?_, ordered.expire past⟩
    have none : ((book.queue.filter past).map
        fun _ => (.dropped "expired" : Effect α τ)).filterMap sendOf = [] := by
      rw [List.filterMap_map, List.filterMap_eq_nil_iff]
      exact fun _ _ => rfl
    rw [Book.sends_expire, none, List.append_nil]
  | send book serial item rest queued => exact ordered.send serial queued
  | accept book item =>
    exact ⟨(Book.sends_accept book item).trans (List.append_nil _).symm, ordered.accept item⟩
  | trans _ _ first second =>
    obtain ⟨sent, between⟩ := first ordered
    obtain ⟨sentLater, last⟩ := second between
    refine ⟨?_, last⟩
    rw [sentLater, sent, List.filterMap_append, List.append_assoc]

/-- Every item that expired was dropped. -/
theorem expired (turns : Turns reset book accepted effects next) :
    next.countP Book.expired? ≤ book.countP Book.expired? + effects.countP Effect.isDropped := by
  induction turns with
  | nothing => exact le_rfl
  | cancel | dropped => exact Nat.le_add_right _ _
  | discard book =>
    have same : Book.expired? ∘ Book.discardEntry = (Book.expired? : Item α τ × Fate → Bool) := by
      funext ⟨item, fate⟩
      cases fate <;> rfl
    rw [List.countP_map, same]
    exact Nat.le_add_right _ _
  | expire book past =>
    rw [Book.expired_expire, List.countP_map]
    have all : (book.queue.filter past).countP
        (Effect.isDropped ∘ fun _ => (.dropped "expired" : Effect α τ)) =
        (book.queue.filter past).length := by
      rw [List.countP_eq_length]
      exact fun _ _ => rfl
    rw [all, List.countP_eq_length_filter (p := past)]
  | send book serial item rest queued =>
    obtain ⟨before, after, rfl, -, sent⟩ := Book.sendFirst_spec serial queued
    rw [sent]
    simp [List.countP_append, List.countP_cons, Book.expired?]
  | accept book item => simp [List.countP_append, Book.expired?]
  | trans _ _ first second =>
    rw [List.countP_append]
    omega

/-- What happens without a reset may happen with one. -/
theorem permitted (turns : Turns reset book accepted effects next) :
    Turns true book accepted effects next := by
  induction turns with
  | nothing book => exact .nothing book
  | discard book => exact .discard book rfl
  | expire book past => exact .expire book past
  | send book serial item rest queued => exact .send book serial item rest queued
  | accept book item => exact .accept book item
  | cancel book => exact .cancel book
  | dropped book reason => exact .dropped book reason
  | trans _ _ first second => exact first.trans second

end Turns
end Turns
end Relay
end LiteNode
