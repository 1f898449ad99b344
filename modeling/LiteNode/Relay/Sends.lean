import LiteNode.Relay.Runs

/-!
# Sends of an outbox

One send is outstanding at most, under a serial of its own. What was sent is
not sent again while it is known.
-/

namespace LiteNode
namespace Relay

variable [LE τ] [DecidableLE τ] {st : State α τ}

/-- Nothing is sent, or one item under the next serial, which is active then. -/
inductive Sends (st next : State α τ) (effects : List (Effect α τ)) : Prop
  | none (quiet : effects.filterMap sendOf = []) (serial : next.serial = st.serial)
  | one (item : Item α τ) (sent : effects.filterMap sendOf = [(st.serial + 1, item)])
      (serial : next.serial = st.serial + 1) (active : next.active = some (st.serial + 1, item))

omit [LE τ] [DecidableLE τ] in
/-- Other effects before make no difference. -/
theorem Sends.after {between next : State α τ}
    {before effects : List (Effect α τ)} (sends : Sends between next effects)
    (quiet : before.filterMap sendOf = []) (serial : between.serial = st.serial) :
    Sends st next (before ++ effects) := by
  have same : (before ++ effects).filterMap sendOf = effects.filterMap sendOf := by
    rw [List.filterMap_append, quiet, List.nil_append]
  cases sends with
  | none quiet kept => exact .none (same.trans quiet) (kept.trans serial)
  | one item sent next active =>
    rw [serial] at sent next active
    exact .one item (same.trans sent) next active

theorem drops_quiet (st : State α τ) (now : τ) : (drops st now).filterMap sendOf = [] := by
  rw [drops, List.filterMap_map, List.filterMap_eq_nil_iff]
  exact fun _ _ => rfl

theorem advance_quiet (st : State α τ) (generation : Int) :
    (advance st generation).2.filterMap sendOf = [] ∧
      (advance st generation).1.serial = st.serial := by
  rcases advance_cases st generation with ⟨-, kept⟩ | ⟨-, advanced⟩
  · rw [kept]
    exact ⟨rfl, rfl⟩
  · rw [advanced]
    cases st.active <;> exact ⟨rfl, rfl⟩

omit [LE τ] [DecidableLE τ] in
theorem report_quiet (st : State α τ) (item : Item α τ) (outcome : Outcome) :
    (report st item outcome).2.filterMap sendOf = [] := by
  cases outcome <;> rfl

theorem start_sends (st : State α τ) (now : τ) : Sends st (start st now).1 (start st now).2 := by
  rcases start_cases st now with ⟨item, rest, -, -, started⟩ | started
  · rw [started]
    refine .one item ?_ rfl rfl
    rw [List.filterMap_append, drops_quiet]
    rfl
  · rw [started]
    exact .none (drops_quiet st now) rfl

theorem finish_sends (st : State α τ) (serial : Int) (now : τ) (outcome : Outcome) :
    Sends st (finish st serial now outcome).1 (finish st serial now outcome).2 := by
  by_cases stale : st.active.map Prod.fst = some serial
  · obtain ⟨⟨_, item⟩, active, rfl⟩ := Option.map_eq_some_iff.mp stale
    rw [finish_active now outcome active]
    exact (start_sends _ now).after (report_quiet st item outcome) rfl
  · rw [finish_stale now outcome stale]
    exact .none rfl rfl

theorem considered_quiet (st : State α τ) (generation : Int) (now : τ) :
    ((advance st generation).2 ++ drops (advance st generation).1 now).filterMap sendOf = [] ∧
      (considered st generation now).serial = st.serial := by
  obtain ⟨quiet, serial⟩ := advance_quiet st generation
  refine ⟨?_, serial⟩
  rw [List.filterMap_append, quiet, drops_quiet]
  rfl

theorem offer_sends (st : State α τ) (generation : Int) (now : τ) (item : Item α τ) :
    Sends st (offer st generation now item).1 (offer st generation now item).2 := by
  obtain ⟨quiet, serial⟩ := considered_quiet st generation now
  by_cases taken : takes st generation now item = true
  · rw [offer_taken taken]
    exact (start_sends _ now).after quiet serial
  · rcases offer_refused (by simpa using taken) with
      ⟨kept, -⟩ | ⟨reasons, left, -⟩
    · rw [kept]
      exact .none rfl rfl
    · rw [left]
      refine .none ?_ serial
      rw [List.filterMap_append, quiet, List.nil_append, List.filterMap_map,
        List.filterMap_eq_nil_iff]
      exact fun _ _ => rfl

theorem step_sends (st : State α τ) (message : Message α τ) :
    Sends st (step st message).1 (step st message).2 := by
  cases message with
  | close | opening => exact .none rfl rfl
  | advance generation now =>
    obtain ⟨quiet, serial⟩ := advance_quiet st generation
    exact (start_sends _ now).after quiet serial
  | finished serial now outcome => exact finish_sends st serial now outcome
  | offer generation now item => exact offer_sends st generation now item

theorem run_serials (st : State α τ) (messages : List (Message α τ)) :
    (∀ send ∈ (run st messages).2.filterMap sendOf, st.serial < send.1) ∧
      ((run st messages).2.filterMap sendOf).Pairwise fun first second => first.1 < second.1 := by
  induction messages generalizing st with
  | nil => exact ⟨fun _ listed => absurd listed List.not_mem_nil, .nil⟩
  | cons message rest ih =>
    obtain ⟨later, increasing⟩ := ih (step st message).1
    have whole : (run st (message :: rest)).2 =
        (step st message).2 ++ (run (step st message).1 rest).2 := rfl
    rw [whole, List.filterMap_append]
    cases step_sends st message with
    | none quiet serial =>
      rw [quiet, List.nil_append]
      exact ⟨serial ▸ later, increasing⟩
    | one item sent serial active =>
      rw [sent, List.singleton_append]
      rw [serial] at later
      refine ⟨?_, List.pairwise_cons.mpr ⟨later, increasing⟩⟩
      rintro send listed
      rcases List.mem_cons.mp listed with rfl | listed
      · exact Int.lt_succ _
      · exact (Int.lt_succ _).trans (later send listed)

def State.outstanding (st : State α τ) : List Int := (st.active.map Prod.fst).toList

theorem drops_noted (st : State α τ) (now : τ) (serials : List Int) :
    (drops st now).foldl noted serials = serials := by
  rw [drops, List.foldl_map]
  exact List.foldl_fixed _

omit [LE τ] [DecidableLE τ] in
theorem reasons_noted (reasons : List String) (serials : List Int) :
    (reasons.map (.dropped : String → Effect α τ)).foldl noted serials = serials := by
  rw [List.foldl_map]
  exact List.foldl_fixed _

omit [LE τ] [DecidableLE τ] in
theorem report_noted (st : State α τ) (item : Item α τ) (outcome : Outcome) (serials : List Int) :
    (report st item outcome).2.foldl noted serials = serials := by
  cases outcome <;> rfl

theorem start_noted (st : State α τ) (now : τ) :
    (start st now).2.foldl noted st.outstanding = (start st now).1.outstanding := by
  rcases start_cases st now with ⟨item, rest, idle, -, started⟩ | started
  · rw [started, List.foldl_append, drops_noted, State.outstanding, idle]
    rfl
  · rw [started]
    exact drops_noted st now _

theorem advance_noted (st : State α τ) (generation : Int) :
    (advance st generation).2.foldl noted st.outstanding =
      (advance st generation).1.outstanding := by
  rcases advance_cases st generation with ⟨-, kept⟩ | ⟨-, advanced⟩
  · rw [kept]
    rfl
  · rw [advanced, State.outstanding]
    cases st.active <;> rfl

theorem considered_noted (st : State α τ) (generation : Int) (now : τ) :
    ((advance st generation).2 ++ drops (advance st generation).1 now).foldl noted st.outstanding =
      (considered st generation now).outstanding := by
  rw [List.foldl_append, advance_noted, drops_noted]
  rfl

/-- What is active is outstanding. -/
theorem step_outstanding (st : State α τ) (message : Message α τ) :
    settle st.outstanding message (step st message).2 = (step st message).1.outstanding := by
  cases message with
  | close | opening => rfl
  | advance generation now =>
    change ((advance st generation).2 ++
      (start (advance st generation).1 now).2).foldl noted st.outstanding =
        (start (advance st generation).1 now).1.outstanding
    rw [List.foldl_append, advance_noted, start_noted]
  | finished serial now outcome =>
    have whole : step st (.finished serial now outcome) = finish st serial now outcome := rfl
    rw [settle, whole]
    by_cases stale : st.active.map Prod.fst = some serial
    · obtain ⟨⟨current, item⟩, active, rfl⟩ := Option.map_eq_some_iff.mp stale
      have left : st.outstanding.filter (· ≠ current) = [] := by
        rw [State.outstanding, stale]
        simp
      rw [finish_active now outcome active, left]
      rw [List.foldl_append, report_noted]
      let seen := (report st item outcome).1
      exact start_noted { st with active := none, seen := seen } now
    · rw [finish_stale now outcome stale]
      refine List.filter_eq_self.mpr fun other listed => ?_
      rw [State.outstanding, Option.mem_toList] at listed
      refine decide_eq_true ?_
      rintro rfl
      exact stale listed
  | offer generation now item =>
    change (offer st generation now item).2.foldl noted st.outstanding =
      (offer st generation now item).1.outstanding
    by_cases taken : takes st generation now item = true
    · rw [offer_taken taken]
      rw [List.foldl_append, considered_noted]
      let ready := considered st generation now
      exact start_noted { ready with queue := ready.queue ++ [item] } now
    · rcases offer_refused (by simpa using taken) with
        ⟨kept, -⟩ | ⟨reasons, left, -⟩
      · rw [kept]
        rfl
      · rw [left]
        rw [List.foldl_append, considered_noted, reasons_noted]

theorem run_outstanding (st : State α τ) (messages : List (Message α τ)) :
    outstanding st.outstanding st messages = (run st messages).1.outstanding := by
  induction messages generalizing st with
  | nil => rfl
  | cons message rest ih =>
    rw [outstanding, step_outstanding]
    exact ih _

/-- A key is known and was followed by a number of others at most. -/
def Remembers (st : State α τ) (key : Bytes) (count : Nat) : Prop :=
  ∃ place, place ≤ count ∧ st.seen[place]? = some key

theorem start_seen (st : State α τ) (now : τ) : (start st now).1.seen = st.seen := by
  rcases start_cases st now with ⟨item, rest, -, -, started⟩ | started
  · rw [started]
  · rw [started]

theorem advance_seen {generation : Int} (steady : ¬ st.generation < generation) :
    (advance st generation).1.seen = st.seen := by
  rcases advance_cases st generation with ⟨-, kept⟩ | ⟨gone, -⟩
  · rw [kept]
  · exact absurd gone steady

/-- Without a reset, keys are forgotten only for the keys that are sent. -/
theorem Remembers.step {key : Bytes} {count : Nat} {message : Message α τ}
    (remembers : Remembers st key count) (steady : resets st message = false)
    (few : count + reported st message < memory) :
    Remembers (step st message).1 key (count + reported st message) := by
  obtain ⟨place, early, known⟩ := remembers
  have kept : ∀ {next : State α τ}, next.seen = st.seen →
      Remembers next key (count + reported st message) := by
    intro next same
    exact ⟨place, by omega, same ▸ known⟩
  cases message with
  | close | opening => cases steady
  | advance generation now =>
    exact kept ((start_seen _ now).trans (advance_seen (of_decide_eq_false steady)))
  | offer generation now item =>
    have gone : ¬ (st.closed = true ∨ generation < st.generation) →
        (considered st generation now).seen = st.seen := by
      intro running
      refine advance_seen fun later => ?_
      have live : st.closed = false := by
        cases closed : st.closed with
        | false => rfl
        | true => exact absurd (.inl closed) running
      simp [resets, live, later] at steady
    by_cases taken : takes st generation now item = true
    · have same : (offer st generation now item).1.seen = st.seen := by
        rw [offer_taken taken]
        exact (start_seen _ now).trans (gone (takes_iff.mp taken).1)
      exact kept same
    · rcases offer_refused (by simpa using taken) with
        ⟨same, -⟩ | ⟨reasons, left, running⟩
      · exact kept (congrArg (fun after => after.1.seen) same)
      · exact kept ((congrArg (fun after => after.1.seen) left).trans (gone running))
  | finished serial now outcome =>
    by_cases stale : st.active.map Prod.fst = some serial
    · obtain ⟨⟨current, item⟩, active, rfl⟩ := Option.map_eq_some_iff.mp stale
      have seen : (finish st current now outcome).1.seen = (report st item outcome).1 := by
        rw [finish_active now outcome active]
        exact start_seen _ now
      cases outcome with
      | sent =>
        have one : reported st (.finished current now .sent) = 1 := if_pos stale
        rw [one] at few ⊢
        refine ⟨place + 1, by omega, ?_⟩
        have within : place + 1 < memory := by omega
        change (finish st current now .sent).1.seen[place + 1]? = some key
        rw [seen, report, recent, List.getElem?_take_of_lt within]
        exact known
      | expired | failed | cancelled => exact kept seen
    · have same : (finish st serial now outcome).1.seen = st.seen := by
        rw [finish_stale now outcome stale]
      exact kept same

/-- What is sent is not known. -/
theorem step_unseen (tidy : st.Tidy) (message : Message α τ) :
    ∀ send ∈ (step st message).2.filterMap sendOf, send.2.key ∉ (step st message).1.seen := by
  intro send listed
  cases step_sends st message with
  | none quiet =>
    rw [quiet] at listed
    exact absurd listed List.not_mem_nil
  | one item sent serial active =>
    rw [sent, List.mem_singleton] at listed
    subst listed
    apply (tidy.step message).unseen
    rw [State.keys, active]
    exact List.mem_cons_self

/-- What is known is not sent. -/
theorem run_remembers {key : Bytes} {count : Nat} {st : State α τ}
    (tidy : st.Tidy) (remembers : Remembers st key count)
    {messages : List (Message α τ)} (steady : Steady st messages)
    (few : count + reports st messages < memory) :
    ∀ send ∈ (run st messages).2.filterMap sendOf, send.2.key ≠ key := by
  induction messages generalizing st count with
  | nil => exact fun _ listed => absurd listed List.not_mem_nil
  | cons message rest ih =>
    obtain ⟨kept, later⟩ := steady
    have total : count + reports st (message :: rest) =
        count + reported st message + reports (step st message).1 rest :=
      (Nat.add_assoc _ _ _).symm
    rw [total] at few
    have next := remembers.step kept (by omega)
    have whole : (run st (message :: rest)).2 =
        (step st message).2 ++ (run (step st message).1 rest).2 := rfl
    rw [whole, List.filterMap_append]
    intro send listed
    rcases List.mem_append.mp listed with now | after
    · rintro rfl
      obtain ⟨place, -, known⟩ := next
      exact step_unseen tidy message send now (List.mem_of_getElem? known)
    · exact ih (tidy.step message) next later few send after

/-- What is reported as sent is not sent again before as many other keys are
sent as are known, unless it is forgotten. -/
theorem run_sent (tidy : st.Tidy) {serial : Int} {item : Item α τ}
    (active : st.active = some (serial, item)) (now : τ) {more : List (Message α τ)}
    (steady : Steady (step st (.finished serial now .sent)).1 more)
    (few : reports (step st (.finished serial now .sent)).1 more < memory) :
    ∀ send ∈ (run st (.finished serial now .sent :: more)).2.filterMap sendOf,
      send.2.key ≠ item.key := by
  have seen : (step st (.finished serial now .sent)).1.seen =
      recent memory (item.key :: st.seen) := by
    change (finish st serial now .sent).1.seen = _
    rw [finish_active now .sent active]
    exact start_seen _ now
  have remembers : Remembers (step st (.finished serial now .sent)).1 item.key 0 := by
    refine ⟨0, le_rfl, ?_⟩
    rw [seen]
    rfl
  have whole : (run st (.finished serial now .sent :: more)).2 =
      (step st (.finished serial now .sent)).2 ++
        (run (step st (.finished serial now .sent)).1 more).2 := rfl
  rw [whole, List.filterMap_append]
  intro send listed
  rcases List.mem_append.mp listed with first | later
  · rintro same
    obtain ⟨place, -, known⟩ := remembers
    exact step_unseen tidy _ send first (same ▸ List.mem_of_getElem? known)
  · exact run_remembers (tidy.step _) remembers steady (by omega) send later

/-- What holds of a run from the empty outbox. -/
structure Accounted (messages : List (Message α τ)) (st : State α τ)
    (effects : List (Effect α τ)) : Prop where
  outstanding : outstanding [] empty messages = (st.active.map Prod.fst).toList
  increasing : (effects.filterMap sendOf).Pairwise fun first second => first.1 < second.1
  distinct : st.keys.Nodup
  unseen : ∀ key ∈ st.keys, key ∉ st.seen
  bounded : st.queue.length ≤ capacity
  /-- Every accepted offer has one fate: it waits in its place of the queue, was
  sent before all that wait, was dropped, or was discarded by a reset. -/
  fates : ∃ book, Follows empty [] messages book ∧
    book.map Prod.fst = accepted empty messages ∧ book.queue = st.queue ∧
    book.sends = effects.filterMap sendOf ∧ book.InOrder ∧
    book.countP Book.expired? ≤ effects.countP Effect.isDropped

theorem accounted_run (messages : List (Message α τ)) :
    Accounted messages (run empty messages).1 (run empty messages).2 := by
  have tidy : (run (empty : State α τ) messages).1.Tidy := tidy_empty.run messages
  have blank : Book.queue ([] : Book α τ) = (empty : State α τ).queue := rfl
  obtain ⟨book, follows, queued⟩ := run_follows blank messages
  have turns := follows.turns
  obtain ⟨sent, ordered⟩ := turns.sends .nil
  refine ⟨run_outstanding empty messages, (run_serials empty messages).2,
    tidy.distinct, tidy.unseen, tidy.bounded, book, follows, turns.items, queued, sent, ordered, ?_⟩
  have dropped := turns.expired
  rw [List.countP_nil, Nat.zero_add] at dropped
  exact dropped

/-- One send is outstanding at most, sends have increasing serials and keys of
their own, what was sent is not sent again while it is known, late reports
change nothing, and every accepted offer has one fate. -/
theorem outbox_of_run (messages : List (Message α τ)) :
    Accounted messages (run empty messages).1 (run empty messages).2 ∧
      (∀ (serial : Int) (now : τ) (outcome : Outcome),
        (run empty messages).1.active.map Prod.fst ≠ some serial →
        step (run empty messages).1 (.finished serial now outcome) =
          ((run empty messages).1, [])) ∧
      ∀ (serial : Int) (item : Item α τ) (now : τ) (more : List (Message α τ)),
        (run empty messages).1.active = some (serial, item) →
        let next := (step (run empty messages).1 (.finished serial now .sent)).1
        Steady next more → reports next more < memory →
        ∀ send ∈ (run (run empty messages).1
            (.finished serial now .sent :: more)).2.filterMap sendOf,
          send.2.key ≠ item.key := by
  refine ⟨accounted_run messages, ?_, ?_⟩
  · intro serial now outcome stale
    exact finish_stale now outcome stale
  · intro serial item now more active next steady few
    exact run_sent (tidy_empty.run messages) active now steady few

def offers (messages : List (Message α τ)) : Nat :=
  messages.countP fun message =>
    match message with
    | .offer .. => true
    | _ => false

/-- An offer is sent and, when its send fails, dropped as well. -/
theorem not_one_end :
    ¬ ∀ messages : List (Message Unit Nat),
      ((run empty messages).2.filterMap sendOf).length +
        (run empty messages).2.countP Effect.isDropped ≤ offers messages := by
  intro oneEnd
  have ends := oneEnd [.offer 0 0 ⟨[107], (), 2⟩, .finished 1 0 (.failed "lost")]
  exact absurd ends (by decide)

end Relay
end LiteNode
