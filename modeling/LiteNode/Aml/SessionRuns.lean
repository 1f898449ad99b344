import LiteNode.Aml.Sessions

/-!
# Runs of sessions

The tokens that are current are those that were given and not taken. A token
that a run takes is never current again, nor is any token of a capability that
the run did not return.
-/

namespace LiteNode
namespace Aml
namespace Sess

mutual

theorem mem_caps {depth : Nat} {start next : Kset × Nat} {value : Value}
    (collected : caps depth start value = .ok next) (key : Key) :
    next.1.mem key = true ↔ start.1.mem key = true ∨ key ∈ value.caps := by
  cases value with
  | unit | bool | int | bytes | enc =>
    rw [caps] at collected
    obtain ⟨-, -, rest⟩ := bind_eq_ok collected
    cases rest
    simp [Value.caps]
  | cap kind id =>
    rw [caps] at collected
    obtain ⟨-, -, rest⟩ := bind_eq_ok collected
    obtain ⟨-, rest⟩ := ite_error_eq_ok_iff.mp rest
    obtain ⟨-, rest⟩ := ite_error_eq_ok_iff.mp rest
    obtain ⟨-, rest⟩ := ite_error_eq_ok_iff.mp rest
    cases rest
    rw [Kmap.mem_add, Value.caps, List.mem_singleton, or_comm]
  | vec values =>
    rw [caps] at collected
    obtain ⟨-, -, rest⟩ := bind_eq_ok collected
    rw [Value.caps]
    exact mem_capsEach rest key
  | pair left right =>
    rw [caps] at collected
    obtain ⟨-, -, rest⟩ := bind_eq_ok collected
    obtain ⟨between, first, second⟩ := bind_eq_ok rest
    rw [mem_caps second key, mem_caps first key, Value.caps, List.mem_append, or_assoc]
  | inl value | inr value =>
    rw [caps] at collected
    obtain ⟨-, -, rest⟩ := bind_eq_ok collected
    rw [Value.caps]
    exact mem_caps rest key

theorem mem_capsEach {depth : Nat} {start next : Kset × Nat}
    {values : List Value} (collected : capsEach depth start values = .ok next) (key : Key) :
    next.1.mem key = true ↔ start.1.mem key = true ∨ key ∈ capsAll values := by
  cases values with
  | nil =>
    cases collected
    simp [capsAll]
  | cons value rest =>
    rw [capsEach] at collected
    obtain ⟨between, first, others⟩ := bind_eq_ok collected
    rw [mem_capsEach others key, mem_caps first key, capsAll, List.mem_append, or_assoc]

end

theorem mem_inputCaps {count : Nat} {start : Kset × Nat} {out : Kset} {inputs : List (Bind × Value)}
    (collected : inputCapsFrom count start inputs = .ok out) (key : Key) :
    out.mem key = true ↔ start.1.mem key = true ∨ key ∈ inputCaps inputs := by
  induction inputs generalizing count start with
  | nil =>
    cases collected
    simp [inputCaps]
  | cons input rest ih =>
    rw [inputCapsFrom] at collected
    obtain ⟨-, collected⟩ := ite_error_eq_ok_iff.mp collected
    obtain ⟨next, first, others⟩ := bind_eq_ok collected
    rw [ih others, mem_caps first key, inputCaps_cons, List.mem_append, or_assoc]

/-- Tokens that are supplied have different capabilities. -/
theorem find?_tokenMap {count : Nat} {start out : Kmap Token}
    {tokens : List Token} (collected : tokenMapFrom count start tokens = .ok out) :
    (tokens.map Token.key).Nodup ∧ (∀ token ∈ tokens, start.mem token.key = false) ∧
      ∀ key token, out.find? key = some token ↔
        start.find? key = some token ∨ token ∈ tokens ∧ token.key = key := by
  induction tokens generalizing count start with
  | nil =>
    cases collected
    simp
  | cons first rest ih =>
    rw [tokenMapFrom] at collected
    obtain ⟨-, collected⟩ := ite_error_eq_ok_iff.mp collected
    obtain ⟨free, collected⟩ := ite_error_eq_ok_iff.mp collected
    have free : start.mem first.key = false := by simpa using free
    obtain ⟨distinct, others, found⟩ := ih collected
    have apart : ∀ token ∈ rest, token.key ≠ first.key ∧ start.mem token.key = false := by
      intro token listed
      have absent := others token listed
      rw [← Bool.not_eq_true, Kmap.mem_add] at absent
      exact ⟨fun same => absent (.inl same), by
        simpa using fun bound => absent (.inr bound)⟩
    refine ⟨?_, ?_, ?_⟩
    · rw [List.map_cons, List.nodup_cons]
      refine ⟨fun listed => ?_, distinct⟩
      obtain ⟨token, listed, same⟩ := List.mem_map.mp listed
      exact (apart token listed).1 same
    · exact List.forall_mem_cons.mpr ⟨free, fun token listed => (apart token listed).2⟩
    · intro key token
      rw [found, Kmap.find?_add, List.mem_cons]
      split
      · next same =>
        have unbound : start.find? key = none := by
          rw [same]
          simpa [Kmap.mem] using free
        rw [unbound]
        constructor
        · rintro (here | ⟨listed, named⟩)
          · cases here
            exact .inr ⟨.inl rfl, same.symm⟩
          · exact .inr ⟨.inr listed, named⟩
        · rintro (none | ⟨rfl | listed, named⟩)
          · cases none
          · exact .inl rfl
          · exact .inr ⟨listed, named⟩
      · next apart =>
        constructor
        · exact Or.imp id fun both => ⟨.inr both.1, both.2⟩
        · rintro (before | ⟨rfl | listed, named⟩)
          · exact .inl before
          · exact absurd named.symm apart
          · exact .inr ⟨listed, named⟩

section Tokens

variable {state state' : State} {token : Token}

/-- A token is current when its slot is live at its revision. -/
theorem current_iff : current state token = true ↔
    token.scope = state.scope ∧ state.slots.find? token.key = some ⟨token.rev, true⟩ := by
  unfold current
  split
  · next other => simp [Ne.symm other]
  · next same =>
    have same : token.scope = state.scope := (not_ne_iff.mp same).symm
    cases found : state.slots.find? token.key with
    | none => simp
    | some slot =>
      obtain ⟨rev, live⟩ := slot
      simp [same, and_comm]

/-- The slot of a token that was taken. -/
def taken (token : Token) (keep : Bool) : Slot :=
  if keep then ⟨token.rev + 1, true⟩ else ⟨token.rev, false⟩

/-- The token for what is returned. -/
def Token.renewed (token : Token) : Token := { token with rev := token.rev + 1 }

theorem take_eq_ok {keep : Bool} {fresh : Option Token}
    (took : take state token keep = .ok (state', fresh)) :
    state.slots.find? token.key = some ⟨token.rev, true⟩ ∧
      state' = { state with
        slots := state.slots.add token.key (taken token keep) } ∧
      fresh = if keep then some token.renewed else none := by
  obtain ⟨-, took⟩ := ite_error_eq_ok_iff.mp took
  cases found : state.slots.find? token.key with
  | none =>
    rw [found] at took
    cases took
  | some slot =>
    rw [found] at took
    obtain ⟨fits, went⟩ := ite_error_eq_ok_iff.mp took
    obtain ⟨rev, live⟩ := slot
    have fits : live = true ∧ rev = token.rev := by simpa using fits
    obtain ⟨rfl, rfl⟩ := fits
    refine ⟨rfl, ?_⟩
    cases keep with
    | false =>
      cases went
      exact ⟨rfl, rfl⟩
    | true =>
      cases added : CNat.add token.rev 1 with
      | none =>
        rw [added] at went
        cases went
      | some rev =>
        rw [added] at went
        obtain ⟨rfl, -⟩ := CNat.add_eq_some added
        cases went
        exact ⟨rfl, rfl⟩

end Tokens

section Steps

variable {state state' : State} {supplied : Kmap Token} {output : Kset}

theorem needs_eq_ok {keys : List Key} {result : Unit}
    (passed : needs state supplied keys = .ok result) :
    ∀ key ∈ keys, ∃ token, supplied.find? key = some token ∧ current state token = true := by
  induction keys with
  | nil => exact fun key listed => absurd listed List.not_mem_nil
  | cons key rest ih =>
    rw [needs] at passed
    cases found : supplied.find? key with
    | none =>
      rw [found] at passed
      cases passed
    | some token =>
      rw [found] at passed
      obtain ⟨-, passed⟩ := ite_error_eq_ok_iff.mp passed
      split at passed
      · next held =>
        exact List.forall_mem_cons.mpr ⟨⟨token, found, held⟩, ih passed⟩
      · split at passed <;> cases passed

theorem extras_eq_ok {expected : Kset} {keys : List Key} {result : Unit}
    (passed : extras expected keys = .ok result) : ∀ key ∈ keys, expected.mem key = true := by
  induction keys with
  | nil => exact fun key listed => absurd listed List.not_mem_nil
  | cons key rest ih =>
    rw [extras] at passed
    split at passed
    · next named =>
      exact List.forall_mem_cons.mpr ⟨named, ih passed⟩
    · cases passed

/-- What taking the tokens of some capabilities does. -/
structure Advanced (supplied : Kmap Token) (output : Kset) (keys : List Key)
    (state : State) (tokens : List Token) (state' : State)
    (tokens' : List Token) : Prop where
  scope : state'.scope = state.scope
  count : state'.count = state.count
  bound : state'.slots.keys = state.slots.keys
  others : ∀ key, key ∉ keys → state'.slots.find? key = state.slots.find? key
  slots : ∀ key ∈ keys, ∀ token, supplied.find? key = some token →
    token.key = key → state'.slots.find? key = some (taken token (output.mem key))
  fresh : tokens' = tokens.reverse ++ keys.filterMap fun key =>
    if output.mem key then (supplied.find? key).map Token.renewed else none

theorem advanceFrom_eq_ok {keys : List Key} {tokens tokens' : List Token}
    (named : ∀ key ∈ keys, ∀ token, supplied.find? key = some token →
      token.key = key) (distinct : keys.Nodup)
    (advanced : advanceFrom supplied output state tokens keys = .ok (state', tokens')) :
    Advanced supplied output keys state tokens state' tokens' := by
  induction keys generalizing state tokens with
  | nil =>
    cases advanced
    exact ⟨rfl, rfl, rfl, fun _ _ => rfl, fun key listed => absurd listed List.not_mem_nil, by simp⟩
  | cons key rest ih =>
    obtain ⟨here, named⟩ := List.forall_mem_cons.mp named
    obtain ⟨apart, distinct⟩ := List.nodup_cons.mp distinct
    rw [advanceFrom] at advanced
    cases found : supplied.find? key with
    | none =>
      rw [found] at advanced
      cases advanced
    | some token =>
      rw [found] at advanced
      obtain ⟨⟨between, fresh⟩, took, later⟩ := bind_eq_ok advanced
      have same : token.key = key := here token found
      obtain ⟨held, rfl, rfl⟩ := take_eq_ok took
      rw [same] at held
      have after := ih named distinct later
      refine ⟨after.scope, after.count, ?_, ?_, ?_, ?_⟩
      · rw [after.bound, same]
        exact Kmap.keys_add_of_mem (by simp [Kmap.mem, held])
      · intro other absent
        simp only [List.mem_cons, not_or] at absent
        obtain ⟨different, absent⟩ := absent
        rw [after.others other absent, Kmap.find?_add, same, if_neg different]
      · intro other listed token' found' named'
        rcases List.mem_cons.mp listed with rfl | listed
        · obtain rfl : token = token' := Option.some.inj (found.symm.trans found')
          rw [after.others _ apart, Kmap.find?_add, same, if_pos rfl]
        · exact after.slots other listed token' found' named'
      · rw [after.fresh, List.filterMap_cons, found]
        cases output.mem key <;> simp

theorem known_eq_ok {input : Kset} {keys : List Key} {result : Unit}
    (passed : known input keys = .ok result) : ∀ key ∈ keys, input.mem key = true := by
  induction keys with
  | nil => exact fun key listed => absurd listed List.not_mem_nil
  | cons key rest ih =>
    rw [known] at passed
    split at passed
    · next named =>
      exact List.forall_mem_cons.mpr ⟨named, ih passed⟩
    · cases passed

end Steps

section Runs

variable {fuel : Int} {state : State} {tokens : List Token}
variable {inputs : List (Bind × Value)} {term : Term} {out : Out}

/-- What a run that returns did with the tokens. -/
structure Ran (fuel : Int) (state : State) (tokens : List Token)
    (inputs : List (Bind × Value)) (term : Term) (out : Out) : Prop where
  evaluated : runIn fuel inputs term = .ok out.eval
  named : (tokens.map Token.key).Perm (inputCaps inputs)
  held : ∀ token ∈ tokens, current state token = true
  inside : ∀ key ∈ out.eval.value.caps, key ∈ inputCaps inputs
  scope : out.state.scope = state.scope
  count : out.state.count = state.count
  bound : out.state.slots.keys = state.slots.keys
  others : ∀ key, key ∉ inputCaps inputs → out.state.slots.find? key = state.slots.find? key
  slots : ∀ token ∈ tokens, out.state.slots.find? token.key =
    some (taken token (decide (token.key ∈ out.eval.value.caps)))
  fresh : ∀ token, token ∈ out.tokens ↔ ∃ old ∈ tokens,
    old.key ∈ out.eval.value.caps ∧ token = old.renewed
  distinct : (out.tokens.map Token.key).Nodup

theorem Ran.nodup (ran : Ran fuel state tokens inputs term out) : (tokens.map Token.key).Nodup :=
  ran.named.nodup_iff.mpr (runIn_linear ran.evaluated).distinct

theorem Ran.mem_iff (ran : Ran fuel state tokens inputs term out) {key : Key} :
    key ∈ inputCaps inputs ↔ ∃ token ∈ tokens, token.key = key := by
  rw [← ran.named.mem_iff, List.mem_map]

theorem filterMap_sublist {α : Type} {f : α → Option α}
    (same : ∀ item value, f item = some value → value = item) (items : List α) :
    (items.filterMap f).Sublist items := by
  induction items with
  | nil => exact List.Sublist.refl _
  | cons item rest ih =>
    rw [List.filterMap_cons]
    split
    · exact ih.cons item
    · next value found =>
      rw [same item value found]
      exact ih.cons_cons item

theorem run_eq_ok (returned : run fuel state tokens inputs term = .ok out) :
    Ran fuel state tokens inputs term out := by
  obtain ⟨input, gathered, rest⟩ := bind_eq_ok returned
  obtain ⟨supplied, collected, rest⟩ := bind_eq_ok rest
  obtain ⟨_, verified, rest⟩ := bind_eq_ok rest
  obtain ⟨eval, evaluated, rest⟩ := bind_eq_ok rest
  obtain ⟨⟨output, nodes⟩, left, rest⟩ := bind_eq_ok rest
  obtain ⟨⟨state', tokens'⟩, advanced, rest⟩ := bind_eq_ok rest
  cases rest
  have evaluated : runIn fuel inputs term = .ok eval := by
    cases ran : runIn fuel inputs term with
    | ok eval' =>
      rw [ran] at evaluated
      cases evaluated
      rfl
    | error error =>
      rw [ran] at evaluated
      cases evaluated
  have mem_input : ∀ key, input.mem key = true ↔ key ∈ inputCaps inputs :=
    fun key => by simpa [Kmap.mem] using mem_inputCaps gathered key
  have mem_output : ∀ key, output.mem key = true ↔ key ∈ eval.value.caps :=
    fun key => by simpa [Kmap.mem] using mem_caps left key
  obtain ⟨distinct, -, found⟩ := find?_tokenMap collected
  have found : ∀ key token, supplied.find? key = some token ↔
      token ∈ tokens ∧ token.key = key := fun key token => by
    simpa using found key token
  obtain ⟨_, needed, extra⟩ := bind_eq_ok verified
  have needed := needs_eq_ok needed
  have extra := extras_eq_ok extra
  obtain ⟨_, inside, advanced⟩ := bind_eq_ok advanced
  have inside := known_eq_ok inside
  have spec := advanceFrom_eq_ok
    (fun key _ token bound => ((found key token).mp bound).2) input.nodup_keys
    advanced
  have listed : ∀ token ∈ tokens, token.key ∈ input.keys := by
    intro token member
    refine Kmap.mem_iff.mp (extra token.key (Kmap.mem_iff.mp ?_))
    rw [Kmap.mem, (found token.key token).mpr ⟨member, rfl⟩]
    rfl
  have linear := runIn_linear evaluated
  refine ⟨evaluated, ?_, ?_, ?_, spec.scope, spec.count, spec.bound, ?_, ?_, ?_, ?_⟩
  · refine (List.perm_ext_iff_of_nodup distinct linear.distinct).mpr fun key => ?_
    rw [List.mem_map]
    constructor
    · rintro ⟨token, member, rfl⟩
      exact (mem_input _).mp (Kmap.mem_iff.mpr (listed token member))
    · intro named
      obtain ⟨token, bound, -⟩ := needed key (Kmap.mem_iff.mp ((mem_input key).mpr named))
      exact ⟨token, (found key token).mp bound⟩
  · intro token member
    obtain ⟨other, bound, held⟩ := needed token.key (listed token member)
    have same := ((found token.key token).mpr ⟨member, rfl⟩).symm.trans bound
    rw [Option.some.inj same]
    exact held
  · intro key holds
    exact (mem_input key).mp (inside key (Kmap.mem_iff.mp ((mem_output key).mpr holds)))
  · intro key absent
    exact spec.others key fun member => absent ((mem_input key).mp (Kmap.mem_iff.mpr member))
  · intro token member
    have bound := (found token.key token).mpr ⟨member, rfl⟩
    have slot := spec.slots token.key (listed token member) token bound rfl
    have same : output.mem token.key = decide (token.key ∈ eval.value.caps) := by
      rw [Bool.eq_iff_iff, mem_output, decide_eq_true_iff]
    rw [← same]
    exact slot
  · intro token
    rw [spec.fresh, List.reverse_nil, List.nil_append, List.mem_filterMap]
    constructor
    · rintro ⟨key, -, produced⟩
      split at produced
      · next kept =>
        obtain ⟨old, bound, same⟩ := Option.map_eq_some_iff.mp produced
        obtain ⟨member, rfl⟩ := (found key old).mp bound
        exact ⟨old, member, (mem_output _).mp kept, same.symm⟩
      · cases produced
    · rintro ⟨old, member, kept, rfl⟩
      refine ⟨old.key, listed old member, ?_⟩
      rw [if_pos ((mem_output _).mpr kept), (found old.key old).mpr ⟨member, rfl⟩]
      rfl
  · rw [spec.fresh, List.reverse_nil, List.nil_append, List.map_filterMap]
    refine input.nodup_keys.sublist (filterMap_sublist ?_ _)
    intro key value produced
    obtain ⟨token, given, rfl⟩ := Option.map_eq_some_iff.mp produced
    split at given
    · obtain ⟨old, bound, same⟩ := Option.map_eq_some_iff.mp given
      rw [← same]
      exact ((found key old).mp bound).2
    · cases given

end Runs

def cellOf (binding : Key × Slot) : Cell where
  kind := binding.1.1
  id := binding.1.2
  rev := binding.2.rev
  live := binding.2.live

theorem ofCellsFrom_map {scope : Scope} {prior : Option Key} {slots : Kmap Slot}
    {count : Nat} {rest : List (Key × Slot)}
    (ordered : Ordered.Increasing (fun binding => toLex binding.1) (slots.bindings ++ rest))
    (before : ∀ key ∈ prior, key ∈ slots.keys) (few : count + rest.length ≤ maxNodes) :
    ∃ whole : Kmap Slot, whole.bindings = slots.bindings ++ rest ∧
      ofCellsFrom scope prior slots count (rest.map cellOf) =
        .ok { scope, slots := whole, count := count + rest.length } := by
  induction rest generalizing prior slots count with
  | nil => exact ⟨slots, by simp, rfl⟩
  | cons binding rest ih =>
    obtain ⟨key, slot⟩ := binding
    have later : ∀ bound ∈ slots.keys, toLex bound < toLex key := by
      intro bound listed
      obtain ⟨binding, held, rfl⟩ := List.mem_map.mp listed
      exact (List.pairwise_append.mp ordered).2.2 binding held _ List.mem_cons_self
    have added : (slots.add key slot).bindings = slots.bindings ++ [(key, slot)] :=
      Kmap.bindings_add later
    rw [List.length_cons] at few
    have here : key ∈ (slots.add key slot).keys := by
      rw [Kmap.keys, added]
      simp
    obtain ⟨whole, same, built⟩ := @ih (some key)
      (slots.add key slot) (count + 1) (by simpa [added] using ordered)
      (by simpa using here) (by omega)
    refine ⟨whole, by simpa [added] using same, ?_⟩
    have ascends : prior.filter (fun prior =>
        decide (compareKey prior ((cellOf (key, slot)).kind,
          (cellOf (key, slot)).id) ≠ .lt)) = none := by
      refine Option.filter_eq_none_iff.mpr fun bound present => ?_
      have below := compareKey_eq_lt.mpr (later bound (before bound present))
      simpa [cellOf] using below
    rw [List.map_cons, ofCellsFrom, if_neg (by omega)]
    have step : ofCellsFrom scope (some key) (slots.add key slot) (count + 1)
        (rest.map cellOf) = .ok { scope, slots := whole, count := count + (rest.length + 1) } := by
      rw [built, Nat.add_assoc, Nat.add_comm 1]
    dsimp only
    rw [ascends]
    exact step

/-- A state is read back from its cells. -/
theorem ofCells_cells {state : State} (counted : state.count = state.slots.bindings.length)
    (few : state.count ≤ maxNodes) : ofCells state.scope (cells state) = .ok state := by
  obtain ⟨whole, same, built⟩ := @ofCellsFrom_map state.scope none .empty 0
    state.slots.bindings state.slots.ordered (by simp) (by omega)
  have equal : whole = state.slots := by
    obtain ⟨scope, ⟨bindings, ordered⟩, count⟩ := state
    obtain ⟨bindings', ordered'⟩ := whole
    have same : bindings' = bindings := same
    subst same
    rfl
  rw [equal, Nat.zero_add, ← counted] at built
  exact built

section Calls

variable {session : State × List Token} {call : Call}

theorem issue_eq_ok {state state' : State} {kind id : Int} {token : Token}
    (issued : issue state kind id = .ok (state', token)) :
    state.slots.mem (kind, id) = false ∧ state.count ≠ maxNodes ∧
      token = ⟨state.scope, kind, id, 0⟩ ∧
      state' = { state with
        slots := state.slots.add (kind, id) ⟨0, true⟩
        count := state.count + 1 } := by
  have nat_eq : ∀ {field value number}, nat field value = .ok number → number = value := by
    intro field value number checked
    unfold nat at checked
    split at checked
    · next made =>
      cases checked
      exact (CNat.make_eq_some made).1
    · cases checked
  obtain ⟨kind', checked, named⟩ := bind_eq_ok issued
  obtain ⟨id', checked', bound⟩ := bind_eq_ok named
  have same := nat_eq checked
  have same' := nat_eq checked'
  subst same same'
  obtain ⟨free, limited⟩ := ite_error_eq_ok_iff.mp bound
  obtain ⟨room, made⟩ := ite_error_eq_ok_iff.mp limited
  have pair := Except.ok.inj made
  exact ⟨by simpa using free, room, (congrArg Prod.snd pair).symm, (congrArg Prod.fst pair).symm⟩

/-- What a call does when it does not fail. -/
inductive Does (session : State × List Token) : State × List Token → Prop
  | failed : Does session session
  | issued {kind id : Int} {state : State} {token : Token}
      (issued : issue session.1 kind id = .ok (state, token)) :
      Does session (state, token :: session.2)
  | ran {fuel : Int} {tokens : List Token} {inputs : List (Bind × Value)} {term : Term} {out : Out}
      (ran : Ran fuel session.1 tokens inputs term out) :
      Does session (out.state, out.tokens ++ session.2.filter fun token => decide (token ∉ tokens))

theorem step_does (session : State × List Token) (call : Call) :
    Does session (step session call) := by
  unfold step
  cases called : call.outcome session.1 with
  | error error => exact .failed
  | ok result =>
    cases call with
    | issue kind id =>
      obtain ⟨⟨state, token⟩, issued, rest⟩ := bind_eq_ok called
      cases rest
      simpa using Does.issued issued
    | run fuel tokens inputs term =>
      obtain ⟨out, returned, rest⟩ := bind_eq_ok called
      cases rest
      exact .ran (run_eq_ok returned)

/-- The tokens that are out are the current ones, each of its own capability. -/
structure Sound (session : State × List Token) : Prop where
  counted : session.1.count = session.1.slots.bindings.length
  few : session.1.count ≤ maxNodes
  held : ∀ token, current session.1 token = true ↔ token ∈ session.2
  distinct : (session.2.map Token.key).Nodup

theorem sound_empty (scope : Scope) : Sound (empty scope, []) where
  counted := rfl
  few := Nat.zero_le _
  held token := by simp [current_iff, empty]
  distinct := List.nodup_nil

theorem eq_of_current {state : State} {token other : Token}
    (held : current state token = true) (held' : current state other = true)
    (same : token.key = other.key) : token = other := by
  obtain ⟨scope, found⟩ := current_iff.mp held
  obtain ⟨scope', found'⟩ := current_iff.mp held'
  rw [same, found'] at found
  obtain ⟨scopeOf, kind, id, rev⟩ := token
  obtain ⟨scopeOf', kind', id', rev'⟩ := other
  simp_all [Token.key]

theorem sound_issued {kind id : Int} {state : State} {token : Token} (sound : Sound session)
    (issued : issue session.1 kind id = .ok (state, token)) :
    Sound (state, token :: session.2) := by
  obtain ⟨free, room, rfl, rfl⟩ := issue_eq_ok issued
  have few := sound.few
  have unbound : session.1.slots.find? (kind, id) = none := by simpa [Kmap.mem] using free
  have apart : ∀ token ∈ session.2, token.key ≠ (kind, id) := by
    intro token listed same
    obtain ⟨-, found⟩ := current_iff.mp ((sound.held token).mpr listed)
    rw [same, unbound] at found
    cases found
  refine ⟨?_, ?_, ?_, ?_⟩
  · rw [Kmap.length_add_of_notMem free, ← sound.counted]
  · show session.1.count + 1 ≤ maxNodes
    omega
  · intro token
    rw [current_iff, Kmap.find?_add, List.mem_cons]
    split
    · next same =>
      constructor
      · rintro ⟨scope, fresh⟩
        left
        obtain ⟨scopeOf, kind', id', rev⟩ := token
        simp_all [Token.key]
      · rintro (rfl | listed)
        · exact ⟨rfl, rfl⟩
        · exact absurd same (apart token listed)
    · next other =>
      show token.scope = session.1.scope ∧ _ ↔ _
      rw [← current_iff, sound.held]
      constructor
      · exact .inr
      · rintro (rfl | listed)
        · exact absurd rfl other
        · exact listed
  · rw [List.map_cons, List.nodup_cons]
    refine ⟨fun listed => ?_, sound.distinct⟩
    obtain ⟨token, listed, same⟩ := List.mem_map.mp listed
    exact apart token listed same

/-- After a run, the current tokens are those that it gave and those of other
capabilities. -/
theorem Ran.current_iff {fuel : Int} {state : State} {tokens : List Token}
    {inputs : List (Bind × Value)} {term : Term} {out : Out}
    (ran : Ran fuel state tokens inputs term out) (token : Token) :
    current out.state token = true ↔ token ∈ out.tokens ∨
      token.key ∉ inputCaps inputs ∧ current state token = true := by
  by_cases named : token.key ∈ inputCaps inputs
  · obtain ⟨old, listed, same⟩ := ran.mem_iff.mp named
    obtain ⟨scope, -⟩ := Sess.current_iff.mp (ran.held old listed)
    simp only [named, not_true, false_and, or_false]
    rw [Sess.current_iff, ← same, ran.slots old listed, ran.scope, ran.fresh]
    constructor
    · rintro ⟨own, slot⟩
      refine ⟨old, listed, ?_⟩
      unfold taken at slot
      split at slot
      · next kept =>
        refine ⟨of_decide_eq_true kept, ?_⟩
        obtain ⟨scopeOf, kind, id, rev⟩ := token
        simp_all [Token.key, Token.renewed]
      · exact absurd (congrArg Slot.live (Option.some.inj slot)) (by simp)
    · rintro ⟨other, listed', kept, rfl⟩
      have same : old = other := List.inj_on_of_nodup_map ran.nodup listed listed' same
      subst same
      refine ⟨scope, ?_⟩
      rw [taken, if_pos (decide_eq_true kept)]
      rfl
  · have absent : token ∉ out.tokens := by
      intro given
      obtain ⟨old, listed, -, rfl⟩ := (ran.fresh token).mp given
      exact named (ran.mem_iff.mpr ⟨old, listed, rfl⟩)
    simp only [named, absent, not_false_eq_true, true_and, false_or]
    rw [Sess.current_iff, Sess.current_iff, ran.others _ named, ran.scope]

theorem sound_ran {fuel : Int} {tokens : List Token}
    {inputs : List (Bind × Value)} {term : Term} {out : Out}
    (sound : Sound session) (ran : Ran fuel session.1 tokens inputs term out) :
    Sound (out.state, out.tokens ++ session.2.filter fun token => decide (token ∉ tokens)) := by
  have kept : ∀ token, token ∈ session.2.filter (fun token =>
      decide (token ∉ tokens)) ↔ token.key ∉ inputCaps inputs ∧ current session.1 token = true := by
    intro token
    rw [List.mem_filter, decide_eq_true_iff, ← sound.held, and_comm]
    refine and_congr_left fun held => not_congr ?_
    constructor
    · exact fun listed => ran.mem_iff.mpr ⟨token, listed, rfl⟩
    · intro named
      obtain ⟨old, listed, same⟩ := ran.mem_iff.mp named
      rw [← eq_of_current (ran.held old listed) held same]
      exact listed
  refine ⟨?_, ?_, ?_, ?_⟩
  · have same := congrArg List.length ran.bound
    rw [Kmap.keys, Kmap.keys, List.length_map, List.length_map] at same
    rw [ran.count, same, sound.counted]
  · rw [ran.count]
    exact sound.few
  · intro token
    rw [ran.current_iff, List.mem_append, kept]
  · rw [List.map_append]
    refine List.nodup_append.mpr ⟨ran.distinct, sound.distinct.sublist
      (List.filter_sublist.map _), ?_⟩
    intro key first other second same
    obtain ⟨token, listed, rfl⟩ := List.mem_map.mp first
    obtain ⟨token', listed', rfl⟩ := List.mem_map.mp second
    obtain ⟨old, held, -, rfl⟩ := (ran.fresh token).mp listed
    refine ((kept token').mp listed').1 ?_
    rw [← same]
    exact ran.mem_iff.mpr ⟨old, held, rfl⟩

theorem sound_step (sound : Sound session) (call : Call) : Sound (step session call) := by
  have does := step_does session call
  generalize step session call = session' at does
  cases does with
  | failed => exact sound
  | issued issued => exact sound_issued sound issued
  | ran ran => exact sound_ran sound ran

theorem sound_after (sound : Sound session) (calls : List Call) : Sound (after session calls) := by
  induction calls generalizing session with
  | nil => exact sound
  | cons call rest ih => exact ih (sound_step sound call)

theorem scope_after (session : State × List Token) (calls : List Call) :
    (after session calls).1.scope = session.1.scope := by
  induction calls generalizing session with
  | nil => rfl
  | cons call rest ih =>
    refine (ih (step session call)).trans ?_
    have does := step_does session call
    generalize step session call = session' at does
    cases does with
    | failed => rfl
    | issued issued =>
      obtain ⟨-, -, -, rfl⟩ := issue_eq_ok issued
      rfl
    | ran ran => exact ran.scope

/-- Whatever is done, a slot stays, unless it is live and either dies or moves to
a later revision. -/
theorem slot_step {key : Key} {slot : Slot}
    (found : session.1.slots.find? key = some slot) (call : Call) :
    ∃ slot', (step session call).1.slots.find? key = some slot' ∧
      (slot' = slot ∨ slot.live = true ∧ (slot'.live = false ∨ slot.rev < slot'.rev)) := by
  have does := step_does session call
  generalize step session call = session' at does
  cases does with
  | failed => exact ⟨slot, found, .inl rfl⟩
  | @issued kind id _ _ issued =>
    obtain ⟨free, -, rfl, rfl⟩ := issue_eq_ok issued
    have other : key ≠ (kind, id) := by
      rintro rfl
      rw [Kmap.mem, found] at free
      cases free
    refine ⟨slot, ?_, .inl rfl⟩
    rw [Kmap.find?_add, if_neg other]
    exact found
  | @ran _ tokens inputs _ out ran =>
    by_cases named : key ∈ inputCaps inputs
    · obtain ⟨token, listed, rfl⟩ := ran.mem_iff.mp named
      obtain ⟨-, held⟩ := current_iff.mp (ran.held token listed)
      obtain rfl : slot = ⟨token.rev, true⟩ := Option.some.inj (found.symm.trans held)
      refine ⟨_, ran.slots token listed, .inr ⟨rfl, ?_⟩⟩
      unfold taken
      split
      · exact .inr (lt_add_one token.rev)
      · exact .inl rfl
    · exact ⟨slot, (ran.others key named).trans found, .inl rfl⟩

/-- Tokens of a capability are out of use up to a revision. -/
def Spent (state : State) (key : Key) (rev : Int) : Prop :=
  ∃ slot, state.slots.find? key = some slot ∧ (slot.live = false ∨ rev < slot.rev)

/-- A capability is out of use. -/
def Dead (state : State) (key : Key) : Prop :=
  ∃ slot, state.slots.find? key = some slot ∧ slot.live = false

theorem spent_after {key : Key} {rev : Int} (spent : Spent session.1 key rev)
    (calls : List Call) : Spent (after session calls).1 key rev := by
  induction calls generalizing session with
  | nil => exact spent
  | cons call rest ih =>
    obtain ⟨slot, found, past⟩ := spent
    obtain ⟨slot', found', rfl | ⟨live, dead | later⟩⟩ := slot_step found call
    · exact ih ⟨_, found', past⟩
    · exact ih ⟨_, found', .inl dead⟩
    · have below : rev < slot.rev := past.resolve_left (by simp [live])
      exact ih ⟨_, found', .inr (below.trans later)⟩

theorem dead_after {key : Key} (dead : Dead session.1 key) (calls : List Call) :
    Dead (after session calls).1 key := by
  induction calls generalizing session with
  | nil => exact dead
  | cons call rest ih =>
    obtain ⟨slot, found, lifeless⟩ := dead
    obtain ⟨slot', found', rfl | ⟨live, -⟩⟩ := slot_step found call
    · exact ih ⟨_, found', lifeless⟩
    · exact absurd live (by simp [lifeless])

theorem Spent.not_current {state : State} {key : Key} {rev : Int} {token : Token}
    (spent : Spent state key rev) (named : token.key = key)
    (old : token.rev ≤ rev) : current state token = false := by
  rw [← Bool.not_eq_true, current_iff, named]
  rintro ⟨-, found⟩
  obtain ⟨slot, found', past⟩ := spent
  obtain rfl := Option.some.inj (found.symm.trans found')
  rcases past with dead | later
  · cases dead
  · exact absurd old (not_le_of_gt later)

theorem Dead.not_current {state : State} {token : Token}
    (dead : Dead state token.key) : current state token = false := by
  obtain ⟨slot, found, lifeless⟩ := dead
  exact Spent.not_current ⟨slot, found, .inl lifeless⟩ rfl (le_refl token.rev)

section Ran

variable {fuel : Int} {state : State} {tokens : List Token}
variable {inputs : List (Bind × Value)} {term : Term} {out : Out}

theorem Ran.spent (ran : Ran fuel state tokens inputs term out) {token : Token}
    (listed : token ∈ tokens) : Spent out.state token.key token.rev := by
  refine ⟨_, ran.slots token listed, ?_⟩
  unfold taken
  split
  · exact .inr (lt_add_one token.rev)
  · exact .inl rfl

/-- A capability of the inputs is out of use unless it was returned. -/
theorem Ran.dead_iff (ran : Ran fuel state tokens inputs term out) {key : Key}
    (named : key ∈ inputCaps inputs) : Dead out.state key ↔ key ∉ out.eval.value.caps := by
  obtain ⟨token, listed, rfl⟩ := ran.mem_iff.mp named
  unfold Dead
  rw [ran.slots token listed]
  unfold taken
  split
  · next kept =>
    have kept := of_decide_eq_true kept
    simp [kept]
  · next left =>
    have left : token.key ∉ out.eval.value.caps := fun kept => left (decide_eq_true kept)
    simp [left]

/-- A capability that is bound once is returned or was closed. -/
theorem Ran.returned_iff (ran : Ran fuel state tokens inputs term out)
    {input : Bind × Value} (listed : input ∈ inputs) (once : input.1.mul = .one)
    {key : Key} (holds : key ∈ input.2.caps) :
    key ∉ out.eval.value.caps ↔ key ∈ closedCaps out.eval.actions := by
  have linear := runIn_linear ran.evaluated
  have bound : key ∈ inputCaps (linearInputs inputs) :=
    List.mem_flatMap.mpr ⟨input, List.mem_filter.mpr ⟨listed, decide_eq_true once⟩, holds⟩
  have either := List.mem_append.mp (linear.conserved.mem_iff.mp bound)
  constructor
  · exact either.resolve_left
  · intro closed returned
    exact (List.nodup_append.mp linear.once).2.2 key returned key closed rfl

end Ran

/-- Sessions allow no replay. The current tokens are those that were given and
not taken, one for a capability at most. A run takes exactly the tokens of the
capabilities of its inputs, none of which is current again, and gives the next
revision of each that its value holds; the others are out of use for ever, and
of those bound once they are the ones that were closed. What fails changes
nothing, and the cells of a state are read back as it. -/
theorem sessions_replay_free (scope : Scope) (calls : List Call) :
    (∀ token, current (after (empty scope, []) calls).1 token = true ↔
      token ∈ (after (empty scope, []) calls).2) ∧
    ((after (empty scope, []) calls).2.map Token.key).Nodup ∧
    (∀ fuel tokens inputs term out,
      run fuel (after (empty scope, []) calls).1 tokens inputs term = .ok out →
      (tokens.map Token.key).Perm (inputCaps inputs) ∧
      (∀ token ∈ tokens, current (after (empty scope, []) calls).1 token = true) ∧
      (∀ token ∈ tokens, ∀ old : Token, old.key = token.key → old.rev ≤ token.rev →
        ∀ given later, current (after (out.state, given) later).1 old = false) ∧
      (∀ token, token.key ∉ inputCaps inputs →
        current out.state token = current (after (empty scope, []) calls).1 token) ∧
      (∀ token, token ∈ out.tokens ↔ ∃ old ∈ tokens,
        old.key ∈ out.eval.value.caps ∧ token = { old with rev := old.rev + 1 }) ∧
      (out.tokens.map Token.key).Nodup ∧
      (∀ token, token.key ∈ inputCaps inputs →
        token.key ∉ out.eval.value.caps →
        ∀ given later, current (after (out.state, given) later).1 token = false) ∧
      (∀ input ∈ inputs, input.1.mul = .one → ∀ key ∈ input.2.caps,
        ((∀ token : Token, token.key = key → current out.state token = false) ↔
          key ∈ closedCaps out.eval.actions))) ∧
    (∀ call error,
      call.outcome (after (empty scope, []) calls).1 = .error error →
      after (empty scope, []) (calls ++ [call]) = after (empty scope, []) calls) ∧
    ofCells scope (cells (after (empty scope, []) calls).1) =
      .ok (after (empty scope, []) calls).1 := by
  have sound := sound_after (sound_empty scope) calls
  refine ⟨sound.held, sound.distinct, ?_, ?_, ?_⟩
  · intro fuel tokens inputs term out returned
    have ran := run_eq_ok returned
    refine ⟨ran.named, ran.held, ?_, ?_, ran.fresh, ran.distinct, ?_, ?_⟩
    · intro token listed old same earlier given later
      exact (@spent_after (out.state, given) _ _ (ran.spent listed) later).not_current same earlier
    · intro token other
      have same := ran.current_iff token
      have absent : token ∉ out.tokens := by
        intro listed
        obtain ⟨old, held, -, rfl⟩ := (ran.fresh token).mp listed
        exact other (ran.mem_iff.mpr ⟨old, held, rfl⟩)
      simp only [absent, other, false_or, not_false_eq_true, true_and] at same
      exact Bool.eq_iff_iff.mpr same
    · intro token named left given later
      exact (@dead_after (out.state, given) _ ((ran.dead_iff named).mpr left) later).not_current
    · intro input listed once key holds
      have named : key ∈ inputCaps inputs := List.mem_flatMap.mpr ⟨input, listed, holds⟩
      rw [← ran.returned_iff listed once holds, ← ran.dead_iff named]
      constructor
      · intro unused
        by_contra alive
        have kept := not_not.mp (mt (ran.dead_iff named).mpr alive)
        obtain ⟨token, held, rfl⟩ := ran.mem_iff.mp named
        have live := (ran.current_iff token.renewed).mpr
          (.inl ((ran.fresh _).mpr ⟨token, held, kept, rfl⟩))
        rw [unused token.renewed rfl] at live
        cases live
      · rintro dead token rfl
        exact dead.not_current
  · intro call error failed
    rw [after, List.foldl_append]
    show step (after (empty scope, []) calls) call = _
    rw [step, failed]
  · have own : (after (empty scope, []) calls).1.scope = scope :=
      scope_after (empty scope, []) calls
    have read := ofCells_cells sound.counted sound.few
    rwa [own] at read

end Calls

/-- A capability that is written and closed is out of use. -/
theorem sessions_replay_free_closed : ∃ out,
    run 100 (after (empty ⟨[], [], []⟩, []) [.issue 7 42]).1
      [⟨⟨[], [], []⟩, 7, 42, 0⟩] [Held.input] Held.writeAndClose = .ok out ∧
    ∀ token : Token, token.key = (7, 42) → current out.state token = false := by
  obtain ⟨out, ran, closed⟩ : ∃ out,
      run 100 (after (empty ⟨[], [], []⟩, []) [.issue 7 42]).1
        [⟨⟨[], [], []⟩, 7, 42, 0⟩] [Held.input] Held.writeAndClose = .ok out ∧
      closedCaps out.eval.actions = [(7, 42)] :=
    ⟨_, rfl, rfl⟩
  have free := (sessions_replay_free ⟨[], [], []⟩ [.issue 7 42]).2.2.1 _ _ _ _ _ ran
  refine ⟨out, ran, ?_⟩
  refine (free.2.2.2.2.2.2.2 Held.input (List.mem_singleton_self _) rfl (7, 42)
    (List.mem_singleton_self _)).mpr ?_
  rw [closed]
  exact List.mem_singleton_self _

end Sess
end Aml
end LiteNode
