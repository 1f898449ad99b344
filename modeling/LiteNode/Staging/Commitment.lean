import LiteNode.Staging.Runs

/-!
# What the pool promises of a balance

The balance a sender is held to is the one the ledger reported when the sender
had nothing pending. As long as the ledger reports no less to senders that
keep entries, what is pending stays affordable.
-/

namespace LiteNode
namespace Staging

open Pool

section Leaving

variable {setting : Setting} {submitted : Transaction → Prop}
  (naming : setting.hashes.Naming submitted)

variable {entry : Entry}

include naming in
theorem hash_ne_of_removeByHash
    {s : Pool} (agree : Agree setting submitted s) {hash : Bytes} (kept : entry ∈ (s.removeByHash hash).2.entries) :
    entry.hash ≠ hash := by
  intro same
  have present := (evicted_removeByHash agree hash).sublist.subset kept
  unfold removeByHash at kept
  split at kept
  · next found hashed =>
    obtain ⟨listed, named⟩ := mem_of_find?_hashIndex agree hashed
    have equal := agree.eq_of_hash_eq naming present listed (same.trans named.symm)
    have unique := (agree.evict_perm listed).nodup_iff.mp agree.nodup
    exact (List.nodup_cons.mp unique).1 (equal ▸ kept)
  · next absent =>
    obtain ⟨binding, bound, rfl⟩ := List.mem_map.mp (agree.hashes.mem_iff.mpr present)
    apply Bindings.ne_of_find?_eq_none absent binding bound
    rw [agree.hashed binding bound, same]

include naming in
theorem hash_notMem_of_removeTouching (hashes : List Bytes) (state : Pool × List Bytes)
    (agree : Agree setting submitted state.1)
    (kept : entry ∈ (hashes.foldl removeTouching state).1.entries) : entry.hash ∉ hashes := by
  induction hashes generalizing state with
  | nil => exact List.not_mem_nil
  | cons hash rest ih =>
    have first : Evicted state.1 (removeTouching state hash).1 := by
      rw [removeTouching_fst]
      exact evicted_removeByHash agree hash
    have agree' := first.agree naming agree
    have present := (evicted_removeTouching naming rest
      (removeTouching state hash) agree').sublist.subset kept
    rw [removeTouching_fst] at present
    rw [List.mem_cons, not_or]
    exact ⟨hash_ne_of_removeByHash naming agree present, ih _ agree' kept⟩

include naming in
/-- What is left after a removal was not to be removed. -/
theorem hash_notMem_of_removeProcessed
    {s : Pool} (agree : Agree setting submitted s) {hashes : List Bytes} (kept : entry ∈ (s.removeProcessed hashes).entries) :
    entry.hash ∉ hashes := by
  have evicted := evicted_removeTouching naming hashes (s, []) agree
  have cleared := cleared_clearVirtualState (evicted.agree naming agree)
    (hashes.foldl removeTouching (s, [])).2
  unfold removeProcessed at kept
  rw [cleared.entries] at kept
  exact hash_notMem_of_removeTouching naming hashes (s, []) agree kept

end Leaving

/-- A pool, and the balance and nonce that the ledger reports of accounts. -/
structure Ledgered where
  pool : Pool
  lookup : Bytes → Option (Int × Int)

inductive Event
  | submit (preview : Except String Unit) (now : UInt64) (tx : Transaction)
  | discard (removal : Removal)
  /-- The ledger changes and the executed entries leave the pool. -/
  | commit (lookup : Bytes → Option (Int × Int)) (executed : List Bytes)

namespace Ledgered

variable (setting : Setting)

def step (state : Ledgered) : Event → Ledgered
  | .submit preview now tx =>
    { state with
      pool := (state.pool.add setting preview state.lookup now tx).1 }
  | .discard removal => { state with pool := state.pool.discard setting removal }
  | .commit lookup executed => { pool := state.pool.removeProcessed executed, lookup }

def start (lookup : Bytes → Option (Int × Int)) : Ledgered := ⟨.empty, lookup⟩

def run (lookup : Bytes → Option (Int × Int)) (events : List Event) : Ledgered :=
  events.foldl (step setting) (start lookup)

/-- The reported balance, which is zero for an unknown account. -/
def balance (state : Ledgered) (sender : Bytes) : Int := ((state.lookup sender).getD (0, 0)).1

def nonce (state : Ledgered) (sender : Bytes) : Int := ((state.lookup sender).getD (0, 0)).2

def pendingCost (s : Pool) (sender : Bytes) (nonce : Int) : Int :=
  (((ofSender sender s.entries).filter fun entry =>
    nonce < entry.tx.nonce).map fun entry => entry.tx.publicBalanceCost).sum

/-- A transaction is only accepted when its sender can pay for all that is
pending. -/
def Affordable (state : Ledgered) : Event → Prop
  | .submit preview now tx =>
    ∀ dropped, (state.pool.add setting preview state.lookup now tx).2 = .ok dropped →
      pendingCost (state.pool.add setting preview state.lookup now tx).1
        tx.sender (state.nonce tx.sender) ≤ state.balance tx.sender
  | _ => True

/-- Amounts and fees are not negative, and a commit leaves a sender that has
more entries than the executed ones at least the balance it is held to. -/
def Steady (state : Ledgered) : Event → Prop
  | .submit _ _ tx => tx.WellFormed
  | .discard _ => True
  | .commit lookup executed =>
    ∀ entry ∈ state.pool.entries, entry.hash ∉ executed →
      state.pool.held entry.tx.sender ≤ ((lookup entry.tx.sender).getD (0, 0)).1

def Submitted (events : List Event) (tx : Transaction) : Prop :=
  ∃ preview now, .submit preview now tx ∈ events

/-! ## Balances are kept -/

/-- Senders of entries have some of their balance left, and are held to no more
than the ledger reports. -/
structure Backed (submitted : Transaction → Prop) (state : Ledgered) : Prop where
  agree : Agree setting submitted state.pool
  costs : ∀ entry ∈ state.pool.entries, 0 ≤ entry.tx.publicBalanceCost
  left : ∀ sender, state.pool.Pending sender → 0 ≤ state.pool.virtualBalance sender
  held : ∀ sender, state.pool.Pending sender → state.pool.held sender ≤ state.balance sender

variable {setting} {submitted : Transaction → Prop} {state : Ledgered}

theorem backed_start (lookup : Bytes → Option (Int × Int)) :
    Backed setting submitted (start lookup) where
  agree := agree_empty setting submitted
  costs _ listed := absurd listed List.not_mem_nil
  left _ pending := absurd pending fun ⟨_, listed, _⟩ => nomatch listed
  held _ pending := absurd pending fun ⟨_, listed, _⟩ => nomatch listed

theorem pending_of_subset {s s' : Pool} (subset : s'.entries ⊆ s.entries) {sender : Bytes}
    (pending : s'.Pending sender) : s.Pending sender := by
  obtain ⟨entry, listed, same⟩ := pending
  exact ⟨entry, subset listed, same⟩

/-- A removal gives back what entries took. -/
theorem Backed.removed (backed : Backed setting submitted state)
    (naming : setting.hashes.Naming submitted) {s' : Pool}
    (removed : Removed state.pool s') {lookup : Bytes → Option (Int × Int)}
    (enough : ∀ sender, s'.Pending sender →
      state.pool.held sender ≤ ((lookup sender).getD (0, 0)).1) :
    Backed setting submitted ⟨s', lookup⟩ := by
  obtain ⟨between, evicted, cleared⟩ := removed
  have subset : s'.entries ⊆ state.pool.entries := by
    rw [cleared.entries]
    exact evicted.sublist.subset
  have back : ∀ sender, s'.Pending sender → between.Pending sender :=
    fun sender pending => pending_of_subset (cleared.entries ▸ List.Subset.refl _) pending
  have agree' := evicted.agree naming backed.agree
  constructor
  · exact cleared.agree agree'
  · exact fun entry listed => backed.costs entry (subset listed)
  · intro sender pending
    have left := backed.left sender (pending_of_subset subset pending)
    have more := evicted.virtualBalance_le backed.costs sender
    have same : s'.virtualBalance sender = between.virtualBalance sender := by
      unfold virtualBalance
      rw [cleared.balance sender (back sender pending)]
    show 0 ≤ s'.virtualBalance sender
    omega
  · intro sender pending
    show s'.held sender ≤ _
    rw [cleared.held (back sender pending), evicted.held naming backed.agree sender]
    exact enough sender pending

/-- The virtual state of a sender is ready, and backed by the ledger. -/
theorem Backed.opened (backed : Backed setting submitted state) {addr : Bytes} {opened : Pool}
    (ready : initVirtualState state.lookup state.pool addr = .ok opened) :
    Backed setting submitted { state with pool := opened } ∧
      opened.held addr ≤ state.balance addr := by
  obtain ⟨cleared, -, fresh⟩ := initVirtualState_ok backed.agree ready
  have back : ∀ sender, opened.Pending sender → state.pool.Pending sender :=
    fun sender pending => pending_of_subset (cleared.entries ▸ List.Subset.refl _) pending
  refine ⟨⟨cleared.agree backed.agree, ?_, ?_, ?_⟩, ?_⟩
  · intro entry listed
    exact backed.costs entry (cleared.entries ▸ listed)
  · intro sender pending
    show 0 ≤ opened.virtualBalance sender
    unfold virtualBalance
    rw [cleared.balance sender (back sender pending)]
    exact backed.left sender (back sender pending)
  · intro sender pending
    show opened.held sender ≤ _
    rw [cleared.held (back sender pending)]
    exact backed.held sender (back sender pending)
  · by_cases pending : state.pool.Pending addr
    · rw [cleared.held pending]
      exact backed.held addr pending
    · have reserved : opened.reserved addr = 0 := by
        have none : ofSender addr opened.entries = [] := by
          apply List.eq_nil_iff_forall_not_mem.mpr
          intro entry listed
          rw [mem_ofSender, cleared.entries] at listed
          exact pending ⟨entry, listed⟩
        unfold reserved
        rw [none]
        rfl
      unfold Pool.held
      rw [reserved, fresh pending, add_zero]
      rfl

theorem pendingCost_le_reserved
    {s : Pool} (costs : ∀ entry ∈ s.entries, 0 ≤ entry.tx.publicBalanceCost)
    (sender : Bytes) (nonce : Int) : pendingCost s sender nonce ≤ s.reserved sender := by
  apply List.Sublist.sum_le_sum
  · exact List.filter_sublist.map _
  · intro cost listed
    obtain ⟨entry, present, rfl⟩ := List.mem_map.mp listed
    exact costs entry (mem_ofSender.mp present).1

/-- An accepted transaction is paid from what was left to its sender. -/
theorem Backed.inserted (backed : Backed setting submitted state)
    (naming : setting.hashes.Naming submitted) {entry : Entry}
    (made : entry.Made setting submitted) (cost : 0 ≤ entry.tx.publicBalanceCost)
    (within : state.pool.held entry.tx.sender ≤
      state.balance entry.tx.sender) {ouLimit txLimit : Int} {between : Pool}
    (placed : Placed ouLimit txLimit entry state.pool between) :
    Backed setting submitted { state with pool := between.insert entry } := by
  have subset := placed.evicted.sublist.subset
  have agree' := placed.evicted.agree naming backed.agree
  have costs : ∀ other ∈ (between.insert entry).entries, 0 ≤ other.tx.publicBalanceCost := by
    intro other listed
    rcases List.mem_cons.mp listed with rfl | listed
    · exact cost
    · exact backed.costs other (subset listed)
  have others : ∀ sender, (between.insert entry).Pending sender →
      sender ≠ entry.tx.sender → state.pool.Pending sender := by
    rintro sender ⟨other, listed, rfl⟩ apart
    rcases List.mem_cons.mp listed with rfl | listed
    · exact absurd rfl apart
    · exact ⟨other, subset listed, rfl⟩
  refine ⟨agree'.insert naming made placed.new, costs, ?_, ?_⟩
  · intro sender pending
    show 0 ≤ (between.insert entry).virtualBalance sender
    rw [virtualBalance_insert]
    by_cases same : entry.tx.sender = sender
    · have affordable := placed.affordable ⟨backed.costs, backed.left entry.tx.sender⟩
      rw [if_pos same, ← same]
      omega
    · have left := backed.left sender (others sender pending (Ne.symm same))
      have more := placed.evicted.virtualBalance_le backed.costs sender
      rw [if_neg same]
      omega
  · intro sender pending
    show (between.insert entry).held sender ≤ _
    rw [held_insert, placed.evicted.held naming backed.agree]
    by_cases same : sender = entry.tx.sender
    · rw [same]
      exact within
    · exact backed.held sender (others sender pending same)

/-- One event keeps balances backed. -/
theorem Backed.step (backed : Backed setting submitted state)
    (naming : setting.hashes.Naming submitted) {event : Event}
    (known : ∀ preview now tx, event = .submit preview now tx →
      submitted tx ∧ tx.sender.length = addressLength) (steady : Steady state event) :
    Backed setting submitted (state.step setting event) := by
  cases event with
  | submit preview now tx =>
    obtain ⟨knownTx, address⟩ := known preview now tx rfl
    rcases add_cases naming backed.agree preview state.lookup now knownTx
      address with ⟨s', reason, refused, cleared⟩ |
        ⟨opened, between, dropped, ready, accepted, placed⟩
    · have removed : Removed state.pool s' := ⟨state.pool, .refl _, cleared⟩
      unfold Ledgered.step
      dsimp only
      rw [refused]
      apply backed.removed naming removed
      intro sender pending
      exact backed.held sender (pending_of_subset (cleared.entries ▸ List.Subset.refl _) pending)
    · obtain ⟨backed', within⟩ := backed.opened ready
      unfold Ledgered.step
      dsimp only
      rw [accepted]
      have cost : 0 ≤ tx.publicBalanceCost := Transaction.publicBalanceCost_nonneg steady
      exact backed'.inserted naming ⟨knownTx, rfl, rfl, rfl, address⟩ cost within placed
  | discard removal =>
    have removed := removed_discard naming backed.agree removal
    apply backed.removed naming removed
    intro sender pending
    obtain ⟨between, evicted, cleared⟩ := removed
    apply backed.held sender (pending_of_subset ?_ pending)
    rw [cleared.entries]
    exact evicted.sublist.subset
  | commit lookup executed =>
    have removed := removed_removeProcessed naming backed.agree executed
    apply backed.removed naming removed
    rintro sender ⟨entry, kept, rfl⟩
    obtain ⟨between, evicted, cleared⟩ := removed
    have present := evicted.sublist.subset (cleared.entries ▸ kept)
    exact steady entry present (hash_notMem_of_removeProcessed naming backed.agree kept)

/-- Where balances are backed, what is accepted is affordable. -/
theorem Backed.affordable (backed : Backed setting submitted state)
    (naming : setting.hashes.Naming submitted) {event : Event}
    (known : ∀ preview now tx, event = .submit preview now tx →
      submitted tx ∧ tx.sender.length = addressLength)
    (steady : Steady state event) : Affordable setting state event := by
  have after := backed.step naming known steady
  cases event with
  | submit preview now tx =>
    intro dropped accepted
    obtain ⟨knownTx, address⟩ := known preview now tx rfl
    have pending : (state.step setting (.submit preview now tx)).pool.Pending tx.sender := by
      unfold Ledgered.step
      dsimp only
      rcases add_cases naming backed.agree preview state.lookup now knownTx
        address with ⟨s', reason, refused, -⟩ | ⟨opened, between, dropped, -, placed, -⟩
      · rw [refused] at accepted
        cases accepted
      · rw [placed]
        exact ⟨_, List.mem_cons_self, rfl⟩
    have cost := pendingCost_le_reserved after.costs tx.sender (state.nonce tx.sender)
    have left := after.left tx.sender pending
    have held : _ + _ ≤ state.balance tx.sender := after.held tx.sender pending
    exact cost.trans (by omega)
  | discard removal => trivial
  | commit lookup executed => trivial

theorem backed_of_run (naming : setting.hashes.Naming submitted)
    (lookup : Bytes → Option (Int × Int)) (events : List Event)
    (known : ∀ tx, Submitted events tx → submitted tx ∧ tx.sender.length = addressLength)
    (steady : ∀ earlier event later, events = earlier ++ event :: later →
      Steady (run setting lookup earlier) event) :
    Backed setting submitted (run setting lookup events) := by
  induction events using List.reverseRecOn with
  | nil => exact backed_start lookup
  | append_singleton earlier last ih =>
    have backed := ih
      (fun tx ⟨preview, now, listed⟩ => known tx ⟨preview, now, List.mem_append_left _ listed⟩)
      (fun before event later split => steady before event (later ++ [last]) (by rw [split]; simp))
    have own := backed.step naming
      (fun preview now tx same => known tx ⟨preview, now, by simp [same]⟩)
      (steady earlier last [] rfl)
    unfold run at own ⊢
    rw [List.foldl_append]
    exact own

/-- As long as amounts and fees are not negative, and commits leave senders
that keep entries the balance they are held to, every accepted transaction is
affordable. -/
theorem affordable_of_run (setting : Setting) (lookup : Bytes → Option (Int × Int))
    (events : List Event) (naming : setting.hashes.Naming (Submitted events))
    (addresses : ∀ tx, Submitted events tx → tx.sender.length = addressLength)
    (steady : ∀ earlier event later, events = earlier ++ event :: later →
      Steady (run setting lookup earlier) event) (earlier later : List Event) (event : Event)
    (split : events = earlier ++ event :: later) :
    Affordable setting (run setting lookup earlier) event := by
  have known : ∀ tx, Submitted events tx →
      Submitted events tx ∧ tx.sender.length = addressLength :=
    fun tx submitted => ⟨submitted, addresses tx submitted⟩
  have backed : Backed setting (Submitted events) (run setting lookup earlier) := by
    apply backed_of_run naming
    · intro tx ⟨preview, now, listed⟩
      apply known tx
      exact ⟨preview, now, split ▸ List.mem_append_left _ listed⟩
    · intro before event' later' split'
      apply steady before event' (later' ++ event :: later)
      rw [split, split']
      simp
  apply backed.affordable naming
  · intro preview now tx same
    exact known tx ⟨preview, now, by simp [split, same]⟩
  · exact steady earlier event later split

open Pool.Sample

def reports (balance nonce : Int) (_ : Bytes) : Option (Int × Int) := some (balance, nonce)

def pay (nonce amount : Int) : Event := .submit (.ok ()) 0 (payment 65 nonce amount 1000)

/-- Of two pending payments a commit executes some; then comes a third. -/
def payments (balance nonce : Int) (executed : List Transaction) : List Event :=
  [pay 1 2000, pay 2 0, .commit (reports balance nonce) (executed.map fun tx => tx.hash hashes),
    pay 3 2000]

theorem submitted_payments
    {balance nonce : Int} {executed : List Transaction} {tx : Transaction}
    (submitted : Submitted (payments balance nonce executed) tx) :
    tx.sender.length = addressLength ∧ tx.WellFormed := by
  obtain ⟨preview, now, listed⟩ := submitted
  simp only [payments, pay, List.mem_cons, List.not_mem_nil, or_false,
    Event.submit.injEq, reduceCtorEq, false_or] at listed
  rcases listed with ⟨-, -, rfl⟩ | ⟨-, -, rfl⟩ | ⟨-, -, rfl⟩
  all_goals exact ⟨by decide, by decide, by decide⟩

/-- Both payments are executed before the third one is made. -/
theorem affordable_of_run_executed :
    ((run (limited 9000 9) (reports 8000 0) ((payments 4000 2
        [payment 65 1 2000 1000, payment 65 2 0 1000]).take 3)).pool.add
      (limited 9000 9) (.ok ()) (reports 4000 2) 0 (payment 65 3 2000 1000)).2.isOk = true ∧
    Affordable (limited 9000 9) (run (limited 9000 9) (reports 8000 0)
      ((payments 4000 2 [payment 65 1 2000 1000, payment 65 2 0 1000]).take 3))
      (pay 3 2000) := by
  refine ⟨by decide +kernel, affordable_of_run (limited 9000 9)
    (reports 8000 0) (payments 4000 2
      [payment 65 1 2000 1000, payment 65 2 0 1000]) (naming_hashes _)
    (fun tx submitted => (submitted_payments submitted).1) ?_ _ [] _ rfl⟩
  intro earlier event later split
  have bound : event ∈ payments 4000 2
      [payment 65 1 2000 1000, payment 65 2 0 1000] := by simp [split]
  cases event with
  | submit preview now tx => exact (submitted_payments ⟨preview, now, bound⟩).2
  | discard removal => trivial
  | commit lookup executed =>
    -- only the third event is a commit
    obtain ⟨rfl, rfl, rfl⟩ : earlier = [pay 1 2000, pay 2 0] ∧
        lookup = reports 4000 2 ∧ executed =
          [payment 65 1 2000 1000, payment 65 2 0 1000].map fun tx => tx.hash hashes := by
      rcases earlier with _ | ⟨first, _ | ⟨second, _ | ⟨third, rest⟩⟩⟩
      · simp [payments, pay] at split
      · simp [payments, pay] at split
      · simp [payments] at split
        exact ⟨by simp [split], split.2.2.1.1.symm, split.2.2.1.2.symm⟩
      · rcases rest with _ | ⟨fourth, rest⟩
        · simp [payments, pay] at split
        · simp [payments] at split
    unfold Steady
    decide +kernel

/-- The balance of the executed payment is promised to the third one, while the
second one waits. -/
theorem overcommits_after_commit :
    ¬ ∀ (setting : Setting) (lookup : Bytes → Option (Int × Int))
      (events : List Event), setting.hashes.Naming (Submitted events) →
      (∀ tx, Submitted events tx → tx.sender.length = addressLength ∧ tx.WellFormed) →
      ∀ (earlier later : List Event) (event : Event),
        events = earlier ++ event :: later →
        Affordable setting (run setting lookup earlier) event := by
  intro affordable
  have within := affordable (limited 9000 9) (reports 5000 0)
    (payments 2000 1 [payment 65 1 2000 1000]) (naming_hashes _)
    (fun _ submitted => submitted_payments submitted)
    ((payments 2000 1 [payment 65 1 2000 1000]).take 3) [] (pay 3 2000) rfl
  have accepted : ((run (limited 9000 9) (reports 5000 0)
      ((payments 2000 1 [payment 65 1 2000 1000]).take 3)).pool.add
      (limited 9000 9) (.ok ()) (reports 2000 1) 0
      (payment 65 3 2000 1000)).2 = .ok [] := by
    decide +kernel
  have total := within [] accepted
  revert total
  decide +kernel

end Ledgered
end Staging
end LiteNode
