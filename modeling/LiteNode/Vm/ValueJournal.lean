import LiteNode.Data.Bytes
import LiteNode.Data.Results
import LiteNode.Data.Table

/-!
# The value journal

While a program runs, the value it moves is kept as one delta for each address
and as the list of the transfers, the last one first. Committing replays the
transfers on the balances.
-/

namespace LiteNode
namespace CallPlan

inductive ValueTransfer
  | noValue
  | transfer (fromAddr target : Bytes) (amount : Int)
  | insufficient
  deriving DecidableEq

structure BalanceDelta where
  addr : Bytes
  delta : Int
  deriving DecidableEq

structure JournalEntry where
  fromAddr : Bytes
  target : Bytes
  amount : Int
  deriving DecidableEq

inductive ValueEffect
  | valueNoop
  | valueReject
  | valueApply (deltas : List BalanceDelta) (journal : JournalEntry)
  deriving DecidableEq

def valueTransfer (fromAddr target : Bytes) (amount balance : Int) : ValueTransfer :=
  if amount ≤ 0 then .noValue
  else if amount ≤ balance then .transfer fromAddr target amount
  else .insufficient

def valueEffect (fromAddr target : Bytes) (amount balance : Int) : ValueEffect :=
  match valueTransfer fromAddr target amount balance with
  | .noValue => .valueNoop
  | .insufficient => .valueReject
  | .transfer fromAddr target amount =>
    .valueApply [⟨fromAddr, -amount⟩, ⟨target, amount⟩] ⟨fromAddr, target, amount⟩

end CallPlan

namespace ValueJournal

structure Transfer where
  fromAddr : Bytes
  toAddr : Bytes
  amount : Int
  deriving DecidableEq

structure Snapshot where
  snapTransfers : List Transfer
  snapDeltas : Table Bytes Int

end ValueJournal

/-- The journal of the value moved over the balances. -/
structure ValueJournal where
  balance : Bytes → Int
  transfers : List ValueJournal.Transfer
  deltas : Table Bytes Int

namespace ValueJournal

def create (balance : Bytes → Int) : ValueJournal where
  balance
  transfers := []
  deltas := ∅

def delta (t : ValueJournal) (addr : Bytes) : Int := (t.deltas.find? addr).getD 0

def effective (t : ValueJournal) (addr : Bytes) : Int := t.balance addr + t.delta addr

def addDelta (t : ValueJournal) (addr : Bytes) (amount : Int) : ValueJournal :=
  { t with deltas := t.deltas.replace addr (t.delta addr + amount) }

def addTransfer (t : ValueJournal) (fromAddr toAddr : Bytes) (amount : Int) : ValueJournal :=
  { t with transfers := ⟨fromAddr, toAddr, amount⟩ :: t.transfers }

def transfer (t : ValueJournal) (fromAddr toAddr : Bytes) (amount : Int) : Bool × ValueJournal :=
  if amount ≤ 0 then (false, t)
  else if t.effective fromAddr < amount then (false, t)
  else
    (true, ((t.addDelta fromAddr (-amount)).addDelta toAddr amount).addTransfer
      fromAddr toAddr amount)

def apply (t : ValueJournal) : CallPlan.ValueEffect → Bool × ValueJournal
  | .valueNoop => (true, t)
  | .valueReject => (false, t)
  | .valueApply deltas entry =>
    (true, (deltas.foldl (fun t delta => t.addDelta delta.addr delta.delta)
      t).addTransfer entry.fromAddr entry.target entry.amount)

def discard (t : ValueJournal) : ValueJournal := { t with transfers := [], deltas := ∅ }

section Commit

variable {σ : Type} (debit credit : Bytes → Int → σ → Except String Unit × σ)

/-- Replay transfers on a ledger, the first one first. -/
def replay : List Transfer → σ → Except String Unit × σ
  | [], ledger => (.ok (), ledger)
  | transfer :: rest, ledger =>
    match debit transfer.fromAddr transfer.amount ledger with
    | (.error reason, ledger) => (.error reason, ledger)
    | (.ok (), ledger) =>
      match credit transfer.toAddr transfer.amount ledger with
      | (.error reason, ledger) => (.error reason, ledger)
      | (.ok (), ledger) => replay rest ledger

/-- Replay the transfers; the journal is emptied when all of them pass. -/
def commit (t : ValueJournal) (ledger : σ) : Except String Unit × ValueJournal × σ :=
  match replay debit credit t.transfers.reverse ledger with
  | (.error reason, ledger) => (.error reason, t, ledger)
  | (.ok (), ledger) => (.ok (), t.discard, ledger)

end Commit

def snapshot (t : ValueJournal) : Snapshot where
  snapTransfers := t.transfers
  snapDeltas := t.deltas.copyOf

def restore (t : ValueJournal) (saved : Snapshot) : ValueJournal :=
  { t with
    transfers := saved.snapTransfers
    deltas := saved.snapDeltas.copyOf }

/-- Take an amount from a balance that covers it. -/
def debitIfSufficient (addr : Bytes) (amount : Int) (ledger : Bytes → Int) :
    Except String Unit × (Bytes → Int) :=
  if amount ≤ ledger addr then (.ok (), Function.update ledger addr (ledger addr - amount))
  else (.error "insufficient balance", ledger)

def creditTo (addr : Bytes) (amount : Int) (ledger : Bytes → Int) :
    Except String Unit × (Bytes → Int) :=
  (.ok (), Function.update ledger addr (ledger addr + amount))

/-- What an address receives in a list of transfers. -/
def received (transfers : List Transfer) (addr : Bytes) : Int :=
  ((transfers.filter fun transfer => transfer.toAddr = addr).map Transfer.amount).sum

/-- What an address sends in a list of transfers. -/
def sent (transfers : List Transfer) (addr : Bytes) : Int :=
  ((transfers.filter fun transfer => transfer.fromAddr = addr).map Transfer.amount).sum

theorem received_cons (transfer : Transfer) (transfers : List Transfer) (addr : Bytes) :
    received (transfer :: transfers) addr =
      (if transfer.toAddr = addr then transfer.amount else 0) + received transfers addr := by
  unfold received
  by_cases here : transfer.toAddr = addr <;> simp [here]

theorem sent_cons (transfer : Transfer) (transfers : List Transfer) (addr : Bytes) :
    sent (transfer :: transfers) addr =
      (if transfer.fromAddr = addr then transfer.amount else 0) + sent transfers addr := by
  unfold sent
  by_cases here : transfer.fromAddr = addr <;> simp [here]

theorem delta_addDelta (t : ValueJournal) (addr other : Bytes) (amount : Int) :
    (t.addDelta addr amount).delta other = t.delta other + if other = addr then amount else 0 := by
  unfold delta addDelta
  rw [Table.find?_replace_eq_ite]
  by_cases same : other = addr
  · subst same
    simp [delta]
  · simp [same]

theorem sumBy_addDelta (t : ValueJournal) (addr : Bytes) (amount : Int) :
    (t.addDelta addr amount).deltas.sumBy id = t.deltas.sumBy id + amount := by
  have former : t.deltas.weightAt id addr = t.delta addr := by simp [Table.weightAt, delta]
  unfold addDelta
  rw [Table.sumBy_replace, former, id]
  omega

/-- The journal after an amount went from one address to another. -/
def moved (t : ValueJournal) (fromAddr toAddr : Bytes) (amount : Int) : ValueJournal :=
  ((t.addDelta fromAddr (-amount)).addDelta toAddr amount).addTransfer fromAddr toAddr amount

/-- A transfer moves a positive amount that the sender has, or does nothing. -/
theorem transfer_cases (t : ValueJournal) (fromAddr toAddr : Bytes) (amount : Int) :
    (t.transfer fromAddr toAddr amount = (false, t)) ∨
      (0 < amount ∧ amount ≤ t.effective fromAddr ∧
        t.transfer fromAddr toAddr amount = (true, t.moved fromAddr toAddr amount)) := by
  unfold transfer
  split
  · exact .inl rfl
  · next positive =>
    split
    · exact .inl rfl
    · next enough =>
      exact .inr ⟨by omega, by omega, rfl⟩

/-- An effect planned with the balance of its sender does what a transfer
does. -/
theorem apply_valueEffect (t : ValueJournal) (fromAddr target : Bytes) (amount : Int) :
    (t.apply (CallPlan.valueEffect fromAddr target amount
      (t.effective fromAddr))).2 = (t.transfer fromAddr target amount).2 := by
  unfold CallPlan.valueEffect CallPlan.valueTransfer transfer
  by_cases none : amount ≤ 0
  · simp [none, apply]
  · by_cases enough : amount ≤ t.effective fromAddr
    · simp [none, enough, Int.not_lt.mpr enough, apply]
    · simp [none, enough, Int.not_le.mp enough, apply]

/-- The deltas are those of the transfers, which can be replayed. -/
structure Sound (t : ValueJournal) : Prop where
  total : t.deltas.sumBy id = 0
  recorded : ∀ addr, t.delta addr = received t.transfers addr - sent t.transfers addr
  nonneg : ∀ addr, 0 ≤ t.effective addr
  replays : replay debitIfSufficient creditTo t.transfers.reverse t.balance = (.ok (), t.effective)

theorem sound_create {balance : Bytes → Int} (nonneg : ∀ addr, 0 ≤ balance addr) :
    (create balance).Sound where
  total := rfl
  recorded _ := rfl
  nonneg addr := by
    have started := nonneg addr
    simpa [effective, create, delta] using started
  replays := by
    have started : (create balance).effective = balance := by
      funext addr
      simp [effective, create, delta]
    rw [started]
    rfl

/-- Transfers that pass are replayed before those that follow. -/
theorem replay_append {σ : Type} {debit credit : Bytes → Int → σ → Except String Unit × σ}
    {first : List Transfer} {ledger between : σ} (others : List Transfer)
    (passed : replay debit credit first ledger = (.ok (), between)) :
    replay debit credit (first ++ others) ledger = replay debit credit others between := by
  induction first generalizing ledger with
  | nil =>
    cases passed
    rfl
  | cons transfer rest ih =>
    rw [List.cons_append, replay]
    rw [replay] at passed
    cases debited : debit transfer.fromAddr transfer.amount ledger with
    | mk outcome after =>
      rw [debited] at passed
      cases outcome with
      | error reason => cases passed
      | ok done =>
        dsimp only at passed ⊢
        cases credited : credit transfer.toAddr transfer.amount after with
        | mk outcome final =>
          rw [credited] at passed
          cases outcome with
          | error reason => cases passed
          | ok done => exact ih passed

theorem effective_moved (t : ValueJournal) (fromAddr toAddr : Bytes) (amount : Int) :
    (t.moved fromAddr toAddr amount).effective =
      Function.update
        (Function.update t.effective fromAddr (t.effective fromAddr - amount))
        toAddr (Function.update t.effective fromAddr
          (t.effective fromAddr - amount) toAddr + amount) := by
  funext addr
  have changed : (t.moved fromAddr toAddr amount).effective addr =
      t.balance addr + (((t.addDelta fromAddr (-amount)).addDelta toAddr amount).delta addr) := rfl
  rw [changed, delta_addDelta, delta_addDelta]
  unfold effective
  by_cases credited : addr = toAddr
  · subst credited
    by_cases debited : addr = fromAddr
    · subst debited
      simp
    · simp [debited]
      omega
  · by_cases debited : addr = fromAddr
    · subst debited
      simp [credited]
      omega
    · simp [credited, debited]

variable {t : ValueJournal}

theorem Sound.moved (sound : t.Sound) {fromAddr toAddr : Bytes}
    {amount : Int} (positive : 0 < amount) (enough : amount ≤ t.effective fromAddr) :
    (t.moved fromAddr toAddr amount).Sound where
  total := by
    have changed : (t.moved fromAddr toAddr amount).deltas.sumBy id =
        ((t.addDelta fromAddr (-amount)).addDelta toAddr amount).deltas.sumBy id := rfl
    rw [changed, sumBy_addDelta, sumBy_addDelta, sound.total]
    omega
  recorded addr := by
    have changed : (t.moved fromAddr toAddr amount).delta addr =
        ((t.addDelta fromAddr (-amount)).addDelta toAddr amount).delta addr :=
      rfl
    have listed : (t.moved fromAddr toAddr amount).transfers =
        ⟨fromAddr, toAddr, amount⟩ :: t.transfers := rfl
    rw [changed, listed, delta_addDelta, delta_addDelta, sound.recorded, received_cons, sent_cons]
    simp only [eq_comm (a := addr)]
    split <;> split <;> omega
  nonneg addr := by
    have here := sound.nonneg addr
    rw [effective_moved]
    by_cases credited : addr = toAddr
    · subst credited
      by_cases debited : addr = fromAddr
      · subst debited
        simp
        omega
      · simp [debited]
        omega
    · by_cases debited : addr = fromAddr
      · subst debited
        simp [credited]
        omega
      · simpa [credited, debited] using here
  replays := by
    have listed : (t.moved fromAddr toAddr amount).transfers.reverse =
        t.transfers.reverse ++ [⟨fromAddr, toAddr, amount⟩] := by
      exact List.reverse_cons
    have base : (t.moved fromAddr toAddr amount).balance = t.balance := rfl
    rw [listed, base, replay_append _ sound.replays, effective_moved]
    simp [replay, debitIfSufficient, creditTo, enough]

theorem Sound.transfer (sound : t.Sound) (fromAddr toAddr : Bytes)
    (amount : Int) : (t.transfer fromAddr toAddr amount).2.Sound := by
  obtain same | ⟨positive, enough, done⟩ := t.transfer_cases fromAddr toAddr amount
  · rw [same]
    exact sound
  · rw [done]
    exact sound.moved positive enough

inductive Operation
  | transfer (fromAddr toAddr : Bytes) (amount : Int)
  | apply (fromAddr target : Bytes) (amount : Int)
  | snapshot
  | restore (index : Nat)

/-- A journal and the snapshots taken of it, the first one first. -/
structure Session where
  journal : ValueJournal
  taken : List Snapshot

namespace Session

def start (balance : Bytes → Int) : Session where
  journal := create balance
  taken := []

/-- An effect is planned with the effective balance; a restore names one of
the snapshots that were taken. -/
def step (s : Session) : Operation → Session
  | .transfer fromAddr toAddr amount =>
    { s with journal := (s.journal.transfer fromAddr toAddr amount).2 }
  | .apply fromAddr target amount =>
    let effect := CallPlan.valueEffect fromAddr target amount (s.journal.effective fromAddr)
    { s with journal := (s.journal.apply effect).2 }
  | .snapshot => { s with taken := s.taken ++ [s.journal.snapshot] }
  | .restore index =>
    match s.taken[index]? with
    | none => s
    | some saved => { s with journal := s.journal.restore saved }

def run (balance : Bytes → Int) (operations : List Operation) : Session :=
  operations.foldl step (start balance)

theorem run_append (balance : Bytes → Int) (first others : List Operation) :
    run balance (first ++ others) = others.foldl step (run balance first) :=
  List.foldl_append

/-- The journal a snapshot was taken of, over the given balances. -/
def recalled (balance : Bytes → Int) (saved : Snapshot) : ValueJournal where
  balance
  transfers := saved.snapTransfers
  deltas := saved.snapDeltas

/-- A journal over the balances, sound like all of its snapshots. -/
structure Kept (balance : Bytes → Int) (s : Session) : Prop where
  base : s.journal.balance = balance
  sound : s.journal.Sound
  taken : ∀ saved ∈ s.taken, (recalled balance saved).Sound

end Session

@[simp] theorem balance_transfer (t : ValueJournal) (fromAddr toAddr : Bytes) (amount : Int) :
    (t.transfer fromAddr toAddr amount).2.balance = t.balance := by
  obtain same | ⟨-, -, done⟩ := t.transfer_cases fromAddr toAddr amount
  · rw [same]
  · rw [done]
    rfl

/-- Soundness depends on what the deltas map, not on their order. -/
theorem Sound.congr {other : ValueJournal} (sound : t.Sound) (base : other.balance = t.balance)
    (listed : other.transfers = t.transfers)
    (mapped : ∀ addr, other.deltas.find? addr = t.deltas.find? addr) : other.Sound := by
  have deltas : ∀ addr, other.delta addr = t.delta addr := by
    intro addr
    unfold delta
    rw [mapped]
  have reached : other.effective = t.effective := by
    funext addr
    unfold effective
    rw [base, deltas]
  constructor
  · rw [Table.sumBy_congr id mapped]
    exact sound.total
  · intro addr
    rw [deltas, listed]
    exact sound.recorded addr
  · rw [reached]
    exact sound.nonneg
  · rw [base, listed, reached]
    exact sound.replays

namespace Session

theorem kept_step {balance : Bytes → Int} {s : Session} (kept : Kept balance s)
    (operation : Operation) : Kept balance (s.step operation) := by
  cases operation with
  | transfer fromAddr toAddr amount =>
    exact ⟨(balance_transfer _ _ _ _).trans kept.base,
      kept.sound.transfer fromAddr toAddr amount, kept.taken⟩
  | apply fromAddr target amount =>
    have same := apply_valueEffect s.journal fromAddr target amount
    refine ⟨?_, ?_, kept.taken⟩
    · simp only [step]
      rw [same, balance_transfer]
      exact kept.base
    · simp only [step]
      rw [same]
      exact kept.sound.transfer fromAddr target amount
  | snapshot =>
    refine ⟨kept.base, kept.sound, ?_⟩
    intro saved present
    rcases List.mem_append.mp present with earlier | now
    · exact kept.taken saved earlier
    · rw [List.mem_singleton.mp now]
      exact kept.sound.congr kept.base.symm rfl fun addr => Table.find?_copyOf _ addr
  | restore index =>
    simp only [step]
    cases found : s.taken[index]? with
    | none => exact kept
    | some saved =>
      have present := List.mem_of_getElem? found
      refine ⟨kept.base, ?_, kept.taken⟩
      exact (kept.taken saved present).congr kept.base rfl fun addr => Table.find?_copyOf _ addr

theorem kept_run {balance : Bytes → Int} (nonneg : ∀ addr, 0 ≤ balance addr)
    (operations : List Operation) : Kept balance (run balance operations) := by
  have started : Kept balance (start balance) := ⟨rfl, sound_create nonneg, by simp [start]⟩
  unfold run
  induction operations using List.reverseRecOn with
  | nil => exact started
  | append_singleton earlier operation ih =>
    rw [List.foldl_append]
    exact kept_step ih operation

/-- Snapshots are only added. -/
theorem taken_foldl_step (operations : List Operation) (s : Session) :
    ∃ later, (operations.foldl step s).taken = s.taken ++ later := by
  induction operations generalizing s with
  | nil => exact ⟨[], (List.append_nil _).symm⟩
  | cons operation rest ih =>
    obtain ⟨later, grown⟩ := ih (s.step operation)
    have one : ∃ added, (s.step operation).taken = s.taken ++ added := by
      cases operation with
      | transfer | apply => exact ⟨[], (List.append_nil _).symm⟩
      | snapshot => exact ⟨_, rfl⟩
      | restore index =>
        refine ⟨[], ?_⟩
        simp only [step]
        cases s.taken[index]? <;> simp
    obtain ⟨added, first⟩ := one
    exact ⟨added ++ later, by rw [List.foldl_cons, grown, first, List.append_assoc]⟩

/-- Restoring a snapshot brings back the journal it was taken of. -/
theorem restore_snapshot (balance : Bytes → Int) (nonneg : ∀ addr, 0 ≤ balance addr)
    (before between : List Operation) :
    let saved := run balance before
    let restored := run balance (before ++ .snapshot :: (between ++ [.restore saved.taken.length]))
    restored.journal.effective = saved.journal.effective ∧
      restored.journal.transfers = saved.journal.transfers := by
  intro saved restored
  let middle := between.foldl step (saved.step .snapshot)
  have reached : middle = run balance (before ++ .snapshot :: between) := by
    rw [run_append]
    rfl
  have restoring : restored = middle.step (.restore saved.taken.length) := by
    change run balance _ = _
    rw [run_append, List.foldl_cons, List.foldl_append]
    rfl
  obtain ⟨later, grown⟩ := taken_foldl_step between (saved.step .snapshot)
  have found : middle.taken[saved.taken.length]? = some saved.journal.snapshot := by
    change (between.foldl step (saved.step .snapshot)).taken[_]? = _
    rw [grown]
    simp [step]
  have here := (kept_run nonneg before).base
  have there := (kept_run nonneg (before ++ .snapshot :: between)).base
  rw [← reached] at there
  rw [restoring]
  simp only [step]
  rw [found]
  refine ⟨?_, rfl⟩
  funext addr
  have base : middle.journal.balance addr = saved.journal.balance addr := by rw [there, here]
  simp [effective, delta, restore, snapshot, base]

end Session

/-- **A journal and the balances agree over every run.** The deltas sum to
zero and are what was received less what was sent, no effective balance is
negative, a commit replays every transfer and leaves the effective balances,
and a restore brings back those of its snapshot. -/
theorem sound_of_run (balance : Bytes → Int) (nonneg : ∀ addr, 0 ≤ balance addr)
    (operations : List Operation) :
    let t := (Session.run balance operations).journal
    t.deltas.sumBy id = 0 ∧
      (∀ addr, t.delta addr = received t.transfers addr - sent t.transfers addr) ∧
      (∀ addr, 0 ≤ t.effective addr) ∧
      t.commit debitIfSufficient creditTo balance = (.ok (), t.discard, t.effective) ∧
      ∀ before between, operations = before ++ .snapshot :: (between ++
          [.restore (Session.run balance before).taken.length]) →
        t.effective = (Session.run balance before).journal.effective ∧
          t.transfers = (Session.run balance before).journal.transfers := by
  intro t
  have kept := Session.kept_run nonneg operations
  refine ⟨kept.sound.total, kept.sound.recorded, kept.sound.nonneg, ?_, ?_⟩
  · have replayed := kept.sound.replays
    rw [kept.base] at replayed
    unfold commit
    rw [replayed]
  · rintro before between rfl
    exact Session.restore_snapshot balance nonneg before between

/-- One address pays another, which pays itself and then a third one; the
last payment is taken back. -/
theorem sound_of_run_payments :
    let balance : Bytes → Int := fun addr => if addr = [1] then 10 else 0
    let operations : List Operation :=
      [.transfer [1] [2] 7, .apply [2] [2] 7, .snapshot, .apply [2] [3] 5, .restore 0]
    let t := (Session.run balance operations).journal
    t.deltas.sumBy id = 0 ∧ t.effective [2] = 7 ∧
      0 ≤ t.effective [3] ∧
      t.commit debitIfSufficient creditTo balance = (.ok (), t.discard, t.effective) := by
  intro balance operations t
  have nonneg : ∀ addr, 0 ≤ balance addr := by
    intro addr
    change 0 ≤ if addr = [1] then (10 : Int) else 0
    split <;> omega
  obtain ⟨total, -, least, committed, -⟩ := sound_of_run balance nonneg operations
  exact ⟨total, by decide, least [3], committed⟩

end ValueJournal
end LiteNode
