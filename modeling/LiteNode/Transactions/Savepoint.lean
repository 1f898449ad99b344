import LiteNode.Data.Chained
import LiteNode.Ledger.Refinement
import LiteNode.Ledger.Savepoints

/-!
# Transactions under a savepoint

A transaction moves money in the ledger and writes to the store, step after
step. Any step may end it early; then what was done before is undone in both.
-/

namespace LiteNode

/-- Why a transaction ends early. -/
inductive TxFailure
  | refused (kind reason : String)
  | raised (reason : String)
  deriving DecidableEq

def LedgerError.reason : LedgerError → String
  | .rejected reason => reason
  | .debitRejected reason => reason
  | .creditRejected reason => reason
  | .raised reason => reason

/-- The ledger, what the store holds in its batch, and which of the accesses to
the store to come raise. -/
structure ExecState (σ : Type) where
  ledger : Ledger
  batch : σ
  faults : List (Option String)

namespace ExecState

def account {σ : Type} (s : ExecState σ) : Bytes → Option Account := s.ledger.books.account

def balance {σ : Type} (s : ExecState σ) : Bytes → Int := s.ledger.books.balanceAt

end ExecState

/-- What one step may do. -/
inductive Acts {σ : Type} (s : ExecState σ) : ExecState σ → Prop
  | perform (call : LedgerCall) : Acts s { s with ledger := (s.ledger.perform call).1 }
  | store (batch : σ) (faults : List (Option String)) : Acts s { s with batch, faults }

/-- A transaction as it is processed. -/
abbrev Tx (σ α : Type) := Chained (@Acts σ) TxFailure α

namespace Tx

variable {σ α : Type}

def refuse (kind reason : String) : Tx σ α := throw (.refused kind reason)

/-- A result that is wanted; the other one refuses the transaction. -/
def need (kind : String) : Except String α → Tx σ α
  | .ok value => pure value
  | .error reason => refuse kind reason

/-- A result that is wanted; the other one raises. -/
def force : Except String α → Tx σ α
  | .ok value => pure value
  | .error reason => throw (.raised reason)

/-- Refuse a transaction unless something holds. -/
def check (holds : Bool) (kind reason : String) : Tx σ Unit :=
  if holds then pure () else refuse kind reason

def perform (call : LedgerCall) : Tx σ (Except LedgerError Unit) :=
  Chained.changing
    (fun s => ((s.ledger.perform call).2, { s with ledger := (s.ledger.perform call).1 }))
    (fun _ => .perform call)

def post (kind : String) (call : LedgerCall) : Tx σ Unit := do
  match ← perform call with
  | .ok () => pure ()
  | .error error => refuse kind error.reason

def debit (kind : String) (addr : Bytes) (amount nonce : Int) : Tx σ Unit :=
  post kind (.account (.debit none addr amount nonce))

def debitAmountOnly (kind : String) (addr : Bytes) (amount : Int) : Tx σ Unit :=
  post kind (.account (.debitAmountOnly addr amount))

def credit (kind : String) (addr : Bytes) (amount : Int) : Tx σ Unit :=
  post kind (.account (.credit none addr amount))

def findOpt (addr : Bytes) : Tx σ (Option Account) :=
  Chained.changing
    (fun s => (s.ledger.findOpt addr,
      { s with ledger := (s.ledger.perform (.account (.find addr))).1 }))
    (fun _ => .perform (.account (.find addr)))

def mem (addr : Bytes) : Tx σ Bool := do return (← findOpt addr).isSome

/-- The next access to the store may raise. -/
def access : Tx σ Unit := do
  let fault ← Chained.changing
    (fun s => (s.faults.head?.join, { s with faults := s.faults.tail }))
    (fun s => .store s.batch s.faults.tail)
  match fault with
  | none => pure ()
  | some reason => throw (.raised reason)

def load (value : σ → α) : Tx σ α := do
  access
  return value (← read).batch

def store (write : σ → σ) : Tx σ Unit := do
  access
  Chained.change (fun s => { s with batch := write s.batch })
    (fun s => .store (write s.batch) s.faults)

end Tx

namespace TxSavepoint

variable {σ α : Type}

/-- The store as it was saved; attestation files are not part of it. -/
def restoreBatch (saved : LedgerStore) (store : LedgerStore) : LedgerStore :=
  { saved with katFiles := store.katFiles }

def restore (saved s : ExecState σ) : ExecState σ :=
  let ledger := s.ledger.abortJournal.1
  { s with
    ledger := { ledger with
      store := restoreBatch saved.ledger.store ledger.store }
    batch := saved.batch }

/-- Process a transaction, and undo it unless it succeeds. -/
def run (apply : Tx σ α) (s : ExecState σ) : Except TxFailure α × ExecState σ :=
  match apply.run { s with ledger := s.ledger.beginJournal.1 } with
  | (.ok value, after) =>
    match after.ledger.commitJournal with
    | (ledger, .ok ()) => (.ok value, { after with ledger })
    | (ledger, .error error) => (.error (.raised error.reason), { after with ledger })
  | (.error failure, after) => (.error failure, restore s after)

end TxSavepoint

namespace Tx

variable {σ α : Type} {s t : ExecState σ} {kind reason : String} {addr : Bytes} {amount nonce : Int}

theorem run_need_ok {result : Except String α} {value : α}
    (done : (need kind result).run s = (.ok value, t)) : result = .ok value ∧ s = t := by
  cases result with
  | error reason => cases done
  | ok value => cases done; exact ⟨rfl, rfl⟩

theorem run_force_ok {result : Except String α} {value : α}
    (done : (force result).run s = (.ok value, t)) : result = .ok value ∧ s = t := by
  cases result with
  | error reason => cases done
  | ok value => cases done; exact ⟨rfl, rfl⟩

variable {value : Unit}

theorem run_check_ok {holds : Bool} (done : (check holds kind reason).run s = (.ok value, t)) :
    holds = true ∧ s = t := by
  cases holds with
  | false => cases done
  | true => cases done; exact ⟨rfl, rfl⟩

theorem run_post_ok {call : LedgerCall} (done : (post kind call).run s = (.ok value, t)) :
    (s.ledger.perform call).2 = .ok () ∧ t = { s with ledger := (s.ledger.perform call).1 } := by
  obtain ⟨result, after, performed, done⟩ := Chained.run_bind_ok done
  cases performed
  dsimp only at done
  cases answer : (s.ledger.perform call).2 with
  | error error =>
    rw [answer] at done
    cases done
  | ok =>
    rw [answer] at done
    cases done
    exact ⟨rfl, rfl⟩

theorem run_findOpt_ok {account : Option Account} (done : (findOpt addr).run s = (.ok account, t)) :
    account = s.ledger.books.account addr ∧
      t.ledger.books = s.ledger.books ∧ t.batch = s.batch := by
  cases done
  exact ⟨(Ledger.account_books _ _).symm, Ledger.books_getAccountInternal _ _, rfl⟩

theorem run_access_ok (done : access.run s = (.ok value, t)) :
    t = { s with faults := s.faults.tail } := by
  obtain ⟨fault, after, accessed, done⟩ := Chained.run_bind_ok done
  cases accessed
  dsimp only at done
  cases fault : s.faults.head?.join with
  | some reason =>
    rw [fault] at done
    cases done
  | none =>
    rw [fault] at done
    cases done
    rfl

theorem run_load_ok {field : σ → α} {value : α} (done : (load field).run s = (.ok value, t)) :
    value = field s.batch ∧ t = { s with faults := s.faults.tail } := by
  obtain ⟨_, after, accessed, done⟩ := Chained.run_bind_ok done
  cases run_access_ok accessed
  cases done
  exact ⟨rfl, rfl⟩

theorem run_store_ok {write : σ → σ} (done : (store write).run s = (.ok value, t)) :
    t = { s with batch := write s.batch, faults := s.faults.tail } := by
  obtain ⟨_, after, accessed, done⟩ := Chained.run_bind_ok done
  cases run_access_ok accessed
  cases done
  rfl

/-- No run is refused with a kind of refusal. -/
def Avoids (kind : String) (x : Tx σ α) : Prop :=
  ∀ s t reason, x.run s ≠ (.error (.refused kind reason), t)

variable {kind' : String}

theorem avoids_pure (value : α) : Avoids kind (pure value : Tx σ α) := by
  intro s t reason ended
  cases ended

theorem avoids_refuse (apart : kind' ≠ kind) : Avoids kind (refuse kind' reason : Tx σ α) := by
  intro s t reason ended
  cases ended
  exact apart rfl

theorem avoids_need (apart : kind' ≠ kind) (result : Except String α) :
    Avoids kind (need kind' result : Tx σ α) := by
  cases result with
  | error reason => exact avoids_refuse apart
  | ok value => exact avoids_pure value

theorem avoids_force (result : Except String α) : Avoids kind (force result : Tx σ α) := by
  cases result with
  | error reason =>
    intro s t reason' ended
    cases ended
  | ok value => exact avoids_pure value

theorem avoids_check (apart : kind' ≠ kind) (holds : Bool) :
    Avoids kind (check holds kind' reason : Tx σ Unit) := by
  cases holds with
  | false => exact avoids_refuse apart
  | true => exact avoids_pure ()

section Bind

variable {β : Type} {x : Tx σ α} {f : α → Tx σ β}

/-- A refusal that the first step avoids comes later. -/
theorem Avoids.bind_error (first : Avoids kind x)
    (ended : (x >>= f).run s = (.error (.refused kind reason), t)) :
    ∃ value after, x.run s = (.ok value, after) ∧
      (f value).run after = (.error (.refused kind reason), t) :=
  (Chained.run_bind_error ended).resolve_left (first _ _ _)

theorem Avoids.bind_same {post : α → Prop} (first : Avoids kind x)
    (ended : (x >>= f).run s = (.error (.refused kind reason), t))
    (same : ∀ {value after}, x.run s = (.ok value, after) → post value ∧ s = after) :
    ∃ value, post value ∧ (f value).run s = (.error (.refused kind reason), t) := by
  obtain ⟨value, after, ran, ended⟩ := first.bind_error ended
  obtain ⟨holds, rfl⟩ := same ran
  exact ⟨value, holds, ended⟩

theorem avoids_bind (first : Avoids kind x) (second : ∀ value, Avoids kind (f value)) :
    Avoids kind (x >>= f) := by
  intro s t reason ended
  obtain ⟨value, after, -, failed⟩ := first.bind_error ended
  exact second value after t reason failed

end Bind

theorem avoids_perform (call : LedgerCall) :
    Avoids kind (perform call : Tx σ (Except LedgerError Unit)) := by
  intro s t reason ended
  cases ended

theorem avoids_post (apart : kind' ≠ kind) (call : LedgerCall) :
    Avoids kind (post kind' call : Tx σ Unit) := by
  refine avoids_bind (avoids_perform call) fun result => ?_
  cases result with
  | error error => exact avoids_refuse apart
  | ok => exact avoids_pure ()

theorem avoids_findOpt (addr : Bytes) : Avoids kind (findOpt addr : Tx σ (Option Account)) := by
  intro s t reason ended
  cases ended

theorem avoids_access : Avoids kind (access : Tx σ Unit) := by
  refine avoids_bind ?_ fun fault => ?_
  · intro s t reason ended
    cases ended
  · cases fault with
    | none => exact avoids_pure ()
    | some raised =>
      intro s t reason ended
      cases ended

theorem avoids_load (field : σ → α) : Avoids kind (load field : Tx σ α) := by
  refine avoids_bind avoids_access fun _ => ?_
  intro s t reason ended
  cases ended

theorem avoids_store (write : σ → σ) : Avoids kind (store write : Tx σ Unit) := by
  refine avoids_bind avoids_access fun _ => ?_
  intro s t reason ended
  cases ended

end Tx

namespace TxSavepoint

variable {σ α : Type} {apply : Tx σ α} {s t : ExecState σ}

/-- The savepoint of the ledger stays open while a transaction is processed. -/
theorem saving_run (apply : Tx σ α) (s : ExecState σ) :
    Ledger.Saving s.ledger 0
      (apply.run { s with ledger := s.ledger.beginJournal.1 }).2.ledger := by
  have kept : ∀ before after : ExecState σ, Acts before after →
      Ledger.Saving s.ledger 0 before.ledger → Ledger.Saving s.ledger 0 after.ledger := by
    intro before after acts saving
    cases acts with
    | perform call => exact saving.perform call
    | store batch faults => exact saving
  have opened : Ledger.Saving s.ledger 0
      ({ s with ledger := s.ledger.beginJournal.1 } : ExecState σ).ledger :=
    Ledger.saving_beginJournal s.ledger
  exact apply.invariant (fun s' => Ledger.Saving s.ledger 0 s'.ledger) kept opened

theorem books_beginJournal (l : Ledger) : l.beginJournal.1.books = l.books :=
  rfl

theorem books_commitJournal (l : Ledger) : l.commitJournal.1.books = l.books := by
  unfold Ledger.commitJournal
  split <;> rfl

theorem run_ok {value : α} (done : run apply s = (.ok value, t)) :
    ∃ after, apply.run { s with ledger := s.ledger.beginJournal.1 } = (.ok value, after) ∧
      t.batch = after.batch ∧ t.ledger.books = after.ledger.books := by
  unfold run at done
  split at done
  · next value' after processed =>
    split at done
    · next ledger committed =>
      cases done
      refine ⟨after, processed, rfl, ?_⟩
      rw [← books_commitJournal after.ledger, committed]
    · cases done
  · cases done

/-- A transaction fails as its processing does. -/
theorem run_refused {kind reason : String}
    (done : run apply s = (.error (.refused kind reason), t)) :
    ∃ after, apply.run { s with ledger := s.ledger.beginJournal.1 } =
      (.error (.refused kind reason), after) := by
  unfold run at done
  split at done
  · split at done
    · cases done
    · cases done
  · next failure after processed =>
    cases done
    exact ⟨after, processed⟩

/-- A transaction that fails changes neither the books nor the store. -/
theorem run_error {failure : TxFailure} (done : run apply s = (.error failure, t)) :
    t.batch = s.batch ∧ t.ledger.books = s.ledger.books := by
  have saving := saving_run apply s
  unfold run at done
  split at done
  · next value after processed =>
    rw [processed] at saving
    obtain ⟨later, journal, outer, split, -⟩ := saving.split
    unfold Ledger.commitJournal at done
    rw [split] at done
    cases later <;> cases done
  · next failure after processed =>
    rw [processed] at saving
    obtain ⟨stored, account, supply, nonces⟩ := saving.aborted
    cases done
    refine ⟨rfl, ?_⟩
    have find : ∀ addr, (restore s after).ledger.accounts.find? addr =
        s.ledger.accounts.find? addr := by
      intro addr
      rw [Ledger.find?_accounts, Ledger.find?_accounts, ← account,
        Ledger.findOpt_eq, Ledger.findOpt_eq, stored]
      rfl
    unfold Ledger.books
    congr 1
    funext addr
    exact find addr

end TxSavepoint
end LiteNode
