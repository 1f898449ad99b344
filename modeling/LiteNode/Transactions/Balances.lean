import LiteNode.Transactions.Savepoint

/-!
# What transactions move

Each step that moves money replaces one account, and says by how much its
balance changes.
-/

namespace LiteNode
namespace ExecState

variable {σ : Type} {s t : ExecState σ} {addr : Bytes} {account : Account}

theorem balance_eq (s : ExecState σ) (addr : Bytes) :
    s.balance addr = ((s.account addr).getD emptyAccount).balance :=
  Books.balanceAt_eq_getD addr

theorem balance_of_some (found : s.account addr = some account) :
    s.balance addr = account.balance :=
  Books.balanceAt_of_some found

theorem balance_of_books (same : t.ledger.books = s.ledger.books) : t.balance = s.balance := by
  unfold balance
  rw [same]

theorem account_of_books (same : t.ledger.books = s.ledger.books) : t.account = s.account := by
  unfold ExecState.account
  rw [same]

theorem balance_replace (replaced : t.account = Function.update s.account addr (some account)) :
    t.balance = Function.update s.balance addr account.balance := by
  funext other
  rw [balance_eq, replaced, Function.update_apply, Function.update_apply]
  split
  · rfl
  · exact (balance_eq s other).symm

end ExecState

namespace Tx

variable {σ : Type} {s t : ExecState σ} {kind : String} {addr : Bytes}
  {amount nonce : Int} {value : Unit}

theorem account_post {call : LedgerCall} {posting : Posting} {account : Account}
    (posted : (s.ledger.perform call).1.books = s.ledger.books.post posting)
    (entries : posting.entries = [(addr, account)]) :
    ({ s with ledger := (s.ledger.perform call).1 } : ExecState σ).account =
      Function.update s.account addr (some account) := by
  unfold ExecState.account
  rw [posted]
  unfold Books.post
  rw [entries]
  rfl

theorem run_debit_ok (done : (debit kind addr amount nonce).run s = (.ok value, t)) :
    ∃ account, s.account addr = some account ∧ 0 ≤ amount ∧
      amount ≤ account.balance ∧ nonce = nextNonce account.nonce ∧
      t.account = Function.update s.account addr
        (some { account with balance := account.balance - amount, nonce }) ∧
      t.batch = s.batch := by
  obtain ⟨accepted, rfl⟩ := run_post_ok done
  obtain ⟨posting, judged, posted⟩ := Ledger.books_of_accepted accepted
  change s.ledger.books.judgeDebit none addr amount nonce = .ok posting at judged
  unfold Books.judgeDebit at judged
  split at judged
  · cases judged
  next nonneg =>
  split at judged
  · cases judged
  next account found =>
  split at judged
  · cases judged
  next enough =>
  split at judged
  · cases judged
  next follows =>
  split at judged
  · cases judged
  cases judged
  exact ⟨account, found, by omega, by omega, not_not.mp follows, account_post posted rfl, rfl⟩

theorem run_debitAmountOnly_ok
    (done : (debitAmountOnly kind addr amount).run s = (.ok value, t)) :
    ∃ account, s.account addr = some account ∧ 0 ≤ amount ∧ amount ≤ account.balance ∧
      t.account = Function.update s.account addr
        (some { account with balance := account.balance - amount }) ∧
      t.batch = s.batch := by
  obtain ⟨accepted, rfl⟩ := run_post_ok done
  obtain ⟨posting, judged, posted⟩ := Ledger.books_of_accepted accepted
  change s.ledger.books.judgeDebitAmountOnly addr amount = .ok posting at judged
  unfold Books.judgeDebitAmountOnly at judged
  split at judged
  · cases judged
  next nonneg =>
  split at judged
  · cases judged
  next account found =>
  split at judged
  · cases judged
  next enough =>
  cases judged
  exact ⟨account, found, by omega, by omega, account_post posted rfl, rfl⟩

theorem run_credit_ok (done : (credit kind addr amount).run s = (.ok value, t)) :
    0 ≤ amount ∧
      t.account = Function.update s.account addr
        (some { (s.account addr).getD emptyAccount with
          balance := s.balance addr + amount }) ∧
      t.batch = s.batch := by
  obtain ⟨accepted, rfl⟩ := run_post_ok done
  obtain ⟨posting, judged, posted⟩ := Ledger.books_of_accepted accepted
  change s.ledger.books.judgeCredit none addr amount = .ok posting at judged
  unfold Books.judgeCredit at judged
  split at judged
  · cases judged
  next nonneg =>
  split at judged
  · cases judged
  cases judged
  refine ⟨by omega, ?_, rfl⟩
  rw [s.balance_eq addr]
  exact account_post posted rfl

theorem account_addAccount
    (accepted : (s.ledger.perform (.account (.addAccount addr amount))).2 = .ok ()) :
    ({ s with ledger := (s.ledger.perform
        (.account (.addAccount addr amount))).1 } : ExecState σ).account =
      Function.update s.account addr (some { emptyAccount with balance := amount }) := by
  obtain ⟨posting, judged, posted⟩ := Ledger.books_of_accepted accepted
  change s.ledger.books.judgeAdd addr _ = .ok posting at judged
  unfold Books.judgeAdd at judged
  split at judged
  · cases judged
  cases judged
  exact account_post posted rfl

theorem run_addAccount_ok (done : (post kind (.account (.addAccount addr amount))).run s =
      (.ok value, t)) :
    t.account = Function.update s.account addr
        (some { emptyAccount with balance := amount }) ∧
      t.batch = s.batch := by
  obtain ⟨accepted, rfl⟩ := run_post_ok done
  exact ⟨account_addAccount accepted, rfl⟩

theorem balance_debit (done : (debit kind addr amount nonce).run s = (.ok value, t)) :
    t.balance = Function.update s.balance addr (s.balance addr - amount) ∧ t.batch = s.batch := by
  obtain ⟨account, found, -, -, -, replaced, same⟩ := run_debit_ok done
  exact ⟨(ExecState.balance_replace replaced).trans
    (by rw [ExecState.balance_of_some found]), same⟩

theorem balance_debitAmountOnly
    (done : (debitAmountOnly kind addr amount).run s = (.ok value, t)) :
    t.balance = Function.update s.balance addr (s.balance addr - amount) ∧ t.batch = s.batch := by
  obtain ⟨account, found, -, -, replaced, same⟩ := run_debitAmountOnly_ok done
  exact ⟨(ExecState.balance_replace replaced).trans
    (by rw [ExecState.balance_of_some found]), same⟩

theorem balance_credit (done : (credit kind addr amount).run s = (.ok value, t)) :
    0 ≤ amount ∧ t.balance = Function.update s.balance addr (s.balance addr + amount) ∧
      t.batch = s.batch := by
  obtain ⟨nonneg, replaced, same⟩ := run_credit_ok done
  exact ⟨nonneg, ExecState.balance_replace replaced, same⟩

/-- What is there can be taken. -/
theorem run_debitAmountOnly_of_le (positive : 0 < amount) (enough : amount ≤ s.balance addr) :
    ∃ t, (debitAmountOnly kind addr amount).run s = (.ok (), t) := by
  have accepted : (s.ledger.perform (.account (.debitAmountOnly addr amount))).2 = .ok () := by
    cases answer : (s.ledger.perform (.account (.debitAmountOnly addr amount))).2 with
    | ok => rfl
    | error error =>
      have judged := congrArg Prod.snd (Ledger.outcome_perform s.ledger
        (.account (.debitAmountOnly addr amount)))
      change _ = (s.ledger.books.settle
        (s.ledger.books.judgeDebitAmountOnly addr amount)).2 at judged
      unfold Books.judgeDebitAmountOnly at judged
      rw [if_neg (by omega)] at judged
      unfold ExecState.balance at enough
      cases found : s.ledger.books.account addr with
      | none =>
        unfold Books.balanceAt at enough
        rw [found] at enough
        exact absurd (positive.trans_le enough) (lt_irrefl _)
      | some account =>
        rw [Books.balanceAt_of_some found] at enough
        rw [found] at judged
        dsimp only at judged
        rw [if_neg (by omega)] at judged
        change (s.ledger.perform (.account (.debitAmountOnly addr amount))).2 = .ok () at judged
        rw [judged] at answer
        cases answer
  unfold debitAmountOnly post perform
  rw [Chained.run_bind, Chained.run_changing]
  rw [accepted]
  exact ⟨_, rfl⟩

end Tx
end LiteNode
