import LiteNode.Ledger.Books

/-!
# The ledger keeps its books

Every call answers as the books judge it, and leaves the books that the
judgement posts. Which accounts are cached does not show.
-/

namespace LiteNode
namespace Ledger

def books (l : Ledger) : Books where
  account := l.accounts.find?
  supply := l.totalSupply
  spent := l.spentNonces.mem
  burned := l.isOp01BurnExecuted

/-- Books and answer after a call. -/
def outcome (result : Ledger × Except LedgerError Unit) : Books × Except LedgerError Unit :=
  (result.1.books, result.2)

variable {l l' : Ledger}

@[simp] theorem account_books (l : Ledger) (addr : Bytes) :
    l.books.account addr = l.findOpt addr := find?_accounts l addr

theorem SameBooks.books (same : SameBooks l l') : l'.books = l.books := by
  have find : l'.accounts.find? = l.accounts.find? := by
    funext addr
    rw [find?_accounts, find?_accounts, same.find]
  unfold Ledger.books isOp01BurnExecuted
  rw [find, same.totalSupply, same.spentNonces, same.store]

theorem books_getAccountInternal (l : Ledger) (addr : Bytes) :
    (l.getAccountInternal addr).1.books = l.books :=
  (sameBooks_getAccountInternal l addr).books

theorem getAccountInternal_eq (l : Ledger) (addr : Bytes) :
    l.getAccountInternal addr = ((l.getAccountInternal addr).1, l.findOpt addr) := rfl

theorem books_setAccountInternal (l : Ledger) (addr : Bytes) (account : Account) :
    (l.setAccountInternal addr account).books =
      { l.books with account := Books.put l.books.account (addr, account) } := by
  have find : (l.setAccountInternal addr account).accounts.find? =
      Books.put l.accounts.find? (addr, account) := by
    funext other
    rw [find?_accounts, findOpt_setAccountInternal, Books.put,
      Function.update_apply, find?_accounts]
  unfold books
  rw [find]
  rfl

theorem outcome_error (same : l'.books = l.books) (error : LedgerError) :
    outcome (l', .error error) = l.books.settle (.error error) :=
  Prod.ext same rfl

variable {posting : Posting}

theorem outcome_ok (posted : l'.books = l.books.post posting) :
    outcome (l', .ok ()) = l.books.settle (.ok posting) :=
  Prod.ext posted rfl

theorem books_post_nothing (same : l'.books = l.books) : l'.books = l.books.post {} := by
  rw [same]
  simp [Books.post]

theorem books_write (posted : l'.books = l.books.post posting) (addr : Bytes) (account : Account) :
    (l'.setAccountInternal addr account).books = l.books.post
      { posting with
        entries := posting.entries ++ [(addr, account)] } := by
  rw [books_setAccountInternal, posted]
  simp [Books.post]

/-- Books after the supply is moved. -/
theorem books_mint (posted : l'.books = l.books.post posting)
    (still : posting.minted = 0) (amount : Int) :
    ({ l' with totalSupply := l'.totalSupply + amount }).books =
      l.books.post { posting with minted := amount } := by
  have former : l'.totalSupply = l.totalSupply := by
    have same := congrArg Books.supply posted
    simpa [Books.post, books, still] using same
  change { l'.books with supply := l'.totalSupply + amount } = _
  rw [posted, former]
  rfl

theorem books_single (same : l'.books = l.books) (addr : Bytes) (account : Account) (amount : Int) :
    ({ l'.setAccountInternal addr account with
      totalSupply := l'.totalSupply + amount }).books =
        l.books.post { entries := [(addr, account)], minted := amount } :=
  books_mint (books_write (books_post_nothing same) addr account) rfl amount

theorem books_spend (posted : l'.books = l.books.post posting)
    (unspent : posting.spends = none) (key : Bytes × Int) :
    ({ l' with spentNonces := l'.spentNonces.replace key () }).books =
      l.books.post { posting with spends := some key } := by
  have former : l'.spentNonces.mem = l.spentNonces.mem := by
    have same := congrArg Books.spent posted
    simpa [Books.post, books, unspent] using same
  have spent : (l'.spentNonces.replace key ()).mem = fun other =>
      l.spentNonces.mem other || decide (some key = some other) := by
    funext other
    rw [Table.mem_replace, former, Bool.or_comm]
    simp [eq_comm]
  change { l'.books with
    spent := (l'.spentNonces.replace key ()).mem } = _
  rw [posted, spent]
  rfl

theorem supplyCheck_eq (l : Ledger) (amount : Int) :
    l.supplyCheck amount = l.books.withinCap amount := rfl

theorem outcome_addAccount (l : Ledger) (addr : Bytes) (amount : Int) :
    outcome (l.addAccount addr amount) = l.books.settle
      (l.books.judgeAdd addr { emptyAccount with balance := amount }) := by
  unfold addAccount Books.judgeAdd
  rw [supplyCheck_eq]
  split
  · exact outcome_error rfl _
  · exact outcome_ok (books_single rfl addr _ _)

theorem outcome_addAccountWithPubkey
    (l : Ledger) (addr : Bytes) (amount : Int) (publicKey : Bytes) :
    outcome (l.addAccountWithPubkey addr amount publicKey) = l.books.settle
      (l.books.judgeAdd addr
        { emptyAccount with
          balance := amount, publicKey := some publicKey }) := by
  unfold addAccountWithPubkey Books.judgeAdd
  rw [supplyCheck_eq]
  split
  · exact outcome_error rfl _
  · exact outcome_ok (books_single rfl addr _ _)

theorem books_update (l : Ledger) (addr : Bytes) (change : Account → Account) :
    (l.update addr change).books = l.books.post (l.books.change addr change) := by
  have loaded := books_getAccountInternal l addr
  unfold update Books.change
  rw [getAccountInternal_eq]
  rw [account_books]
  cases l.findOpt addr with
  | none =>
    refine loaded.trans ?_
    simp [Books.post]
  | some account =>
    rw [Option.map_some, Option.toList_some]
    exact books_write (books_post_nothing loaded) addr (change account)

theorem outcome_credit (l : Ledger) (encryptedBalance : Option Bytes) (addr : Bytes)
    (amount : Int) :
    outcome (l.credit encryptedBalance addr amount) = l.books.settle
      (l.books.judgeCredit encryptedBalance addr amount) := by
  unfold credit Books.judgeCredit
  rw [supplyCheck_eq]
  split
  · exact outcome_error rfl _
  split
  · exact outcome_error rfl _
  rw [getAccountInternal_eq, account_books]
  exact outcome_ok (books_single (books_getAccountInternal l addr) addr _ amount)

theorem outcome_debit (l : Ledger) (encryptedBalance : Option Bytes) (addr : Bytes)
    (amount nonce : Int) :
    outcome (l.debit encryptedBalance addr amount nonce) = l.books.settle
      (l.books.judgeDebit encryptedBalance addr amount nonce) := by
  have loaded := books_getAccountInternal l addr
  have spent : (l.getAccountInternal addr).1.spentNonces.mem (addr, nonce) =
      l.books.spent (addr, nonce) :=
    congrFun (congrArg Books.spent loaded) _
  unfold debit Books.judgeDebit
  split
  · exact outcome_error rfl _
  rw [getAccountInternal_eq, account_books]
  cases l.findOpt addr with
  | none => exact outcome_error loaded _
  | some account =>
    dsimp only
    rw [spent]
    split
    · exact outcome_error loaded _
    split
    · exact outcome_error loaded _
    split
    · exact outcome_error loaded _
    have posted := books_single loaded addr
      { account with
        balance := account.balance - amount
        nonce
        encryptedBalance := keepCipher encryptedBalance account.encryptedBalance } (-amount)
    exact outcome_ok (books_spend posted rfl (addr, nonce))

theorem outcome_debitAmountOnly (l : Ledger) (addr : Bytes) (amount : Int) :
    outcome (l.debitAmountOnly addr amount) = l.books.settle
      (l.books.judgeDebitAmountOnly addr amount) := by
  have loaded := books_getAccountInternal l addr
  unfold debitAmountOnly Books.judgeDebitAmountOnly
  split
  · exact outcome_error rfl _
  rw [getAccountInternal_eq, account_books]
  cases l.findOpt addr with
  | none => exact outcome_error loaded _
  | some account =>
    dsimp only
    split
    · exact outcome_error loaded _
    exact outcome_ok (books_single loaded addr _ (-amount))

theorem burned_markOp01BurnExecuted (l : Ledger) : l.markOp01BurnExecuted.books.burned = true := by
  simp [books, markOp01BurnExecuted, isOp01BurnExecuted, LedgerStore.setMeta]

theorem outcome_applyOp01Burn (l : Ledger) (sender receiver : Bytes) (amount nonce : Int) :
    outcome (l.applyOp01Burn sender receiver amount nonce) = l.books.settle
      (l.books.judgeBurn sender receiver amount nonce) := by
  have debited := outcome_debit l none sender amount nonce
  have burned : l.isOp01BurnExecuted = l.books.burned := rfl
  unfold applyOp01Burn Books.judgeBurn
  split
  · exact outcome_error rfl _
  split
  · exact outcome_error rfl _
  split
  · exact outcome_error rfl _
  rw [burned]
  split
  · exact outcome_error rfl _
  cases judged : l.books.judgeDebit none sender amount nonce with
  | error error =>
    rw [judged] at debited
    cases result : l.debit none sender amount nonce with
    | mk l' answer =>
      rw [result] at debited
      have same : l'.books = l.books := congrArg Prod.fst debited
      have refused : answer = .error error := congrArg Prod.snd debited
      subst refused
      exact outcome_error same error
  | ok posting =>
    rw [judged] at debited
    cases result : l.debit none sender amount nonce with
    | mk l' answer =>
      rw [result] at debited
      have posted : l'.books = l.books.post posting := congrArg Prod.fst debited
      have accepted : answer = .ok () := congrArg Prod.snd debited
      subst accepted
      refine outcome_ok ?_
      change { l'.books with burned := l'.markOp01BurnExecuted.books.burned } = _
      rw [posted, burned_markOp01BurnExecuted]
      simp [Books.post]

theorem outcome_transfer (l : Ledger) (sender receiver : Bytes) (amount fee nonce : Int) :
    outcome (l.transfer sender receiver amount fee nonce) = l.books.settle
      (l.books.judgeTransfer sender receiver amount fee nonce) := by
  have loaded := books_getAccountInternal l sender
  have spent : (l.getAccountInternal sender).1.spentNonces.mem
      (sender, nonce) = l.books.spent (sender, nonce) :=
    congrFun (congrArg Books.spent loaded) _
  unfold transfer Books.judgeTransfer
  dsimp only
  split
  · exact outcome_error rfl _
  rw [getAccountInternal_eq, account_books]
  cases l.findOpt sender with
  | none => exact outcome_error loaded _
  | some account =>
    dsimp only
    rw [spent]
    split
    · exact outcome_error loaded _
    split
    · exact outcome_error loaded _
    split
    · exact outcome_error loaded _
    split
    · exact outcome_error loaded _
    split
    · exact outcome_error loaded _
    unfold Books.transferEntries
    by_cases same : sender = receiver
    · simp only [if_pos same]
      have posted := books_single loaded sender
        { account with
          balance := account.balance - (amount + fee) + amount, nonce }
        (-fee)
      exact outcome_ok (books_spend posted rfl (sender, nonce))
    · simp only [if_neg same]
      have loaded' := (books_getAccountInternal
        (l.getAccountInternal sender).1 receiver).trans loaded
      rw [getAccountInternal_eq (l.getAccountInternal sender).1 receiver]
      have found : (l.getAccountInternal sender).1.findOpt receiver = l.books.account receiver := by
        rw [account_books]
        exact (sameBooks_getAccountInternal l sender).find receiver
      rw [found]
      have posted := books_write
        (books_write (books_post_nothing loaded') sender
          { account with
            balance := account.balance - (amount + fee), nonce })
        receiver
        { (l.books.account receiver).getD emptyAccount with
          balance := ((l.books.account receiver).getD emptyAccount).balance + amount }
      exact outcome_ok (books_spend (books_mint posted rfl (-fee)) rfl (sender, nonce))

/-- Every call of an account answers and changes the books as judged. -/
theorem outcome_answer (l : Ledger) (call : AccountCall) :
    outcome (l.answer call) = l.books.settle (l.books.judge call) := by
  cases call with
  | find addr => exact outcome_ok (books_post_nothing (books_getAccountInternal l addr))
  | addAccount addr amount => exact outcome_addAccount l addr amount
  | addAccountWithPubkey addr amount publicKey =>
    exact outcome_addAccountWithPubkey l addr amount publicKey
  | registerPublicKey addr publicKey => exact outcome_ok (books_update l addr _)
  | updateDecryptAllowance addr value => exact outcome_ok (books_update l addr _)
  | updateEncBalance addr cipher => exact outcome_ok (books_update l addr _)
  | clearEncryptedBalance addr => exact outcome_ok (books_update l addr _)
  | credit encryptedBalance addr amount => exact outcome_credit l encryptedBalance addr amount
  | debit encryptedBalance addr amount nonce =>
    exact outcome_debit l encryptedBalance addr amount nonce
  | debitAmountOnly addr amount => exact outcome_debitAmountOnly l addr amount
  | applyOp01Burn sender receiver amount nonce =>
    exact outcome_applyOp01Burn l sender receiver amount nonce

/-- Every call answers and changes the books as judged. -/
theorem outcome_perform (l : Ledger) (call : LedgerCall) :
    outcome (l.perform call) = l.books.settle (l.books.judgeLedger call) := by
  cases call with
  | account call => exact outcome_answer l call
  | transfer sender receiver amount fee nonce =>
    exact outcome_transfer l sender receiver amount fee nonce
  | updateCircleBalance addr cipher => exact outcome_ok (books_post_nothing rfl)

theorem books_of_refused {call : LedgerCall} {error : LedgerError}
    (refused : (l.perform call).2 = .error error) : (l.perform call).1.books = l.books := by
  have judged := outcome_perform l call
  cases judgement : l.books.judgeLedger call with
  | error reason =>
    rw [judgement] at judged
    exact congrArg Prod.fst judged
  | ok posting =>
    rw [judgement] at judged
    have accepted : (l.perform call).2 = .ok () := congrArg Prod.snd judged
    rw [accepted] at refused
    cases refused

theorem books_of_accepted {call : LedgerCall} (accepted : (l.perform call).2 = .ok ()) :
    ∃ posting, l.books.judgeLedger call = .ok posting ∧
      (l.perform call).1.books = l.books.post posting := by
  have judged := outcome_perform l call
  cases judgement : l.books.judgeLedger call with
  | error reason =>
    rw [judgement] at judged
    have refused : (l.perform call).2 = .error reason := congrArg Prod.snd judged
    rw [accepted] at refused
    cases refused
  | ok posting =>
    rw [judgement] at judged
    exact ⟨posting, rfl, congrArg Prod.fst judged⟩

end Ledger
end LiteNode
