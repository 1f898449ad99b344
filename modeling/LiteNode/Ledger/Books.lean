import LiteNode.Ledger.Operations

/-!
# Books

What a ledger is for: it maps addresses to accounts, knows the supply, and
remembers spent nonces. A call is judged against the books and either refused,
which changes nothing, or posted: some accounts are replaced, the supply moves
by what is minted, and a nonce is spent. Postings are balanced, so the supply
stays the sum of all balances.
-/

namespace LiteNode

/-- What a ledger says to its callers. -/
structure Books where
  account : Bytes → Option Account
  supply : Int
  spent : Bytes × Int → Bool
  burned : Bool

/-- What an accepted call changes. -/
structure Posting where
  entries : List (Bytes × Account) := []
  minted : Int := 0
  spends : Option (Bytes × Int) := none
  burns : Bool := false

namespace Books

def put (account : Bytes → Option Account) (entry : Bytes × Account) : Bytes → Option Account :=
  Function.update account entry.1 (some entry.2)

def post (b : Books) (posting : Posting) : Books where
  account := posting.entries.foldl put b.account
  supply := b.supply + posting.minted
  spent key := b.spent key || decide (posting.spends = some key)
  burned := b.burned || posting.burns

def withinCap (b : Books) (amount : Int) : Bool := !decide (maxSupply < b.supply + amount)

/-- Replace an account that exists. -/
def change (b : Books) (addr : Bytes) (change : Account → Account) : Posting :=
  { entries := ((b.account addr).map fun account => (addr, change account)).toList }

def judgeAdd (b : Books) (addr : Bytes) (account : Account) : Except LedgerError Posting :=
  if !b.withinCap account.balance then .error capError
  else .ok { entries := [(addr, account)], minted := account.balance }

def judgeCredit (b : Books) (encryptedBalance : Option Bytes) (addr : Bytes)
    (amount : Int) : Except LedgerError Posting :=
  if amount < 0 then .error (.rejected "negative credit amount")
  else if !b.withinCap amount then .error capError
  else
    let account := (b.account addr).getD emptyAccount
    .ok {
      entries := [(addr, { account with
        balance := account.balance + amount
        encryptedBalance := keepCipher encryptedBalance account.encryptedBalance })]
      minted := amount }

def judgeDebit (b : Books) (encryptedBalance : Option Bytes) (addr : Bytes)
    (amount nonce : Int) : Except LedgerError Posting :=
  if amount < 0 then .error (.rejected "negative debit amount")
  else
    match b.account addr with
    | none => .error (.rejected "Sender not found")
    | some account =>
      if account.balance < amount then .error (.rejected "Insufficient balance")
      else if nonce ≠ nextNonce account.nonce then .error (.rejected "Invalid nonce")
      else if b.spent (addr, nonce) then .error (.rejected "Nonce already spent")
      else
        .ok {
          entries := [(addr, { account with
            balance := account.balance - amount
            nonce
            encryptedBalance := keepCipher encryptedBalance account.encryptedBalance })]
          minted := -amount
          spends := some (addr, nonce) }

def judgeDebitAmountOnly (b : Books) (addr : Bytes) (amount : Int) : Except LedgerError Posting :=
  if amount < 0 then .error (.rejected "negative debit_amount_only")
  else
    match b.account addr with
    | none => .error (.rejected "Account not found")
    | some account =>
      if account.balance < amount then .error (.rejected "Insufficient balance")
      else
        .ok {
          entries := [(addr, { account with balance := account.balance - amount })]
          minted := -amount }

def judgeBurn (b : Books) (sender receiver : Bytes) (amount nonce : Int) :
    Except LedgerError Posting :=
  if sender ≠ op01BurnAuthority then
    .error (.rejected "op01_burn: restricted to mining pool authority")
  else if sender ≠ receiver then
    .error (.rejected "op01_burn: must be self-transaction (from equals to)")
  else if amount ≤ 0 then .error (.rejected "op01_burn: amount must be positive")
  else if b.burned then .error (.rejected "op01_burn: already executed (one-shot ceremony)")
  else
    (b.judgeDebit none sender amount nonce).map fun posting => { posting with burns := true }

def transferEntries (b : Books) (sender receiver : Bytes) (account : Account)
    (amount fee nonce : Int) : List (Bytes × Account) :=
  let paid := { account with balance := account.balance - (amount + fee), nonce }
  if sender = receiver then [(sender, { paid with balance := paid.balance + amount })]
  else
    let other := (b.account receiver).getD emptyAccount
    [(sender, paid), (receiver, { other with balance := other.balance + amount })]

def judgeTransfer (b : Books) (sender receiver : Bytes) (amount fee nonce : Int) :
    Except LedgerError Posting :=
  if amount + fee < 0 then .error (.debitRejected "negative debit amount")
  else
    match b.account sender with
    | none => .error (.debitRejected "Sender not found")
    | some account =>
      if account.balance < amount + fee then .error (.debitRejected "Insufficient balance")
      else if nonce ≠ nextNonce account.nonce then .error (.debitRejected "Invalid nonce")
      else if b.spent (sender, nonce) then .error (.debitRejected "Nonce already spent")
      else if amount < 0 then .error (.creditRejected "negative credit amount")
      else if fee < 0 then .error (.creditRejected "negative fee amount")
      else
        .ok {
          entries := b.transferEntries sender receiver account amount fee nonce
          minted := -fee
          spends := some (sender, nonce) }

def judge (b : Books) : AccountCall → Except LedgerError Posting
  | .find _ => .ok {}
  | .addAccount addr amount => b.judgeAdd addr { emptyAccount with balance := amount }
  | .addAccountWithPubkey addr amount publicKey =>
    b.judgeAdd addr { emptyAccount with balance := amount, publicKey := some publicKey }
  | .registerPublicKey addr publicKey =>
    .ok (b.change addr fun account => { account with publicKey := some publicKey })
  | .updateDecryptAllowance addr value =>
    .ok (b.change addr fun account => { account with decryptAllowance := value })
  | .updateEncBalance addr cipher =>
    .ok (b.change addr fun account => { account with encryptedBalance := some cipher })
  | .clearEncryptedBalance addr =>
    .ok (b.change addr fun account => { account with encryptedBalance := none })
  | .credit encryptedBalance addr amount => b.judgeCredit encryptedBalance addr amount
  | .debit encryptedBalance addr amount nonce => b.judgeDebit encryptedBalance addr amount nonce
  | .debitAmountOnly addr amount => b.judgeDebitAmountOnly addr amount
  | .applyOp01Burn sender receiver amount nonce => b.judgeBurn sender receiver amount nonce

def judgeLedger (b : Books) : LedgerCall → Except LedgerError Posting
  | .account call => b.judge call
  | .transfer sender receiver amount fee nonce => b.judgeTransfer sender receiver amount fee nonce
  | .updateCircleBalance _ _ => .ok {}

/-- Books and answer after a judgement. -/
def settle (b : Books) (judgement : Except LedgerError Posting) : Books × Except LedgerError Unit :=
  match judgement with
  | .error error => (b, .error error)
  | .ok posting => (b.post posting, .ok ())

end Books

def LedgerCall.nonceKey : LedgerCall → Option (Bytes × Int)
  | .account (.debit _ addr _ nonce) => some (addr, nonce)
  | .account (.applyOp01Burn sender _ _ nonce) => some (sender, nonce)
  | .transfer sender _ _ _ nonce => some (sender, nonce)
  | _ => none

/-- The call opens no account that exists, and none with a debt. -/
def Books.Admits (b : Books) : LedgerCall → Prop
  | .account (.addAccount addr amount) => b.account addr = none ∧ 0 ≤ amount
  | .account (.addAccountWithPubkey addr amount _) => b.account addr = none ∧ 0 ≤ amount
  | _ => True

/-! ## Postings are balanced -/

namespace Books

/-- Balance at an address, zero where there is no account. -/
def balanceAt (b : Books) (addr : Bytes) : Int := ((b.account addr).map Account.balance).getD 0

/-- What an entry adds to the balance of its address. -/
def growth (b : Books) (entry : Bytes × Account) : Int := entry.2.balance - b.balanceAt entry.1

/-- A posting mints what it adds to the balances, within the cap, and spends a
nonce that is not spent. -/
structure Balanced (b : Books) (posting : Posting) : Prop where
  distinct : (posting.entries.map Prod.fst).Nodup
  minted_eq : posting.minted = (posting.entries.map b.growth).sum
  nonneg : ∀ entry ∈ posting.entries, 0 ≤ entry.2.balance
  capped : b.supply + posting.minted ≤ maxSupply
  fresh : ∀ key, posting.spends = some key → b.spent key = false

/-- All balances are nonnegative and the supply is within the cap. -/
structure Bounded (b : Books) : Prop where
  nonneg : ∀ addr account, b.account addr = some account → 0 ≤ account.balance
  capped : b.supply ≤ maxSupply

variable {b : Books} {posting : Posting}

variable {addr : Bytes} {account : Account} {amount nonce : Int}

theorem balanceAt_of_some (found : b.account addr = some account) :
    b.balanceAt addr = account.balance := by
  simp [balanceAt, found]

theorem balanceAt_eq_getD (addr : Bytes) :
    b.balanceAt addr = ((b.account addr).getD emptyAccount).balance := by
  unfold balanceAt
  cases b.account addr <;> rfl

theorem Bounded.balanceAt_nonneg (bounded : b.Bounded) (addr : Bytes) : 0 ≤ b.balanceAt addr := by
  unfold balanceAt
  cases found : b.account addr with
  | none => exact le_refl 0
  | some account => exact bounded.nonneg addr account found

theorem balanced_empty (bounded : b.Bounded) : b.Balanced {} where
  distinct := List.nodup_nil
  minted_eq := rfl
  nonneg := by simp
  capped := by simpa using bounded.capped
  fresh := by simp

/-- A posting with one entry. -/
theorem balanced_single (entries : posting.entries = [(addr, account)])
    (minted : posting.minted = account.balance - b.balanceAt addr)
    (nonneg : 0 ≤ account.balance) (capped : b.supply + posting.minted ≤ maxSupply)
    (fresh : ∀ key, posting.spends = some key → b.spent key = false) :
    b.Balanced posting where
  distinct := by simp [entries]
  minted_eq := by simp [entries, growth, minted]
  nonneg := by simpa [entries] using nonneg
  capped := capped
  fresh := fresh

theorem balanced_change (bounded : b.Bounded) (addr : Bytes) {change : Account → Account}
    (same : ∀ account, (change account).balance = account.balance) :
    b.Balanced (b.change addr change) := by
  unfold Books.change
  cases found : b.account addr with
  | none => exact balanced_empty bounded
  | some account =>
    refine balanced_single rfl ?_ ?_ ?_ (by simp)
    · rw [same, balanceAt_of_some found, sub_self]
    · rw [same]
      exact bounded.nonneg addr account found
    · simpa using bounded.capped

theorem balanced_judgeAdd (absent : b.account addr = none) (nonneg : 0 ≤ account.balance)
    (judged : b.judgeAdd addr account = .ok posting) : b.Balanced posting := by
  unfold judgeAdd withinCap at judged
  split at judged
  · cases judged
  · next within =>
    cases judged
    refine balanced_single rfl ?_ nonneg ?_ (by simp)
    · simp [balanceAt, absent]
    · simpa using within

theorem balanced_judgeCredit (bounded : b.Bounded) {encryptedBalance : Option Bytes}
    (judged : b.judgeCredit encryptedBalance addr amount = .ok posting) : b.Balanced posting := by
  unfold judgeCredit withinCap at judged
  split at judged
  · cases judged
  · next amount_nonneg =>
    split at judged
    · cases judged
    · next within =>
      cases judged
      have former := bounded.balanceAt_nonneg addr
      refine balanced_single rfl ?_ ?_ ?_ (by simp)
      · rw [balanceAt_eq_getD]
        dsimp only
        omega
      · rw [balanceAt_eq_getD] at former
        dsimp only
        omega
      · simpa using within

theorem balanced_judgeDebit (bounded : b.Bounded) {encryptedBalance : Option Bytes}
    (judged : b.judgeDebit encryptedBalance addr amount nonce = .ok posting) :
    b.Balanced posting ∧ posting.spends = some (addr, nonce) := by
  unfold judgeDebit at judged
  split at judged
  · cases judged
  split at judged
  · cases judged
  next account found =>
  split at judged
  · cases judged
  split at judged
  · cases judged
  split at judged
  · cases judged
  next unspent =>
  cases judged
  have capped := bounded.capped
  refine ⟨balanced_single rfl ?_ ?_ ?_ ?_, rfl⟩
  · rw [balanceAt_of_some found]
    dsimp only
    omega
  · dsimp only
    omega
  · dsimp only
    omega
  · intro key spends
    cases spends
    simpa using unspent

theorem balanced_judgeDebitAmountOnly (bounded : b.Bounded)
    (judged : b.judgeDebitAmountOnly addr amount = .ok posting) : b.Balanced posting := by
  unfold judgeDebitAmountOnly at judged
  split at judged
  · cases judged
  split at judged
  · cases judged
  next account found =>
  split at judged
  · cases judged
  cases judged
  have capped := bounded.capped
  refine balanced_single rfl ?_ ?_ ?_ (by simp)
  · rw [balanceAt_of_some found]
    dsimp only
    omega
  · dsimp only
    omega
  · dsimp only
    omega

theorem balanced_judgeBurn (bounded : b.Bounded) {sender receiver : Bytes}
    (judged : b.judgeBurn sender receiver amount nonce = .ok posting) :
    b.Balanced posting ∧ posting.spends = some (sender, nonce) := by
  unfold judgeBurn at judged
  split at judged
  · cases judged
  split at judged
  · cases judged
  split at judged
  · cases judged
  split at judged
  · cases judged
  cases debited : b.judgeDebit none sender amount nonce with
  | error error =>
    rw [debited] at judged
    cases judged
  | ok plain =>
    rw [debited] at judged
    cases judged
    obtain ⟨balanced, spends⟩ := balanced_judgeDebit bounded debited
    exact ⟨⟨balanced.distinct, balanced.minted_eq, balanced.nonneg,
      balanced.capped, balanced.fresh⟩, spends⟩

theorem balanced_judgeTransfer (bounded : b.Bounded) {sender receiver : Bytes} {fee : Int}
    (judged : b.judgeTransfer sender receiver amount fee nonce = .ok posting) :
    b.Balanced posting ∧ posting.spends = some (sender, nonce) := by
  unfold judgeTransfer at judged
  split at judged
  · cases judged
  split at judged
  · cases judged
  next account found =>
  split at judged
  · cases judged
  split at judged
  · cases judged
  split at judged
  · cases judged
  next unspent =>
  split at judged
  · cases judged
  split at judged
  · cases judged
  cases judged
  have capped := bounded.capped
  have fresh : ∀ key, some (sender, nonce) = some key → b.spent key = false := by
    intro key spends
    cases spends
    simpa using unspent
  refine ⟨?_, rfl⟩
  unfold transferEntries
  by_cases same : sender = receiver
  · -- a transfer to oneself only pays the fee
    refine balanced_single (if_pos same) ?_ ?_ ?_ fresh
    · rw [balanceAt_of_some found]
      dsimp only
      omega
    · dsimp only
      omega
    · dsimp only
      omega
  · have former := bounded.balanceAt_nonneg receiver
    rw [balanceAt_eq_getD] at former
    rw [if_neg same]
    constructor
    · simpa using same
    · simp only [List.map_cons, List.map_nil, List.sum_cons, List.sum_nil,
        growth, balanceAt_of_some found, balanceAt_eq_getD receiver]
      omega
    · intro entry present
      simp only [List.mem_cons, List.not_mem_nil, or_false] at present
      rcases present with rfl | rfl <;> dsimp only <;> omega
    · dsimp only
      omega
    · exact fresh

/-- Every admitted call that is accepted is balanced, and spends its nonce. -/
theorem balanced_judgeLedger (bounded : b.Bounded) {call : LedgerCall} (admits : b.Admits call)
    (judged : b.judgeLedger call = .ok posting) :
    b.Balanced posting ∧ posting.spends = call.nonceKey := by
  cases call with
  | updateCircleBalance addr cipher =>
    cases judged
    exact ⟨balanced_empty bounded, rfl⟩
  | transfer sender receiver amount fee nonce => exact balanced_judgeTransfer bounded judged
  | account call =>
    cases call with
    | find addr =>
      cases judged
      exact ⟨balanced_empty bounded, rfl⟩
    | addAccount | addAccountWithPubkey =>
      refine ⟨balanced_judgeAdd admits.1 admits.2 judged, ?_⟩
      exact spends_judgeAdd judged
    | registerPublicKey addr publicKey =>
      cases judged
      exact ⟨balanced_change bounded addr fun _ => rfl, rfl⟩
    | updateDecryptAllowance addr value =>
      cases judged
      exact ⟨balanced_change bounded addr fun _ => rfl, rfl⟩
    | updateEncBalance addr cipher =>
      cases judged
      exact ⟨balanced_change bounded addr fun _ => rfl, rfl⟩
    | clearEncryptedBalance addr =>
      cases judged
      exact ⟨balanced_change bounded addr fun _ => rfl, rfl⟩
    | credit encryptedBalance addr amount =>
      refine ⟨balanced_judgeCredit bounded judged, ?_⟩
      simp only [judgeLedger, judge, judgeCredit] at judged
      split at judged
      · cases judged
      · split at judged <;> cases judged
        rfl
    | debit encryptedBalance addr amount nonce => exact balanced_judgeDebit bounded judged
    | debitAmountOnly addr amount =>
      refine ⟨balanced_judgeDebitAmountOnly bounded judged, ?_⟩
      simp only [judgeLedger, judge, judgeDebitAmountOnly] at judged
      split at judged
      · cases judged
      · split at judged
        · cases judged
        · split at judged <;> cases judged
          rfl
    | applyOp01Burn sender receiver amount nonce => exact balanced_judgeBurn bounded judged
where
  spends_judgeAdd {addr : Bytes} {account : Account}
      (judged : b.judgeAdd addr account = .ok posting) :
      posting.spends = none := by
    unfold judgeAdd at judged
    split at judged <;> cases judged
    rfl

/-- The balances add up to the supply, none is negative, and the supply is
within the cap. -/
structure Sound (b : Books) : Prop extends b.Bounded where
  supply_eq : ∀ accounts : Table Bytes Account, (∀ addr, accounts.find? addr = b.account addr) →
    b.supply = accounts.sumBy Account.balance

/-- Accounts after a posting are former ones or entries of it. -/
theorem foldl_put_cases
    (entries : List (Bytes × Account)) (account : Bytes → Option Account) {found : Account}
    (stored : entries.foldl put account addr = some found) :
    account addr = some found ∨ (addr, found) ∈ entries := by
  induction entries generalizing account with
  | nil => exact Or.inl stored
  | cons entry rest ih =>
    rcases ih _ stored with former | later
    · unfold put at former
      by_cases same : addr = entry.1
      · rw [same, Function.update_self] at former
        right
        rw [same, ← Option.some.inj former]
        exact List.mem_cons_self
      · rw [Function.update_of_ne same] at former
        exact Or.inl former
    · exact Or.inr (List.mem_cons_of_mem _ later)

/-- Replacing accounts in a table changes the sum of the balances by what the
entries add. -/
theorem sumBy_foldl_replace (entries : List (Bytes × Account)) (accounts : Table Bytes Account)
    (distinct : (entries.map Prod.fst).Nodup) :
    (entries.foldl (fun accounts entry => accounts.replace entry.1 entry.2)
        accounts).sumBy Account.balance =
      accounts.sumBy Account.balance + (entries.map fun entry =>
        entry.2.balance -
          accounts.weightAt Account.balance entry.1).sum := by
  induction entries generalizing accounts with
  | nil => simp
  | cons entry rest ih =>
    rw [List.map_cons, List.nodup_cons] at distinct
    have others : (rest.map fun other => other.2.balance -
        (accounts.replace entry.1 entry.2).weightAt Account.balance
          other.1) = rest.map fun other => other.2.balance -
        accounts.weightAt Account.balance other.1 := by
      refine List.map_congr_left fun other present => ?_
      have apart : other.1 ≠ entry.1 := by
        intro same
        apply distinct.1
        rw [← same]
        exact List.mem_map_of_mem present
      rw [Table.weightAt, Table.find?_replace_ne apart]
      rfl
    rw [List.foldl_cons, ih _ distinct.2, others, Table.sumBy_replace, List.map_cons, List.sum_cons]
    omega

theorem find?_foldl_replace (entries : List (Bytes × Account)) {accounts : Table Bytes Account}
    {account : Bytes → Option Account}
    (same : ∀ addr, accounts.find? addr = account addr) (addr : Bytes) :
    (entries.foldl (fun accounts entry => accounts.replace entry.1 entry.2)
        accounts).find? addr =
      entries.foldl put account addr := by
  induction entries generalizing accounts account with
  | nil => exact same addr
  | cons entry rest ih =>
    refine ih fun other => ?_
    rw [Table.find?_replace_eq_ite, put, Function.update_apply, same]

theorem Sound.post {accounts : Table Bytes Account} (sound : b.Sound)
    (listed : ∀ addr, accounts.find? addr = b.account addr)
    (balanced : b.Balanced posting) : (b.post posting).Sound where
  nonneg := by
    intro addr account found
    rcases foldl_put_cases posting.entries b.account found with
      former | entered
    · exact sound.nonneg addr account former
    · exact balanced.nonneg (addr, account) entered
  capped := balanced.capped
  supply_eq := by
    intro after listed'
    let replaced := posting.entries.foldl
      (fun accounts entry => accounts.replace entry.1 entry.2) accounts
    have same : ∀ addr, after.find? addr = replaced.find? addr := by
      intro addr
      rw [listed', find?_foldl_replace posting.entries listed]
      rfl
    have growth_eq : (posting.entries.map fun entry => entry.2.balance -
        accounts.weightAt Account.balance entry.1) = posting.entries.map b.growth := by
      refine List.map_congr_left fun entry _ => ?_
      rw [Table.weightAt, listed]
      rfl
    rw [Table.sumBy_congr Account.balance same,
      sumBy_foldl_replace _ _ balanced.distinct, growth_eq,
      ← balanced.minted_eq, ← sound.supply_eq accounts listed]
    rfl

end Books
end LiteNode
