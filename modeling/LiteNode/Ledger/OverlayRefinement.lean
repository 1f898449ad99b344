import LiteNode.Ledger.Staging
import LiteNode.Ledger.Supply

/-!
# Overlays refine direct execution

An overlay shows the books that its base would have after the same calls, so it
answers every call as the base would. Promoting it leaves the base with these
books. Active accounts come out the same as well, because every write counts the
account it replaces, staged or not.
-/

namespace LiteNode
namespace Ledger

/-- Every call opens accounts only where there is none when it is made. -/
def OpensAbsent (l : Ledger) : List AccountCall → Prop
  | [] => True
  | call :: calls =>
    (∀ addr, call.opens = some addr → l.findOpt addr = none) ∧ (l.answer call).1.OpensAbsent calls

theorem moves_answers (calls : List AccountCall) (opens : l.OpensAbsent calls) :
    Moves false l (l.answers calls).1 := by
  induction calls generalizing l with
  | nil => exact moves_refl l
  | cons call calls ih =>
    have first : Moves false l (l.answer call).1 :=
      moves_answer l fun addr opened => Or.inr (seen_of_absent (opens.1 addr opened))
    exact first.trans (ih opens.2)

end Ledger

namespace Overlay

/-- The books that an overlay shows: what is staged hides the base. -/
def books (o : Overlay) : Books where
  account addr :=
    if o.deleted.mem addr then none
    else (o.accounts.find? addr).or (o.base.accounts.find? addr)
  supply := o.totalSupply
  spent key := o.nonceAlreadyUsed key.1 key.2
  burned := o.base.isOp01BurnExecuted

/-- Books and answer after a call. -/
def outcome (result : Overlay × Except LedgerError Unit) : Books × Except LedgerError Unit :=
  (result.1.books, result.2)

variable {o o' : Overlay}

@[simp] theorem account_books (o : Overlay) (addr : Bytes) :
    o.books.account addr = o.findOpt addr := by
  unfold books findOpt read
  dsimp only
  split
  · rfl
  · rw [Ledger.find?_accounts]
    cases o.accounts.find? addr <;> rfl

theorem books_read (o : Overlay) (addr : Bytes) : (o.read addr).1.books = o.books := by
  rcases read_eq o addr with same | loaded
  · rw [same]
  · have base := (Ledger.sameBooks_getAccountInternal o.base addr).books
    have find := congrArg Books.account base
    have supply := congrArg Books.supply base
    have spent := congrArg Books.spent base
    have burned := congrArg Books.burned base
    unfold Ledger.books at find supply spent burned
    dsimp only at find supply spent burned
    rw [loaded]
    unfold books totalSupply nonceAlreadyUsed
    rw [find, supply, spent, burned]

theorem books_write (inUse : o.InUse) (addr : Bytes) (account : Account) :
    (o.write addr account).books =
      { o.books with account := Books.put o.books.account (addr, account) } := by
  have find : (o.write addr account).books.account = Books.put o.books.account (addr, account) := by
    funext other
    rw [account_books, findOpt_eq (inUse.write addr account), Books.put,
      Function.update_apply, account_books, findOpt_eq inUse]
    unfold write
    rw [Table.find?_replace_eq_ite]
    split <;> rfl
  rw [← find]
  rfl

/-- Books after an account is staged and the supply moved. -/
theorem books_single (inUse : o'.InUse) (same : o'.books = o.books) (addr : Bytes)
    (account : Account) (amount : Int) :
    ({ o'.write addr account with
      supplyDelta := o'.supplyDelta + amount }).books =
        o.books.post { entries := [(addr, account)], minted := amount } := by
  have wrote := books_write inUse addr account
  have supply : o'.base.totalSupply + (o'.supplyDelta + amount) =
      o'.books.supply + amount := (Int.add_assoc _ _ _).symm
  change { (o'.write addr account).books with
    supply := o'.base.totalSupply + (o'.supplyDelta + amount) } = _
  rw [wrote, supply, same]
  simp [Books.post]

theorem books_spend {posting : Posting} (posted : o'.books = o.books.post posting)
    (unspent : posting.spends = none) (key : Bytes × Int) :
    ({ o' with pendingNonces := o'.pendingNonces.replace key () }).books =
      o.books.post { posting with spends := some key } := by
  have former : o'.books.spent = o.books.spent := by
    have same := congrArg Books.spent posted
    simpa [Books.post, unspent] using same
  have spent : (fun other : Bytes × Int => o'.base.spentNonces.mem other ||
        (o'.pendingNonces.replace key ()).mem other) =
      fun other => o.books.spent other || decide (some key = some other) := by
    funext other
    have here := congrFun former other
    change (o'.base.spentNonces.mem other || o'.pendingNonces.mem other) = _ at here
    rw [Table.mem_replace, ← here]
    by_cases same : other = key
    · simp [same]
    · have apart : key ≠ other := fun equal => same equal.symm
      simp [same, apart]
  change { o'.books with
    spent := fun other : Bytes × Int => o'.base.spentNonces.mem other ||
      (o'.pendingNonces.replace key ()).mem other } = _
  rw [posted, spent]
  rfl

theorem outcome_error (same : o'.books = o.books) (error : LedgerError) :
    outcome (o', .error error) = o.books.settle (.error error) :=
  Prod.ext same rfl

theorem outcome_ok {posting : Posting} (posted : o'.books = o.books.post posting) :
    outcome (o', .ok ()) = o.books.settle (.ok posting) :=
  Prod.ext posted rfl

theorem supplyCheck_eq (o : Overlay) (amount : Int) :
    o.supplyCheck amount = o.books.withinCap amount := by
  have supply : o.books.supply = o.totalSupply := rfl
  unfold supplyCheck Books.withinCap
  rw [supply, ← decide_not]
  exact decide_eq_decide.mpr not_lt.symm

theorem read_eq_findOpt (o : Overlay) (addr : Bytes) :
    o.read addr = ((o.read addr).1, o.books.account addr) := by
  rw [account_books]
  rfl

/-! ## One lemma for each operation -/

section operations

variable (inUse : o.InUse)

include inUse

theorem outcome_addAccount (addr : Bytes) (amount : Int) :
    outcome (o.addAccount addr amount) = o.books.settle
      (o.books.judgeAdd addr { emptyAccount with balance := amount }) := by
  unfold addAccount Books.judgeAdd
  rw [whenActive_of_inUse inUse, supplyCheck_eq]
  split
  · exact outcome_error rfl _
  · exact outcome_ok (books_single inUse rfl addr _ _)

theorem outcome_addAccountWithPubkey (addr : Bytes) (amount : Int) (publicKey : Bytes) :
    outcome (o.addAccountWithPubkey addr amount publicKey) = o.books.settle
      (o.books.judgeAdd addr
        { emptyAccount with
          balance := amount, publicKey := some publicKey }) := by
  unfold addAccountWithPubkey Books.judgeAdd
  rw [whenActive_of_inUse inUse, supplyCheck_eq]
  split
  · exact outcome_error rfl _
  · exact outcome_ok (books_single inUse rfl addr _ _)

theorem outcome_update (addr : Bytes) (change : Account → Account) :
    outcome (o.update addr change) = o.books.settle (.ok (o.books.change addr change)) := by
  have loaded := books_read o addr
  unfold update Books.change
  rw [whenActive_of_inUse inUse, read_eq_findOpt]
  cases o.books.account addr with
  | none =>
    apply outcome_ok
    rw [loaded]
    simp [Books.post]
  | some account =>
    apply outcome_ok
    rw [books_write (inUse.read addr), loaded]
    simp [Books.post]

theorem outcome_credit (encryptedBalance : Option Bytes) (addr : Bytes) (amount : Int) :
    outcome (o.credit encryptedBalance addr amount) = o.books.settle
      (o.books.judgeCredit encryptedBalance addr amount) := by
  unfold credit Books.judgeCredit
  rw [whenActive_of_inUse inUse, supplyCheck_eq]
  split
  · exact outcome_error rfl _
  split
  · exact outcome_error rfl _
  rw [read_eq_findOpt]
  exact outcome_ok (books_single (inUse.read addr) (books_read o addr) addr _ amount)

theorem outcome_debit (encryptedBalance : Option Bytes) (addr : Bytes) (amount nonce : Int) :
    outcome (o.debit encryptedBalance addr amount nonce) = o.books.settle
      (o.books.judgeDebit encryptedBalance addr amount nonce) := by
  have loaded := books_read o addr
  have spent : (o.read addr).1.nonceAlreadyUsed addr nonce = o.books.spent (addr, nonce) :=
    congrFun (congrArg Books.spent loaded) (addr, nonce)
  unfold debit Books.judgeDebit
  rw [whenActive_of_inUse inUse, read_eq_findOpt]
  split
  · exact outcome_error rfl _
  cases o.books.account addr with
  | none => exact outcome_error loaded _
  | some account =>
    dsimp only
    rw [spent]
    split
    · exact outcome_error loaded _
    split
    · exact outcome_error loaded _
    split
    · exact outcome_error loaded _
    have posted := books_single (inUse.read addr) loaded addr
      { account with
        balance := account.balance - amount
        nonce
        encryptedBalance := keepCipher encryptedBalance account.encryptedBalance } (-amount)
    exact outcome_ok (books_spend posted rfl (addr, nonce))

theorem outcome_debitAmountOnly (addr : Bytes) (amount : Int) :
    outcome (o.debitAmountOnly addr amount) = o.books.settle
      (o.books.judgeDebitAmountOnly addr amount) := by
  have loaded := books_read o addr
  unfold debitAmountOnly Books.judgeDebitAmountOnly
  rw [whenActive_of_inUse inUse, read_eq_findOpt]
  split
  · exact outcome_error rfl _
  cases o.books.account addr with
  | none => exact outcome_error loaded _
  | some account =>
    dsimp only
    split
    · exact outcome_error loaded _
    exact outcome_ok (books_single (inUse.read addr) loaded addr _ (-amount))

theorem outcome_applyOp01Burn (sender receiver : Bytes) (amount nonce : Int) :
    outcome (o.applyOp01Burn sender receiver amount nonce) = o.books.settle
      (o.books.judgeBurn sender receiver amount nonce) := by
  have debited := outcome_debit inUse none sender amount nonce
  have burned : o.base.isOp01BurnExecuted = o.books.burned := rfl
  unfold applyOp01Burn Books.judgeBurn
  split
  · exact outcome_error rfl _
  split
  · exact outcome_error rfl _
  split
  · exact outcome_error rfl _
  rw [burned]
  split
  · exact outcome_error rfl _
  cases judged : o.books.judgeDebit none sender amount nonce with
  | error error =>
    rw [judged] at debited
    cases result : o.debit none sender amount nonce with
    | mk o' answer =>
      rw [result] at debited
      have same : o'.books = o.books := congrArg Prod.fst debited
      have refused : answer = .error error := congrArg Prod.snd debited
      subst refused
      exact outcome_error same error
  | ok posting =>
    rw [judged] at debited
    cases result : o.debit none sender amount nonce with
    | mk o' answer =>
      rw [result] at debited
      have posted : o'.books = o.books.post posting := congrArg Prod.fst debited
      have accepted : answer = .ok () := congrArg Prod.snd debited
      subst accepted
      refine outcome_ok ?_
      change { o'.books with burned := o'.base.markOp01BurnExecuted.books.burned } = _
      rw [posted, Ledger.burned_markOp01BurnExecuted]
      simp [Books.post]

/-- Every call answers and changes the books as judged. -/
theorem outcome_answer (call : AccountCall) :
    outcome (o.answer call) = o.books.settle (o.books.judge call) := by
  cases call with
  | find addr =>
    change outcome (o.whenActive ((o.read addr).1, .ok ())) = _
    rw [whenActive_of_inUse inUse]
    apply outcome_ok
    rw [books_read]
    simp [Books.post]
  | addAccount addr amount => exact outcome_addAccount inUse addr amount
  | addAccountWithPubkey addr amount publicKey =>
    exact outcome_addAccountWithPubkey inUse addr amount publicKey
  | registerPublicKey addr publicKey => exact outcome_update inUse addr _
  | updateDecryptAllowance addr value => exact outcome_update inUse addr _
  | updateEncBalance addr cipher => exact outcome_update inUse addr _
  | clearEncryptedBalance addr => exact outcome_update inUse addr _
  | credit encryptedBalance addr amount => exact outcome_credit inUse encryptedBalance addr amount
  | debit encryptedBalance addr amount nonce =>
    exact outcome_debit inUse encryptedBalance addr amount nonce
  | debitAmountOnly addr amount => exact outcome_debitAmountOnly inUse addr amount
  | applyOp01Burn sender receiver amount nonce =>
    exact outcome_applyOp01Burn inUse sender receiver amount nonce

end operations

theorem findOpt_foldl_setAccountInternal (entries : List (Bytes × Account)) (l : Ledger)
    (distinct : (entries.map Prod.fst).Nodup) (addr : Bytes) :
    (entries.foldl (fun l entry => l.setAccountInternal entry.1 entry.2)
      l).findOpt addr = (entries.lookup addr).or (l.findOpt addr) := by
  induction entries generalizing l with
  | nil => rfl
  | cons entry rest ih =>
    rw [List.map_cons, List.nodup_cons] at distinct
    rw [List.foldl_cons, ih _ distinct.2,
      Ledger.findOpt_setAccountInternal, Table.lookup_cons_eq_ite]
    split
    · next same =>
      rw [same, Table.lookup_eq_none_of_notMem distinct.1]
      rfl
    · rfl

/-- Writing staged accounts is a sequence of moves that changes nothing else. -/
theorem moves_foldl_setAccountInternal (entries : List (Bytes × Account)) (l : Ledger)
    (seen : ∀ entry ∈ entries, l.Seen entry.1) :
    let l' := entries.foldl (fun l entry => l.setAccountInternal entry.1 entry.2) l
    Ledger.Moves false l l' ∧ l'.store = l.store ∧
      l'.totalSupply = l.totalSupply ∧ l'.spentNonces = l.spentNonces := by
  induction entries generalizing l with
  | nil => exact ⟨Ledger.moves_refl l, rfl, rfl, rfl⟩
  | cons entry rest ih =>
    have first : Ledger.Moves false l _ := (Ledger.moves_refl l).write
      entry.2 (seen entry List.mem_cons_self)
    obtain ⟨moves, store, supply, spent⟩ := ih
      (l.setAccountInternal entry.1 entry.2) fun other present =>
        (seen other (List.mem_cons_of_mem _ present)).write entry.1 entry.2
    exact ⟨first.trans moves, store, supply, spent⟩

theorem sortedDeletedAddrs_eq_nil (inUse : o.InUse) : o.sortedDeletedAddrs = [] := by
  have empty : o.deleted.toList = [] := by
    rw [List.eq_nil_iff_forall_not_mem]
    rintro ⟨addr, mark⟩ present
    have bound := Table.mem_iff.mpr ⟨mark, Table.mem_toList.mp present⟩
    rw [inUse.undeleted] at bound
    cases bound
  unfold sortedDeletedAddrs
  rw [empty]
  rfl

theorem mem_foldl_replace (keys : List (Bytes × Int)) (spent : Table (Bytes × Int) Unit)
    (key : Bytes × Int) :
    (keys.foldl (fun spent key => spent.replace key ()) spent).mem key =
      (spent.mem key || decide (key ∈ keys)) := by
  induction keys generalizing spent with
  | nil => simp
  | cons first rest ih =>
    rw [List.foldl_cons, ih, Table.mem_replace]
    by_cases same : key = first
    · simp [same]
    · simp [same]

theorem mem_sortedNonces (o : Overlay) (key : Bytes × Int) :
    decide (key ∈ o.sortedNonces) = o.pendingNonces.mem key := by
  have listed : key ∈ o.sortedNonces ↔ o.pendingNonces.mem key = true := by
    unfold sortedNonces
    rw [(List.perm_insertionSort _ _).mem_iff, Table.mem_iff, List.mem_map]
    constructor
    · rintro ⟨⟨found, mark⟩, present, rfl⟩
      exact ⟨mark, Table.mem_toList.mp present⟩
    · rintro ⟨mark, found⟩
      exact ⟨(key, mark), Table.mem_toList.mpr found, rfl⟩
  rw [Bool.eq_iff_iff, decide_eq_true_eq, listed]

def writtenBase (o : Overlay) : Ledger :=
  o.sortedPromotePairs.foldl (fun base entry => base.setAccountInternal entry.1 entry.2) o.base

/-- The staged accounts are written by moves, and change nothing else. -/
theorem writtenBase_spec (staged : o.StagedSeen) :
    Ledger.Moves false o.base o.writtenBase ∧ o.writtenBase.store = o.base.store ∧
      o.writtenBase.totalSupply = o.base.totalSupply ∧
      o.writtenBase.spentNonces = o.base.spentNonces ∧
      ∀ addr, o.writtenBase.findOpt addr = (o.accounts.find? addr).or (o.base.findOpt addr) := by
  have listed : o.sortedPromotePairs.Perm o.accounts.toList := sortByKey_perm _ _
  have distinct : (o.sortedPromotePairs.map Prod.fst).Nodup :=
    (listed.map Prod.fst).nodup_iff.mpr o.accounts.nodup_keys
  have seen : ∀ entry ∈ o.sortedPromotePairs, o.base.Seen entry.1 := by
    intro entry present
    apply staged
    rw [listed.mem_iff] at present
    exact Table.mem_iff.mpr ⟨entry.2, Table.mem_toList.mp present⟩
  obtain ⟨moves, store, supply, spent⟩ :=
    moves_foldl_setAccountInternal o.sortedPromotePairs o.base seen
  refine ⟨moves, store, supply, spent, fun addr => ?_⟩
  have lookup : o.sortedPromotePairs.lookup addr = o.accounts.find? addr := by
    ext account
    rw [Table.lookup_eq_some_iff distinct, listed.mem_iff, Table.mem_toList]
  rw [← lookup]
  exact findOpt_foldl_setAccountInternal o.sortedPromotePairs o.base distinct addr

/-- Nothing is deleted, so a promotion writes what is staged. -/
theorem promotedBase_eq (inUse : o.InUse) :
    o.promotedBase = { o.writtenBase with
      totalSupply := o.writtenBase.totalSupply + o.supplyDelta
      spentNonces := o.sortedNonces.foldl
        (fun spent key => spent.replace key ()) o.writtenBase.spentNonces
      dirty := o.writtenBase.dirty || decide (0 < o.accounts.length) ||
        decide (0 < o.deleted.length) } := by
  unfold promotedBase
  rw [sortedDeletedAddrs_eq_nil inUse]
  rfl

theorem books_promotedBase (inUse : o.InUse) (staged : o.StagedSeen) :
    o.promotedBase.books = o.books := by
  obtain ⟨-, store, supply, spent, find⟩ := writtenBase_spec staged
  rw [promotedBase_eq inUse]
  have account : o.writtenBase.accounts.find? = o.books.account := by
    funext addr
    rw [Ledger.find?_accounts, find, account_books, findOpt_eq inUse]
  have used : (o.sortedNonces.foldl (fun spent key => spent.replace key ())
      o.writtenBase.spentNonces).mem = o.books.spent := by
    funext key
    rw [mem_foldl_replace, mem_sortedNonces, spent]
    rfl
  have burned : o.writtenBase.isOp01BurnExecuted = o.books.burned := by
    unfold Ledger.isOp01BurnExecuted
    rw [store]
    rfl
  have total : o.writtenBase.totalSupply + o.supplyDelta = o.books.supply := by
    rw [supply]
    rfl
  change Books.mk o.writtenBase.accounts.find?
    (o.writtenBase.totalSupply + o.supplyDelta) _
    o.writtenBase.isOp01BurnExecuted = o.books
  rw [account, used, burned, total]

theorem drift_promotedBase
    (inUse : o.InUse) (staged : o.StagedSeen) (enough : 0 ≤ o.base.drift) :
    o.promotedBase.drift = o.base.drift := by
  have written := Ledger.drift_moves enough (writtenBase_spec staged).1
  rw [promotedBase_eq inUse, ← written]
  rfl

variable {l : Ledger}

/-- An overlay that shows the books of a ledger answers as the ledger does, and
its calls are stagings. -/
theorem answers_spec
    (marking : Bool) (inUse : o.InUse) (same : o.books = l.books) (calls : List AccountCall)
    (opens : l.OpensAbsent calls) (marks : ∀ entry ∈ calls.zip (l.answers calls).2,
      entry.1.burns = true → entry.2 = .ok () → marking = true) :
    (o.answers calls).2 = (l.answers calls).2 ∧
      (o.answers calls).1.books = (l.answers calls).1.books ∧
      Stagings marking o (o.answers calls).1 := by
  induction calls generalizing o l with
  | nil => exact ⟨rfl, same, stagings_refl o⟩
  | cons call calls ih =>
    have judged := outcome_answer inUse call
    have direct := Ledger.outcome_answer l call
    rw [same, ← direct] at judged
    have next : (o.answer call).1.books = (l.answer call).1.books := congrArg Prod.fst judged
    have answer : (o.answer call).2 = (l.answer call).2 := congrArg Prod.snd judged
    have absent : ∀ addr, call.opens = some addr → o.findOpt addr = none := by
      intro addr opened
      rw [← account_books, same, Ledger.account_books]
      exact opens.1 addr opened
    have first : Stagings marking o (o.answer call).1 := by
      apply stagings_answer inUse absent
      rw [answer]
      exact marks (call, (l.answer call).2) List.mem_cons_self
    obtain ⟨rest, books, stagings⟩ := ih
      (inUse.stagings first) next opens.2 fun entry present =>
        marks entry (List.mem_cons_of_mem _ present)
    refine ⟨?_, books, first.trans stagings⟩
    change (o.answer call).2 :: ((o.answer call).1.answers calls).2 =
      (l.answer call).2 :: ((l.answer call).1.answers calls).2
    rw [answer, rest]

theorem books_create (base : Ledger) : (create base).books = base.books := by
  have account : (create base).books.account = base.books.account := by
    funext addr
    rw [account_books, findOpt_eq (inUse_create base), Ledger.account_books]
    rfl
  have supply : (create base).books.supply = base.books.supply := Int.add_zero _
  have spent : (create base).books.spent = base.books.spent := by
    funext key
    change (base.spentNonces.mem key || _) = base.spentNonces.mem key
    rw [create, Table.mem_empty, Bool.or_false]
  have burned : (create base).books.burned = base.books.burned := rfl
  cases books : (create base).books
  cases direct : base.books
  rw [books, direct] at account supply spent burned
  simp only at account supply spent burned
  rw [account, supply, spent, burned]

/-- Calls of an overlay are answered as they would be by its base. Promoting it
then leaves the base as the calls would have, and dropping it leaves the base as
it was, but for the mark of an accepted burn. -/
theorem overlay_refines (base : Ledger) (calls : List AccountCall)
    (opens : base.OpensAbsent calls) :
    let staged := ((create base).answers calls).1
    let direct := (base.answers calls).1
    let promoted := staged.promote.1.base
    let dropped := staged.drop.1.base
    ((create base).answers calls).2 = (base.answers calls).2 ∧
      (staged.promote.2 = .ok () ∧
        (∀ addr, promoted.findOpt addr = direct.findOpt addr) ∧
        promoted.totalSupply = direct.totalSupply ∧
        (∀ key, promoted.spentNonces.mem key = direct.spentNonces.mem key) ∧
        promoted.isOp01BurnExecuted = direct.isOp01BurnExecuted ∧
        (base.accounts.sumBy Ledger.activeWeight ≤ base.activeAccounts →
          promoted.activeAccounts = direct.activeAccounts)) ∧
      staged.drop.2 = .ok () ∧ BaseKept base dropped ∧
      ((∀ entry ∈ calls.zip (base.answers calls).2,
          entry.1.burns = true → entry.2 ≠ .ok ()) →
        base.SameBooks dropped) := by
  intro staged direct promoted dropped
  have start := inUse_create base
  have nothing : (create base).StagedSeen := by
    intro addr present
    rw [create, Table.mem_empty] at present
    cases present
  obtain ⟨answers, books, stagings⟩ := answers_spec true start
    (books_create base) calls opens fun _ _ _ _ => rfl
  have inUse : staged.InUse := start.stagings stagings
  have seen : staged.StagedSeen := nothing.stagings stagings
  have kept : BaseKept base staged.base := (BaseKept.refl base).stagings stagings
  have promotes : staged.promote = ({ staged.cleared with
      base := staged.promotedBase, promoted := true }, .ok ()) :=
    whenActive_of_inUse inUse _
  have drops : staged.drop = ({ staged.cleared with dropped := true }, .ok ()) :=
    whenActive_of_inUse inUse _
  have promoted_eq : promoted = staged.promotedBase :=
    congrArg (fun result => result.1.base) promotes
  have dropped_eq : dropped = staged.base := congrArg (fun result => result.1.base) drops
  have same : promoted.books = direct.books := by
    rw [promoted_eq, books_promotedBase inUse seen, books]
  refine ⟨answers, ⟨congrArg Prod.snd promotes, fun addr => ?_,
    congrArg Books.supply same, congrFun (congrArg Books.spent same),
    congrArg Books.burned same, fun counts => ?_⟩, congrArg Prod.snd drops,
    dropped_eq ▸ kept, fun unmarked => ?_⟩
  · rw [← Ledger.account_books, ← Ledger.account_books, same]
  · have enough : 0 ≤ base.drift := by
      unfold Ledger.drift
      omega
    have drift : staged.base.drift = base.drift := by
      have find : ∀ addr, staged.base.accounts.find? addr = base.accounts.find? addr := by
        intro addr
        rw [Ledger.find?_accounts, Ledger.find?_accounts, ← kept.same.find]
        rw [Ledger.findOpt_eq, Ledger.findOpt_eq]
        rfl
      have counted : staged.base.activeAccounts = base.activeAccounts := kept.same.activeAccounts
      unfold Ledger.drift
      rw [Table.sumBy_congr Ledger.activeWeight find, counted]
    apply Ledger.activeAccounts_eq_of_drift _ same
    rw [promoted_eq, drift_promotedBase inUse seen (drift ▸ enough), drift]
    exact (Ledger.drift_moves enough (Ledger.moves_answers calls opens)).symm
  · obtain ⟨-, -, unmarking⟩ := answers_spec false start
      (books_create base) calls opens fun entry present burns accepted =>
        absurd accepted (unmarked entry present burns)
    have metadata : staged.base.store.metadata = base.store.metadata := metadata_stagings unmarking
    have all := kept.same
    rw [← metadata] at all
    rw [dropped_eq]
    exact all

/-- An account that may burn, and a stored one. -/
def burnLedger : Ledger where
  store := { accounts := Table.replace ∅ [1] ⟨7, 0, none, none, 0⟩ }
  cache := Table.replace ∅ op01BurnAuthority ⟨5, 0, none, none, 0⟩
  totalSupply := 12
  activeAccounts := 2

theorem overlay_refines_burnLedger :
    let calls : List AccountCall := [.addAccount [2] 3,
      .applyOp01Burn op01BurnAuthority op01BurnAuthority 2 1,
      .debitAmountOnly [1] 7, .debit none [1] 1 1]
    let staged := ((create burnLedger).answers calls).1
    let direct := (burnLedger.answers calls).1
    let promoted := staged.promote.1.base
    let dropped := staged.drop.1.base
    ((create burnLedger).answers calls).2 = (burnLedger.answers calls).2 ∧
      (staged.promote.2 = .ok () ∧
        (∀ addr, promoted.findOpt addr = direct.findOpt addr) ∧
        promoted.totalSupply = direct.totalSupply ∧
        (∀ key, promoted.spentNonces.mem key = direct.spentNonces.mem key) ∧
        promoted.isOp01BurnExecuted = direct.isOp01BurnExecuted ∧
        (burnLedger.accounts.sumBy Ledger.activeWeight ≤ burnLedger.activeAccounts →
          promoted.activeAccounts = direct.activeAccounts)) ∧
      staged.drop.2 = .ok () ∧ BaseKept burnLedger dropped ∧
      ((∀ entry ∈ calls.zip (burnLedger.answers calls).2,
          entry.1.burns = true → entry.2 ≠ .ok ()) →
        burnLedger.SameBooks dropped) := by
  refine overlay_refines burnLedger _ ⟨?_, ?_, ?_, ?_, trivial⟩
  · intro addr opened
    cases opened
    decide +kernel
  · intro addr opened
    cases opened
  · intro addr opened
    cases opened
  · intro addr opened
    cases opened

/-- A dropped overlay leaves the mark of the burn on its base. -/
theorem marked_drop :
    let call := AccountCall.applyOp01Burn op01BurnAuthority op01BurnAuthority 2 1
    let dropped := ((create burnLedger).answers [call]).1.drop.1.base
    burnLedger.OpensAbsent [call] ∧
      burnLedger.isOp01BurnExecuted = false ∧
      dropped.isOp01BurnExecuted = true := by
  refine ⟨⟨fun addr opened => (nomatch opened), trivial⟩, ?_, ?_⟩
  · decide +kernel
  · decide +kernel

end Overlay
end LiteNode
