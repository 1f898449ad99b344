import LiteNode.Ledger.Moves
import LiteNode.Ledger.Refinement

/-!
# Conservation of the supply

In every run of ledger calls the supply stays the sum of all balances, no
balance goes below zero, and no nonce is accepted twice. The number of active
accounts stays right as long as the accounts that hold something are cached,
which is how a ledger is loaded.
-/

namespace LiteNode
namespace Ledger

/-- The supply is the sum of all balances, none is negative, and the supply is
within the cap. -/
structure Conserves (l : Ledger) : Prop where
  supply_eq : l.totalSupply = l.accounts.sumBy Account.balance
  nonneg : ∀ addr account, l.findOpt addr = some account → 0 ≤ account.balance
  capped : l.totalSupply ≤ maxSupply

def activeWeight (account : Account) : Int := if isActiveAccount account then 1 else 0

/-- The active accounts are counted over the cache. -/
def Counted (l : Ledger) : Prop := l.activeAccounts = l.cache.sumBy activeWeight

/-- Stored accounts that hold something are cached. -/
def Loaded (l : Ledger) : Prop :=
  ∀ addr account, l.store.accounts.find? addr = some account →
    isActiveAccount account = true → l.cache.mem addr = true

/-- The call opens no account that exists, and none with a debt. -/
def Admits (l : Ledger) : LedgerCall → Prop
  | .account (.addAccount addr amount) => l.findOpt addr = none ∧ 0 ≤ amount
  | .account (.addAccountWithPubkey addr amount _) => l.findOpt addr = none ∧ 0 ≤ amount
  | _ => True

/-- The ledger after some calls. -/
def after (l : Ledger) : List LedgerCall → Ledger
  | [] => l
  | call :: calls => (l.perform call).1.after calls

/-- Every call of a run is admitted when it is made. -/
def AdmitsAll (l : Ledger) : List LedgerCall → Prop
  | [] => True
  | call :: calls => l.Admits call ∧ (l.perform call).1.AdmitsAll calls

/-- The nonces that the calls of a run spent. -/
def acceptedNonces (l : Ledger) : List LedgerCall → List (Bytes × Int)
  | [] => []
  | call :: calls =>
    let rest := (l.perform call).1.acceptedNonces calls
    match (l.perform call).2 with
    | .ok () => call.nonceKey.toList ++ rest
    | .error _ => rest

theorem conserves_iff_sound (l : Ledger) : l.Conserves ↔ l.books.Sound := by
  constructor
  · intro conserves
    refine ⟨⟨fun addr account found => ?_, conserves.capped⟩, ?_⟩
    · rw [account_books] at found
      exact conserves.nonneg addr account found
    · intro accounts listed
      exact conserves.supply_eq.trans
        (Table.sumBy_congr Account.balance fun addr => (listed addr).symm)
  · intro sound
    refine ⟨sound.supply_eq l.accounts fun _ => rfl, fun addr account found => ?_, sound.capped⟩
    rw [← account_books] at found
    exact sound.nonneg addr account found

variable {call : LedgerCall}

theorem admits_books {l : Ledger} (admits : l.Admits call) : l.books.Admits call := by
  cases call with
  | transfer => exact trivial
  | updateCircleBalance => exact trivial
  | account call =>
    cases call with
    | addAccount addr amount => exact ⟨(account_books l addr).trans admits.1, admits.2⟩
    | addAccountWithPubkey addr amount publicKey =>
      exact ⟨(account_books l addr).trans admits.1, admits.2⟩
    | _ => exact trivial

variable {l l' : Ledger}

/-- An admitted call keeps the supply the sum of the balances. -/
theorem Conserves.perform (conserves : l.Conserves) (admits : l.Admits call) :
    (l.perform call).1.Conserves := by
  have sound := (conserves_iff_sound l).mp conserves
  rw [conserves_iff_sound]
  cases answer : (l.perform call).2 with
  | error error =>
    rw [books_of_refused answer]
    exact sound
  | ok done =>
    obtain ⟨posting, judged, posted⟩ := books_of_accepted answer
    have balanced := (Books.balanced_judgeLedger sound.toBounded (admits_books admits) judged).1
    rw [posted]
    exact sound.post (fun _ => rfl) balanced

theorem spent_perform (conserves : l.Conserves) (admits : l.Admits call) (key : Bytes × Int) :
    (l.perform call).1.spentNonces.mem key = true ↔
      l.spentNonces.mem key = true ∨ (l.perform call).2 = .ok () ∧ call.nonceKey = some key := by
  cases answer : (l.perform call).2 with
  | error error =>
    have same : (l.perform call).1.spentNonces.mem = l.spentNonces.mem :=
      congrArg Books.spent (books_of_refused answer)
    rw [same]
    simp
  | ok done =>
    obtain ⟨posting, judged, posted⟩ := books_of_accepted answer
    have sound := (conserves_iff_sound l).mp conserves
    have spends := (Books.balanced_judgeLedger sound.toBounded (admits_books admits) judged).2
    have same : (l.perform call).1.spentNonces.mem key =
        (l.spentNonces.mem key || decide (posting.spends = some key)) :=
      congrFun (congrArg Books.spent posted) key
    rw [same, spends]
    simp

theorem fresh_perform (conserves : l.Conserves) (admits : l.Admits call)
    (accepted : (l.perform call).2 = .ok ()) {key : Bytes × Int}
    (spends : call.nonceKey = some key) : l.spentNonces.mem key = false := by
  obtain ⟨posting, judged, -⟩ := books_of_accepted accepted
  have sound := (conserves_iff_sound l).mp conserves
  obtain ⟨balanced, spends_eq⟩ := Books.balanced_judgeLedger sound.toBounded
    (admits_books admits) judged
  exact balanced.fresh key (spends_eq.trans spends)

/-- A run accepts every nonce once at most, and none that was spent. -/
theorem acceptedNonces_spec (calls : List LedgerCall) (conserves : l.Conserves)
    (admits : l.AdmitsAll calls) :
    (l.acceptedNonces calls).Nodup ∧
      ∀ key ∈ l.acceptedNonces calls, l.spentNonces.mem key = false := by
  induction calls generalizing l with
  | nil => exact ⟨List.nodup_nil, by simp [acceptedNonces]⟩
  | cons call calls ih =>
    obtain ⟨admitted, later⟩ := admits
    obtain ⟨distinct, unspent⟩ := ih (conserves.perform admitted) later
    have kept : ∀ key ∈ (l.perform call).1.acceptedNonces calls, l.spentNonces.mem key = false := by
      intro key present
      rw [Bool.eq_false_iff]
      intro spent
      have spent' := (spent_perform conserves admitted key).mpr (Or.inl spent)
      rw [unspent key present] at spent'
      cases spent'
    unfold acceptedNonces
    cases answer : (l.perform call).2 with
    | error error => exact ⟨distinct, kept⟩
    | ok done =>
      cases spends : call.nonceKey with
      | none => exact ⟨distinct, kept⟩
      | some key =>
        have fresh := fresh_perform conserves admitted answer spends
        refine ⟨List.nodup_cons.mpr ⟨?_, distinct⟩, ?_⟩
        · intro present
          have spent' := (spent_perform conserves admitted key).mpr (Or.inr ⟨answer, spends⟩)
          rw [unspent key present] at spent'
          cases spent'
        · intro other present
          rcases List.mem_cons.mp present with rfl | later'
          · exact fresh
          · exact kept other later'

/-- Looking up caches no active account if those are cached already. -/
theorem counted_getAccountInternal (counted : l.Counted) (loaded : l.Loaded) (addr : Bytes) :
    (l.getAccountInternal addr).1.Counted ∧ (l.getAccountInternal addr).1.Loaded := by
  unfold getAccountInternal
  cases cached : l.cache.find? addr with
  | some account => exact ⟨counted, loaded⟩
  | none =>
    cases stored : l.store.accounts.find? addr with
    | none => exact ⟨counted, loaded⟩
    | some account =>
      have idle : isActiveAccount account = false := by
        rw [Bool.eq_false_iff]
        intro active
        have bound := loaded addr account stored active
        simp [Table.mem, cached] at bound
      constructor
      · have here : l.cache.weightAt activeWeight addr = 0 := by simp [Table.weightAt, cached]
        have nothing : activeWeight account = 0 := by simp [activeWeight, idle]
        unfold Counted at counted ⊢
        dsimp only
        rw [Table.sumBy_replace, here, nothing]
        omega
      · intro other account' stored' active
        rw [Table.mem_replace, loaded other account' stored' active, Bool.or_true]

theorem activeWeight_nonneg (account : Account) : 0 ≤ activeWeight account := by
  unfold activeWeight
  split <;> omega

/-- A write counts its account in place of the former one. -/
theorem activeAccounts_setAccountInternal {addr : Bytes}
    (counts : l.cache.weightAt activeWeight addr ≤ l.activeAccounts) (account : Account) :
    (l.setAccountInternal addr account).activeAccounts =
      l.activeAccounts - l.cache.weightAt activeWeight addr + activeWeight account := by
  unfold setAccountInternal recordAccount countActive
  dsimp only
  unfold Table.weightAt at counts ⊢
  cases cached : l.cache.find? addr with
  | none =>
    simp only [Option.map_none, Option.getD_none, Bool.false_and,
      Bool.false_eq_true, if_false, Bool.not_false, Bool.true_and]
    unfold activeWeight
    split <;> omega
  | some old =>
    rw [cached] at counts
    simp only [Option.map_some, Option.getD_some, activeWeight] at counts ⊢
    by_cases was : isActiveAccount old = true <;>
      by_cases now : isActiveAccount account = true <;>
      simp [was, now] at counts ⊢
    omega

theorem counted_setAccountInternal (counted : l.Counted) (loaded : l.Loaded) (addr : Bytes)
    (account : Account) :
    (l.setAccountInternal addr account).Counted ∧ (l.setAccountInternal addr account).Loaded := by
  constructor
  · have single := Table.weightAt_le_sumBy
      (fun key value (_ : l.cache.find? key = some value) => activeWeight_nonneg value) addr
    unfold Counted at counted ⊢
    rw [← counted] at single
    rw [activeAccounts_setAccountInternal single, cache_setAccountInternal,
      Table.sumBy_replace, counted]
  · intro other account' stored active
    rw [cache_setAccountInternal, Table.mem_replace,
      loaded other account' stored active, Bool.or_true]

/-- Every call counts the active accounts. -/
theorem counted_perform (counted : l.Counted) (loaded : l.Loaded) (call : LedgerCall) :
    (l.perform call).1.Counted ∧ (l.perform call).1.Loaded := by
  refine (moves_perform l call).keeps (fun l => l.Counted ∧ l.Loaded) ?_ ⟨counted, loaded⟩
  rintro before after ⟨counted, loaded⟩ move
  cases move with
  | load addr => exact counted_getAccountInternal counted loaded addr
  | write addr account => exact counted_setAccountInternal counted loaded addr account
  | adjust => exact ⟨counted, loaded⟩

/-- By how much the count of active accounts is off. -/
def drift (l : Ledger) : Int := l.activeAccounts - l.accounts.sumBy activeWeight

theorem drift_getAccountInternal (l : Ledger) (addr : Bytes) :
    (l.getAccountInternal addr).1.drift = l.drift := by
  have same := sameBooks_getAccountInternal l addr
  have find : ∀ other, (l.getAccountInternal addr).1.accounts.find? other =
      l.accounts.find? other := by
    intro other
    rw [find?_accounts, find?_accounts, same.find]
  unfold drift
  rw [same.activeAccounts, Table.sumBy_congr activeWeight find]

/-- A write of an account that was looked up counts it in place of the former
one. -/
theorem drift_setAccountInternal (enough : 0 ≤ l.drift) {addr : Bytes} (seen : l.Seen addr)
    (account : Account) : (l.setAccountInternal addr account).drift = l.drift := by
  have cached : l.cache.weightAt activeWeight addr = l.accounts.weightAt activeWeight addr := by
    unfold Table.weightAt
    rw [find?_accounts, ← seen]
  have single := Table.weightAt_le_sumBy
    (fun key value (_ : l.accounts.find? key = some value) => activeWeight_nonneg value) addr
  have counts : l.cache.weightAt activeWeight addr ≤ l.activeAccounts := by
    rw [cached]
    unfold drift at enough
    omega
  have find : ∀ other, (l.setAccountInternal addr account).accounts.find?
      other = (l.accounts.replace addr account).find? other := by
    intro other
    rw [find?_accounts, findOpt_setAccountInternal, Table.find?_replace_eq_ite, find?_accounts]
  unfold drift
  rw [activeAccounts_setAccountInternal counts,
    Table.sumBy_congr activeWeight find, Table.sumBy_replace, cached]
  omega

/-- Moves count what they write. -/
theorem drift_moves (enough : 0 ≤ l.drift) (moves : Moves false l l') : l'.drift = l.drift := by
  refine moves.keeps (fun l' => l'.drift = l.drift) ?_ rfl
  intro before after same move
  cases move with
  | load addr => exact (drift_getAccountInternal before addr).trans same
  | write addr account seen =>
    have looked : before.Seen addr := by simpa using seen
    have enough' : 0 ≤ before.drift := by omega
    exact (drift_setAccountInternal enough' looked account).trans same
  | adjust => exact same

/-- Two ledgers whose counts are off by the same amount count alike when they
hold the same accounts. -/
theorem activeAccounts_eq_of_drift (drift : l.drift = l'.drift) (books : l.books = l'.books) :
    l.activeAccounts = l'.activeAccounts := by
  have find : ∀ addr, l.accounts.find? addr = l'.accounts.find? addr :=
    congrFun (congrArg Books.account books)
  have sums := Table.sumBy_congr activeWeight find
  unfold Ledger.drift at drift
  omega

theorem Conserves.after (calls : List LedgerCall) (conserves : l.Conserves)
    (admits : l.AdmitsAll calls) : (l.after calls).Conserves := by
  induction calls generalizing l with
  | nil => exact conserves
  | cons call calls ih => exact ih (conserves.perform admits.1) admits.2

theorem counted_after (calls : List LedgerCall) (counted : l.Counted) (loaded : l.Loaded) :
    (l.after calls).Counted := by
  induction calls generalizing l with
  | nil => exact counted
  | cons call calls ih =>
    obtain ⟨counted', loaded'⟩ := counted_perform counted loaded call
    exact ih counted' loaded'

/-- In every run of calls that open accounts only at absent addresses and
without a debt, the supply is conserved and no nonce is accepted twice. The
active accounts stay counted if those that are stored are cached. A call that is
refused changes no balance, nonce, supply or spent nonce. -/
theorem conserves_run (conserves : l.Conserves) {calls : List LedgerCall}
    (admits : l.AdmitsAll calls) :
    (l.after calls).Conserves ∧
      (l.Counted → l.Loaded → (l.after calls).Counted) ∧
      (l.acceptedNonces calls).Nodup ∧
      (∀ key ∈ l.acceptedNonces calls, l.spentNonces.mem key = false) ∧
      ∀ call error, ((l.after calls).perform call).2 = .error error →
        (∀ addr, ((l.after calls).perform call).1.findOpt addr = (l.after calls).findOpt addr) ∧
        ((l.after calls).perform call).1.totalSupply = (l.after calls).totalSupply ∧
        ∀ key, ((l.after calls).perform call).1.spentNonces.mem key =
          (l.after calls).spentNonces.mem key := by
  obtain ⟨distinct, unspent⟩ := acceptedNonces_spec calls conserves admits
  refine ⟨conserves.after calls admits, counted_after calls, distinct, unspent,
    fun call error refused => ?_⟩
  have same := books_of_refused refused
  refine ⟨fun addr => ?_, congrArg Books.supply same, congrFun (congrArg Books.spent same)⟩
  rw [← account_books, ← account_books, same]

/-- A stored account that is not cached yet. -/
def lazyLedger : Ledger where
  store := { accounts := Table.replace ∅ [1] ⟨5, 0, none, none, 0⟩ }
  totalSupply := 5

theorem conserves_lazyLedger : lazyLedger.Conserves where
  supply_eq := by decide +kernel
  nonneg := by
    intro addr account found
    rw [findOpt_eq] at found
    simp only [lazyLedger, Table.find?_empty, Option.none_or, Table.find?_replace_eq_ite] at found
    split at found
    · cases found
      decide
    · cases found
  capped := by decide

theorem conserves_empty : ({} : Ledger).Conserves where
  supply_eq := rfl
  nonneg := by
    intro addr account found
    rw [findOpt_eq] at found
    simp at found
  capped := by decide

/-- Looking up a stored account caches it without counting it, and an account
can be opened with a debt. -/
theorem not_conserves_freely :
    (lazyLedger.Conserves ∧ lazyLedger.Counted ∧
      ¬ (lazyLedger.perform (.account (.credit none [1] 0))).1.Counted) ∧
    ({} : Ledger).Conserves ∧ ({} : Ledger).findOpt [1] = none ∧
      ¬ (({} : Ledger).perform (.account (.addAccount [1] (-1)))).1.Conserves := by
  refine ⟨⟨conserves_lazyLedger, by unfold Counted; decide +kernel, ?_⟩,
    conserves_empty, rfl, ?_⟩
  · unfold Counted
    decide +kernel
  · intro conserves
    have debt := conserves.nonneg [1] { emptyAccount with balance := -1 } (by decide +kernel)
    revert debt
    decide

/-- One account of a hundred units, stored and loaded. -/
def fundedLedger : Ledger where
  store := { accounts := Table.replace ∅ [1] ⟨100, 0, none, none, 0⟩ }
  cache := Table.replace ∅ [1] ⟨100, 0, none, none, 0⟩
  totalSupply := 100
  activeAccounts := 1

theorem conserves_fundedLedger : fundedLedger.Conserves where
  supply_eq := by decide +kernel
  nonneg := by
    intro addr account found
    rw [findOpt_eq] at found
    simp only [fundedLedger, Table.find?_replace_eq_ite, Table.find?_empty] at found
    split at found
    · cases found
      decide
    · cases found
  capped := by decide

/-- A transfer, a transfer to oneself, and a refused debit. -/
def fundedCalls : List LedgerCall :=
  [.transfer [1] [2] 30 1 1, .transfer [1] [1] 5 1 2, .account (.debit none [1] 10 2)]

theorem conserves_fundedRun :
    (fundedLedger.after fundedCalls).Conserves ∧
      (fundedLedger.Counted → fundedLedger.Loaded →
        (fundedLedger.after fundedCalls).Counted) ∧
      (fundedLedger.acceptedNonces fundedCalls).Nodup ∧
      (∀ key ∈ fundedLedger.acceptedNonces fundedCalls,
        fundedLedger.spentNonces.mem key = false) ∧
      ∀ call error,
        ((fundedLedger.after fundedCalls).perform call).2 = .error error →
        (∀ addr,
          ((fundedLedger.after fundedCalls).perform call).1.findOpt addr =
            (fundedLedger.after fundedCalls).findOpt addr) ∧
        ((fundedLedger.after fundedCalls).perform call).1.totalSupply =
          (fundedLedger.after fundedCalls).totalSupply ∧
        ∀ key,
          ((fundedLedger.after fundedCalls).perform call).1.spentNonces.mem
              key =
            (fundedLedger.after fundedCalls).spentNonces.mem key :=
  conserves_run conserves_fundedLedger ⟨trivial, trivial, trivial, trivial⟩

end Ledger
end LiteNode
