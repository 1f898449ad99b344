import LiteNode.Ledger.OverlayRefinement

/-!
# Runs of overlays

Transactions work on a ledger one after the other, each through an overlay that
is promoted in the end, or dropped. Over any run of them the supply stays the
sum of all balances, and no nonce is accepted twice.
-/

namespace LiteNode
namespace Ledger

/-- Calls through an overlay, and whether it is promoted in the end. -/
structure Effects where
  calls : List AccountCall
  commits : Bool

def staged (l : Ledger) (effects : Effects) : Overlay × List (Except LedgerError Unit) :=
  (Overlay.create l).answers effects.calls

/-- The ledger once the overlay is done with. -/
def settle (l : Ledger) (effects : Effects) : Ledger :=
  if effects.commits then (l.staged effects).1.promote.1.base else (l.staged effects).1.drop.1.base

/-- The nonces of the calls that were answered without an error. -/
def noncesOf (calls : List AccountCall) (answers : List (Except LedgerError Unit)) :
    List (Bytes × Int) :=
  (calls.zip answers).flatMap fun (call, answer) =>
    if answer.isOk then (LedgerCall.account call).nonceKey.toList else []

/-- The nonces that are spent for good. -/
def spentBy (l : Ledger) (effects : Effects) : List (Bytes × Int) :=
  if effects.commits then noncesOf effects.calls (l.staged effects).2 else []

def settleAll (l : Ledger) : List Effects → Ledger
  | [] => l
  | effects :: rest => (l.settle effects).settleAll rest

def spentByAll (l : Ledger) : List Effects → List (Bytes × Int)
  | [] => []
  | effects :: rest => l.spentBy effects ++ (l.settle effects).spentByAll rest

/-- Every call of a run would be admitted by the ledger at the time. -/
def AdmitsEffects (l : Ledger) : List Effects → Prop
  | [] => True
  | effects :: rest =>
    l.AdmitsAll (effects.calls.map .account) ∧ (l.settle effects).AdmitsEffects rest

variable {l : Ledger} {calls : List AccountCall} {effects : Effects} {key : Bytes × Int}

theorem answers_eq (l : Ledger) (calls : List AccountCall) :
    (l.answers calls).1 = l.after (calls.map .account) ∧
      noncesOf calls (l.answers calls).2 = l.acceptedNonces (calls.map .account) := by
  induction calls generalizing l with
  | nil => exact ⟨rfl, rfl⟩
  | cons call calls ih =>
    refine ⟨(ih _).1, ?_⟩
    change (if (l.perform (.account call)).2.isOk then _ else _) ++ noncesOf calls _ = _
    rw [(ih _).2, List.map_cons, acceptedNonces]
    cases (l.perform (.account call)).2 <;> rfl

theorem AdmitsAll.opensAbsent (admits : l.AdmitsAll (calls.map .account)) :
    l.OpensAbsent calls := by
  induction calls generalizing l with
  | nil => exact trivial
  | cons call calls ih =>
    refine ⟨fun addr opened => ?_, ih admits.2⟩
    have admitted := admits.1
    cases call with
    | addAccount | addAccountWithPubkey =>
      cases opened
      exact admitted.1
    | _ => cases opened

/-- A run spends what was spent before and what it accepts. -/
theorem spent_after {calls : List LedgerCall} (conserves : l.Conserves)
    (admits : l.AdmitsAll calls) : (l.after calls).spentNonces.mem key = true ↔
      l.spentNonces.mem key = true ∨ key ∈ l.acceptedNonces calls := by
  induction calls generalizing l with
  | nil => simp [after, acceptedNonces]
  | cons call calls ih =>
    have performed := spent_perform conserves admits.1 key
    have rest := ih (conserves.perform admits.1) admits.2
    unfold after acceptedNonces
    cases answer : (l.perform call).2 with
    | error => simp [rest, performed, answer]
    | ok => simp [rest, performed, answer, or_assoc]

/-- A promoted overlay leaves the books that its calls would have left, and a
dropped one leaves the accounts, the supply and the nonces. -/
theorem settle_spec (opens : l.OpensAbsent effects.calls) :
    (l.staged effects).2 = (l.answers effects.calls).2 ∧
    if effects.commits then (l.settle effects).books = (l.answers effects.calls).1.books
    else (∀ addr, (l.settle effects).findOpt addr = l.findOpt addr) ∧
      (l.settle effects).totalSupply = l.totalSupply ∧
      (l.settle effects).spentNonces = l.spentNonces := by
  have nothing : (Overlay.create l).StagedSeen := by
    intro addr present
    rw [Overlay.create, Table.mem_empty] at present
    cases present
  obtain ⟨answers, books, stagings⟩ := Overlay.answers_spec true (Overlay.inUse_create l)
    (Overlay.books_create l) effects.calls opens fun _ _ _ _ => rfl
  have inUse := (Overlay.inUse_create l).stagings stagings
  refine ⟨answers, ?_⟩
  unfold settle
  cases effects.commits with
  | true =>
    change (Overlay.promote _).1.base.books = _
    unfold Overlay.promote
    rw [staged, Overlay.whenActive_of_inUse inUse, ← books]
    exact Overlay.books_promotedBase inUse (nothing.stagings stagings)
  | false =>
    have kept := ((Overlay.BaseKept.refl l).stagings stagings).same
    change (∀ addr, (Overlay.drop _).1.base.findOpt addr = _) ∧
      (Overlay.drop _).1.base.totalSupply = _ ∧ (Overlay.drop _).1.base.spentNonces = _
    unfold Overlay.drop
    rw [staged, Overlay.whenActive_of_inUse inUse]
    refine ⟨fun addr => ?_, kept.totalSupply, kept.spentNonces⟩
    rw [← kept.find, findOpt_eq, findOpt_eq]
    rfl

theorem Conserves.of_same {l' : Ledger} (conserves : l.Conserves)
    (find : ∀ addr, l'.findOpt addr = l.findOpt addr) (supply : l'.totalSupply = l.totalSupply) :
    l'.Conserves where
  supply_eq := by
    rw [supply, conserves.supply_eq]
    refine Table.sumBy_congr Account.balance fun addr => ?_
    rw [find?_accounts, find?_accounts, find]
  nonneg addr account found := conserves.nonneg addr account (find addr ▸ found)
  capped := supply ▸ conserves.capped

/-- An overlay conserves the supply, accepts every nonce once at most and none
that was spent, and those are spent from then on if it is promoted. -/
theorem Conserves.settle (conserves : l.Conserves)
    (admits : l.AdmitsAll (effects.calls.map .account)) :
    (l.settle effects).Conserves ∧ (l.spentBy effects).Nodup ∧
      (∀ key ∈ l.spentBy effects, l.spentNonces.mem key = false) ∧
      ∀ key, (l.settle effects).spentNonces.mem key = true ↔
        l.spentNonces.mem key = true ∨ key ∈ l.spentBy effects := by
  obtain ⟨answers, settled⟩ := settle_spec admits.opensAbsent
  obtain ⟨after, nonces⟩ := answers_eq l effects.calls
  unfold spentBy
  split at settled
  · obtain ⟨distinct, unspent⟩ := acceptedNonces_spec _ conserves admits
    rw [after] at settled
    rw [if_pos ‹_›, answers, nonces, conserves_iff_sound, settled, ← conserves_iff_sound]
    refine ⟨conserves.after _ admits, distinct, unspent, fun key => ?_⟩
    have spent : (l.settle effects).spentNonces.mem key = _ :=
      congrFun (congrArg Books.spent settled) key
    exact spent ▸ spent_after conserves admits
  · obtain ⟨find, supply, spent⟩ := settled
    rw [if_neg ‹_›]
    exact ⟨conserves.of_same find supply, List.nodup_nil, by simp, by simp [spent]⟩

/-- Over every run of overlays the supply is conserved, and no nonce is accepted
twice by those that are promoted. -/
theorem conserves_settleAll (conserves : l.Conserves) {run : List Effects}
    (admits : l.AdmitsEffects run) :
    (l.settleAll run).Conserves ∧ (l.spentByAll run).Nodup ∧
      ∀ key ∈ l.spentByAll run, l.spentNonces.mem key = false := by
  induction run generalizing l with
  | nil => exact ⟨conserves, List.nodup_nil, by simp [spentByAll]⟩
  | cons effects rest ih =>
    obtain ⟨settled, distinct, unspent, spent⟩ := conserves.settle admits.1
    obtain ⟨conserved, distinct', unspent'⟩ := ih settled admits.2
    have kept : ∀ key ∈ (l.settle effects).spentByAll rest,
        ¬ (l.spentNonces.mem key = true ∨ key ∈ l.spentBy effects) := by
      intro key later
      rw [← spent key, unspent' key later]
      exact Bool.false_ne_true
    refine ⟨conserved, List.nodup_append'.mpr ⟨distinct, distinct', ?_⟩, fun key listed => ?_⟩
    · intro key first later
      exact kept key later (Or.inr first)
    · rcases List.mem_append.mp listed with first | later
      · exact unspent key first
      · exact Bool.eq_false_iff.mpr fun before => kept key later (Or.inl before)

/-- A debit that is dropped is accepted again, by an overlay that is promoted. -/
theorem conserves_settleAll_twoOverlays :
    let calls := [.debit none [1] 10 1, .credit none [2] 10]
    let run : List Effects := [⟨calls, false⟩, ⟨calls, true⟩]
    (fundedLedger.settleAll run).Conserves ∧ (fundedLedger.spentByAll run).Nodup ∧
      ∀ key ∈ fundedLedger.spentByAll run, fundedLedger.spentNonces.mem key = false :=
  conserves_settleAll conserves_fundedLedger
    ⟨⟨trivial, trivial, trivial⟩, ⟨trivial, trivial, trivial⟩, trivial⟩

end Ledger
end LiteNode
