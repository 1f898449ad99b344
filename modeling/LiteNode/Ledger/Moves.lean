import LiteNode.Ledger.Operations

/-!
# What calls do to a ledger

Every call of a ledger is a sequence of three kinds of moves: an account is
looked up, an account is written, or totals and metadata are set. Whatever each
of them keeps, every call keeps. All calls look at an account before they write
it, but for those that open one.
-/

namespace LiteNode
namespace Ledger

/-- The cache holds what a lookup of the address finds. -/
def Seen (l : Ledger) (addr : Bytes) : Prop := l.cache.find? addr = l.findOpt addr

/-- One step of a call. Only blind steps write an account that was not looked
up. -/
inductive Move (blind : Bool) (l : Ledger) : Ledger → Prop
  | load (addr : Bytes) : Move blind l (l.getAccountInternal addr).1
  | write (addr : Bytes) (account : Account) (seen : blind = true ∨ l.Seen addr) :
      Move blind l (l.setAccountInternal addr account)
  | adjust (totalSupply : Int) (spentNonces : Table (Bytes × Int) Unit)
      (metadata : Table String String) (circleBalances : Table Bytes Bytes) :
      Move blind l { l with
        totalSupply, spentNonces
        store := { l.store with metadata, circleBalances } }

abbrev Moves (blind : Bool) : Ledger → Ledger → Prop := Relation.ReflTransGen (Move blind)

variable {blind : Bool} {l l' : Ledger}

theorem Moves.keeps (moves : Moves blind l l') (invariant : Ledger → Prop)
    (keeps : ∀ before after, invariant before → Move blind before after →
      invariant after) (start : invariant l) : invariant l' := by
  induction moves with
  | refl => exact start
  | tail _ move ih => exact keeps _ _ ih move

theorem Moves.load (moves : Moves blind l l') (addr : Bytes) :
    Moves blind l (l'.getAccountInternal addr).1 :=
  moves.tail (Move.load addr)

variable {addr : Bytes}

theorem Moves.write (moves : Moves blind l l') (account : Account) (seen : l'.Seen addr) :
    Moves blind l (l'.setAccountInternal addr account) :=
  moves.tail (Move.write addr account (Or.inr seen))

theorem Moves.spend (moves : Moves blind l l') (totalSupply : Int)
    (spentNonces : Table (Bytes × Int) Unit) : Moves blind l { l' with totalSupply, spentNonces } :=
  moves.tail (Move.adjust totalSupply spentNonces l'.store.metadata l'.store.circleBalances)

theorem Moves.supply (moves : Moves blind l l') (totalSupply : Int) :
    Moves blind l { l' with totalSupply } :=
  moves.spend totalSupply l'.spentNonces

theorem moves_refl (l : Ledger) : Moves blind l l := Relation.ReflTransGen.refl

theorem moves_load (l : Ledger) (addr : Bytes) : Moves blind l (l.getAccountInternal addr).1 :=
  (moves_refl l).load addr

theorem seen_getAccountInternal (l : Ledger) (addr : Bytes) :
    (l.getAccountInternal addr).1.Seen addr :=
  (find?_getAccountInternal l addr).trans ((sameBooks_getAccountInternal l addr).find addr).symm

theorem seen_of_absent (absent : l.findOpt addr = none) : l.Seen addr := by
  unfold Seen
  rw [absent]
  rw [findOpt_eq, Option.or_eq_none_iff] at absent
  exact absent.1

theorem Seen.load (seen : l.Seen addr) (other : Bytes) :
    (l.getAccountInternal other).1.Seen addr := by
  by_cases same : addr = other
  · rw [same]
    exact seen_getAccountInternal l other
  · unfold Seen
    rw [find?_getAccountInternal_ne l same, (sameBooks_getAccountInternal l other).find]
    exact seen

theorem seen_setAccountInternal (l : Ledger) (addr : Bytes) (account : Account) :
    (l.setAccountInternal addr account).Seen addr := by
  unfold Seen
  rw [findOpt_setAccountInternal, if_pos rfl]
  exact Table.find?_replace _ _ _

theorem Seen.write (seen : l.Seen addr) (other : Bytes) (account : Account) :
    (l.setAccountInternal other account).Seen addr := by
  by_cases same : addr = other
  · rw [same]
    exact seen_setAccountInternal l other account
  · unfold Seen
    rw [cache_setAccountInternal, Table.find?_replace_ne same,
      findOpt_setAccountInternal, if_neg same]
    exact seen

theorem moves_addAccount (l : Ledger) (seen : blind = true ∨ l.Seen addr)
    (amount : Int) : Moves blind l (l.addAccount addr amount).1 := by
  unfold addAccount
  split
  · exact moves_refl l
  · have wrote : Moves blind l _ := (moves_refl l).tail (Move.write addr
      { emptyAccount with balance := amount } seen)
    exact wrote.supply _

theorem moves_addAccountWithPubkey (l : Ledger) (seen : blind = true ∨ l.Seen addr)
    (amount : Int) (publicKey : Bytes) :
    Moves blind l (l.addAccountWithPubkey addr amount publicKey).1 := by
  unfold addAccountWithPubkey
  split
  · exact moves_refl l
  · have wrote : Moves blind l _ := (moves_refl l).tail (Move.write addr
      { emptyAccount with balance := amount, publicKey := some publicKey }
      seen)
    exact wrote.supply _

theorem moves_update (l : Ledger) (addr : Bytes) (change : Account → Account) :
    Moves blind l (l.update addr change) := by
  have loaded : Moves blind l _ := moves_load l addr
  have seen := seen_getAccountInternal l addr
  unfold update
  split
  · next found =>
    rw [found] at loaded
    exact loaded
  · next found =>
    rw [found] at loaded seen
    exact loaded.write _ seen

theorem moves_credit (l : Ledger) (encryptedBalance : Option Bytes) (addr : Bytes)
    (amount : Int) : Moves blind l (l.credit encryptedBalance addr amount).1 := by
  unfold credit
  split
  · exact moves_refl l
  split
  · exact moves_refl l
  have seen := seen_getAccountInternal l addr
  exact ((moves_load l addr).write _ seen).supply _

theorem moves_debit (l : Ledger) (encryptedBalance : Option Bytes) (addr : Bytes)
    (amount nonce : Int) : Moves blind l (l.debit encryptedBalance addr amount nonce).1 := by
  have loaded : Moves blind l _ := moves_load l addr
  have seen := seen_getAccountInternal l addr
  unfold debit
  split
  · exact moves_refl l
  split
  · next found =>
    rw [found] at loaded
    exact loaded
  · next found =>
    rw [found] at loaded seen
    iterate 3
      split
      · exact loaded
    exact (loaded.write _ seen).spend _ _

theorem moves_debitAmountOnly (l : Ledger) (addr : Bytes) (amount : Int) :
    Moves blind l (l.debitAmountOnly addr amount).1 := by
  have loaded : Moves blind l _ := moves_load l addr
  have seen := seen_getAccountInternal l addr
  unfold debitAmountOnly
  split
  · exact moves_refl l
  split
  · next found =>
    rw [found] at loaded
    exact loaded
  · next found =>
    rw [found] at loaded seen
    split
    · exact loaded
    exact (loaded.write _ seen).supply _

theorem moves_transfer (l : Ledger) (sender receiver : Bytes) (amount fee nonce : Int) :
    Moves blind l (l.transfer sender receiver amount fee nonce).1 := by
  have loaded : Moves blind l _ := moves_load l sender
  have seen := seen_getAccountInternal l sender
  unfold transfer
  dsimp only
  split
  · exact moves_refl l
  split
  · next found =>
    rw [found] at loaded
    exact loaded
  · next l' account found =>
    rw [found] at loaded seen
    iterate 5
      split
      · exact loaded
    split
    · exact (loaded.write _ seen).spend _ _
    · have loaded' := loaded.load receiver
      have seen' := seen_getAccountInternal l' receiver
      have paid := loaded'.write
        { account with balance := account.balance - (amount + fee), nonce }
        (seen.load receiver)
      exact (paid.write _ (seen'.write sender _)).spend _ _

theorem moves_applyOp01Burn (l : Ledger) (sender receiver : Bytes) (amount nonce : Int) :
    Moves blind l (l.applyOp01Burn sender receiver amount nonce).1 := by
  have debited : Moves blind l _ := moves_debit l none sender amount nonce
  unfold applyOp01Burn
  iterate 4
    split
    · exact moves_refl l
  split
  · next refused =>
    rw [refused] at debited
    exact debited
  · next l' accepted =>
    rw [accepted] at debited
    exact debited.tail (Move.adjust l'.totalSupply l'.spentNonces
      (l'.store.metadata.replace op01BurnMetaKey "true")
      l'.store.circleBalances)

theorem moves_answer (l : Ledger) {call : AccountCall}
    (seen : ∀ addr, call.opens = some addr → blind = true ∨ l.Seen addr) :
    Moves blind l (l.answer call).1 := by
  cases call with
  | find addr => exact moves_load l addr
  | addAccount addr amount => exact moves_addAccount l (seen addr rfl) amount
  | addAccountWithPubkey addr amount publicKey =>
    exact moves_addAccountWithPubkey l (seen addr rfl) amount publicKey
  | registerPublicKey addr publicKey => exact moves_update l addr _
  | updateDecryptAllowance addr value => exact moves_update l addr _
  | updateEncBalance addr cipher => exact moves_update l addr _
  | clearEncryptedBalance addr => exact moves_update l addr _
  | credit encryptedBalance addr amount => exact moves_credit l encryptedBalance addr amount
  | debit encryptedBalance addr amount nonce =>
    exact moves_debit l encryptedBalance addr amount nonce
  | debitAmountOnly addr amount => exact moves_debitAmountOnly l addr amount
  | applyOp01Burn sender receiver amount nonce =>
    exact moves_applyOp01Burn l sender receiver amount nonce

/-- Every call is a sequence of moves. -/
theorem moves_perform (l : Ledger) (call : LedgerCall) : Moves true l (l.perform call).1 := by
  cases call with
  | account call => exact moves_answer l fun _ _ => Or.inl rfl
  | transfer sender receiver amount fee nonce =>
    exact moves_transfer l sender receiver amount fee nonce
  | updateCircleBalance addr cipher =>
    exact (moves_refl l).tail (Move.adjust l.totalSupply l.spentNonces
      l.store.metadata (l.store.circleBalances.replace addr cipher))

end Ledger
end LiteNode
