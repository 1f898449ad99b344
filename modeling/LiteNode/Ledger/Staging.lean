import LiteNode.Ledger.Overlay
import LiteNode.Ledger.Moves

/-!
# What calls do to an overlay

Every call of an overlay is a sequence of steps: an account is looked up, an
account is staged, the staged totals are set, or the base is marked as burned.
None of them writes an account of the base, and all that is staged was looked up
before.
-/

namespace LiteNode
namespace Overlay

def findOpt (o : Overlay) (addr : Bytes) : Option Account := (o.read addr).2

/-- Neither promoted nor dropped, and nothing is deleted. -/
structure InUse (o : Overlay) : Prop where
  notPromoted : o.promoted = false
  notDropped : o.dropped = false
  undeleted : ∀ addr, o.deleted.mem addr = false

/-- The account is staged, or the base has looked it up. -/
def Seen (o : Overlay) (addr : Bytes) : Prop := o.accounts.mem addr = true ∨ o.base.Seen addr

/-- One step of a call. Only a marking step marks the base as burned. -/
inductive Staging (marking : Bool) (o : Overlay) : Overlay → Prop
  | load (addr : Bytes) : Staging marking o (o.read addr).1
  | write (addr : Bytes) (account : Account) (seen : o.Seen addr) :
      Staging marking o (o.write addr account)
  | adjust (supplyDelta : Int) (pendingNonces : Table (Bytes × Int) Unit) :
      Staging marking o { o with supplyDelta, pendingNonces }
  | mark (marks : marking = true) :
      Staging marking o { o with base := o.base.markOp01BurnExecuted }

abbrev Stagings (marking : Bool) : Overlay → Overlay → Prop :=
  Relation.ReflTransGen (Staging marking)

variable {marking : Bool} {o o' : Overlay}

theorem whenActive_of_inUse (inUse : o.InUse) (act : Overlay × Except LedgerError Unit) :
    o.whenActive act = act := by
  unfold whenActive assertActive
  rw [inUse.notPromoted, inUse.notDropped]
  rfl

theorem inUse_create (base : Ledger) : (create base).InUse := ⟨rfl, rfl, fun _ => Table.mem_empty _⟩

/-- What is staged hides the base. -/
theorem findOpt_eq (inUse : o.InUse) (addr : Bytes) :
    o.findOpt addr = (o.accounts.find? addr).or (o.base.findOpt addr) := by
  unfold findOpt read
  rw [inUse.undeleted, if_neg Bool.false_ne_true]
  cases o.accounts.find? addr <;> rfl

/-- A lookup leaves the overlay but for the base, which looks up at most. -/
theorem read_eq (o : Overlay) (addr : Bytes) :
    (o.read addr).1 = o ∨
      (o.read addr).1 = { o with base := (o.base.getAccountInternal addr).1 } := by
  unfold read
  split
  · exact Or.inl rfl
  · split
    · exact Or.inl rfl
    · exact Or.inr rfl

theorem seen_read (inUse : o.InUse) (addr : Bytes) : (o.read addr).1.Seen addr := by
  unfold read
  rw [inUse.undeleted, if_neg Bool.false_ne_true]
  cases staged : o.accounts.find? addr with
  | some account => exact Or.inl (Table.mem_iff.mpr ⟨account, staged⟩)
  | none => exact Or.inr (Ledger.seen_getAccountInternal o.base addr)

variable {addr : Bytes}

theorem seen_of_absent (inUse : o.InUse) (absent : o.findOpt addr = none) : o.Seen addr := by
  rw [findOpt_eq inUse, Option.or_eq_none_iff] at absent
  exact Or.inr (Ledger.seen_of_absent absent.2)

theorem InUse.read (inUse : o.InUse) (addr : Bytes) : (o.read addr).1.InUse := by
  rcases read_eq o addr with same | loaded
  · rw [same]
    exact inUse
  · rw [loaded]
    exact ⟨inUse.notPromoted, inUse.notDropped, inUse.undeleted⟩

theorem InUse.write (inUse : o.InUse) (addr : Bytes) (account : Account) :
    (o.write addr account).InUse := by
  refine ⟨inUse.notPromoted, inUse.notDropped, fun other => ?_⟩
  have former := inUse.undeleted other
  rw [← Table.find?_eq_none_iff] at former ⊢
  change (o.deleted.remove addr).find? other = none
  rw [Table.find?_remove_eq_ite, former, ite_self]

theorem InUse.staging (inUse : o.InUse) (staging : Staging marking o o') : o'.InUse := by
  cases staging with
  | load addr => exact inUse.read addr
  | write addr account => exact inUse.write addr account
  | adjust | mark => exact ⟨inUse.notPromoted, inUse.notDropped, inUse.undeleted⟩

theorem InUse.stagings (inUse : o.InUse) (stagings : Stagings marking o o') : o'.InUse := by
  induction stagings with
  | refl => exact inUse
  | tail _ staging ih => exact ih.staging staging

/-- The base makes moves of its own, which write nothing. -/
theorem seen_base_staging (staging : Staging marking o o')
    (seen : o.base.Seen addr) : o'.base.Seen addr := by
  cases staging with
  | load other =>
    rcases read_eq o other with same | loaded
    · rw [same]
      exact seen
    · rw [loaded]
      exact seen.load other
  | write => exact seen
  | adjust => exact seen
  | mark =>
    unfold Ledger.Seen at seen ⊢
    rw [Ledger.findOpt_eq] at seen ⊢
    exact seen

/-- Everything staged was looked up in the base. -/
def StagedSeen (o : Overlay) : Prop := ∀ addr, o.accounts.mem addr = true → o.base.Seen addr

theorem StagedSeen.staging (staged : o.StagedSeen) (staging : Staging marking o o') :
    o'.StagedSeen := by
  intro addr present
  apply seen_base_staging staging
  cases staging with
  | load other =>
    apply staged
    rcases read_eq o other with same | loaded
    · rwa [same] at present
    · rwa [loaded] at present
  | write other account seen =>
    change (o.accounts.replace other account).mem addr = true at present
    rw [Table.mem_replace, Bool.or_eq_true, decide_eq_true_eq] at present
    rcases present with rfl | former
    · exact seen.elim (staged addr) id
    · exact staged addr former
  | adjust => exact staged addr present
  | mark => exact staged addr present

theorem StagedSeen.stagings (staged : o.StagedSeen) (stagings : Stagings marking o o') :
    o'.StagedSeen := by
  induction stagings with
  | refl => exact staged
  | tail _ staging ih => exact ih.staging staging

theorem stagings_refl (o : Overlay) : Stagings marking o o := Relation.ReflTransGen.refl

theorem stagings_load (o : Overlay) (addr : Bytes) : Stagings marking o (o.read addr).1 :=
  (stagings_refl o).tail (Staging.load addr)

theorem Stagings.write (stagings : Stagings marking o o') (account : Account)
    (seen : o'.Seen addr) : Stagings marking o (o'.write addr account) :=
  stagings.tail (Staging.write addr account seen)

theorem Stagings.spend (stagings : Stagings marking o o') (supplyDelta : Int)
    (pendingNonces : Table (Bytes × Int) Unit) :
    Stagings marking o { o' with supplyDelta, pendingNonces } :=
  stagings.tail (Staging.adjust supplyDelta pendingNonces)

theorem Stagings.supply (stagings : Stagings marking o o') (supplyDelta : Int) :
    Stagings marking o { o' with supplyDelta } :=
  stagings.spend supplyDelta o'.pendingNonces

section operations

variable (inUse : o.InUse)

include inUse

theorem stagings_addAccount {addr : Bytes} (seen : o.Seen addr) (amount : Int) :
    Stagings marking o (o.addAccount addr amount).1 := by
  unfold addAccount
  rw [whenActive_of_inUse inUse]
  split
  · exact stagings_refl o
  · exact ((stagings_refl o).write _ seen).supply _

theorem stagings_addAccountWithPubkey
    {addr : Bytes} (seen : o.Seen addr) (amount : Int) (publicKey : Bytes) :
    Stagings marking o (o.addAccountWithPubkey addr amount publicKey).1 := by
  unfold addAccountWithPubkey
  rw [whenActive_of_inUse inUse]
  split
  · exact stagings_refl o
  · exact ((stagings_refl o).write _ seen).supply _

theorem stagings_update (addr : Bytes) (change : Account → Account) :
    Stagings marking o (o.update addr change).1 := by
  have loaded : Stagings marking o _ := stagings_load o addr
  have seen := seen_read inUse addr
  unfold update
  rw [whenActive_of_inUse inUse]
  split
  · next found =>
    rw [found] at loaded
    exact loaded
  · next found =>
    rw [found] at loaded seen
    exact loaded.write _ seen

theorem stagings_credit (encryptedBalance : Option Bytes) (addr : Bytes) (amount : Int) :
    Stagings marking o (o.credit encryptedBalance addr amount).1 := by
  unfold credit
  rw [whenActive_of_inUse inUse]
  split
  · exact stagings_refl o
  split
  · exact stagings_refl o
  have seen := seen_read inUse addr
  exact ((stagings_load o addr).write _ seen).supply _

theorem stagings_debit (encryptedBalance : Option Bytes) (addr : Bytes) (amount nonce : Int) :
    Stagings marking o (o.debit encryptedBalance addr amount nonce).1 := by
  have loaded : Stagings marking o _ := stagings_load o addr
  have seen := seen_read inUse addr
  unfold debit
  rw [whenActive_of_inUse inUse]
  split
  · exact stagings_refl o
  split
  · next found =>
    rw [found] at loaded
    exact loaded
  · next found =>
    rw [found] at loaded seen
    iterate 3
      split
      · exact loaded
    exact (loaded.write _ seen).spend _ _

theorem stagings_debitAmountOnly (addr : Bytes) (amount : Int) :
    Stagings marking o (o.debitAmountOnly addr amount).1 := by
  have loaded : Stagings marking o _ := stagings_load o addr
  have seen := seen_read inUse addr
  unfold debitAmountOnly
  rw [whenActive_of_inUse inUse]
  split
  · exact stagings_refl o
  split
  · next found =>
    rw [found] at loaded
    exact loaded
  · next found =>
    rw [found] at loaded seen
    split
    · exact loaded
    exact (loaded.write _ seen).supply _

/-- The burn marks the base only if it is accepted. -/
theorem stagings_applyOp01Burn (sender receiver : Bytes) (amount nonce : Int)
    (marks : (o.applyOp01Burn sender receiver amount nonce).2 = .ok () → marking = true) :
    Stagings marking o (o.applyOp01Burn sender receiver amount nonce).1 := by
  have debited : Stagings marking o _ := stagings_debit inUse none sender amount nonce
  revert marks
  unfold applyOp01Burn
  iterate 4
    split
    · exact fun _ => stagings_refl o
  split
  · next refused =>
    rw [refused] at debited
    exact fun _ => debited
  · next accepted =>
    rw [accepted] at debited
    exact fun marks => debited.tail (Staging.mark (marks rfl))

theorem stagings_answer {call : AccountCall}
    (absent : ∀ addr, call.opens = some addr → o.findOpt addr = none)
    (marks : call.burns = true → (o.answer call).2 = .ok () → marking = true) :
    Stagings marking o (o.answer call).1 := by
  cases call with
  | find addr =>
    change Stagings marking o (o.whenActive ((o.read addr).1, .ok ())).1
    rw [whenActive_of_inUse inUse]
    exact stagings_load o addr
  | addAccount addr amount =>
    exact stagings_addAccount inUse (seen_of_absent inUse (absent addr rfl)) amount
  | addAccountWithPubkey addr amount publicKey =>
    exact stagings_addAccountWithPubkey inUse
      (seen_of_absent inUse (absent addr rfl)) amount publicKey
  | registerPublicKey addr publicKey => exact stagings_update inUse addr _
  | updateDecryptAllowance addr value => exact stagings_update inUse addr _
  | updateEncBalance addr cipher => exact stagings_update inUse addr _
  | clearEncryptedBalance addr => exact stagings_update inUse addr _
  | credit encryptedBalance addr amount => exact stagings_credit inUse encryptedBalance addr amount
  | debit encryptedBalance addr amount nonce =>
    exact stagings_debit inUse encryptedBalance addr amount nonce
  | debitAmountOnly addr amount => exact stagings_debitAmountOnly inUse addr amount
  | applyOp01Burn sender receiver amount nonce =>
    exact stagings_applyOp01Burn inUse sender receiver amount nonce (marks rfl)

end operations

/-- A ledger over a store with other metadata. -/
def withMetadata (l : Ledger) (metadata : Table String String) : Ledger :=
  { l with store := { l.store with metadata } }

/-- The base differs from what it was in what is cached, and in the mark of the
burn. -/
structure BaseKept (base base' : Ledger) : Prop where
  same : base.SameBooks (withMetadata base' base.store.metadata)
  others : ∀ key, key ≠ op01BurnMetaKey →
    base'.store.metadata.find? key = base.store.metadata.find? key

variable {base l l' : Ledger}

theorem BaseKept.refl (base : Ledger) : BaseKept base base :=
  ⟨Ledger.SameBooks.refl base, fun _ _ => rfl⟩

theorem BaseKept.load (kept : BaseKept base l) (addr : Bytes) :
    BaseKept base (l.getAccountInternal addr).1 := by
  have loaded := Ledger.sameBooks_getAccountInternal l addr
  have same := kept.same
  constructor
  · exact {
      store := by
        rw [withMetadata, loaded.store]
        exact same.store
      find := fun other => by
        rw [← same.find, Ledger.findOpt_eq, Ledger.findOpt_eq]
        have find := loaded.find other
        rw [Ledger.findOpt_eq, Ledger.findOpt_eq] at find
        exact find
      dirtyAddrs := loaded.dirtyAddrs.trans same.dirtyAddrs
      dirty := loaded.dirty.trans same.dirty
      totalSupply := loaded.totalSupply.trans same.totalSupply
      activeAccounts := loaded.activeAccounts.trans same.activeAccounts
      spentNonces := loaded.spentNonces.trans same.spentNonces
      epochJournals := loaded.epochJournals.trans same.epochJournals }
  · rw [loaded.store]
    exact kept.others

theorem BaseKept.mark (kept : BaseKept base l) : BaseKept base l.markOp01BurnExecuted := by
  refine ⟨kept.same, fun key apart => ?_⟩
  rw [← kept.others key apart]
  exact Table.find?_replace_ne apart

theorem BaseKept.staging (kept : BaseKept base o.base) (staging : Staging marking o o') :
    BaseKept base o'.base := by
  cases staging with
  | load addr =>
    rcases read_eq o addr with same | loaded
    · rw [same]
      exact kept
    · rw [loaded]
      exact kept.load addr
  | write => exact kept
  | adjust => exact kept
  | mark => exact kept.mark

theorem BaseKept.stagings (kept : BaseKept base o.base) (stagings : Stagings marking o o') :
    BaseKept base o'.base := by
  induction stagings with
  | refl => exact kept
  | tail _ staging ih => exact ih.staging staging

/-- Without a marking step the metadata of the store stays. -/
theorem metadata_stagings (stagings : Stagings false o o') :
    o'.base.store.metadata = o.base.store.metadata := by
  induction stagings with
  | refl => rfl
  | @tail between last _ staging ih =>
    rw [← ih]
    cases staging with
    | load addr =>
      rcases read_eq between addr with same | loaded
      · rw [same]
      · rw [loaded]
        exact congrArg LedgerStore.metadata
          (Ledger.sameBooks_getAccountInternal between.base addr).store
    | write => rfl
    | adjust => rfl
    | mark marks => cases marks

end Overlay
end LiteNode
