import LiteNode.Data.Table
import LiteNode.Economy.RewardPlan

/-!
# Ledger state

Accounts are read through a cache that is filled from the store when they are
first looked up. Every write goes to the cache, marks the account dirty, counts
active accounts, and lets each open journal record what the cache held.
-/

namespace LiteNode

structure Account where
  balance : Int
  nonce : Int
  publicKey : Option Bytes
  encryptedBalance : Option Bytes
  decryptAllowance : Int
  deriving DecidableEq

def emptyAccount : Account where
  balance := 0
  nonce := 0
  publicKey := none
  encryptedBalance := none
  decryptAllowance := 0

def isActiveAccount (account : Account) : Bool := decide (0 < account.balance)

/-- What the ledger reads and writes of its store: accounts, contents of the
key attestation files, metadata, and balances of circles. -/
structure LedgerStore where
  accounts : Table Bytes Account := ∅
  katFiles : Table Bytes Bytes := ∅
  metadata : Table String String := ∅
  circleBalances : Table Bytes Bytes := ∅

/-- First line of a file, if it has any. -/
def inputLine (content : Bytes) : Option Bytes :=
  if content = [] then none
  else some (content.takeWhile fun byte => byte ≠ 10)

namespace LedgerStore

def getPvacKat (store : LedgerStore) (addr : Bytes) : Option Bytes :=
  (store.katFiles.find? addr).bind inputLine

def setPvacKat (store : LedgerStore) (addr kat : Bytes) : LedgerStore :=
  { store with katFiles := store.katFiles.replace addr kat }

def removePvacKat (store : LedgerStore) (addr : Bytes) : LedgerStore :=
  { store with katFiles := store.katFiles.remove addr }

def setMeta (store : LedgerStore) (key value : String) : LedgerStore :=
  { store with metadata := store.metadata.replace key value }

def setCircleBalance (store : LedgerStore) (addr cipher : Bytes) : LedgerStore :=
  { store with
    circleBalances := store.circleBalances.replace addr cipher }

end LedgerStore

/-- What an open journal restores: accounts and attestations as they were when
first touched, and copies of the rest. -/
structure EpochJournal where
  accounts : Table Bytes (Option Account)
  kats : Table Bytes (Option Bytes)
  dirtyAddrs : Table Bytes Unit
  dirty : Bool
  totalSupply : Int
  activeAccounts : Int
  spentNonces : Table (Bytes × Int) Unit

/-- Record what the cache holds of an account, unless that is done. -/
def EpochJournal.record (cache : Table Bytes Account) (addr : Bytes) (journal : EpochJournal) :
    EpochJournal :=
  if journal.accounts.mem addr then journal
  else
    { journal with
      accounts := journal.accounts.replace addr (cache.find? addr) }

structure Ledger where
  store : LedgerStore := {}
  cache : Table Bytes Account := ∅
  dirtyAddrs : Table Bytes Unit := ∅
  dirty : Bool := false
  totalSupply : Int := 0
  activeAccounts : Int := 0
  spentNonces : Table (Bytes × Int) Unit := ∅
  epochJournals : List EpochJournal := []

namespace Ledger

def getAccountInternal (l : Ledger) (addr : Bytes) : Ledger × Option Account :=
  match l.cache.find? addr with
  | some account => (l, some account)
  | none =>
    match l.store.accounts.find? addr with
    | some account => ({ l with cache := l.cache.replace addr account }, some account)
    | none => (l, none)

def recordAccount (l : Ledger) (addr : Bytes) : Ledger :=
  { l with
    epochJournals := l.epochJournals.map (EpochJournal.record l.cache addr) }

/-- Number of active accounts once one account changes. -/
def countActive (activeAccounts : Int) (wasActive isActive : Bool) : Int :=
  if wasActive && !isActive then max 0 (activeAccounts - 1)
  else if !wasActive && isActive then activeAccounts + 1
  else activeAccounts

def setAccountInternal (l : Ledger) (addr : Bytes) (account : Account) : Ledger :=
  let l := l.recordAccount addr
  let wasActive :=
    match l.cache.find? addr with
    | some old => isActiveAccount old
    | none => false
  { l with
    activeAccounts := countActive l.activeAccounts wasActive (isActiveAccount account)
    cache := l.cache.replace addr account
    dirtyAddrs := l.dirtyAddrs.replace addr ()
    dirty := true }

def supplyCheck (l : Ledger) (amount : Int) : Bool := !decide (maxSupply < l.totalSupply + amount)

def hfheTag : Bytes := Bytes.ofAscii "hfhe_v1"

def isValidCipher : Option Bytes → Bool
  | none => true
  | some cipher => cipher = [] || hfheTag.isPrefixOf cipher

def canLoadCipher (cipher : Option Bytes) : Bool :=
  decide (cipher = some (Bytes.ofAscii "0")) || isValidCipher cipher

/-- Drop a stored cipher that is the plain text of zero. -/
def clearZeroCipher (account : Account) : Account :=
  if account.encryptedBalance = some (Bytes.ofAscii "0") then
    { account with encryptedBalance := none }
  else account

def load (l : Ledger) (entry : Bytes × Account) : Ledger :=
  let cleared := decide (entry.2.encryptedBalance = some (Bytes.ofAscii "0"))
  { l with
    cache := l.cache.replace entry.1 (clearZeroCipher entry.2)
    dirtyAddrs := if cleared then l.dirtyAddrs.replace entry.1 () else l.dirtyAddrs
    dirty := l.dirty || cleared
    totalSupply := l.totalSupply + entry.2.balance
    activeAccounts :=
      if isActiveAccount entry.2 then l.activeAccounts + 1
      else l.activeAccounts }

def createFromStore (store : LedgerStore) : Except String Ledger :=
  let accounts := store.accounts.toList
  if accounts.all fun entry => canLoadCipher entry.2.encryptedBalance then
    .ok (accounts.foldl load { store })
  else .error "ledger cipher format unsupported; run fhe_audit on a data copy"

def findOpt (l : Ledger) (addr : Bytes) : Option Account := (l.getAccountInternal addr).2

/-- All accounts: the cached ones, and the stored ones that are not cached. -/
def accounts (l : Ledger) : Table Bytes Account := l.cache.overlaying l.store.accounts

theorem findOpt_eq (l : Ledger) (addr : Bytes) :
    l.findOpt addr = (l.cache.find? addr).or (l.store.accounts.find? addr) := by
  unfold findOpt getAccountInternal
  cases l.cache.find? addr with
  | some account => rfl
  | none => cases l.store.accounts.find? addr <;> rfl

@[simp] theorem find?_accounts (l : Ledger) (addr : Bytes) :
    l.accounts.find? addr = l.findOpt addr := by
  rw [accounts, Table.find?_overlaying, findOpt_eq]

/-- Two ledgers that differ only in which accounts are cached. -/
structure SameBooks (l l' : Ledger) : Prop where
  store : l'.store = l.store
  find : ∀ addr, l'.findOpt addr = l.findOpt addr
  dirtyAddrs : l'.dirtyAddrs = l.dirtyAddrs
  dirty : l'.dirty = l.dirty
  totalSupply : l'.totalSupply = l.totalSupply
  activeAccounts : l'.activeAccounts = l.activeAccounts
  spentNonces : l'.spentNonces = l.spentNonces
  epochJournals : l'.epochJournals = l.epochJournals

theorem SameBooks.refl (l : Ledger) : SameBooks l l :=
  ⟨rfl, fun _ => rfl, rfl, rfl, rfl, rfl, rfl, rfl⟩

/-- Looking an account up caches it and changes nothing else. -/
theorem sameBooks_getAccountInternal (l : Ledger) (addr : Bytes) :
    SameBooks l (l.getAccountInternal addr).1 := by
  unfold getAccountInternal
  cases cached : l.cache.find? addr with
  | some account => exact SameBooks.refl l
  | none =>
    cases stored : l.store.accounts.find? addr with
    | none => exact SameBooks.refl l
    | some account =>
      refine ⟨rfl, ?_, rfl, rfl, rfl, rfl, rfl, rfl⟩
      intro other
      rw [findOpt_eq, findOpt_eq]
      rw [Table.find?_replace_eq_ite]
      split
      · next same =>
        rw [same, cached, stored]
        rfl
      · rfl

/-- After a lookup the account is cached if there is one. -/
theorem find?_getAccountInternal (l : Ledger) (addr : Bytes) :
    (l.getAccountInternal addr).1.cache.find? addr = l.findOpt addr := by
  unfold findOpt getAccountInternal
  cases cached : l.cache.find? addr with
  | some account => exact cached
  | none =>
    cases stored : l.store.accounts.find? addr with
    | none => exact cached
    | some account => exact Table.find?_replace _ _ _

/-- A lookup caches an account only under its own address. -/
theorem find?_getAccountInternal_ne
    (l : Ledger) {addr other : Bytes} (different : other ≠ addr) :
    (l.getAccountInternal addr).1.cache.find? other = l.cache.find? other := by
  unfold getAccountInternal
  split
  · rfl
  · split
    · exact Table.find?_replace_ne different
    · rfl

/-- A write is what later lookups of its address find. -/
theorem findOpt_setAccountInternal (l : Ledger) (addr other : Bytes) (account : Account) :
    (l.setAccountInternal addr account).findOpt other =
      if other = addr then some account else l.findOpt other := by
  rw [findOpt_eq, findOpt_eq]
  unfold setAccountInternal recordAccount
  rw [Table.find?_replace_eq_ite]
  split <;> rfl

section setAccountInternal

variable (l : Ledger) (addr : Bytes) (account : Account)

@[simp] theorem spentNonces_setAccountInternal :
    (l.setAccountInternal addr account).spentNonces = l.spentNonces := rfl

@[simp] theorem cache_setAccountInternal :
    (l.setAccountInternal addr account).cache = l.cache.replace addr account := rfl

end setAccountInternal
end Ledger
end LiteNode
