import LiteNode.Ledger.Operations

/-!
# Ledger overlays

An overlay stages account writes, the change of the supply and spent nonces over
a base ledger. Promoting it writes everything into the base in the order of the
addresses; dropping it forgets everything. Both end its use.
-/

namespace LiteNode

structure Overlay where
  base : Ledger
  accounts : Table Bytes Account := ∅
  deleted : Table Bytes Unit := ∅
  supplyDelta : Int := 0
  pendingNonces : Table (Bytes × Int) Unit := ∅
  promoted : Bool := false
  dropped : Bool := false

namespace Overlay

def create (base : Ledger) : Overlay := { base }

def assertActive (o : Overlay) : Except LedgerError Unit :=
  if o.promoted then .error (.raised "Overlay: already promoted")
  else if o.dropped then .error (.raised "Overlay: already dropped")
  else .ok ()

/-- Act only if the overlay is in use. -/
def whenActive (o : Overlay) (act : Overlay × Except LedgerError Unit) :
    Overlay × Except LedgerError Unit :=
  match o.assertActive with
  | .error error => (o, .error error)
  | .ok () => act

/-- Look an account up: staged, or in the base. -/
def read (o : Overlay) (addr : Bytes) : Overlay × Option Account :=
  if o.deleted.mem addr then (o, none)
  else
    match o.accounts.find? addr with
    | some account => (o, some account)
    | none =>
      let (base, found) := o.base.getAccountInternal addr
      ({ o with base }, found)

def write (o : Overlay) (addr : Bytes) (account : Account) : Overlay :=
  { o with
    accounts := o.accounts.replace addr account
    deleted := o.deleted.remove addr }

def totalSupply (o : Overlay) : Int := o.base.totalSupply + o.supplyDelta

def supplyCheck (o : Overlay) (amount : Int) : Bool := decide (o.totalSupply + amount ≤ maxSupply)

def addAccount (o : Overlay) (addr : Bytes) (amount : Int) : Overlay × Except LedgerError Unit :=
  o.whenActive <|
    if !o.supplyCheck amount then (o, .error capError)
    else
      let o := o.write addr { emptyAccount with balance := amount }
      ({ o with supplyDelta := o.supplyDelta + amount }, .ok ())

def addAccountWithPubkey (o : Overlay) (addr : Bytes) (amount : Int)
    (publicKey : Bytes) : Overlay × Except LedgerError Unit :=
  o.whenActive <|
    if !o.supplyCheck amount then (o, .error capError)
    else
      let o := o.write addr { emptyAccount with balance := amount, publicKey := some publicKey }
      ({ o with supplyDelta := o.supplyDelta + amount }, .ok ())

/-- Change an account that exists. -/
def update (o : Overlay) (addr : Bytes) (change : Account → Account) :
    Overlay × Except LedgerError Unit :=
  o.whenActive <|
    match o.read addr with
    | (o, none) => (o, .ok ())
    | (o, some account) => (o.write addr (change account), .ok ())

def registerPublicKey (o : Overlay) (addr publicKey : Bytes) : Overlay × Except LedgerError Unit :=
  o.update addr fun account => { account with publicKey := some publicKey }

def updateDecryptAllowance (o : Overlay) (addr : Bytes) (value : Int) :
    Overlay × Except LedgerError Unit :=
  o.update addr fun account => { account with decryptAllowance := value }

def updateEncBalance (o : Overlay) (addr cipher : Bytes) : Overlay × Except LedgerError Unit :=
  o.update addr fun account => { account with encryptedBalance := some cipher }

def clearEncryptedBalance (o : Overlay) (addr : Bytes) : Overlay × Except LedgerError Unit :=
  o.update addr fun account => { account with encryptedBalance := none }

def credit (o : Overlay) (encryptedBalance : Option Bytes) (addr : Bytes)
    (amount : Int) : Overlay × Except LedgerError Unit :=
  if amount < 0 then (o, .error (.rejected "negative credit amount"))
  else
    o.whenActive <|
      if !o.supplyCheck amount then (o, .error capError)
      else
        let (o, found) := o.read addr
        let account := found.getD emptyAccount
        let o := o.write addr
          { account with
            balance := account.balance + amount
            encryptedBalance := keepCipher encryptedBalance account.encryptedBalance }
        ({ o with supplyDelta := o.supplyDelta + amount }, .ok ())

def nonceAlreadyUsed (o : Overlay) (addr : Bytes) (nonce : Int) : Bool :=
  o.base.spentNonces.mem (addr, nonce) || o.pendingNonces.mem (addr, nonce)

def debit (o : Overlay) (encryptedBalance : Option Bytes) (addr : Bytes)
    (amount nonce : Int) : Overlay × Except LedgerError Unit :=
  if amount < 0 then (o, .error (.rejected "negative debit amount"))
  else
    o.whenActive <|
      match o.read addr with
      | (o, none) => (o, .error (.rejected "Sender not found"))
      | (o, some account) =>
        if account.balance < amount then (o, .error (.rejected "Insufficient balance"))
        else if nonce ≠ nextNonce account.nonce then (o, .error (.rejected "Invalid nonce"))
        else if o.nonceAlreadyUsed addr nonce then (o, .error (.rejected "Nonce already spent"))
        else
          let o := o.write addr
            { account with
              balance := account.balance - amount
              nonce
              encryptedBalance := keepCipher encryptedBalance account.encryptedBalance }
          ({ o with
            supplyDelta := o.supplyDelta - amount
            pendingNonces := o.pendingNonces.replace (addr, nonce) () }, .ok ())

def debitAmountOnly (o : Overlay) (addr : Bytes) (amount : Int) :
    Overlay × Except LedgerError Unit :=
  if amount < 0 then (o, .error (.rejected "negative debit_amount_only"))
  else
    o.whenActive <|
      match o.read addr with
      | (o, none) => (o, .error (.rejected "Account not found"))
      | (o, some account) =>
        if account.balance < amount then (o, .error (.rejected "Insufficient balance"))
        else
          let o := o.write addr { account with balance := account.balance - amount }
          ({ o with supplyDelta := o.supplyDelta - amount }, .ok ())

/-- The burn marks the base at once, not when the overlay is promoted. -/
def applyOp01Burn (o : Overlay) (sender receiver : Bytes)
    (amount nonce : Int) : Overlay × Except LedgerError Unit :=
  if sender ≠ op01BurnAuthority then
    (o, .error (.rejected "op01_burn: restricted to mining pool authority"))
  else if sender ≠ receiver then
    (o, .error (.rejected "op01_burn: must be self-transaction (from equals to)"))
  else if amount ≤ 0 then (o, .error (.rejected "op01_burn: amount must be positive"))
  else if o.base.isOp01BurnExecuted then
    (o, .error (.rejected "op01_burn: already executed (one-shot ceremony)"))
  else
    match o.debit none sender amount nonce with
    | (o, .error error) => (o, .error error)
    | (o, .ok ()) => ({ o with base := o.base.markOp01BurnExecuted }, .ok ())

def answer (o : Overlay) : AccountCall → Overlay × Except LedgerError Unit
  | .find addr => o.whenActive ((o.read addr).1, .ok ())
  | .addAccount addr amount => o.addAccount addr amount
  | .addAccountWithPubkey addr amount publicKey => o.addAccountWithPubkey addr amount publicKey
  | .registerPublicKey addr publicKey => o.registerPublicKey addr publicKey
  | .updateDecryptAllowance addr value => o.updateDecryptAllowance addr value
  | .updateEncBalance addr cipher => o.updateEncBalance addr cipher
  | .clearEncryptedBalance addr => o.clearEncryptedBalance addr
  | .credit encryptedBalance addr amount => o.credit encryptedBalance addr amount
  | .debit encryptedBalance addr amount nonce => o.debit encryptedBalance addr amount nonce
  | .debitAmountOnly addr amount => o.debitAmountOnly addr amount
  | .applyOp01Burn sender receiver amount nonce => o.applyOp01Burn sender receiver amount nonce

/-- Order of the spent nonces: by address, then by nonce. -/
def nonceBefore (left right : Bytes × Int) : Prop :=
  left.1 < right.1 ∨ left.1 = right.1 ∧ left.2 ≤ right.2

instance decidableNonceBefore (left right : Bytes × Int) : Decidable (nonceBefore left right) :=
  inferInstanceAs (Decidable (_ ∨ _))

/-- Take an account out of a ledger's cache. -/
def forget (l : Ledger) (addr : Bytes) : Ledger :=
  let l := l.recordAccount addr
  { l with
    cache := l.cache.remove addr
    dirtyAddrs := l.dirtyAddrs.replace addr () }

def sortedPromotePairs (o : Overlay) : List (Bytes × Account) :=
  sortByKey Prod.fst o.accounts.toList

def sortedDeletedAddrs (o : Overlay) : List Bytes := sortByKey id (o.deleted.toList.map Prod.fst)

def sortedNonces (o : Overlay) : List (Bytes × Int) :=
  (o.pendingNonces.toList.map Prod.fst).insertionSort nonceBefore

/-- The overlay with everything staged forgotten. -/
def cleared (o : Overlay) : Overlay :=
  { o with
    accounts := ∅
    deleted := ∅
    pendingNonces := ∅
    supplyDelta := 0 }

/-- The base once everything staged is written. -/
def promotedBase (o : Overlay) : Ledger :=
  let base := o.sortedPromotePairs.foldl
    (fun base entry => base.setAccountInternal entry.1 entry.2) o.base
  let base := o.sortedDeletedAddrs.foldl forget base
  let base := { base with totalSupply := base.totalSupply + o.supplyDelta }
  let base := { base with
    spentNonces := o.sortedNonces.foldl (fun spent key => spent.replace key ()) base.spentNonces }
  { base with
    dirty := base.dirty || decide (0 < o.accounts.length) || decide (0 < o.deleted.length) }

def promote (o : Overlay) : Overlay × Except LedgerError Unit :=
  o.whenActive ({ o.cleared with base := o.promotedBase, promoted := true }, .ok ())

def drop (o : Overlay) : Overlay × Except LedgerError Unit :=
  o.whenActive ({ o.cleared with dropped := true }, .ok ())

/-- The overlay after some calls, and what they answered. -/
def answers (o : Overlay) : List AccountCall → Overlay × List (Except LedgerError Unit)
  | [] => (o, [])
  | call :: calls =>
    let (next, answer) := o.answer call
    let (last, rest) := next.answers calls
    (last, answer :: rest)

end Overlay

/-- The ledger after some calls, and what they answered. -/
def Ledger.answers (l : Ledger) : List AccountCall → Ledger × List (Except LedgerError Unit)
  | [] => (l, [])
  | call :: calls =>
    let (next, answer) := l.answer call
    let (last, rest) := next.answers calls
    (last, answer :: rest)

end LiteNode
