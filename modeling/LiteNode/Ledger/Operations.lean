import LiteNode.Ledger.State

/-!
# Ledger operations

The operations that change accounts. Each checks what it needs before it writes
anything, and keeps the supply in step with the balances.
-/

namespace LiteNode

/-- Why an operation was refused: with a text, or as a failed part of a
transfer. Using a finished overlay raises. -/
inductive LedgerError
  | rejected (reason : String)
  | debitRejected (reason : String)
  | creditRejected (reason : String)
  | raised (reason : String)
  deriving DecidableEq

def capError : LedgerError := .rejected "supply violation: would exceed 1B hard cap"

/-- The nonce after another; the successor of the largest native integer wraps
around. -/
def nextNonce (nonce : Int) : Int := if nonce = 2 ^ 62 - 1 then -(2 ^ 62) else nonce + 1

def op01BurnAuthority : Bytes := Bytes.ofAscii "oct7xCozDD9JEsbeVpo5C7HXp2BJbKqfmNUHmDDCCTtWcGb"

def op01BurnMetaKey : String := "op01_2026_burn_executed"

/-- The cipher that an operation leaves: a given one, or the former one. -/
def keepCipher (given former : Option Bytes) : Option Bytes :=
  match given with
  | none => former
  | some cipher => some cipher

namespace Ledger

def addAccount (l : Ledger) (addr : Bytes) (amount : Int) : Ledger × Except LedgerError Unit :=
  if !l.supplyCheck amount then (l, .error capError)
  else
    let l := l.setAccountInternal addr { emptyAccount with balance := amount }
    ({ l with totalSupply := l.totalSupply + amount }, .ok ())

def addAccountWithPubkey (l : Ledger) (addr : Bytes) (amount : Int)
    (publicKey : Bytes) : Ledger × Except LedgerError Unit :=
  if !l.supplyCheck amount then (l, .error capError)
  else
    let l := l.setAccountInternal addr
      { emptyAccount with balance := amount, publicKey := some publicKey }
    ({ l with totalSupply := l.totalSupply + amount }, .ok ())

/-- Change an account that exists. -/
def update (l : Ledger) (addr : Bytes) (change : Account → Account) : Ledger :=
  match l.getAccountInternal addr with
  | (l, none) => l
  | (l, some account) => l.setAccountInternal addr (change account)

def registerPublicKey (l : Ledger) (addr publicKey : Bytes) : Ledger :=
  l.update addr fun account => { account with publicKey := some publicKey }

def updateDecryptAllowance (l : Ledger) (addr : Bytes) (value : Int) : Ledger :=
  l.update addr fun account => { account with decryptAllowance := value }

def updateEncBalance (l : Ledger) (addr cipher : Bytes) : Ledger × Except LedgerError Unit :=
  (l.update addr fun account => { account with encryptedBalance := some cipher }, .ok ())

def clearEncryptedBalance (l : Ledger) (addr : Bytes) : Ledger :=
  l.update addr fun account => { account with encryptedBalance := none }

def credit (l : Ledger) (encryptedBalance : Option Bytes) (addr : Bytes)
    (amount : Int) : Ledger × Except LedgerError Unit :=
  if amount < 0 then (l, .error (.rejected "negative credit amount"))
  else if !l.supplyCheck amount then (l, .error capError)
  else
    let (l, found) := l.getAccountInternal addr
    let account := found.getD emptyAccount
    let l := l.setAccountInternal addr
      { account with
        balance := account.balance + amount
        encryptedBalance := keepCipher encryptedBalance account.encryptedBalance }
    ({ l with totalSupply := l.totalSupply + amount }, .ok ())

def debit (l : Ledger) (encryptedBalance : Option Bytes) (addr : Bytes)
    (amount nonce : Int) : Ledger × Except LedgerError Unit :=
  if amount < 0 then (l, .error (.rejected "negative debit amount"))
  else
    match l.getAccountInternal addr with
    | (l, none) => (l, .error (.rejected "Sender not found"))
    | (l, some account) =>
      if account.balance < amount then (l, .error (.rejected "Insufficient balance"))
      else if nonce ≠ nextNonce account.nonce then (l, .error (.rejected "Invalid nonce"))
      else if l.spentNonces.mem (addr, nonce) then (l, .error (.rejected "Nonce already spent"))
      else
        let l := l.setAccountInternal addr
          { account with
            balance := account.balance - amount
            nonce
            encryptedBalance := keepCipher encryptedBalance account.encryptedBalance }
        ({ l with
          totalSupply := l.totalSupply - amount
          spentNonces := l.spentNonces.replace (addr, nonce) () }, .ok ())

def transfer (l : Ledger) (sender receiver : Bytes) (amount fee nonce : Int) :
    Ledger × Except LedgerError Unit :=
  let totalCost := amount + fee
  if totalCost < 0 then (l, .error (.debitRejected "negative debit amount"))
  else
    match l.getAccountInternal sender with
    | (l, none) => (l, .error (.debitRejected "Sender not found"))
    | (l, some account) =>
      if account.balance < totalCost then (l, .error (.debitRejected "Insufficient balance"))
      else if nonce ≠ nextNonce account.nonce then (l, .error (.debitRejected "Invalid nonce"))
      else if l.spentNonces.mem (sender, nonce) then
        (l, .error (.debitRejected "Nonce already spent"))
      else if amount < 0 then (l, .error (.creditRejected "negative credit amount"))
      else if fee < 0 then (l, .error (.creditRejected "negative fee amount"))
      else
        let account := { account with balance := account.balance - totalCost, nonce }
        let l :=
          if sender = receiver then
            l.setAccountInternal sender { account with balance := account.balance + amount }
          else
            let (l, found) := l.getAccountInternal receiver
            let other := found.getD emptyAccount
            let l := l.setAccountInternal sender account
            l.setAccountInternal receiver { other with balance := other.balance + amount }
        ({ l with
          totalSupply := l.totalSupply - fee
          spentNonces := l.spentNonces.replace (sender, nonce) () }, .ok ())

def debitAmountOnly (l : Ledger) (addr : Bytes) (amount : Int) : Ledger × Except LedgerError Unit :=
  if amount < 0 then (l, .error (.rejected "negative debit_amount_only"))
  else
    match l.getAccountInternal addr with
    | (l, none) => (l, .error (.rejected "Account not found"))
    | (l, some account) =>
      if account.balance < amount then (l, .error (.rejected "Insufficient balance"))
      else
        let l := l.setAccountInternal addr { account with balance := account.balance - amount }
        ({ l with totalSupply := l.totalSupply - amount }, .ok ())

def updateCircleBalance (l : Ledger) (addr cipher : Bytes) : Ledger :=
  { l with store := l.store.setCircleBalance addr cipher }

def isOp01BurnExecuted (l : Ledger) : Bool :=
  decide (l.store.metadata.find? op01BurnMetaKey = some "true")

def markOp01BurnExecuted (l : Ledger) : Ledger :=
  { l with store := l.store.setMeta op01BurnMetaKey "true" }

def applyOp01Burn (l : Ledger) (sender receiver : Bytes) (amount nonce : Int) :
    Ledger × Except LedgerError Unit :=
  if sender ≠ op01BurnAuthority then
    (l, .error (.rejected "op01_burn: restricted to mining pool authority"))
  else if sender ≠ receiver then
    (l, .error (.rejected "op01_burn: must be self-transaction (from equals to)"))
  else if amount ≤ 0 then (l, .error (.rejected "op01_burn: amount must be positive"))
  else if l.isOp01BurnExecuted then
    (l, .error (.rejected "op01_burn: already executed (one-shot ceremony)"))
  else
    match l.debit none sender amount nonce with
    | (l, .error error) => (l, .error error)
    | (l, .ok ()) => (l.markOp01BurnExecuted, .ok ())

end Ledger

/-- Calls that a ledger and an overlay both take. -/
inductive AccountCall
  | find (addr : Bytes)
  | addAccount (addr : Bytes) (amount : Int)
  | addAccountWithPubkey (addr : Bytes) (amount : Int) (publicKey : Bytes)
  | registerPublicKey (addr publicKey : Bytes)
  | updateDecryptAllowance (addr : Bytes) (value : Int)
  | updateEncBalance (addr cipher : Bytes)
  | clearEncryptedBalance (addr : Bytes)
  | credit (encryptedBalance : Option Bytes) (addr : Bytes) (amount : Int)
  | debit (encryptedBalance : Option Bytes) (addr : Bytes) (amount nonce : Int)
  | debitAmountOnly (addr : Bytes) (amount : Int)
  | applyOp01Burn (sender receiver : Bytes) (amount nonce : Int)

def AccountCall.opens : AccountCall → Option Bytes
  | .addAccount addr _ => some addr
  | .addAccountWithPubkey addr _ _ => some addr
  | _ => none

def AccountCall.burns : AccountCall → Bool
  | .applyOp01Burn _ _ _ _ => true
  | _ => false

/-- Calls that only a ledger takes, or any other. -/
inductive LedgerCall
  | account (call : AccountCall)
  | transfer (sender receiver : Bytes) (amount fee nonce : Int)
  | updateCircleBalance (addr cipher : Bytes)

namespace Ledger

def answer (l : Ledger) : AccountCall → Ledger × Except LedgerError Unit
  | .find addr => ((l.getAccountInternal addr).1, .ok ())
  | .addAccount addr amount => l.addAccount addr amount
  | .addAccountWithPubkey addr amount publicKey => l.addAccountWithPubkey addr amount publicKey
  | .registerPublicKey addr publicKey => (l.registerPublicKey addr publicKey, .ok ())
  | .updateDecryptAllowance addr value => (l.updateDecryptAllowance addr value, .ok ())
  | .updateEncBalance addr cipher => l.updateEncBalance addr cipher
  | .clearEncryptedBalance addr => (l.clearEncryptedBalance addr, .ok ())
  | .credit encryptedBalance addr amount => l.credit encryptedBalance addr amount
  | .debit encryptedBalance addr amount nonce => l.debit encryptedBalance addr amount nonce
  | .debitAmountOnly addr amount => l.debitAmountOnly addr amount
  | .applyOp01Burn sender receiver amount nonce => l.applyOp01Burn sender receiver amount nonce

def perform (l : Ledger) : LedgerCall → Ledger × Except LedgerError Unit
  | .account call => l.answer call
  | .transfer sender receiver amount fee nonce => l.transfer sender receiver amount fee nonce
  | .updateCircleBalance addr cipher => (l.updateCircleBalance addr cipher, .ok ())

end Ledger
end LiteNode
