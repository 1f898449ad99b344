import LiteNode.Data.Ordered
import LiteNode.Data.Table
import LiteNode.Types.Transaction

/-!
# The staging pool

Transactions that wait for an epoch. Each is listed in two hash tables and in
three ordered indexes; of each sender the pool keeps the balance that is left
and the last nonce. A full pool makes room for a transaction that pays better.
-/

namespace LiteNode
namespace Bindings

/-- The last value bound to a key. -/
def find? (bindings : List (Bytes × ν)) (key : Bytes) : Option ν :=
  (bindings.find? fun binding => binding.1 = key).map Prod.snd

/-- Drop the last binding of a key. -/
def remove (bindings : List (Bytes × ν)) (key : Bytes) : List (Bytes × ν) :=
  bindings.eraseP fun binding => binding.1 = key

def values (bindings : List (Bytes × ν)) : List ν := bindings.map Prod.snd

end Bindings

namespace Staging

structure Entry where
  tx : Transaction
  ou : Int
  key : Bytes
  addedAt : UInt64
  hash : Bytes
  /-- Costs are positive, so rates can be compared. -/
  positive : 0 < ou
  deriving DecidableEq

/-- Order of floating point numbers: not a number comes first, and the two
zeros are equal. -/
def floatKey (bits : UInt64) : Int :=
  let magnitude : Int := (bits.toNat % 2 ^ 63 : Nat)
  if 9218868437227405312 < magnitude then -(2 ^ 63)
  else if bits.toNat < 2 ^ 63 then magnitude else -magnitude

def compareFloat (left right : UInt64) : Ordering := compare (floatKey left) (floatKey right)

def compareEntryRate (a b : Entry) : Ordering := compare (b.tx.ou * a.ou) (a.tx.ou * b.ou)

/-- By sender, nonce and hash. -/
def indexCompare (a b : Entry) : Ordering :=
  (compareBytes a.tx.sender b.tx.sender).then
    ((compare a.tx.nonce b.tx.nonce).then (compareBytes a.hash b.hash))

/-- Lowest rates first. -/
def evictCompare (a b : Entry) : Ordering :=
  (compareEntryRate b a).then
    ((compareBytes a.hash b.hash).then (compareBytes a.key b.key))

/-- Latest timestamps first. -/
def recentCompare (a b : Entry) : Ordering :=
  (compareFloat b.tx.timestamp a.tx.timestamp).then
    ((compareFloat b.addedAt a.addedAt).then (compareBytes a.hash b.hash))

inductive DropReason
  | evicted
  | expired
  deriving DecidableEq

structure DropRecord where
  hash : Bytes
  tx : Transaction
  reason : DropReason
  detail : String
  deriving DecidableEq

def recordDrop (reason : DropReason) (detail : String) (entry : Entry) : DropRecord where
  hash := entry.hash
  tx := entry.tx
  reason
  detail

/-! ## The pool -/

structure Pool where
  staging : List (Bytes × Entry)
  hashIndex : List (Bytes × Entry)
  viewIndex : List Entry
  evictIndex : List Entry
  recentIndex : List Entry
  totalOu : Int
  virtualBalances : Table Bytes Int
  virtualNonces : Table Bytes Int

namespace Pool

def empty : Pool where
  staging := []
  hashIndex := []
  viewIndex := []
  evictIndex := []
  recentIndex := []
  totalOu := 0
  virtualBalances := ∅
  virtualNonces := ∅

def entries (s : Pool) : List Entry := Bindings.values s.staging

/-- The virtual balance of a sender; the source raises where there is none. -/
def virtualBalance (s : Pool) (addr : Bytes) : Int := (s.virtualBalances.find? addr).getD 0

def virtualNonce (s : Pool) (addr : Bytes) : Int := (s.virtualNonces.find? addr).getD 0

/-- The view from the first key of a sender on: no nonce and no hash come
before those of that key. -/
def viewFrom (s : Pool) (sender : Bytes) : List Entry :=
  s.viewIndex.dropWhile fun entry => entry.tx.sender < sender

def senderEntries (s : Pool) (sender : Bytes) : List Entry :=
  (s.viewFrom sender).takeWhile fun entry => entry.tx.sender = sender

def senderHasPending (s : Pool) (sender : Bytes) : Bool :=
  match s.viewFrom sender with
  | [] => false
  | entry :: _ => entry.tx.sender = sender

def insert (s : Pool) (entry : Entry) : Pool where
  staging := (entry.key, entry) :: s.staging
  hashIndex := (entry.hash, entry) :: s.hashIndex
  viewIndex := Ordered.bind indexCompare entry s.viewIndex
  evictIndex := Ordered.add evictCompare entry s.evictIndex
  recentIndex := Ordered.add recentCompare entry s.recentIndex
  totalOu := s.totalOu + entry.ou
  virtualBalances := s.virtualBalances.replace entry.tx.sender
    (s.virtualBalance entry.tx.sender - entry.tx.publicBalanceCost)
  virtualNonces := s.virtualNonces.replace entry.tx.sender
    (max (s.virtualNonce entry.tx.sender) entry.tx.nonce)

def evict (s : Pool) (entry : Entry) : Pool where
  staging := Bindings.remove s.staging entry.key
  hashIndex := Bindings.remove s.hashIndex entry.hash
  viewIndex := Ordered.remove indexCompare entry s.viewIndex
  evictIndex := Ordered.remove evictCompare entry s.evictIndex
  recentIndex := Ordered.remove recentCompare entry s.recentIndex
  totalOu := s.totalOu - entry.ou
  virtualBalances := s.virtualBalances.replace entry.tx.sender
    (s.virtualBalance entry.tx.sender + entry.tx.publicBalanceCost)
  virtualNonces := s.virtualNonces

def evictNonceDependents (s : Pool) (sender : Bytes) (nonce : Int) : Pool × List DropRecord :=
  let dependents := (s.senderEntries sender).filter fun entry => nonce < entry.tx.nonce
  (dependents.foldl evict s, dependents.map (recordDrop .evicted "nonce gap from eviction"))

def initVirtualState (lookup : Bytes → Option (Int × Int)) (s : Pool) (addr : Bytes) :
    Except String Pool :=
  if !s.senderHasPending addr then
    let (balance, nonce) := (lookup addr).getD (0, 0)
    .ok { s with
      virtualBalances := s.virtualBalances.replace addr balance
      virtualNonces := s.virtualNonces.replace addr nonce }
  else if s.virtualBalances.mem addr && s.virtualNonces.mem addr then .ok s
  else .error "staging sender state is inconsistent"

def checkVirtualBalance (s : Pool) (addr : Bytes) (amount : Int) : Bool :=
  match s.virtualBalances.find? addr with
  | some balance => amount ≤ balance
  | none => false

def betterRate (fee cost : Int) (entry : Entry) : Bool := entry.tx.ou * cost < fee * entry.ou

def rbfBumpOk (newTx : Transaction) (newOu : Int) (old : Entry) : Bool :=
  old.tx.ou * newOu * 110 ≤ newTx.ou * old.ou * 100

section Operations

variable (rules : Transaction.CostRules) (hashes : Transaction.HashRules)

/-- The entry of a transaction that is staged now. -/
def entryOf (now : UInt64) (tx : Transaction) : Entry where
  tx
  ou := tx.ouCost rules
  key := tx.sender ++ intToString tx.nonce
  addedAt := now
  hash := tx.hash hashes
  positive := tx.ouCost_pos rules

/-- Replace the entry of the same sender and nonce by a better paid one. -/
def replaceExisting (ouLimit txLimit : Int) (existing entry : Entry) (s : Pool) :
    Pool × Except String (List DropRecord) :=
  let tx := entry.tx
  if !rbfBumpOk tx entry.ou existing then (s, .error "duplicate nonce (fee rate bump < 10%)")
  else
    let nextOu := s.totalOu - existing.ou + entry.ou
    let delta := tx.publicBalanceCost - existing.tx.publicBalanceCost
    if ouLimit < nextOu ∨ txLimit < s.staging.length then
      (s, .error "staging full (insufficient evictable capacity)")
    else if 0 < delta ∧ !s.checkVirtualBalance tx.sender delta then
      (s, .error "insufficient balance for replacement")
    else
      ((s.evict existing).insert entry,
        .ok [recordDrop .evicted "replaced by higher fee-rate" existing])

/-- Stage a new entry, if need be in place of the one that pays least. -/
def stageNew (ouLimit txLimit : Int) (entry : Entry) (s : Pool) :
    Pool × Except String (List DropRecord) :=
  let tx := entry.tx
  if !s.checkVirtualBalance tx.sender tx.publicBalanceCost then
    (s, .error "insufficient balance (including pending)")
  else if ouLimit < s.totalOu + entry.ou ∨ txLimit ≤ s.staging.length then
    let ouDeficit := max 0 (s.totalOu + entry.ou - ouLimit)
    let countDeficit := max 0 (s.staging.length + 1 - txLimit)
    match s.evictIndex.head? with
    | some worst =>
      if countDeficit ≤ 1 ∧ ouDeficit ≤ worst.ou ∧ betterRate tx.ou entry.ou worst then
        let (s, dependents) := (s.evict worst).evictNonceDependents worst.tx.sender worst.tx.nonce
        (s.insert entry, .ok (recordDrop .evicted "outbid by higher fee-rate" worst :: dependents))
      else (s, .error "staging full (insufficient evictable capacity)")
    | none => (s, .error "staging full (insufficient evictable capacity)")
  else (s.insert entry, .ok [])

/-- Check a transaction against its sender and the limits, and stage it. -/
def place (ouLimit txLimit : Int) (lookup : Bytes → Option (Int × Int))
    (entry : Entry) (s : Pool) : Pool × Except String (List DropRecord) :=
  let tx := entry.tx
  let baseNonce := ((lookup tx.sender).map Prod.snd).getD 0
  if ouLimit ≤ 0 ∨ txLimit ≤ 0 then (s, .error "staging limits must be positive")
  else if tx.nonce ≤ baseNonce then (s, .error "nonce too low (already used)")
  else if (baseNonce + 1000).bmod (2 ^ 63) < tx.nonce then (s, .error "nonce too far ahead")
  else if ouLimit < entry.ou then (s, .error "transaction too large for staging capacity")
  else
    match Bindings.find? s.staging entry.key with
    | some existing => replaceExisting ouLimit txLimit existing entry s
    | none => stageNew ouLimit txLimit entry s

/-- Stage a transaction; the preview of the next epoch is asked first. -/
def addSmart (ouLimit txLimit : Int) (preview : Except String Unit)
    (lookup : Bytes → Option (Int × Int)) (now : UInt64) (tx : Transaction)
    (s : Pool) : Pool × Except String (List DropRecord) :=
  match preview with
  | .error reason => (s, .error reason)
  | .ok () =>
    match initVirtualState lookup s tx.sender with
    | .error reason => (s, .error reason)
    | .ok s => place ouLimit txLimit lookup (entryOf rules hashes now tx) s

def removeByHash (s : Pool) (hash : Bytes) : Bool × Pool :=
  match Bindings.find? s.hashIndex hash with
  | some entry => (true, s.evict entry)
  | none => (false, s)

def clearVirtualState (touched : List Bytes) (s : Pool) : Pool :=
  touched.foldl (fun s addr =>
    if !s.senderHasPending addr then
      { s with
        virtualBalances := s.virtualBalances.remove addr
        virtualNonces := s.virtualNonces.remove addr }
    else s) s

/-- Remove one hash and note its sender. -/
def removeTouching (state : Pool × List Bytes) (hash : Bytes) : Pool × List Bytes :=
  match Bindings.find? state.1.hashIndex hash with
  | some entry => ((state.1.removeByHash hash).2, entry.tx.sender :: state.2)
  | none => ((state.1.removeByHash hash).2, state.2)

def removeProcessed (s : Pool) (processed : List Bytes) : Pool :=
  let (s, touched) := processed.foldl removeTouching (s, [])
  clearVirtualState touched s

def dropPreview (s : Pool) (tx : Transaction) : Pool × Option DropRecord :=
  let hash := tx.hash hashes
  match Bindings.find? s.hashIndex hash with
  | none => (s, none)
  | some entry => (s.removeProcessed [hash], some (recordDrop .evicted "preview rejected" entry))

/-- Remove readiness transactions that are too large or out of date. -/
def expireDuty (sender : Option Bytes) (head : Option Int)
    (sizeOk dutyExpired : Transaction → Bool) (s : Pool) : Pool × List DropRecord :=
  match head with
  | none => (s, [])
  | some _ =>
    let listed :=
      match sender with
      | some sender => s.senderEntries sender
      | none => s.viewIndex
    let removed := listed.filter fun entry =>
      entry.tx.opType = .validatorReady && (!sizeOk entry.tx || dutyExpired entry.tx)
    let records := removed.map fun entry =>
      if sizeOk entry.tx then recordDrop .expired "validator ready head has expired" entry
      else recordDrop .evicted "encrypted_data or message exceeds size limit" entry
    (s.removeProcessed (removed.map Entry.hash), records)

def expiryReason (confirmed received : Int) : String :=
  let gap := (received - confirmed).bmod (2 ^ 64)
  if 1 < gap then
    "TTL exceeded: waiting for nonce " ++ toString (confirmed + 1) ++
      " before nonce " ++ toString received
  else if gap ≤ 0 then
    "TTL exceeded: nonce " ++ toString received ++ " was already consumed at " ++ toString confirmed
  else "TTL exceeded: transaction was not included"

/-- Remove entries that have waited too long. -/
def expireOld (older : UInt64 → Bool) (confirmedNonce : Bytes → Option Int)
    (s : Pool) : Pool × List DropRecord :=
  let expired := (s.entries.filter fun entry => older entry.addedAt).reverse
  let records := expired.map fun entry =>
    let detail :=
      match confirmedNonce entry.tx.sender with
      | some confirmed => expiryReason confirmed entry.tx.nonce
      | none => "TTL exceeded: transaction was not included"
    recordDrop .expired detail entry
  (clearVirtualState (expired.map fun entry => entry.tx.sender) (expired.foldl evict s), records)

end Operations
end Pool

inductive Removal
  | byHash (hash : Bytes)
  | processed (hashes : List Bytes)
  | preview (tx : Transaction)
  | duty (sender : Option Bytes) (head : Option Int) (sizeOk dutyExpired : Transaction → Bool)
  | old (older : UInt64 → Bool) (confirmedNonce : Bytes → Option Int)

inductive Operation
  | addSmart (preview : Except String Unit)
      (lookup : Bytes → Option (Int × Int)) (now : UInt64) (tx : Transaction)
  | discard (removal : Removal)

/-- Costs, hashes and limits of a pool. -/
structure Setting where
  rules : Transaction.CostRules
  hashes : Transaction.HashRules
  ouLimit : Int
  txLimit : Int

namespace Pool

variable (setting : Setting)

def discard (s : Pool) : Removal → Pool
  | .byHash hash => (s.removeByHash hash).2
  | .processed hashes => s.removeProcessed hashes
  | .preview tx => (s.dropPreview setting.hashes tx).1
  | .duty sender head sizeOk dutyExpired => (s.expireDuty sender head sizeOk dutyExpired).1
  | .old older confirmedNonce => (s.expireOld older confirmedNonce).1

/-- Stage a transaction under the limits of the pool. -/
def add (preview : Except String Unit) (lookup : Bytes → Option (Int × Int))
    (now : UInt64) (tx : Transaction) (s : Pool) : Pool × Except String (List DropRecord) :=
  s.addSmart setting.rules setting.hashes setting.ouLimit setting.txLimit preview lookup now tx

def step (s : Pool) : Operation → Pool
  | .addSmart preview lookup now tx => (s.add setting preview lookup now tx).1
  | .discard removal => s.discard setting removal

def run (operations : List Operation) : Pool := operations.foldl (step setting) empty

end Pool
end Staging
end LiteNode
