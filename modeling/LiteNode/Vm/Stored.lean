import LiteNode.Vm.Plain

/-!
# Instructions on storage

Keys are loaded, stored and erased one by one or in batches, listed by their
prefix, and written as the members of an object. Each write notes what it
replaces, so that it can be undone to a checkpoint.
-/

namespace LiteNode
namespace Vm

open ByteWork (Request)

section Stored

variable (env : Env) {scope : Scope}

/-- The value of a key, at its declared kind if it has one. -/
def loadStorageValue (storage : Table Bytes Bytes) (key : Bytes) : Option Value :=
  match env.storageKinds.find? key with
  | none => some (.vString ((storage.find? key).getD (Bytes.ofAscii "0")))
  | some kind =>
    match storage.find? key with
    | none => some kind.default
    | some raw => kind.decode env.zOfString raw

def sload (rd : Reg) (key : Bytes) : Exec env scope Bool := do
  match loadStorageValue env (← read).storage key with
  | some value => put rd value
  | none => revert

/-- The text of a value that can be stored. -/
def storable : Value → Option Bytes
  | .vCap _ | .vCipher _ | .vPubKey _ => none
  | value => some value.toString

def storeText (key text : Bytes) : Exec env .storing Bool := do
  if maxStorageValueLen < text.length then revert
  else if ← chargeBytes env 0 (text.length / 32)
      [.write key.length text.length] then
    writeKey key text
    return true
  else revert

def sstore (key : Bytes) (rs : Reg) : Exec env .storing Bool := do
  if ← viewGuard env then
    if isReservedKey key then revert
    else
      match storable (← getr rs) with
      | none => revert
      | some text => storeText env key text
  else return false

def sstorek (rk rv : Reg) : Exec env .storing Bool := do
  if ← viewGuard env then
    match storable (← getr rv) with
    | none => revert
    | some text =>
      let key := (← getr rk).toString
      if isReservedKey key then revert else storeText env key text
  else return false

def eraseText (key : Bytes) : Exec env .erasing Bool := do
  if isReservedKey key then revert
  else if ← chargeBytes env 0 0 [.erase key.length] then
    eraseKey key (.inr rfl)
    return true
  else revert

def sdel (key : Bytes) : Exec env .erasing Bool := do
  if ← viewGuard env then eraseText env key else return false

def sdelk (rk : Reg) : Exec env .erasing Bool := do
  if ← viewGuard env then eraseText env (← getr rk).toString
  else return false

def sloadk (rd rs : Reg) : Exec env scope Bool := do
  let key := (← getr rs).toString
  put rd (.vString (((← read).storage.find? key).getD (Bytes.ofAscii "0")))

def capClose (kind : Int) (reg : Reg) : Exec env .closing Bool := do
  if ← viewGuard env then
    match ← getr reg with
    | .vCap cap =>
      if capValue kind (.vCap cap) && env.capLive cap &&
          !(← read).closes.contains cap then
        Chained.change (State.closing · cap) (.close rfl · cap)
        return true
      else revert
    | _ => revert
  else return false

/-- What follows the prefix in the keys that have it, from a place on. -/
def suffixesOf (storage : Table Bytes Bytes) (pref after : Bytes) : List Bytes :=
  sortByKey id ((((storedKeys storage).filter fun key =>
    !isReservedKey key && pref.isPrefixOf key).map
      (·.drop pref.length)).filter fun suffix => after = [] || after < suffix)

/-- Size of the keys, while the cost of scanning them fits. -/
def measureKeys (requests : Int → List Request) (total : Int) :
    List Bytes → Exec env scope (Option Int)
  | [] => do if ← fits env 0 (requests total) then return some total
             else return none
  | key :: rest => do
    if ← fits env 0 (requests total) then
      if maxInt - key.length - 32 < total then return none
      else measureKeys requests (total + key.length + 32) rest
    else return none

def maxKeys : Nat := 1000

def copyKeyPage (pref after : Bytes) (base : Int) : Exec env scope (Option (Nat × Bytes)) := do
  if base < 0 ∨ memoryMax ≤ base then return some (0, [])
  else
    let storage := (← read).storage
    let count := min maxKeys (memoryMax - base).toNat
    let capacity := min (count + 1) storage.length
    let requests (scanned : Int) : List Request := [.scan scanned, .allocate (capacity * 64 + 64)]
    match ← measureKeys env requests 0 (storedKeys storage) with
    | none => return none
    | some scanned =>
      if ← chargeBytes env 0 0 (requests scanned) then
        let keys := (suffixesOf storage pref after).take capacity
        let selected := keys.take count
        if ← chargeBytes env (selected.length * 5) 0
            (selected.map fun suffix => .copy suffix.length 0) then
          growCells base (selected.map .vString)
          return some (selected.length, if count < keys.length then selected.getLastD [] else [])
        else return none
      else return none

/-- Write suffixes to memory; those that have no place are passed over. -/
def writeSuffixes (base : Int) (count : Nat) (last : Bytes) :
    List Bytes → Exec env scope (Option (Nat × Bytes))
  | [] => return some (count, last)
  | suffix :: rest => do
    let idx := base + count
    if count < maxKeys ∧ 0 ≤ idx ∧ idx < memoryMax then
      if ← addDynEffort env 5 then
        growCell idx (.vString suffix)
        writeSuffixes base (count + 1) suffix rest
      else return none
    else writeSuffixes base count last rest

/-- Number of suffixes written and, if there are more, the last one. -/
def keyPage (pref after : Bytes) (rsBase : Reg) : Exec env scope (Option (Nat × Bytes)) := do
  if ← bounded then
    match ← readInt env rsBase with
    | none => return none
    | some base => copyKeyPage env pref after base
  else
    let base ← getInt env rsBase
    let sorted := suffixesOf (← read).storage pref after
    match ← writeSuffixes env base 0 [] sorted with
    | none => return none
    | some (count, last) => return some (count, if count < sorted.length then last else [])

def skeys (rdCount rsPrefix rsBase : Reg) : Exec env scope Bool := do
  match ← keyPage env (← getr rsPrefix).toString [] rsBase with
  | none => revert
  | some (count, _) => put rdCount (.vInt count)

def skeysPage (rdCount rdNext rsPrefix rsAfter rsBase : Reg) : Exec env scope Bool := do
  let pref := (← getr rsPrefix).toString
  let after := (← getr rsAfter).toString
  match ← keyPage env pref after rsBase with
  | none => revert
  | some (count, next) =>
    setr rdCount (.vInt count)
    put rdNext (.vString next)

/-- The text of a cell, which is empty before the cell is written. -/
def cellText (cell : Int) : Exec env scope Bytes :=
  return ((← findCell cell).map Value.toString).getD []

def loadBatch (baseKey baseVal : Int) : Nat → Nat → Exec env scope Bool
  | 0, _ => return true
  | count + 1, index => do
    let key ← cellText env (baseKey + index)
    growCell (baseVal + index) (.vString (((← read).storage.find? key).getD []))
    if ← addDynEffort env 15 then loadBatch baseKey baseVal count (index + 1)
    else return false

def sloadn (rsBaseKey rsBaseVal rsCount : Reg) : Exec env scope Bool := do
  let baseKey ← getInt env rsBaseKey
  let baseVal ← getInt env rsBaseVal
  let count := min (← getInt env rsCount) 1000
  let inSpan ← if 0 < count then
      allOf [memorySpan false baseKey [count], memorySpan true baseVal [count]]
    else return true
  if inSpan then
    if ← loadBatch env baseKey baseVal count.toNat 0 then return true
    else revert
  else revert

/-- The text of a cell within a size, for which room is reserved. -/
def batchText (cap cell : Int) : Exec env scope (Option Bytes) := do
  let value := (← findCell cell).getD (.vString [])
  if textInputOk cap value then
    if ← reserveText env value then return some value.toString
    else return none
  else return none

/-- The entries of a batch, while their cost fits. -/
def collectBatch (budget : ByteWork.Budget) (keys values : Int) :
    Nat → Nat → Int → Int → Exec env scope (Option (List (Bytes × Bytes)))
  | 0, _, _, _ => return some []
  | count + 1, index, used, remaining => do
    let before := (← read).effortUsed
    let cap := min remaining (ByteWork.textLimit budget)
    match ← batchText env cap (keys + index) with
    | none => return none
    | some key =>
      if key = [] ∨ isReservedKey key ∨ remaining < key.length then return none
      else
        match ← batchText env (min cap (remaining - key.length)) (values + index) with
        | none => return none
        | some value =>
          let st ← read
          if maxStorageValueLen < value.length then return none
          else
            match Cost.charge used (st.effortUsed - before) env.effortLimit, st.budget with
            | some used, some current =>
              match ByteWork.plan budget.limits remaining
                  current.available used env.effortLimit 80
                  [.write key.length value.length] with
              | none => return none
              | some (used, remaining, _) =>
                let rest ← collectBatch budget keys values count (index + 1) used remaining
                return rest.map ((key, value) :: ·)
            | _, _ => return none

def writeKeys : List (Bytes × Bytes) → Exec env .storing Unit
  | [] => return ()
  | (key, value) :: rest => do
    writeKey key value
    writeKeys rest

def storeBatch (budget : ByteWork.Budget) (keys values count : Int) : Exec env .storing Bool := do
  match ← collectBatch env budget keys values count.toNat 0
      (← read).effortUsed budget.remaining with
  | none => revert
  | some entries =>
    if ← chargeBytes env (80 * count) 0
        (entries.map fun (key, value) => .write key.length value.length) then
      writeKeys env entries
      return true
    else revert

/-- Store what can be stored; the effort is charged in any case. -/
def storeEach (baseKey baseVal : Int) : Nat → Nat → Exec env .storing Bool
  | 0, _ => return true
  | count + 1, index => do
    let key ← cellText env (baseKey + index)
    let value ← cellText env (baseVal + index)
    if key ≠ [] ∧ value.length ≤ maxStorageValueLen ∧ !isReservedKey key then
      writeKey key value
    if ← addDynEffort env 80 then storeEach baseKey baseVal count (index + 1)
    else return false

def sstoren (rsBaseKey rsBaseVal rsCount : Reg) : Exec env .storing Bool := do
  if ← viewGuard env then
    let baseKey ← getInt env rsBaseKey
    let baseVal ← getInt env rsBaseVal
    let count ← getInt env rsCount
    match (← read).budget with
    | some budget => storeBatch env budget baseKey baseVal count
    | none =>
      if ← storeEach env baseKey baseVal (min count 1000).toNat 0 then return true
      else revert
  else return false

def addObjectScanEffort : Exec env scope Bool := do
  if env.objectCost then addDynProduct env [(← read).storage.length, 5] 1
  else return true

def objectMemberCount (rd robjectRef : Reg) : Exec env scope Bool := do
  let objectRef := (← getr robjectRef).toString
  if ← addObjectScanEffort env then put rd (.vInt (← objectMembers env objectRef).length)
  else revert

def objectHasMember (rd robjectRef rmemberRef : Reg) : Exec env scope Bool := do
  let key := stateRefKey (← getr robjectRef).toString (← getr rmemberRef).toString
  put rd (.vBool (((← read).storage.find? key).bind env.normalizeStateRef).isSome)

def objectMemberRefAt (rd robjectRef rindex : Reg) : Exec env scope Bool := do
  let objectRef := (← getr robjectRef).toString
  let index ← getInt env rindex
  if ← addObjectScanEffort env then
    let members ← objectMembers env objectRef
    put rd (.vString (if 0 ≤ index then members.getD index.toNat [] else []))
  else revert

def ObjectWrite.dynCost : ObjectWrite → Int
  | .set _ value => 10 + value.length / 32
  | .del _ => 5

def ObjectWrite.baseCost : ObjectWrite → Int
  | .set _ _ => 10
  | .del _ => 5

def ObjectWrite.request : ObjectWrite → Request
  | .set key value => .write key.length value.length
  | .del key => .erase key.length

def sumCosts (costs : List Int) : Option Int := costs.foldlM Cost.add 0

def chargeObjectWrites (writes : List ObjectWrite) : Exec env scope Bool := do
  if ← bounded then
    match sumCosts (writes.map ObjectWrite.baseCost) with
    | none => return false
    | some base => chargeBytes env base 0 (writes.map ObjectWrite.request)
  else
    match sumCosts (writes.map ObjectWrite.dynCost) with
    | none => return false
    | some cost => addDynEffort env cost

def ObjectWrite.tooLong : ObjectWrite → Bool
  | .set _ value => maxStorageValueLen < value.length
  | .del _ => false

def applyObjectWrites : List ObjectWrite → Exec env .storing Unit
  | [] => return ()
  | .set key value :: rest => do
    writeKey key value
    applyObjectWrites rest
  | .del key :: rest => do
    eraseKey key (.inl rfl)
    applyObjectWrites rest

def texts : List Reg → Exec env scope (List Bytes)
  | [] => return []
  | reg :: rest => do
    let text := (← getr reg).toString
    return text :: (← texts rest)

/-- Apply a transition of an object; what it names are the last arguments. -/
def objectTransitionApply (rd robjectRef : Reg) (args : List Reg) : Exec env .storing Bool := do
  if ← viewGuard env then
    let objectRef := (← getr robjectRef).toString
    if ← addObjectScanEffort env then
      let args ← texts env args
      let members ← objectMembers env objectRef
      match env.applyObject members env.currentEpoch (← read).storage args with
      | .error _ => revert
      | .ok (writes, version) =>
        if ← chargeObjectWrites env writes then
          if writes.any ObjectWrite.tooLong then revert
          else
            applyObjectWrites env writes
            put rd (.vInt version)
        else revert
    else revert
  else return false

def checkpoint : Exec env .marking Bool := do
  Chained.change State.checkpoint (.checkpoint rfl)
  return true

def rollback : Exec env .marking Bool := do
  Chained.change State.rollback (.rollback rfl)
  return true

def commit : Exec env .marking Bool := do
  Chained.change (State.commit · env.pointOps) (.commit rfl)
  return true

end Stored
end Vm
end LiteNode
