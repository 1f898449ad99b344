import LiteNode.Chaindata.EpochHeader
import LiteNode.Wire.Oce1

/-!
# Sources of rewards on the wire

A source of rewards is written with its members in the order of their addresses.
A reader refuses members out of order, but takes any spelling of a weight, so
that writing what was read gives back the bytes that were read exactly when
their weights are spelled as they are printed.
-/

namespace LiteNode
namespace RewardSource

open Oce1

def encodePublicKey : Option Bytes → Except String Bytes := putOption fun key => .ok (putBytes key)

def encodeMember (member : RewardMember) : Except String Bytes := do
  let key ← encodePublicKey member.rewardPublicKey
  return putString member.rewardAddress ++ (key ++ putString (intToString member.rewardWeight))

/-- The bytes of a source; the source code raises when it is not valid. -/
def encodeInto (source : RewardSource) : Except String Bytes := do
  let source ← validate source
  let key ← encodePublicKey source.rewardProposerPublicKey
  let members ← putList encodeMember source.rewardMembers
  return putString source.rewardProposerAddr ++ (key ++ members)

def decodePublicKey : Get (Option Bytes) :=
  getOption do
    let value ← getBytesBounded 32
    if value.length ≠ 32 then fail "reward source public key length is invalid"
    else return value

section Reading

variable (zOfString : Bytes → Option Int)

def decodeWeight : Get Int := do
  let raw ← getBytesBounded maxWeightBytes
  match zOfString raw with
  | some weight => return weight
  | none => fail "reward source weight is invalid"

def decodeMember : Get RewardMember := do
  let rewardAddress ← getBytesBounded maxAddressBytes
  let rewardPublicKey ← decodePublicKey
  let rewardWeight ← decodeWeight zOfString
  return { rewardAddress, rewardPublicKey, rewardWeight }

def decodeFrom : Get RewardSource := do
  let rewardProposerAddr ← getBytesBounded maxAddressBytes
  let rewardProposerPublicKey ← decodePublicKey
  let rewardMembers ← getListBounded maxMembers (decodeMember zOfString)
  let source : RewardSource := { rewardProposerAddr, rewardProposerPublicKey, rewardMembers }
  match validate source with
  | .error reason => fail reason
  | .ok canonicalSource =>
    if source ≠ canonicalSource then fail "reward source is not canonical"
    else return canonicalSource

end Reading

/-- Address, key and weight text of a member. -/
abbrev Row := Bytes × Option Bytes × Bytes

/-- Read a member as it is spelled. -/
def readRow : Get Row := do
  let address ← getBytesBounded maxAddressBytes
  let key ← decodePublicKey
  let raw ← getBytesBounded maxWeightBytes
  return (address, key, raw)

def putRow (row : Row) : Except String Bytes := do
  let key ← encodePublicKey row.2.1
  return putString row.1 ++ (key ++ putString row.2.2)

/-- Texts of the weights in an input. -/
def weightTexts (data : Bytes) : List Bytes :=
  let read : Get (List Row) := do
    let _ ← getBytesBounded maxAddressBytes
    let _ ← decodePublicKey
    getListBounded maxMembers readRow
  match read data with
  | .ok (rows, _) => rows.map fun row => row.2.2
  | .error _ => []

/-- The text is the one that some integer is printed as. -/
def Printed (raw : Bytes) : Prop := ∃ n : Int, raw = intToString n

section Valid

variable {source source' : RewardSource}

@[simp] theorem canonical_canonical (source : RewardSource) :
    source.canonical.canonical = source.canonical := by
  simp [canonical]

/-- Fields of a source that fit the limits of the wire. -/
structure Fits (source : RewardSource) : Prop where
  proposer : source.rewardProposerAddr.length ≤ maxAddressBytes
  key : validPublicKey source.rewardProposerPublicKey = true
  few : source.rewardMembers.length ≤ maxMembers
  members : ∀ member ∈ source.rewardMembers, member.rewardAddress.length ≤ maxAddressBytes ∧
      validPublicKey member.rewardPublicKey = true

/-- A valid source is put in order, and fits. -/
theorem validate_eq_ok (valid : validate source = .ok source') :
    source' = source.canonical ∧ source'.Fits := by
  unfold validate at valid
  dsimp only at valid
  split at valid
  · cases valid
  next proposer =>
  split at valid
  · cases valid
  next key =>
  split at valid
  · cases valid
  split at valid
  · cases valid
  next few =>
  split at valid
  · cases valid
  next members =>
  split at valid
  · cases valid
  split at valid
  · cases valid
  obtain rfl := Except.ok.inj valid
  simp only [validAddress, Bool.not_eq_false, Bool.and_eq_true, decide_eq_true_eq] at proposer
  refine ⟨rfl, proposer.2, (Bool.not_eq_false _).mp key, not_lt.mp few, ?_⟩
  intro member listed
  have checked : validMember member = true := by
    by_contra invalid
    exact members (List.any_eq_true.mpr ⟨member, listed, by simp [invalid]⟩)
  simp only [validMember, validAddress, Bool.and_eq_true, decide_eq_true_eq] at checked
  exact ⟨checked.1.1.2, checked.1.2⟩

/-- A source that was put in order stays valid. -/
theorem validate_self (valid : validate source = .ok source') : validate source' = .ok source' := by
  obtain ⟨rfl, -⟩ := validate_eq_ok valid
  rw [← valid]
  unfold validate
  rw [canonical_canonical]

end Valid

section Written

variable {zOfString : Bytes → Option Int} {source source' : RewardSource}

theorem encodePublicKey_ok (key : Option Bytes) : ∃ bytes, encodePublicKey key = .ok bytes := by
  cases key <;> exact ⟨_, rfl⟩

theorem gets_publicKey {key : Option Bytes} {bytes : Bytes} (valid : validPublicKey key = true)
    (written : encodePublicKey key = .ok bytes) : Gets decodePublicKey bytes key := by
  refine Gets.getOption written fun value inner present put => ?_
  subst present
  obtain rfl := Except.ok.inj put
  have size : value.length = 32 := by simpa [validPublicKey] using valid
  have gets : Gets (do
      let value ← getBytesBounded 32
      if value.length ≠ 32 then fail "reward source public key length is invalid"
      else return value) (putBytes value ++ []) value := by
    apply Gets.bind (Gets.getBytesBounded (by omega) (by decide))
    rw [if_neg (not_not.mpr size)]
    exact Gets.pure value
  rwa [List.append_nil] at gets

theorem gets_weight (reads : ∀ n, zOfString (intToString n) = some n)
    {weight : Int} (short : (intToString weight).length ≤ maxWeightBytes) :
    Gets (decodeWeight zOfString) (putString (intToString weight)) weight := by
  have gets : Gets (decodeWeight zOfString) (putString (intToString weight) ++ []) weight := by
    apply Gets.bind (Gets.getBytesBounded (by exact_mod_cast short) (by decide))
    rw [reads]
    exact Gets.pure weight
  rwa [List.append_nil] at gets

theorem gets_member (reads : ∀ n, zOfString (intToString n) = some n)
    {member : RewardMember} {bytes : Bytes}
    (address : member.rewardAddress.length ≤ maxAddressBytes)
    (key : validPublicKey member.rewardPublicKey = true)
    (weight : (intToString member.rewardWeight).length ≤ maxWeightBytes)
    (written : encodeMember member = .ok bytes) : Gets (decodeMember zOfString) bytes member := by
  obtain ⟨keyBytes, put, written⟩ := bind_eq_ok written
  obtain rfl := Except.ok.inj written
  apply Gets.bind (Gets.getBytesBounded (by exact_mod_cast address) (by decide))
  apply Gets.bind (gets_publicKey key put)
  exact Gets.map (gets_weight reads weight)

theorem putItems_ok {putInner : α → Except String Bytes} (items : List α)
    (each : ∀ item ∈ items, ∃ bytes, putInner item = .ok bytes) :
    ∃ bytes, putItems putInner items = .ok bytes := by
  induction items with
  | nil => exact ⟨[], rfl⟩
  | cons item rest ih =>
    obtain ⟨first, put⟩ := each item List.mem_cons_self
    obtain ⟨others, put'⟩ := ih fun item listed => each item (List.mem_cons_of_mem _ listed)
    exact ⟨first ++ others, by rw [putItems, put, ok_bind, put', ok_bind]⟩

theorem encodeMember_ok (member : RewardMember) : ∃ bytes, encodeMember member = .ok bytes := by
  obtain ⟨key, put⟩ := encodePublicKey_ok member.rewardPublicKey
  exact ⟨_, by rw [encodeMember, put, ok_bind]; rfl⟩

/-- A valid source with weights that readers accept is read as it was put in
order. -/
theorem decodeFrom_encodeInto (reads : ∀ n, zOfString (intToString n) = some n)
    (valid : validate source = .ok source') (short : ∀ member ∈ source.rewardMembers,
      (intToString member.rewardWeight).length ≤ maxWeightBytes) :
    ∃ bytes, encodeInto source = .ok bytes ∧
      ∀ rest, decodeFrom zOfString (bytes ++ rest) = .ok (source', rest) := by
  obtain ⟨ordered, fits⟩ := validate_eq_ok valid
  obtain ⟨key, put⟩ := encodePublicKey_ok source'.rewardProposerPublicKey
  obtain ⟨members, listed⟩ := putItems_ok source'.rewardMembers fun member _ =>
    encodeMember_ok member
  have written : putList encodeMember source'.rewardMembers =
      .ok (putU32Int source'.rewardMembers.length ++ members) := by
    rw [putList, listed]
    rfl
  refine ⟨putString source'.rewardProposerAddr ++
    (key ++ (putU32Int source'.rewardMembers.length ++ members)), ?_, ?_⟩
  · rw [encodeInto, valid, ok_bind, put, ok_bind, written, ok_bind]
    rfl
  · change Gets (decodeFrom zOfString) _ source'
    apply Gets.bind (Gets.getBytesBounded (by exact_mod_cast fits.proposer) (by decide))
    apply Gets.bind (gets_publicKey fits.key put)
    rw [← List.append_nil (putU32Int _ ++ members)]
    apply Gets.bind (Gets.getListBounded (by exact_mod_cast fits.few) (by decide)
      written fun member listed bytes put => ?_)
    · dsimp only
      rw [validate_self valid]
      dsimp only
      rw [if_neg (not_not.mpr rfl)]
      exact Gets.pure source'
    · obtain ⟨address, key⟩ := fits.members member listed
      refine gets_member reads address key (short member ?_) put
      rw [ordered] at listed
      exact mem_sortByKey.mp listed

end Written

section Read

variable {zOfString : Bytes → Option Int} {data rest : Bytes}

/-- A row spells a member. -/
structure Spells (zOfString : Bytes → Option Int) (row : Row) (member : RewardMember) : Prop where
  address : row.1 = member.rewardAddress
  key : row.2.1 = member.rewardPublicKey
  weight : zOfString row.2.2 = some member.rewardWeight
  short : row.2.2.length ≤ maxWeightBytes

theorem takes_publicKey : Takes decodePublicKey encodePublicKey := by
  refine Takes.getOption fun read => ?_
  obtain ⟨value, middle, first, later⟩ := bind_run read
  obtain ⟨bytes, put, rfl⟩ := Takes.getBytesBounded 32 first
  split at later
  · cases later
  · obtain ⟨rfl, rfl⟩ := Prod.mk.inj (Except.ok.inj later)
    exact ⟨bytes, put, rfl⟩

theorem takes_row : Takes readRow putRow := by
  intro data row rest read
  obtain ⟨address, middle, first, after⟩ := bind_run read
  obtain ⟨key, middle', second, after'⟩ := bind_run after
  obtain ⟨raw, last, third, done⟩ := bind_run after'
  obtain ⟨rfl, rfl⟩ := Prod.mk.inj (Except.ok.inj done)
  obtain ⟨_, put, rfl⟩ := Takes.getBytesBounded _ first
  obtain rfl := Except.ok.inj put
  obtain ⟨keyBytes, keyPut, rfl⟩ := takes_publicKey second
  obtain ⟨_, put', rfl⟩ := Takes.getBytesBounded _ third
  obtain rfl := Except.ok.inj put'
  refine ⟨_, by rw [putRow, keyPut, ok_bind]; rfl, ?_⟩
  simp only [putString, List.append_assoc]

theorem length_of_getBytesBounded {max : Int} {value : Bytes}
    (read : getBytesBounded max data = .ok (value, rest)) : (value.length : Int) ≤ max := by
  obtain ⟨len, middle, first, later⟩ := bind_run read
  split at later
  · cases later
  · obtain ⟨size, -⟩ := getRaw_eq_ok later
    omega

/-- A member that is read is spelled by the row that is read in its place. -/
theorem decodeMember_eq_ok {member : RewardMember}
    (read : decodeMember zOfString data = .ok (member, rest)) :
    ∃ row, readRow data = .ok (row, rest) ∧ Spells zOfString row member := by
  obtain ⟨address, middle, first, later⟩ := bind_run read
  obtain ⟨key, middle', second, later⟩ := bind_run later
  obtain ⟨weight, last, third, later⟩ := bind_run later
  obtain ⟨rfl, rfl⟩ := Prod.mk.inj (Except.ok.inj later)
  obtain ⟨raw, last', text, parsed⟩ := bind_run third
  cases value : zOfString raw with
  | none =>
    rw [value] at parsed
    cases parsed
  | some number =>
    rw [value] at parsed
    obtain ⟨rfl, rfl⟩ := Prod.mk.inj (Except.ok.inj parsed)
    have short := length_of_getBytesBounded text
    refine ⟨(address, key, raw), ?_, rfl, rfl, value, by exact_mod_cast short⟩
    have run : readRow data = (getBytesBounded maxAddressBytes data >>=
        fun after => decodePublicKey after.2 >>= fun after' =>
          getBytesBounded maxWeightBytes after'.2 >>= fun last =>
            .ok ((after.1, after'.1, last.1), last.2)) := rfl
    rw [run, first, ok_bind, second, ok_bind, text, ok_bind]

theorem getItems_member {count : Nat} {members : List RewardMember}
    (read : getItems (decodeMember zOfString) count data = .ok (members, rest)) :
    ∃ rows, getItems readRow count data = .ok (rows, rest) ∧
      List.Forall₂ (Spells zOfString) rows members := by
  induction count generalizing data members with
  | zero =>
    obtain ⟨rfl, rfl⟩ := Prod.mk.inj (Except.ok.inj read)
    exact ⟨[], rfl, .nil⟩
  | succ count ih =>
    obtain ⟨member, middle, first, later⟩ := bind_run read
    obtain ⟨others, last, second, later⟩ := bind_run later
    obtain ⟨rfl, rfl⟩ := Prod.mk.inj (Except.ok.inj later)
    obtain ⟨row, front, spells⟩ := decodeMember_eq_ok first
    obtain ⟨rows, back, spell⟩ := ih second
    refine ⟨row :: rows, ?_, .cons spells spell⟩
    have run : getItems readRow (count + 1) data = (readRow data >>=
        fun after => getItems readRow count after.2 >>= fun last =>
          .ok (after.1 :: last.1, last.2)) := rfl
    rw [run, front, ok_bind, back, ok_bind]

/-- A source that is read is valid as it is, and its members are spelled by
rows that the input holds. -/
theorem decodeFrom_eq_ok {source : RewardSource}
    (read : decodeFrom zOfString data = .ok (source, rest)) :
    ∃ rows key spelled, validate source = .ok source ∧
      List.Forall₂ (Spells zOfString) rows source.rewardMembers ∧
      weightTexts data = rows.map (fun row => row.2.2) ∧
      encodePublicKey source.rewardProposerPublicKey = .ok key ∧ putList putRow rows = .ok spelled ∧
      data = putString source.rewardProposerAddr ++ (key ++ spelled) ++ rest := by
  obtain ⟨address, middle, first, after⟩ := bind_run read
  obtain ⟨key, middle', second, after'⟩ := bind_run after
  obtain ⟨members, last, third, checks⟩ := bind_run after'
  obtain ⟨count, middle'', fourth, items⟩ := bind_run third
  split at items
  · cases items
  next fits =>
  obtain ⟨rows, spelled, spell⟩ := getItems_member items
  have list : getListBounded maxMembers readRow middle' = .ok (rows, last) := by
    have run : getListBounded maxMembers readRow middle' =
        (getU32Int middle' >>= fun after =>
          (if after.1 < 0 ∨ maxMembers < after.1 then fail "OCE1: list count out of range"
          else getItems readRow after.1.toNat : Get (List Row)) after.2) := rfl
    rw [run, fourth, ok_bind, if_neg fits]
    exact spelled
  have texts : weightTexts data = rows.map fun row => row.2.2 := by
    have run : (do
        let _ ← getBytesBounded maxAddressBytes
        let _ ← decodePublicKey
        getListBounded maxMembers readRow : Get (List Row)) data =
          (getBytesBounded maxAddressBytes data >>= fun after =>
            decodePublicKey after.2 >>= fun after' =>
              getListBounded maxMembers readRow after'.2) := rfl
    unfold weightTexts
    dsimp only
    rw [run, first, ok_bind, second, ok_bind, list]
  dsimp only at checks
  cases valid : validate ⟨address, key, members⟩ with
  | error reason =>
    rw [valid] at checks
    cases checks
  | ok canonicalSource =>
  rw [valid] at checks
  dsimp only at checks
  split at checks
  · cases checks
  next same =>
  obtain ⟨rfl, rfl⟩ := Prod.mk.inj (Except.ok.inj checks)
  rw [not_not] at same
  subst same
  obtain ⟨_, put, rfl⟩ := Takes.getBytesBounded _ first
  obtain rfl := Except.ok.inj put
  obtain ⟨keyBytes, keyPut, rfl⟩ := takes_publicKey second
  obtain ⟨listBytes, listPut, rfl⟩ := Takes.getListBounded _ takes_row list
  refine ⟨rows, keyBytes, listBytes, valid, spell, texts, keyPut, listPut, ?_⟩
  simp only [putString, List.append_assoc]

end Read

section Spelling

variable {zOfString : Bytes → Option Int} {rows : List Row}
  {members : List RewardMember} {bytes bytes' : Bytes}

theorem putString_append_inj {first first' last last' : Bytes}
    (small : first.length < 2 ^ 31) (small' : first'.length < 2 ^ 31)
    (same : putString first ++ last = putString first' ++ last') :
    first = first' ∧ last = last' := by
  unfold putString putBytes at same
  rw [List.append_assoc, List.append_assoc] at same
  obtain ⟨sizes, same⟩ := append_inj_of_length (length_putUint 4 _) (length_putUint 4 _) same
  have lengths := putUint_inj sizes
  exact List.append_inj same (by omega)

/-- Bytes of a spelled member, up to the text of the weight. -/
theorem putRow_eq {row : Row} {member : RewardMember} (spells : Spells zOfString row member) :
    ∃ front, putRow row = .ok (front ++ putString row.2.2) ∧
      encodeMember member = .ok (front ++ putString (intToString member.rewardWeight)) := by
  obtain ⟨key, put⟩ := encodePublicKey_ok member.rewardPublicKey
  refine ⟨putString member.rewardAddress ++ key, ?_, ?_⟩
  · rw [putRow, spells.key, put, ok_bind, spells.address, List.append_assoc]
    rfl
  · rw [encodeMember, put, ok_bind, List.append_assoc]
    rfl

/-- Members and the rows that spell them differ in the texts of the weights
only. -/
theorem length_putItems (spell : List.Forall₂ (Spells zOfString) rows members)
    (put : putItems putRow rows = .ok bytes) (put' : putItems encodeMember members = .ok bytes') :
    bytes.length + (members.map fun member =>
        (intToString member.rewardWeight).length).sum =
      bytes'.length + (rows.map fun row => row.2.2.length).sum := by
  induction spell generalizing bytes bytes' with
  | nil =>
    obtain rfl := Except.ok.inj put
    obtain rfl := Except.ok.inj put'
    rfl
  | cons spells _ ih =>
    obtain ⟨front, row, member⟩ := putRow_eq spells
    obtain ⟨_, first, put⟩ := bind_eq_ok put
    obtain ⟨others, later, put⟩ := bind_eq_ok put
    obtain ⟨_, first', put'⟩ := bind_eq_ok put'
    obtain ⟨others', later', put'⟩ := bind_eq_ok put'
    obtain rfl := Except.ok.inj put
    obtain rfl := Except.ok.inj put'
    obtain rfl := Except.ok.inj (row.symm.trans first)
    obtain rfl := Except.ok.inj (member.symm.trans first')
    have rest := ih later later'
    simp only [List.map_cons, List.sum_cons, List.length_append, putString,
      putBytes, putU32Int, length_putUint]
    omega

theorem short_of_spelled (spell : List.Forall₂ (Spells zOfString) rows members) :
    ∀ row ∈ rows, row.2.2.length ≤ maxWeightBytes := by
  induction spell with
  | nil => exact fun row listed => (nomatch listed)
  | cons spells _ ih =>
    intro row listed
    rcases List.mem_cons.mp listed with rfl | listed
    · exact spells.short
    · exact ih row listed

theorem texts_of_same (spell : List.Forall₂ (Spells zOfString) rows members)
    (small : ∀ member ∈ members, (intToString member.rewardWeight).length < 2 ^ 31)
    (put : putItems putRow rows = .ok bytes) (put' : putItems encodeMember members = .ok bytes) :
    ∀ raw ∈ rows.map (fun row => row.2.2), Printed raw := by
  induction spell generalizing bytes with
  | nil => exact fun raw listed => (nomatch listed)
  | @cons row member rows members spells _ ih =>
    obtain ⟨front, written, written'⟩ := putRow_eq spells
    obtain ⟨_, first, put⟩ := bind_eq_ok put
    obtain ⟨others, later, put⟩ := bind_eq_ok put
    obtain ⟨_, first', put'⟩ := bind_eq_ok put'
    obtain ⟨others', later', put'⟩ := bind_eq_ok put'
    obtain rfl := Except.ok.inj put
    obtain rfl := Except.ok.inj (written.symm.trans first)
    obtain rfl := Except.ok.inj (written'.symm.trans first')
    have same := Except.ok.inj put'
    rw [List.append_assoc, List.append_assoc, List.append_cancel_left_eq] at same
    have short := spells.short
    simp only [maxWeightBytes] at short
    obtain ⟨text, rfl⟩ := putString_append_inj (small member List.mem_cons_self) (by omega) same
    intro raw listed
    rcases List.mem_cons.mp listed with rfl | listed
    · exact ⟨member.rewardWeight, text.symm⟩
    · exact ih
        (fun member listed => small member (List.mem_cons_of_mem _ listed))
        later later' raw listed

theorem same_of_texts (reads : ∀ n, zOfString (intToString n) = some n)
    (spell : List.Forall₂ (Spells zOfString) rows members)
    (printed : ∀ raw ∈ rows.map (fun row => row.2.2), Printed raw) :
    putItems putRow rows = putItems encodeMember members := by
  induction spell with
  | nil => rfl
  | @cons row member rows members spells _ ih =>
    obtain ⟨front, written, written'⟩ := putRow_eq spells
    have rest := ih fun raw listed => printed raw (List.mem_cons_of_mem _ listed)
    obtain ⟨n, text⟩ := printed row.2.2 List.mem_cons_self
    have value := spells.weight
    rw [text, reads] at value
    rw [putItems, putItems, written, written', rest, text, Option.some.inj value]

end Spelling

/-- A valid source with weights of at most 256 digits is read as it was put in
order, and what is read from an input is written as it was there if and only if
the input spells every weight as it is printed. -/
theorem decodeFrom_canonical {zOfString : Bytes → Option Int}
    (reads : ∀ n, zOfString (intToString n) = some n) :
    (∀ source source', validate source = .ok source' →
      (∀ member ∈ source.rewardMembers,
        (intToString member.rewardWeight).length ≤ maxWeightBytes) →
      ∃ bytes, encodeInto source = .ok bytes ∧
        ∀ rest, decodeFrom zOfString (bytes ++ rest) = .ok (source', rest)) ∧
    ∀ data source rest, decodeFrom zOfString data = .ok (source, rest) →
      ((∃ bytes, encodeInto source = .ok bytes ∧ data = bytes ++ rest) ↔
        ∀ raw ∈ weightTexts data, Printed raw) := by
  refine ⟨fun source source' valid short =>
    decodeFrom_encodeInto reads valid short, fun data source rest read => ?_⟩
  obtain ⟨rows, key, spelled, valid, spell, texts, keyPut, put, rfl⟩ := decodeFrom_eq_ok read
  obtain ⟨items, listed, rfl⟩ := map_eq_ok put
  obtain ⟨items', listed'⟩ := putItems_ok source.rewardMembers fun member _ =>
    encodeMember_ok member
  have count := spell.length_eq
  have written : encodeInto source = .ok (putString source.rewardProposerAddr ++
      (key ++ (putU32Int rows.length ++ items'))) := by
    rw [encodeInto, valid, ok_bind, keyPut, ok_bind, putList, listed', count]
    rfl
  rw [texts, written]
  constructor
  · rintro ⟨_, same, equal⟩
    obtain rfl := Except.ok.inj same
    simp only [List.append_assoc, List.append_cancel_left_eq, List.append_cancel_right_eq] at equal
    subst equal
    have sizes := length_putItems spell listed listed'
    have bound : (rows.map fun row => row.2.2.length).sum ≤ rows.length * 256 := by
      refine (List.sum_le_card_nsmul _ 256 ?_).trans (by simp)
      intro size present
      obtain ⟨row, inside, rfl⟩ := List.mem_map.mp present
      exact short_of_spelled spell row inside
    have few := (validate_eq_ok valid).2.few
    refine texts_of_same spell (fun member present => ?_) listed listed'
    have part := List.single_le_sum (fun _ _ => Nat.zero_le _) _
      (List.mem_map_of_mem (f := fun member : RewardMember =>
        (intToString member.rewardWeight).length) present)
    simp only [maxMembers] at few
    omega
  · intro printed
    have same := same_of_texts reads spell printed
    rw [listed, listed'] at same
    obtain rfl := Except.ok.inj same
    exact ⟨_, rfl, rfl⟩

/-- A member whose weight is spelled with a zero in front. -/
def paddedBytes : Bytes :=
  putString [1, 1, 1, 1] ++ (putU8 0 ++ (putU32Int 1 ++
    (putString [2, 2, 2, 2] ++ (putU8 0 ++ putString [48, 53]))))

/-- The source that these bytes are read as. -/
def paddedSource : RewardSource where
  rewardProposerAddr := [1, 1, 1, 1]
  rewardProposerPublicKey := none
  rewardMembers := [⟨[2, 2, 2, 2], none, 5⟩]

/-- Bytes that are read need not be those that are written again. -/
theorem decodeFrom_padded :
    decodeFrom readDecimal paddedBytes = .ok (paddedSource, []) ∧
      ¬ ∃ bytes, encodeInto paddedSource = .ok bytes ∧
        paddedBytes = bytes ++ [] := by
  refine ⟨by decide +kernel, ?_⟩
  rintro ⟨bytes, written, same⟩
  have size : paddedBytes.length = 28 := by decide +kernel
  have shorter : (encodeInto paddedSource).map List.length = .ok 27 := by decide +kernel
  rw [written] at shorter
  rw [same, List.append_nil, Except.ok.inj shorter] at size
  cases size

/-- The source is read as it is written. -/
theorem decodeFrom_canonical_padded :
    ∃ bytes, encodeInto paddedSource = .ok bytes ∧
      decodeFrom readDecimal (bytes ++ [7]) = .ok (paddedSource, [7]) := by
  obtain ⟨bytes, written, read⟩ :=
    (decodeFrom_canonical readDecimal_intToString).1 paddedSource paddedSource
      (by decide +kernel) (by decide +kernel)
  exact ⟨bytes, written, read [7]⟩

end RewardSource
end LiteNode
