import LiteNode.Duty.Transparency
import LiteNode.Staging.Adding
import LiteNode.Types.Hashing

/-!
# Runs of the staging pool

After every run of operations the five tables hold the same entries within the
limits, and a transaction that is refused leaves them alone.
-/

namespace LiteNode
namespace Staging
namespace Pool

variable {setting : Setting} {submitted : Transaction → Prop} {s s' : Pool}

variable {tx : Transaction}

theorem add_cases (naming : setting.hashes.Naming submitted) (agree : Agree setting submitted s)
    (preview : Except String Unit) (lookup : Bytes → Option (Int × Int))
    (now : UInt64) (known : submitted tx) (address : tx.sender.length = addressLength) :
    (∃ s' reason, s.add setting preview lookup now tx = (s', .error reason) ∧ Cleared s s') ∨
    ∃ opened between dropped, initVirtualState lookup s tx.sender = .ok opened ∧
      s.add setting preview lookup now tx =
        (between.insert (entryOf setting.rules setting.hashes now tx), .ok dropped) ∧
      Placed setting.ouLimit setting.txLimit
        (entryOf setting.rules setting.hashes now tx) opened between := by
  have made : (entryOf setting.rules setting.hashes now tx).Made setting submitted :=
    ⟨known, rfl, rfl, rfl, address⟩
  unfold add addSmart
  split
  · next reason => exact .inl ⟨s, reason, rfl, cleared_refl s⟩
  · obtain ⟨opened, ready⟩ := @initVirtualState_ne_error _ _ _ lookup tx.sender agree
    have cleared := (initVirtualState_ok agree ready).1
    rw [ready]
    rcases @attempt_place _ _ _ _ _ _ lookup naming (cleared.agree agree) made
      with ⟨reason, failed⟩ | ⟨between, dropped, placed, room⟩
    · exact .inl ⟨opened, reason, failed, cleared⟩
    · exact .inr ⟨opened, between, dropped, rfl, placed, room⟩

/-- A pool keeps to its limits; one that admits nothing stays empty. -/
structure Within (setting : Setting) (s : Pool) : Prop where
  total : s.totalOu ≤ max 0 setting.ouLimit
  count : (s.entries.length : Int) ≤ max 0 setting.txLimit

theorem Within.evicted (within : Within setting s) (evicted : Evicted s s') :
    Within setting s' := by
  have total := evicted.total_le
  have count := evicted.sublist.length_le
  obtain ⟨ouBound, txBound⟩ := within
  exact ⟨by omega, by omega⟩

theorem Within.cleared (within : Within setting s) (cleared : Cleared s s') :
    Within setting s' where
  total := cleared.totalOu ▸ within.total
  count := cleared.entries ▸ within.count

theorem Placed.within {entry : Entry} {between : Pool}
    (placed : Placed setting.ouLimit setting.txLimit entry s between) :
    Within setting (between.insert entry) := by
  have total := placed.total
  have count := placed.count
  have totalOu : (between.insert entry).totalOu = between.totalOu + entry.ou := rfl
  have length : (between.insert entry).entries.length = between.entries.length + 1 := rfl
  exact ⟨by omega, by omega⟩

/-- The submitted transactions are known, and their senders are addresses. -/
def Addressed (submitted : Transaction → Prop) : Operation → Prop
  | .addSmart _ _ _ tx => submitted tx ∧ tx.sender.length = addressLength
  | .discard _ => True

theorem agree_add (naming : setting.hashes.Naming submitted) (agree : Agree setting submitted s)
    (preview : Except String Unit) (lookup : Bytes → Option (Int × Int))
    (now : UInt64) (known : submitted tx) (address : tx.sender.length = addressLength) :
    Agree setting submitted (s.add setting preview lookup now tx).1 := by
  rcases add_cases naming agree preview lookup now known address with
    ⟨s', reason, refused, cleared⟩ | ⟨opened, between, dropped, ready, accepted, placed⟩
  · rw [refused]
    exact cleared.agree agree
  · rw [accepted]
    have cleared := (initVirtualState_ok agree ready).1
    exact (placed.evicted.agree naming (cleared.agree agree)).insert naming
      ⟨known, rfl, rfl, rfl, address⟩ placed.new

theorem within_add (naming : setting.hashes.Naming submitted) (agree : Agree setting submitted s)
    (within : Within setting s) (preview : Except String Unit) (lookup : Bytes → Option (Int × Int))
    (now : UInt64) (known : submitted tx) (address : tx.sender.length = addressLength) :
    Within setting (s.add setting preview lookup now tx).1 := by
  rcases add_cases naming agree preview lookup now known address with
    ⟨s', reason, refused, cleared⟩ | ⟨opened, between, dropped, ready, accepted, placed⟩
  · rw [refused]
    exact within.cleared cleared
  · rw [accepted]
    exact placed.within

theorem Removed.agree (removed : Removed s s') (naming : setting.hashes.Naming submitted)
    (agree : Agree setting submitted s) : Agree setting submitted s' := by
  obtain ⟨between, evicted, cleared⟩ := removed
  exact cleared.agree (evicted.agree naming agree)

theorem Within.removed (within : Within setting s) (removed : Removed s s') :
    Within setting s' := by
  obtain ⟨between, evicted, cleared⟩ := removed
  exact (within.evicted evicted).cleared cleared

theorem step_keeps (naming : setting.hashes.Naming submitted) {operation : Operation}
    (addressed : Addressed submitted operation) (agree : Agree setting submitted s)
    (within : Within setting s) :
    Agree setting submitted (s.step setting operation) ∧
      Within setting (s.step setting operation) := by
  cases operation with
  | addSmart preview lookup now tx =>
    obtain ⟨known, address⟩ := addressed
    exact ⟨agree_add naming agree preview lookup now known address,
      within_add naming agree within preview lookup now known address⟩
  | discard removal =>
    have removed := removed_discard naming agree removal
    exact ⟨removed.agree naming agree, within.removed removed⟩

theorem run_keeps (naming : setting.hashes.Naming submitted) (operations : List Operation)
    (addressed : ∀ operation ∈ operations, Addressed submitted operation) :
    Agree setting submitted (run setting operations) ∧ Within setting (run setting operations) := by
  unfold run
  induction operations using List.reverseRecOn with
  | nil => exact ⟨agree_empty setting submitted, le_max_left 0 _, le_max_left 0 _⟩
  | append_singleton earlier last ih =>
    obtain ⟨agree, within⟩ := ih fun operation listed =>
      addressed operation (List.mem_append_left _ listed)
    rw [List.foldl_append]
    exact step_keeps naming
      (addressed last (List.mem_append_right _ List.mem_cons_self))
      agree within

/-- The tables hold the same entries, of different senders or nonces and of
different hashes; their total cost is kept and all their senders have a
virtual state. -/
structure Consistent (setting : Setting) (s : Pool) : Prop where
  hashIndex : (Bindings.values s.hashIndex).Perm s.entries
  viewIndex : s.viewIndex.Perm s.entries
  evictIndex : s.evictIndex.Perm s.entries
  recentIndex : s.recentIndex.Perm s.entries
  distinct : s.entries.Pairwise fun entry other =>
    ¬ (entry.tx.sender = other.tx.sender ∧ entry.tx.nonce = other.tx.nonce) ∧
      entry.hash ≠ other.hash
  hashes : ∀ entry ∈ s.entries, entry.hash = entry.tx.hash setting.hashes
  total : s.totalOu = (s.entries.map fun entry => entry.tx.ouCost setting.rules).sum
  known : ∀ entry ∈ s.entries, s.virtualBalances.mem entry.tx.sender = true ∧
    s.virtualNonces.mem entry.tx.sender = true

theorem consistent_of_agree (agree : Agree setting submitted s)
    (naming : setting.hashes.Naming submitted) :
    Consistent setting s where
  hashIndex := agree.hashes
  viewIndex := agree.view.perm
  evictIndex := agree.evict.perm
  recentIndex := agree.recent.perm
  distinct := by
    apply agree.apart.imp_of_mem
    intro entry other listed listed' apart
    have made := agree.made entry listed
    have made' := agree.made other listed'
    constructor
    · rintro ⟨sender, nonce⟩
      apply apart
      rw [made.key, made'.key, sender, nonce]
    · intro same
      exact apart (made.key_of_hash_eq naming made' same)
  hashes entry listed := (agree.made entry listed).hash
  total := by
    rw [agree.total]
    congr 1
    apply List.map_congr_left
    intro entry listed
    exact (agree.made entry listed).ou
  known := agree.known

/-- Transactions that some operation submits. -/
def Submitted (operations : List Operation) (tx : Transaction) : Prop :=
  ∃ preview lookup now, .addSmart preview lookup now tx ∈ operations

/-- After every run the tables agree within the limits of the pool, and a
refused transaction changes none of them. -/
theorem consistent_of_run (setting : Setting) (operations : List Operation)
    (naming : setting.hashes.Naming (Submitted operations))
    (addresses : ∀ tx, Submitted operations tx → tx.sender.length = addressLength) :
    Consistent setting (run setting operations) ∧
      (run setting operations).totalOu ≤ max 0 setting.ouLimit ∧
      ((run setting operations).entries.length : Int) ≤ max 0 setting.txLimit ∧
      ∀ preview lookup now tx reason,
        ((run setting operations).add setting preview lookup now tx).2 = .error reason →
          SameTables (run setting operations)
            ((run setting operations).add setting preview lookup now tx).1 := by
  have addressed : ∀ operation ∈ operations, Addressed (Submitted operations) operation := by
    intro operation listed
    cases operation with
    | addSmart preview lookup now tx =>
      have known : Submitted operations tx := ⟨preview, lookup, now, listed⟩
      exact ⟨known, addresses tx known⟩
    | discard removal => trivial
  obtain ⟨agree, within⟩ := run_keeps naming operations addressed
  exact ⟨consistent_of_agree agree naming, within.total, within.count,
    fun _ _ _ _ _ => sameTables_of_refused⟩

namespace Sample

def account (digit : UInt8) : Bytes := Bytes.ofAscii "oct" ++ List.replicate 44 digit

def payment (digit : UInt8) (nonce amount ou : Int) : Transaction where
  sender := account digit
  recipient := account 57
  amount
  nonce
  ou
  timestamp := 4607182418800017408
  signature := []
  publicKey := none
  message := none
  opType := .standard
  encryptedData := none

def writeScalar : Json → Option Bytes
  | .string text => some (Json.writeString text)
  | .int value => some (intToString value)
  | .number text => some text
  | .null => some (Bytes.ofAscii "null")
  | _ => none

/-- Writing without recursion where no value is nested. -/
def writeFlat (json : Json) : Bytes :=
  match json with
  | .assoc fields =>
    if fields.all fun field => (writeScalar field.2).isSome then
      123 :: (Json.joined (fields.map fun field =>
        Json.writeString (Json.nameBytes field.1) ++ 58 :: (writeScalar field.2).getD []) ++ [125])
    else json.write
  | _ => json.write

theorem writeFlat_eq : writeFlat = Json.write := by
  have scalar : ∀ value, (writeScalar value).isSome →
      (writeScalar value).getD [] = value.write := by
    intro value known
    cases value with
    | string text => rw [Json.write]; rfl
    | int value => rw [Json.write]; rfl
    | number text => rw [Json.write]; rfl
    | null => rw [Json.write]; rfl
    | bool value => cases known
    | list items => cases known
    | assoc fields => cases known
  funext json
  unfold writeFlat
  split
  · next fields =>
    split
    · next flat =>
      rw [Json.write_assoc]
      congr 3
      apply List.map_congr_left
      intro field listed
      rw [scalar _ (List.all_eq_true.mp flat field listed)]
      rfl
    · rfl
  · rfl

def bare : Transaction.HashRules where
  sha256 := id
  print := writeFlat
  floatText _ := Bytes.ofAscii "1.0"

def preimage (tx : Transaction) : Bytes := writeFlat (Transaction.hashJson bare tx)

/-- The hash function is known at the payments in question. -/
def hashes : Transaction.HashRules :=
  { bare with
    sha256 := tableHash [
      (preimage (payment 65 1 2000 1000), bigEndian 32
        0x3068b22e26cefcc6e8095080ad351f3688dabecae884fa32de66265fef3e7304),
      (preimage (payment 65 2 0 1000), bigEndian 32
        0xd140aa6af8af2468f62a6790dbc18a9c7b019df85beaa3fa6736d2fb1f7069b0),
      (preimage (payment 65 3 2000 1000), bigEndian 32
        0x0003f437cdb4e4976130eb6e8de0940786bae055b1883b961e7bb5729a80e43f),
      (preimage (payment 66 1 0 2000), bigEndian 32
        0x97aa6bbb111efc906619c67df7d5b2e53b7feeb0169e90d1078b424b57f32e3f)] }

theorem naming_hashes (known : Transaction → Prop) : hashes.Naming known where
  distinct _ _ _ _ same := (ideal_tableHash (by decide) (by decide)).injective _ _ same
  written := Transaction.written_plain writeFlat_eq

def costs : Transaction.CostRules where
  texts := SetFold.plainTexts
  zOfString := readDecimal
  stealthMinOu := none

def limited (ouLimit txLimit : Int) : Setting where
  rules := costs
  hashes
  ouLimit
  txLimit

def submit (balance nonce : Int) (tx : Transaction) : Operation :=
  .addSmart (.ok ()) (fun _ => some (balance, nonce)) 0 tx

/-- Two payments of one sender, then a better one of another sender. -/
def operations : List Operation :=
  [submit 5000 0 (payment 65 1 2000 1000), submit 5000 0 (payment 65 2 0 1000),
    submit 5000 0 (payment 66 1 0 2000)]

theorem addresses_operations (tx : Transaction) (submitted : Submitted operations tx) :
    tx.sender.length = addressLength := by
  obtain ⟨preview, lookup, now, listed⟩ := submitted
  simp only [operations, submit, List.mem_cons, List.not_mem_nil, or_false,
    Operation.addSmart.injEq] at listed
  rcases listed with ⟨-, -, -, rfl⟩ | ⟨-, -, -, rfl⟩ | ⟨-, -, -, rfl⟩ <;> rfl

end Sample

open Sample in
/-- The better payment takes the place of both. -/
theorem consistent_of_run_outbid :
    let s := run (limited 3000 2) operations
    (Consistent (limited 3000 2) s ∧ s.totalOu ≤ max 0 3000 ∧
      (s.entries.length : Int) ≤ max 0 2 ∧
      ∀ preview lookup now tx reason,
        (s.add (limited 3000 2) preview lookup now tx).2 = .error reason →
          SameTables s (s.add (limited 3000 2) preview lookup now tx).1) ∧
      s.entries.map Entry.tx = [payment 66 1 0 2000] :=
  ⟨consistent_of_run (limited 3000 2) operations (naming_hashes _)
    addresses_operations, by decide +kernel⟩

open Sample in
/-- A pool whose limit is negative holds more than its limit when it is
empty. -/
theorem not_within_negative :
    ¬ ∀ (setting : Setting) (operations : List Operation),
      setting.hashes.Naming (Submitted operations) →
      (∀ tx, Submitted operations tx → tx.sender.length = addressLength) →
        (run setting operations).totalOu ≤ setting.ouLimit := by
  intro within
  have total := within (limited (-1) 1) [] (naming_hashes _) fun tx submitted =>
    absurd submitted (by rintro ⟨_, _, _, listed⟩; cases listed)
  exact absurd total (by decide)

end Pool
end Staging
end LiteNode
