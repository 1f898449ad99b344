import LiteNode.Staging.Pool

/-!
# The tables of the staging pool agree

Every operation keeps the two hash tables and the three indexes lists of one
set of entries, in which no sender has two entries of one nonce.
-/

namespace LiteNode
namespace Bindings

variable {bindings : List (Bytes × ν)}

theorem mem_of_find? {key : Bytes} {value : ν}
    (found : find? bindings key = some value) : (key, value) ∈ bindings := by
  unfold find? at found
  rw [Option.map_eq_some_iff] at found
  obtain ⟨⟨key', value'⟩, found, rfl⟩ := found
  have same : key' = key := by simpa using List.find?_some found
  exact same ▸ List.mem_of_find?_eq_some found

theorem ne_of_find?_eq_none {key : Bytes} (absent : find? bindings key = none) :
    ∀ binding ∈ bindings, binding.1 ≠ key := by
  unfold find? at absent
  rw [Option.map_eq_none_iff, List.find?_eq_none] at absent
  intro binding listed
  simpa using absent binding listed

theorem mem_values_of_mem {binding : Bytes × ν}
    (listed : binding ∈ bindings) : binding.2 ∈ values bindings :=
  List.mem_map_of_mem listed

theorem remove_sublist (bindings : List (Bytes × ν)) (key : Bytes) :
    (remove bindings key).Sublist bindings :=
  List.eraseP_sublist

/-- Under distinct names the value of a name is the one that is removed. -/
theorem remove_perm {name : ν → Bytes} {value : ν}
    (named : ∀ binding ∈ bindings, binding.1 = name binding.2)
    (distinct : ∀ value ∈ values bindings, ∀ other ∈ values bindings,
      name value = name other → value = other) (present : value ∈ values bindings) :
    (values bindings).Perm (value :: values (remove bindings (name value))) := by
  induction bindings with
  | nil => simp [values] at present
  | cons binding rest ih =>
    have first := named binding List.mem_cons_self
    unfold remove
    by_cases same : binding.1 = name value
    · rw [List.eraseP_cons_of_pos]
      · have value_eq := distinct value present binding.2
          (mem_values_of_mem List.mem_cons_self) (same.symm.trans first)
        rw [value_eq]
        exact .refl _
      · exact decide_eq_true same
    · rw [List.eraseP_cons_of_neg (by simpa using same)]
      have later : value ∈ values rest := by
        rcases List.mem_cons.mp present with rfl | later
        · exact absurd first same
        · exact later
      have perm := ih
        (fun other listed => named other (List.mem_cons_of_mem _ listed))
        (fun value listed other listed' => distinct value
          (List.mem_cons_of_mem _ listed) other
          (List.mem_cons_of_mem _ listed')) later
      exact (perm.cons binding.2).trans (.swap _ _ _)

end Bindings

namespace Staging

/-- Fee for each unit of cost. -/
def Entry.rate (entry : Entry) : ℚ := entry.tx.ou / entry.ou

def Entry.viewKey (entry : Entry) : Lex (Bytes × Lex (Int × Bytes)) :=
  toLex (entry.tx.sender, toLex (entry.tx.nonce, entry.hash))

def Entry.evictKey (entry : Entry) : Lex (ℚ × Lex (Bytes × Bytes)) :=
  toLex (entry.rate, toLex (entry.hash, entry.key))

def Entry.recentKey (entry : Entry) : Lex (Intᵒᵈ × Lex (Intᵒᵈ × Bytes)) :=
  toLex (OrderDual.toDual (floatKey entry.tx.timestamp),
    toLex (OrderDual.toDual (floatKey entry.addedAt), entry.hash))

open Ordered

/-- Rates are compared by cross multiplication. -/
theorem byKey_rate : ByKey (fun a b => compareEntryRate b a) Entry.rate where
  lt_iff a b := by
    have posA : (0 : ℚ) < a.ou := by exact_mod_cast a.positive
    have posB : (0 : ℚ) < b.ou := by exact_mod_cast b.positive
    unfold compareEntryRate Entry.rate
    rw [compare_lt_iff_lt, div_lt_div_iff₀ posA posB]
    exact_mod_cast Iff.rfl
  eq_iff a b := by
    have posA : (a.ou : ℚ) ≠ 0 := by exact_mod_cast a.positive.ne'
    have posB : (b.ou : ℚ) ≠ 0 := by exact_mod_cast b.positive.ne'
    unfold compareEntryRate Entry.rate
    rw [compare_eq_iff_eq, div_eq_div_iff posA posB]
    exact_mod_cast Iff.rfl

theorem byKey_indexCompare : ByKey indexCompare Entry.viewKey :=
  (byKey_compareBytes fun entry : Entry => entry.tx.sender).andThen
    ((byKey_compare fun entry : Entry => entry.tx.nonce).andThen (byKey_compareBytes Entry.hash))

theorem byKey_evictCompare : ByKey evictCompare Entry.evictKey :=
  byKey_rate.andThen ((byKey_compareBytes Entry.hash).andThen (byKey_compareBytes Entry.key))

theorem byKey_recentCompare : ByKey recentCompare Entry.recentKey :=
  have timestamp := byKey_compare fun entry : Entry => floatKey entry.tx.timestamp
  have addedAt := byKey_compare fun entry : Entry => floatKey entry.addedAt
  timestamp.reversed.andThen (addedAt.reversed.andThen (byKey_compareBytes Entry.hash))

theorem hash_of_viewKey {entry other : Entry}
    (same : entry.viewKey = other.viewKey) : entry.hash = other.hash := by
  have pair := congrArg Prod.snd (toLex_inj.mp same)
  exact congrArg Prod.snd (toLex_inj.mp pair)

theorem hash_of_evictKey {entry other : Entry}
    (same : entry.evictKey = other.evictKey) : entry.hash = other.hash := by
  have pair := congrArg Prod.snd (toLex_inj.mp same)
  exact congrArg Prod.fst (toLex_inj.mp pair)

theorem hash_of_recentKey {entry other : Entry}
    (same : entry.recentKey = other.recentKey) : entry.hash = other.hash := by
  have pair := congrArg Prod.snd (toLex_inj.mp same)
  exact congrArg Prod.snd (toLex_inj.mp pair)

/-- Addresses have this many characters. -/
def addressLength : Nat := 47

/-- An entry is that of a submitted transaction, whose sender is an
address. -/
structure Entry.Made
    (setting : Setting) (submitted : Transaction → Prop) (entry : Entry) :
    Prop where
  submitted : submitted entry.tx
  ou : entry.ou = entry.tx.ouCost setting.rules
  key : entry.key = entry.tx.sender ++ intToString entry.tx.nonce
  hash : entry.hash = entry.tx.hash setting.hashes
  sender : entry.tx.sender.length = addressLength

namespace Entry.Made

variable {setting : Setting} {submitted : Transaction → Prop} {entry other : Entry}

/-- A key tells sender and nonce, as all senders are of one length. -/
theorem of_key_eq (made : entry.Made setting submitted) (made' : other.Made setting submitted)
    (same : entry.key = other.key) :
    entry.tx.sender = other.tx.sender ∧ entry.tx.nonce = other.tx.nonce := by
  rw [made.key, made'.key] at same
  have lengths := made.sender.trans made'.sender.symm
  obtain ⟨sender, nonce⟩ := List.append_inj same lengths
  have read := congrArg readDecimal nonce
  rw [readDecimal_intToString, readDecimal_intToString] at read
  exact ⟨sender, Option.some.inj read⟩

theorem key_of_hash_eq (naming : setting.hashes.Naming submitted)
    (made : entry.Made setting submitted)
    (made' : other.Made setting submitted) (same : entry.hash = other.hash) :
    entry.key = other.key := by
  rw [made.hash, made'.hash] at same
  obtain ⟨sender, nonce⟩ := Transaction.sender_nonce_of_hash naming
    made.submitted made'.submitted same
  rw [made.key, made'.key, sender, nonce]

end Entry.Made

/-- An index lists the entries in the order of its key. -/
structure Listed [LinearOrder κ] (key : Entry → κ) (index entries : List Entry) : Prop where
  perm : index.Perm entries
  increasing : Increasing key index

/-- Five tables of one set of entries, with their total cost, and a virtual
state of each sender among them. -/
structure Agree
    (setting : Setting) (submitted : Transaction → Prop) (s : Pool) :
    Prop where
  made : ∀ entry ∈ s.entries, entry.Made setting submitted
  apart : s.entries.Pairwise fun entry other => entry.key ≠ other.key
  staged : ∀ binding ∈ s.staging, binding.1 = binding.2.key
  hashed : ∀ binding ∈ s.hashIndex, binding.1 = binding.2.hash
  hashes : (Bindings.values s.hashIndex).Perm s.entries
  view : Listed Entry.viewKey s.viewIndex s.entries
  evict : Listed Entry.evictKey s.evictIndex s.entries
  recent : Listed Entry.recentKey s.recentIndex s.entries
  total : s.totalOu = (s.entries.map Entry.ou).sum
  known : ∀ entry ∈ s.entries, s.virtualBalances.mem entry.tx.sender = true ∧
    s.virtualNonces.mem entry.tx.sender = true

theorem agree_empty (setting : Setting) (submitted : Transaction → Prop) :
    Agree setting submitted .empty where
  made _ listed := absurd listed List.not_mem_nil
  apart := .nil
  staged _ listed := absurd listed List.not_mem_nil
  hashed _ listed := absurd listed List.not_mem_nil
  hashes := .refl _
  view := ⟨.refl _, .nil⟩
  evict := ⟨.refl _, .nil⟩
  recent := ⟨.refl _, .nil⟩
  total := rfl
  known _ listed := absurd listed List.not_mem_nil

section Listed

variable [LinearOrder κ] {compare : Entry → Entry → Ordering}
  {key : Entry → κ} {index entries : List Entry} {entry : Entry}

theorem Listed.add (listed : Listed key index entries) (byKey : ByKey compare key)
    (new : ∀ other ∈ entries, key other ≠ key entry) :
    Listed key (Ordered.add compare entry index) (entry :: entries) := by
  obtain ⟨perm, increasing⟩ := add_spec byKey listed.increasing
    fun other present => new other (listed.perm.mem_iff.mp present)
  exact ⟨perm.trans (listed.perm.cons entry), increasing⟩

theorem Listed.bind (listed : Listed key index entries) (byKey : ByKey compare key)
    (new : ∀ other ∈ entries, key other ≠ key entry) :
    Listed key (Ordered.bind compare entry index) (entry :: entries) := by
  rw [bind_eq_add byKey fun other present => new other (listed.perm.mem_iff.mp present)]
  exact listed.add byKey new

theorem Listed.remove {left : List Entry} (listed : Listed key index entries)
    (byKey : ByKey compare key) (split : entries.Perm (entry :: left)) :
    Listed key (Ordered.remove compare entry index) left := by
  have present := listed.perm.mem_iff.mpr (split.mem_iff.mpr List.mem_cons_self)
  obtain ⟨perm, increasing⟩ := remove_spec byKey listed.increasing present
  have cons := perm.symm.trans (listed.perm.trans split)
  exact ⟨List.perm_cons entry |>.mp cons, increasing⟩

end Listed

namespace Agree

variable {setting : Setting} {submitted : Transaction → Prop} {s : Pool} {entry other : Entry}

theorem eq_of_key_eq (agree : Agree setting submitted s) (listed : entry ∈ s.entries)
    (listed' : other ∈ s.entries) (same : entry.key = other.key) : entry = other := by
  by_contra apart
  have symm : Std.Symm fun entry other : Entry => entry.key ≠ other.key := ⟨fun _ _ => Ne.symm⟩
  exact agree.apart.forall listed listed' apart same

theorem eq_of_hash_eq (naming : setting.hashes.Naming submitted) (agree : Agree setting submitted s)
    (listed : entry ∈ s.entries) (listed' : other ∈ s.entries)
    (same : entry.hash = other.hash) : entry = other :=
  agree.eq_of_key_eq listed listed'
    ((agree.made entry listed).key_of_hash_eq naming (agree.made other listed') same)

theorem nodup (agree : Agree setting submitted s) : s.entries.Nodup :=
  agree.apart.imp fun apart same => apart (congrArg Entry.key same)

/-- A new entry joins all tables. -/
theorem insert (naming : setting.hashes.Naming submitted) (agree : Agree setting submitted s)
    (made : entry.Made setting submitted) (new : ∀ other ∈ s.entries, other.key ≠ entry.key) :
    Agree setting submitted (s.insert entry) := by
  have newHash : ∀ other ∈ s.entries, other.hash ≠ entry.hash :=
    fun other listed same => new other listed
      ((agree.made other listed).key_of_hash_eq naming made same)
  refine
    { made := ?_
      apart := ?_
      staged := ?_
      hashed := ?_
      hashes := agree.hashes.cons entry
      view := agree.view.bind byKey_indexCompare fun other listed same =>
        newHash other listed (hash_of_viewKey same)
      evict := agree.evict.add byKey_evictCompare fun other listed same =>
        newHash other listed (hash_of_evictKey same)
      recent := agree.recent.add byKey_recentCompare fun other listed same =>
        newHash other listed (hash_of_recentKey same)
      total := ?_
      known := ?_ }
  · intro other listed
    rcases List.mem_cons.mp listed with rfl | listed
    · exact made
    · exact agree.made other listed
  · exact List.pairwise_cons.mpr ⟨fun other listed => (new other listed).symm, agree.apart⟩
  · intro binding listed
    rcases List.mem_cons.mp listed with rfl | listed
    · rfl
    · exact agree.staged binding listed
  · intro binding listed
    rcases List.mem_cons.mp listed with rfl | listed
    · rfl
    · exact agree.hashed binding listed
  · have total := agree.total
    show s.totalOu + entry.ou = ((entry :: s.entries).map Entry.ou).sum
    rw [List.map_cons, List.sum_cons, total, add_comm]
  · intro other listed
    simp only [Pool.insert, Table.mem_iff, Table.find?_replace_eq_ite]
    split
    · exact ⟨⟨_, rfl⟩, ⟨_, rfl⟩⟩
    · next apart =>
      rcases List.mem_cons.mp listed with rfl | listed
      · exact absurd rfl apart
      · have known := agree.known other listed
        simpa only [Table.mem_iff] using known

/-- The entry that leaves is the only one that leaves. -/
theorem evict_perm (agree : Agree setting submitted s) (listed : entry ∈ s.entries) :
    s.entries.Perm (entry :: (s.evict entry).entries) :=
  Bindings.remove_perm agree.staged
    (fun _ listed _ listed' same => agree.eq_of_key_eq listed listed' same)
    listed

theorem evict_sublist (s : Pool) (entry : Entry) : (s.evict entry).entries.Sublist s.entries :=
  (Bindings.remove_sublist s.staging entry.key).map _

theorem evict_agree (naming : setting.hashes.Naming submitted) (agree : Agree setting submitted s)
    (listed : entry ∈ s.entries) : Agree setting submitted (s.evict entry) := by
  have perm := agree.evict_perm listed
  have sublist := evict_sublist s entry
  have hashes : (Bindings.values s.hashIndex).Perm
      (entry :: Bindings.values (s.evict entry).hashIndex) := by
    apply Bindings.remove_perm agree.hashed
    · intro value listed other listed' same
      exact agree.eq_of_hash_eq naming (agree.hashes.mem_iff.mp listed)
        (agree.hashes.mem_iff.mp listed') same
    · exact agree.hashes.mem_iff.mpr listed
  refine
    { made := fun other kept => agree.made other (sublist.subset kept)
      apart := agree.apart.sublist sublist
      staged := fun binding kept => agree.staged binding
        ((Bindings.remove_sublist _ _).subset kept)
      hashed := fun binding kept => agree.hashed binding
        ((Bindings.remove_sublist _ _).subset kept)
      hashes := (List.perm_cons entry).mp (hashes.symm.trans (agree.hashes.trans perm))
      view := agree.view.remove byKey_indexCompare perm
      evict := agree.evict.remove byKey_evictCompare perm
      recent := agree.recent.remove byKey_recentCompare perm
      total := ?_
      known := ?_ }
  · have total := agree.total
    rw [(perm.map Entry.ou).sum_eq, List.map_cons, List.sum_cons] at total
    show s.totalOu - entry.ou = _
    rw [total, add_sub_cancel_left]
  · intro other kept
    have known := agree.known other (sublist.subset kept)
    simp only [Pool.evict, Table.mem_iff, Table.find?_replace_eq_ite]
    rw [Table.mem_iff, Table.mem_iff] at known
    refine ⟨?_, known.2⟩
    split
    · exact ⟨_, rfl⟩
    · exact known.1

end Agree
end Staging
end LiteNode
