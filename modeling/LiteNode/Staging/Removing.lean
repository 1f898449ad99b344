import LiteNode.Staging.Consistency

/-!
# Removing entries from the pool

Every removal evicts entries of the pool one by one and forgets the virtual
state of senders that are left without entries. The balance a sender is held
to, which is what is left of it and what the pending entries take, stays.
-/

namespace LiteNode
namespace Staging
namespace Pool

def ofSender (sender : Bytes) (entries : List Entry) : List Entry :=
  entries.filter fun entry => entry.tx.sender = sender

/-- What the pending entries of a sender take from its balance. -/
def reserved (s : Pool) (sender : Bytes) : Int :=
  ((ofSender sender s.entries).map fun entry => entry.tx.publicBalanceCost).sum

/-- The balance a sender is held to. -/
def held (s : Pool) (sender : Bytes) : Int := s.virtualBalance sender + s.reserved sender

def Pending (s : Pool) (sender : Bytes) : Prop := ∃ entry ∈ s.entries, entry.tx.sender = sender

theorem mem_ofSender {sender : Bytes} {entries : List Entry} {entry : Entry} :
    entry ∈ ofSender sender entries ↔ entry ∈ entries ∧ entry.tx.sender = sender := by
  simp [ofSender]

variable {setting : Setting} {submitted : Transaction → Prop} {s s' : Pool}

/-- The view holds the entries of a sender next to each other. -/
theorem senderEntries_eq (agree : Agree setting submitted s) (sender : Bytes) :
    s.senderEntries sender = ofSender sender s.viewIndex := by
  have sorted : s.viewIndex.Pairwise fun entry other =>
      entry.tx.sender ≤ other.tx.sender := by
    apply agree.view.increasing.imp
    intro entry other before
    rw [Entry.viewKey, Entry.viewKey, Prod.Lex.toLex_lt_toLex] at before
    rcases before with below | ⟨same, -⟩
    · exact below.le
    · exact same.le
  have together := Ordered.takeWhile_dropWhile_eq_filter
    (fun entry : Entry => entry.tx.sender) sender sorted
  unfold senderEntries viewFrom ofSender
  convert together

theorem mem_senderEntries (agree : Agree setting submitted s) {sender : Bytes} {entry : Entry} :
    entry ∈ s.senderEntries sender ↔ entry ∈ s.entries ∧ entry.tx.sender = sender := by
  rw [senderEntries_eq agree, mem_ofSender, agree.view.perm.mem_iff]

theorem senderEntries_nodup (agree : Agree setting submitted s) (sender : Bytes) :
    (s.senderEntries sender).Nodup := by
  rw [senderEntries_eq agree]
  exact (agree.view.perm.nodup_iff.mpr agree.nodup).sublist List.filter_sublist

theorem senderHasPending_iff (agree : Agree setting submitted s) (sender : Bytes) :
    s.senderHasPending sender = true ↔ s.Pending sender := by
  have first : s.senderHasPending sender = true ↔ ∃ entry, entry ∈ s.senderEntries sender := by
    unfold senderHasPending senderEntries
    cases s.viewFrom sender with
    | nil => simp
    | cons entry rest =>
      by_cases same : entry.tx.sender = sender
      · simp [same]
      · simp [same]
  rw [first]
  exact exists_congr fun entry => mem_senderEntries agree

theorem reserved_of_perm {sender : Bytes} {entries : List Entry} (perm : s.entries.Perm entries) :
    s.reserved sender = ((ofSender sender entries).map fun entry =>
      entry.tx.publicBalanceCost).sum :=
  ((perm.filter _).map _).sum_eq

theorem reserved_of_perm_cons {sender : Bytes} {entry : Entry}
    (perm : s.entries.Perm (entry :: s'.entries)) :
    s.reserved sender =
      (if entry.tx.sender = sender then entry.tx.publicBalanceCost else 0) +
        s'.reserved sender := by
  rw [reserved_of_perm perm]
  unfold ofSender
  rw [List.filter_cons]
  split
  · next same =>
    rw [if_pos (of_decide_eq_true same), List.map_cons, List.sum_cons]
    rfl
  · next apart =>
    rw [if_neg (fun same => apart (decide_eq_true same)), zero_add]
    rfl

theorem virtualBalance_evict (s : Pool) (entry : Entry) (sender : Bytes) :
    (s.evict entry).virtualBalance sender =
      s.virtualBalance sender +
        if entry.tx.sender = sender then entry.tx.publicBalanceCost
        else 0 := by
  unfold virtualBalance evict
  rw [Table.find?_replace_eq_ite]
  by_cases same : sender = entry.tx.sender
  · rw [if_pos same, if_pos same.symm, same]
    rfl
  · rw [if_neg same, if_neg (Ne.symm same), add_zero]

theorem virtualBalance_insert (s : Pool) (entry : Entry) (sender : Bytes) :
    (s.insert entry).virtualBalance sender =
      s.virtualBalance sender -
        if entry.tx.sender = sender then entry.tx.publicBalanceCost
        else 0 := by
  unfold virtualBalance insert
  rw [Table.find?_replace_eq_ite]
  by_cases same : sender = entry.tx.sender
  · rw [if_pos same, if_pos same.symm, same]
    rfl
  · rw [if_neg same, if_neg (Ne.symm same), sub_zero]

theorem held_evict (agree : Agree setting submitted s) {entry : Entry} (listed : entry ∈ s.entries)
    (sender : Bytes) : (s.evict entry).held sender = s.held sender := by
  have reserved := @reserved_of_perm_cons _ _ sender _ (agree.evict_perm listed)
  unfold held
  rw [virtualBalance_evict, reserved]
  omega

theorem held_insert (s : Pool) (entry : Entry) (sender : Bytes) :
    (s.insert entry).held sender = s.held sender := by
  have reserved : (s.insert entry).reserved sender = _ :=
    reserved_of_perm_cons (List.Perm.refl (entry :: s.entries))
  unfold held
  rw [virtualBalance_insert, reserved]
  omega

/-- Entries of the pool are evicted one after the other. -/
inductive Evicted : Pool → Pool → Prop
  | refl (s : Pool) : Evicted s s
  | evict {s s' : Pool} {entry : Entry} (listed : entry ∈ s.entries)
      (later : Evicted (s.evict entry) s') : Evicted s s'

theorem Evicted.sublist (evicted : Evicted s s') : s'.entries.Sublist s.entries := by
  induction evicted with
  | refl s => exact .refl _
  | evict listed later ih => exact ih.trans (Agree.evict_sublist _ _)

theorem Evicted.agree (evicted : Evicted s s') (naming : setting.hashes.Naming submitted)
    (agree : Agree setting submitted s) : Agree setting submitted s' := by
  induction evicted with
  | refl s => exact agree
  | evict listed later ih => exact ih (agree.evict_agree naming listed)

theorem Evicted.held (evicted : Evicted s s') (naming : setting.hashes.Naming submitted)
    (agree : Agree setting submitted s) (sender : Bytes) : s'.held sender = s.held sender := by
  induction evicted with
  | refl s => rfl
  | evict listed later ih => rw [ih (agree.evict_agree naming listed), held_evict agree listed]

theorem Evicted.total_le (evicted : Evicted s s') : s'.totalOu ≤ s.totalOu := by
  induction evicted with
  | refl s => exact le_rfl
  | @evict s s' entry listed later ih =>
    have positive := entry.positive
    have total : (s.evict entry).totalOu = s.totalOu - entry.ou := rfl
    omega

theorem Evicted.trans {s'' : Pool}
    (first : Evicted s s') (second : Evicted s' s'') : Evicted s s'' := by
  induction first with
  | refl s => exact second
  | evict listed later ih => exact .evict listed (ih second)

theorem Evicted.single {entry : Entry} (listed : entry ∈ s.entries) : Evicted s (s.evict entry) :=
  .evict listed (.refl _)

/-- Different entries of the pool can be evicted in any order. -/
theorem evicted_foldl (naming : setting.hashes.Naming submitted)
    (agree : Agree setting submitted s) {leaving : List Entry} (nodup : leaving.Nodup)
    (listed : ∀ entry ∈ leaving, entry ∈ s.entries) : Evicted s (leaving.foldl evict s) := by
  induction leaving generalizing s with
  | nil => exact .refl s
  | cons entry rest ih =>
    obtain ⟨unlisted, nodup⟩ := List.nodup_cons.mp nodup
    have first := listed entry List.mem_cons_self
    refine .evict first (ih (agree.evict_agree naming first) nodup ?_)
    intro other present
    have member := (agree.evict_perm first).mem_iff.mp
      (listed other (List.mem_cons_of_mem _ present))
    rcases List.mem_cons.mp member with rfl | kept
    · exact absurd present unlisted
    · exact kept

theorem mem_of_find?_hashIndex
    (agree : Agree setting submitted s) {hash : Bytes} {entry : Entry}
    (found : Bindings.find? s.hashIndex hash = some entry) :
    entry ∈ s.entries ∧ entry.hash = hash := by
  have listed := Bindings.mem_of_find? found
  exact ⟨agree.hashes.mem_iff.mp (Bindings.mem_values_of_mem listed), (agree.hashed _ listed).symm⟩

theorem evicted_removeByHash (agree : Agree setting submitted s) (hash : Bytes) :
    Evicted s (s.removeByHash hash).2 := by
  unfold removeByHash
  split
  · next entry found =>
    exact .single (mem_of_find?_hashIndex agree found).1
  · exact .refl s

theorem removeTouching_fst (state : Pool × List Bytes) (hash : Bytes) :
    (removeTouching state hash).1 = (state.1.removeByHash hash).2 := by
  unfold removeTouching
  split <;> rfl

theorem evicted_removeTouching (naming : setting.hashes.Naming submitted) (hashes : List Bytes)
    (state : Pool × List Bytes) (agree : Agree setting submitted state.1) :
    Evicted state.1 (hashes.foldl removeTouching state).1 := by
  induction hashes generalizing state with
  | nil => exact .refl _
  | cons hash rest ih =>
    have first : Evicted state.1 (removeTouching state hash).1 := by
      rw [removeTouching_fst]
      exact evicted_removeByHash agree hash
    exact first.trans (ih _ (first.agree naming agree))

/-- Only virtual states of senders without entries differ. -/
structure Cleared (s s' : Pool) : Prop where
  staging : s'.staging = s.staging
  hashIndex : s'.hashIndex = s.hashIndex
  viewIndex : s'.viewIndex = s.viewIndex
  evictIndex : s'.evictIndex = s.evictIndex
  recentIndex : s'.recentIndex = s.recentIndex
  totalOu : s'.totalOu = s.totalOu
  balance : ∀ sender, s.Pending sender →
    s'.virtualBalances.find? sender = s.virtualBalances.find? sender
  nonce : ∀ sender, s.Pending sender → s'.virtualNonces.find? sender = s.virtualNonces.find? sender

theorem Cleared.entries (cleared : Cleared s s') : s'.entries = s.entries :=
  congrArg Bindings.values cleared.staging

theorem Cleared.agree (cleared : Cleared s s') (agree : Agree setting submitted s) :
    Agree setting submitted s' where
  made := cleared.entries ▸ agree.made
  apart := cleared.entries ▸ agree.apart
  staged := cleared.staging ▸ agree.staged
  hashed := cleared.hashIndex ▸ agree.hashed
  hashes := by
    rw [cleared.entries, cleared.hashIndex]
    exact agree.hashes
  view := by
    rw [cleared.entries, cleared.viewIndex]
    exact agree.view
  evict := by
    rw [cleared.entries, cleared.evictIndex]
    exact agree.evict
  recent := by
    rw [cleared.entries, cleared.recentIndex]
    exact agree.recent
  total := by
    rw [cleared.entries, cleared.totalOu]
    exact agree.total
  known entry listed := by
    rw [cleared.entries] at listed
    have pending : s.Pending entry.tx.sender := ⟨entry, listed, rfl⟩
    unfold Table.mem
    rw [cleared.balance _ pending, cleared.nonce _ pending]
    exact agree.known entry listed

theorem Cleared.held (cleared : Cleared s s') {sender : Bytes} (pending : s.Pending sender) :
    s'.held sender = s.held sender := by
  unfold Pool.held Pool.reserved virtualBalance
  rw [cleared.entries, cleared.balance sender pending]

theorem cleared_clearVirtualState (agree : Agree setting submitted s) (touched : List Bytes) :
    Cleared s (clearVirtualState touched s) := by
  unfold clearVirtualState
  induction touched generalizing s with
  | nil => exact ⟨rfl, rfl, rfl, rfl, rfl, rfl, fun _ _ => rfl, fun _ _ => rfl⟩
  | cons addr rest ih =>
    rw [List.foldl_cons]
    split
    · next idle =>
      have idle : ¬ s.Pending addr := by
        rw [← senderHasPending_iff agree]
        simpa using idle
      have first : Cleared s
          { s with
            virtualBalances := s.virtualBalances.remove addr
            virtualNonces := s.virtualNonces.remove addr } := by
        refine ⟨rfl, rfl, rfl, rfl, rfl, rfl, ?_, ?_⟩ <;>
        · intro sender pending
          rw [Table.find?_remove_eq_ite, if_neg]
          rintro rfl
          exact idle pending
      have later := ih (first.agree agree)
      exact ⟨later.staging, later.hashIndex, later.viewIndex,
        later.evictIndex, later.recentIndex, later.totalOu,
        fun sender pending => (later.balance sender pending).trans (first.balance sender pending),
        fun sender pending => (later.nonce sender pending).trans (first.nonce sender pending)⟩
    · exact ih agree

/-- What every removal does: it evicts entries, then forgets. -/
def Removed (s s' : Pool) : Prop := ∃ between, Evicted s between ∧ Cleared between s'

variable (naming : setting.hashes.Naming submitted)

include naming in
theorem removed_removeProcessed (agree : Agree setting submitted s) (hashes : List Bytes) :
    Removed s (s.removeProcessed hashes) := by
  have evicted := evicted_removeTouching naming hashes (s, []) agree
  exact ⟨_, evicted, cleared_clearVirtualState (evicted.agree naming agree) _⟩

theorem cleared_refl (s : Pool) : Cleared s s :=
  ⟨rfl, rfl, rfl, rfl, rfl, rfl, fun _ _ => rfl, fun _ _ => rfl⟩

include naming in
theorem removed_discard (agree : Agree setting submitted s) (removal : Removal) :
    Removed s (s.discard setting removal) := by
  have nothing : Removed s s := ⟨s, .refl s, cleared_refl s⟩
  cases removal with
  | byHash hash => exact ⟨_, evicted_removeByHash agree hash, cleared_refl _⟩
  | processed hashes => exact removed_removeProcessed naming agree hashes
  | preview tx =>
    simp only [discard, dropPreview]
    split
    · exact nothing
    · exact removed_removeProcessed naming agree [tx.hash setting.hashes]
  | duty sender head sizeOk dutyExpired =>
    simp only [discard, expireDuty]
    split
    · exact nothing
    · apply removed_removeProcessed naming agree
  | old older confirmedNonce =>
    have evicted : Evicted s
        ((s.entries.filter fun entry => older entry.addedAt).reverse.foldl evict s) := by
      apply evicted_foldl naming agree
      · exact List.nodup_reverse.mpr (agree.nodup.sublist List.filter_sublist)
      · intro entry listed
        exact (List.mem_filter.mp (List.mem_reverse.mp listed)).1
    exact ⟨_, evicted, cleared_clearVirtualState (evicted.agree naming agree) _⟩

end Pool
end Staging
end LiteNode
