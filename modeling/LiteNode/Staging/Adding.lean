import LiteNode.Staging.Removing

/-!
# Adding an entry to the pool

An accepted transaction is inserted after some entries were evicted. What is
left then has room for it, and its sender can afford it.
-/

namespace LiteNode
namespace Staging
namespace Pool

variable {setting : Setting} {submitted : Transaction → Prop} {s s' between : Pool} {entry : Entry}

/-- Costs of the entries and the balance left to a pending sender are not
negative. -/
structure Solvent (s : Pool) (sender : Bytes) : Prop where
  costs : ∀ entry ∈ s.entries, 0 ≤ entry.tx.publicBalanceCost
  left : s.Pending sender → 0 ≤ s.virtualBalance sender

variable {lookup : Bytes → Option (Int × Int)} {addr : Bytes}

theorem initVirtualState_ok (agree : Agree setting submitted s)
    (ready : initVirtualState lookup s addr = .ok s') :
    Cleared s s' ∧ (s'.virtualBalances.mem addr = true ∧ s'.virtualNonces.mem addr = true) ∧
      (¬ s.Pending addr → s'.virtualBalance addr = ((lookup addr).getD (0, 0)).1) := by
  unfold initVirtualState at ready
  split at ready
  · next idle =>
    have idle : ¬ s.Pending addr := by
      rw [← senderHasPending_iff agree]
      simpa using idle
    cases ready
    refine ⟨⟨rfl, rfl, rfl, rfl, rfl, rfl, ?_, ?_⟩, ⟨?_, ?_⟩, fun _ => ?_⟩
    · intro sender pending
      apply Table.find?_replace_ne
      rintro rfl
      exact idle pending
    · intro sender pending
      apply Table.find?_replace_ne
      rintro rfl
      exact idle pending
    · exact Table.mem_iff.mpr ⟨_, Table.find?_replace _ _ _⟩
    · exact Table.mem_iff.mpr ⟨_, Table.find?_replace _ _ _⟩
    · unfold virtualBalance
      rw [Table.find?_replace]
      rfl
  · next pending =>
    have pending : s.Pending addr := by
      rw [← senderHasPending_iff agree]
      simpa using pending
    split at ready
    · next known =>
      cases ready
      rw [Bool.and_eq_true] at known
      exact ⟨cleared_refl s, known, fun idle => absurd pending idle⟩
    · cases ready

theorem initVirtualState_ne_error (agree : Agree setting submitted s) :
    ∃ s', initVirtualState lookup s addr = .ok s' := by
  unfold initVirtualState
  split
  · exact ⟨_, rfl⟩
  · next pending =>
    have pending : s.Pending addr := by
      rw [← senderHasPending_iff agree]
      simpa using pending
    obtain ⟨entry, listed, rfl⟩ := pending
    obtain ⟨balance, nonce⟩ := agree.known entry listed
    rw [balance, nonce]
    exact ⟨s, rfl⟩

theorem Evicted.virtualBalance_le (evicted : Evicted s s')
    (costs : ∀ entry ∈ s.entries, 0 ≤ entry.tx.publicBalanceCost)
    (sender : Bytes) : s.virtualBalance sender ≤ s'.virtualBalance sender := by
  induction evicted with
  | refl s => exact le_rfl
  | evict listed later ih =>
    have cost := costs _ listed
    have first := virtualBalance_evict _ _ sender ▸ ih
      fun other kept => costs other ((Agree.evict_sublist _ _).subset kept)
    split at first <;> omega

section Placing

variable (ouLimit txLimit : Int)

/-- After some evictions there is room for a new entry, and its sender can
afford it. -/
structure Placed (entry : Entry) (s between : Pool) : Prop where
  evicted : Evicted s between
  new : ∀ other ∈ between.entries, other.key ≠ entry.key
  total : between.totalOu + entry.ou ≤ ouLimit
  count : (between.entries.length : Int) + 1 ≤ txLimit
  affordable : s.Solvent entry.tx.sender →
    entry.tx.publicBalanceCost ≤ between.virtualBalance entry.tx.sender

/-- An attempt either fails and leaves the pool, or places the entry. -/
def Attempt (entry : Entry) (s : Pool) (result : Pool × Except String (List DropRecord)) : Prop :=
  (∃ reason, result = (s, .error reason)) ∨
    ∃ between dropped, result = (between.insert entry, .ok dropped) ∧
      Placed ouLimit txLimit entry s between

variable {ouLimit txLimit}

theorem length_staging (s : Pool) : s.staging.length = s.entries.length := (List.length_map _).symm

theorem length_evict (agree : Agree setting submitted s) (listed : entry ∈ s.entries) :
    (s.evict entry).entries.length + 1 = s.entries.length :=
  (agree.evict_perm listed).length_eq.symm

theorem checkVirtualBalance_iff {sender : Bytes} {amount : Int}
    (enough : s.checkVirtualBalance sender amount = true) : amount ≤ s.virtualBalance sender := by
  unfold checkVirtualBalance at enough
  unfold virtualBalance
  split at enough
  · next balance found =>
    rw [found]
    exact of_decide_eq_true enough
  · cases enough

theorem attempt_replaceExisting {existing : Entry} (agree : Agree setting submitted s)
    (listed : existing ∈ s.entries) (same : existing.key = entry.key)
    (made : entry.Made setting submitted) :
    Attempt ouLimit txLimit entry s (replaceExisting ouLimit txLimit existing entry s) := by
  simp only [replaceExisting]
  split
  · exact .inl ⟨_, rfl⟩
  split
  · exact .inl ⟨_, rfl⟩
  split
  · exact .inl ⟨_, rfl⟩
  next room afford =>
  have perm := agree.evict_perm listed
  obtain ⟨sender, -⟩ := (agree.made existing listed).of_key_eq made same
  refine .inr ⟨s.evict existing, _, rfl, .single listed, ?_, ?_, ?_, ?_⟩
  · intro other kept other_eq
    have apart := perm.nodup_iff.mp agree.nodup
    have present := (Agree.evict_sublist s existing).subset kept
    have equal := agree.eq_of_key_eq present listed (other_eq.trans same.symm)
    exact (List.nodup_cons.mp apart).1 (equal ▸ kept)
  · have total : (s.evict existing).totalOu = s.totalOu - existing.ou := rfl
    omega
  · have length := length_evict agree listed
    rw [length_staging] at room
    omega
  · intro solvent
    have left := solvent.left ⟨existing, listed, sender⟩
    rw [virtualBalance_evict, if_pos sender]
    by_cases more : 0 < entry.tx.publicBalanceCost - existing.tx.publicBalanceCost
    · have enough : s.checkVirtualBalance entry.tx.sender
          (entry.tx.publicBalanceCost - existing.tx.publicBalanceCost) = true := by
        by_contra short
        exact afford ⟨more, by simpa using short⟩
      have enough := checkVirtualBalance_iff enough
      omega
    · omega

theorem attempt_stageNew (naming : setting.hashes.Naming submitted)
    (agree : Agree setting submitted s) (new : ∀ other ∈ s.entries, other.key ≠ entry.key) :
    Attempt ouLimit txLimit entry s (stageNew ouLimit txLimit entry s) := by
  simp only [stageNew]
  split
  · exact .inl ⟨_, rfl⟩
  next afford =>
  have enough : s.checkVirtualBalance entry.tx.sender entry.tx.publicBalanceCost = true := by
    simpa using afford
  have enough := checkVirtualBalance_iff enough
  split
  · split
    · next worst lowest =>
      split
      · next outbid =>
        have listed : worst ∈ s.entries :=
          agree.evict.perm.mem_iff.mp (List.mem_of_mem_head? lowest)
        have first := Evicted.single listed
        have agree' := first.agree naming agree
        have second : Evicted (s.evict worst)
            ((s.evict worst).evictNonceDependents worst.tx.sender worst.tx.nonce).1 := by
          apply evicted_foldl naming agree'
          · exact (senderEntries_nodup agree' _).sublist List.filter_sublist
          · intro other dependent
            exact ((mem_senderEntries agree').mp (List.mem_of_mem_filter dependent)).1
        have evicted := first.trans second
        refine .inr ⟨_, _, rfl, evicted, ?_, ?_, ?_, ?_⟩
        · exact fun other kept => new other (evicted.sublist.subset kept)
        · have total : (s.evict worst).totalOu = s.totalOu - worst.ou := rfl
          have fewer := second.total_le
          omega
        · have length := length_evict agree listed
          have fewer := second.sublist.length_le
          rw [length_staging] at outbid
          omega
        · intro solvent
          have more := evicted.virtualBalance_le solvent.costs entry.tx.sender
          omega
      · exact .inl ⟨_, rfl⟩
    · exact .inl ⟨_, rfl⟩
  · next room =>
    rw [length_staging] at room
    exact .inr ⟨s, _, rfl, .refl s, new, by omega, by omega, fun _ => enough⟩

theorem attempt_place {lookup : Bytes → Option (Int × Int)}
    (naming : setting.hashes.Naming submitted)
    (agree : Agree setting submitted s) (made : entry.Made setting submitted) :
    Attempt ouLimit txLimit entry s (place ouLimit txLimit lookup entry s) := by
  unfold place
  dsimp only
  split
  · exact .inl ⟨_, rfl⟩
  split
  · exact .inl ⟨_, rfl⟩
  split
  · exact .inl ⟨_, rfl⟩
  split
  · exact .inl ⟨_, rfl⟩
  split
  · next existing found =>
    have listed := Bindings.mem_of_find? found
    exact attempt_replaceExisting agree (Bindings.mem_values_of_mem listed)
      (agree.staged _ listed).symm made
  · next absent =>
    apply attempt_stageNew naming agree
    intro other listed
    obtain ⟨binding, bound, rfl⟩ := List.mem_map.mp listed
    rw [← agree.staged binding bound]
    exact Bindings.ne_of_find?_eq_none absent binding bound

theorem place_refused {lookup : Bytes → Option (Int × Int)} {reason : String}
    (refused : (place ouLimit txLimit lookup entry s).2 = .error reason) :
    (place ouLimit txLimit lookup entry s).1 = s := by
  revert refused
  simp only [place]
  split
  · exact fun _ => rfl
  split
  · exact fun _ => rfl
  split
  · exact fun _ => rfl
  split
  · exact fun _ => rfl
  split
  · simp only [replaceExisting]
    split
    · exact fun _ => rfl
    split
    · exact fun _ => rfl
    split
    · exact fun _ => rfl
    · exact fun accepted => nomatch accepted
  · simp only [stageNew]
    split
    · exact fun _ => rfl
    split
    · split
      · split
        · exact fun accepted => nomatch accepted
        · exact fun _ => rfl
      · exact fun _ => rfl
    · exact fun accepted => nomatch accepted

end Placing

def SameTables (s s' : Pool) : Prop :=
  s'.staging = s.staging ∧ s'.hashIndex = s.hashIndex ∧
    s'.viewIndex = s.viewIndex ∧ s'.evictIndex = s.evictIndex ∧ s'.recentIndex = s.recentIndex

theorem sameTables_initVirtualState
    (ready : initVirtualState lookup s addr = .ok s') : SameTables s s' := by
  unfold initVirtualState at ready
  split at ready
  · cases ready
    exact ⟨rfl, rfl, rfl, rfl, rfl⟩
  · split at ready
    · cases ready
      exact ⟨rfl, rfl, rfl, rfl, rfl⟩
    · cases ready

theorem sameTables_of_refused {preview : Except String Unit}
    {now : UInt64} {tx : Transaction} {reason : String}
    (refused : (s.add setting preview lookup now tx).2 = .error reason) :
    SameTables s (s.add setting preview lookup now tx).1 := by
  have same : SameTables s s := ⟨rfl, rfl, rfl, rfl, rfl⟩
  revert refused
  unfold add addSmart
  split
  · exact fun _ => same
  · split
    · exact fun _ => same
    · next opened ready =>
      intro refused
      rw [place_refused refused]
      exact sameTables_initVirtualState ready

end Pool
end Staging
end LiteNode
