import LiteNode.Data.Ordered
import Mathlib.Data.List.Induction

/-!
# Writes to a store

A store gives every key a value. Of several writes to a key the last one counts,
so that the writes can be put in order, one for each key. What the keys had
before puts the store back as it was.
-/

namespace LiteNode

variable {κ ν : Type}

section Stores

variable [DecidableEq κ]

def writeOne (store : κ → ν) (write : κ × ν) : κ → ν := Function.update store write.1 write.2

/-- Write values one after the other. -/
def writeAll (store : κ → ν) (writes : List (κ × ν)) : κ → ν := writes.foldl writeOne store

@[simp] theorem writeAll_cons (store : κ → ν) (write : κ × ν) (writes : List (κ × ν)) :
    writeAll store (write :: writes) = writeAll (writeOne store write) writes := rfl

theorem writeAll_append (store : κ → ν) (first later : List (κ × ν)) :
    writeAll store (first ++ later) = writeAll (writeAll store first) later :=
  List.foldl_append

variable {key : κ}

/-- A key that is not written keeps its value. -/
theorem writeAll_of_notMem {writes : List (κ × ν)}
    (unwritten : key ∉ writes.map Prod.fst) (store : κ → ν) :
    writeAll store writes key = store key := by
  induction writes generalizing store with
  | nil => rfl
  | cons write rest ih =>
    rw [List.map_cons, List.mem_cons, not_or] at unwritten
    rw [writeAll_cons, ih unwritten.2]
    exact Function.update_of_ne unwritten.1 _ _

/-- A key that is written once has the value that was written. -/
theorem writeAll_of_mem {writes : List (κ × ν)} (distinct : (writes.map Prod.fst).Nodup) {value : ν}
    (written : (key, value) ∈ writes) (store : κ → ν) : writeAll store writes key = value := by
  induction writes generalizing store with
  | nil => cases written
  | cons write rest ih =>
    rw [List.map_cons, List.nodup_cons] at distinct
    rcases List.mem_cons.mp written with rfl | later
    · rw [writeAll_cons, writeAll_of_notMem distinct.1]
      exact Function.update_self _ _ _
    · rw [writeAll_cons]
      exact ih distinct.2 later _

/-- Writes act key by key. -/
theorem writeAll_congr {store store' : κ → ν}
    (same : store key = store' key) (writes : List (κ × ν)) :
    writeAll store writes key = writeAll store' writes key := by
  induction writes generalizing store store' with
  | nil => exact same
  | cons write rest ih =>
    apply ih
    simp only [writeOne, Function.update_apply]
    split
    · rfl
    · exact same

/-- What a store had before it was written puts it back. -/
theorem writeAll_undo {store after : κ → ν} {priors : List (κ × ν)}
    (distinct : (priors.map Prod.fst).Nodup) (before : ∀ entry ∈ priors, store entry.1 = entry.2)
    (other : key ∉ priors.map Prod.fst → after key = store key) :
    writeAll after priors key = store key := by
  by_cases written : key ∈ priors.map Prod.fst
  · obtain ⟨⟨_, value⟩, member, rfl⟩ := List.mem_map.mp written
    rw [writeAll_of_mem distinct member]
    exact (before _ member).symm
  · rw [writeAll_of_notMem written, other written]

end Stores

section Bindings

variable [LinearOrder κ]

def compareKeys (left right : κ × ν) : Ordering := compare left.1 right.1

def lastWrites (writes : List (κ × ν)) : List (κ × ν) :=
  writes.foldl (fun bound write => Ordered.bind compareKeys write bound) []

theorem byKey_compareKeys : Ordered.ByKey (compareKeys : κ × ν → κ × ν → Ordering) Prod.fst where
  lt_iff _ _ := compare_lt_iff_lt
  eq_iff _ _ := compare_eq_iff_eq

theorem nodup_of_increasing {bound : List (κ × ν)}
    (increasing : Ordered.Increasing Prod.fst bound) : (bound.map Prod.fst).Nodup := by
  rw [List.Nodup, List.pairwise_map]
  exact increasing.imp fun below => below.ne

/-- Binding a key stands for a write after the others. -/
theorem writeAll_bind (write : κ × ν) {bound : List (κ × ν)}
    (increasing : Ordered.Increasing Prod.fst bound) (store : κ → ν) :
    writeAll store (Ordered.bind compareKeys write bound) =
      writeOne (writeAll store bound) write := by
  have members : ∀ other, other ∈ Ordered.bind compareKeys write bound ↔
      other = write ∨ other ∈ bound ∧ other.1 ≠ write.1 :=
    fun other => Ordered.mem_bind byKey_compareKeys increasing
  have distinct : ((Ordered.bind compareKeys write bound).map Prod.fst).Nodup :=
    nodup_of_increasing (Ordered.increasing_bind byKey_compareKeys increasing)
  funext key
  simp only [writeOne, Function.update_apply]
  split
  · next same =>
    rw [same]
    exact writeAll_of_mem distinct ((members write).mpr (Or.inl rfl)) store
  · next apart =>
    by_cases written : key ∈ bound.map Prod.fst
    · obtain ⟨other, member, rfl⟩ := List.mem_map.mp written
      rw [writeAll_of_mem (nodup_of_increasing increasing) member]
      exact writeAll_of_mem distinct ((members other).mpr (Or.inr ⟨member, apart⟩)) store
    · rw [writeAll_of_notMem written, writeAll_of_notMem]
      intro listed
      obtain ⟨other, member, rfl⟩ := List.mem_map.mp listed
      rcases (members other).mp member with rfl | ⟨kept, _⟩
      · exact apart rfl
      · exact written (List.mem_map_of_mem kept)

/-- The last writes are in order, and stand for all writes. -/
theorem lastWrites_spec (writes : List (κ × ν)) :
    Ordered.Increasing Prod.fst (lastWrites writes) ∧
      (∀ store : κ → ν, writeAll store (lastWrites writes) = writeAll store writes) ∧
      ∀ key, key ∈ (lastWrites writes).map Prod.fst ↔ key ∈ writes.map Prod.fst := by
  induction writes using List.reverseRecOn with
  | nil => exact ⟨List.Pairwise.nil, fun _ => rfl, fun _ => Iff.rfl⟩
  | append_singleton writes write ih =>
    obtain ⟨increasing, alike, keys⟩ := ih
    have last : lastWrites (writes ++ [write]) =
        Ordered.bind compareKeys write (lastWrites writes) := by
      rw [lastWrites, List.foldl_append]
      rfl
    rw [last]
    refine ⟨Ordered.increasing_bind byKey_compareKeys increasing, ?_, ?_⟩
    · intro store
      rw [writeAll_bind write increasing, alike, writeAll_append]
      rfl
    · intro key
      rw [List.map_append, List.mem_append, ← keys]
      simp only [List.mem_map, Ordered.mem_bind byKey_compareKeys increasing]
      constructor
      · rintro ⟨other, rfl | ⟨kept, _⟩, rfl⟩
        · exact Or.inr ⟨other, by simp, rfl⟩
        · exact Or.inl ⟨other, kept, rfl⟩
      · rintro (⟨other, kept, rfl⟩ | ⟨other, listed, rfl⟩)
        · by_cases same : other.1 = write.1
          · exact ⟨write, Or.inl rfl, same.symm⟩
          · exact ⟨other, Or.inr ⟨kept, same⟩, rfl⟩
        · rw [List.mem_singleton.mp listed]
          exact ⟨write, Or.inl rfl, rfl⟩

end Bindings
end LiteNode
