import LiteNode.Data.Bytes

/-!
# Maps ordered by their keys

A map keeps its bindings in the order of their byte-string keys. Two maps are
alike under a relation when they bind the same keys to related values; every
operation takes alike maps to alike maps.
-/

namespace LiteNode

/-- A finite map from byte strings, as its bindings in order. -/
structure StringMap (ν : Type u) where
  bindings : List (Bytes × ν)
  ordered : bindings.Pairwise fun left right => left.1 < right.1

namespace StringMap

variable {ν : Type u} {ω : Type v}

def empty : StringMap ν := ⟨[], List.Pairwise.nil⟩

def addBinding (key : Bytes) (value : ν) : List (Bytes × ν) → List (Bytes × ν)
  | [] => [(key, value)]
  | entry :: rest =>
    if key < entry.1 then (key, value) :: entry :: rest
    else if key = entry.1 then (key, value) :: rest
    else entry :: addBinding key value rest

theorem mem_addBinding {key : Bytes} {value : ν} {entries : List (Bytes × ν)}
    {entry : Bytes × ν} (present : entry ∈ addBinding key value entries) :
    entry = (key, value) ∨ entry ∈ entries := by
  induction entries with
  | nil => exact Or.inl (List.mem_singleton.mp present)
  | cons first rest ih =>
    unfold addBinding at present
    split at present
    · exact List.mem_cons.mp present
    split at present
    · rcases List.mem_cons.mp present with new | former
      · exact Or.inl new
      · exact Or.inr (List.mem_cons_of_mem _ former)
    · rcases List.mem_cons.mp present with same | later
      · exact Or.inr (same ▸ List.mem_cons_self)
      · exact (ih later).imp id (List.mem_cons_of_mem _)

theorem ordered_addBinding (key : Bytes) (value : ν) {entries : List (Bytes × ν)}
    (ordered : entries.Pairwise fun left right => left.1 < right.1) :
    (addBinding key value entries).Pairwise fun left right => left.1 < right.1 := by
  induction entries with
  | nil => exact List.pairwise_singleton _ _
  | cons first rest ih =>
    obtain ⟨below, later⟩ := List.pairwise_cons.mp ordered
    unfold addBinding
    split
    · next before =>
      refine List.pairwise_cons.mpr ⟨fun entry present => ?_, ordered⟩
      rcases List.mem_cons.mp present with rfl | further
      · exact before
      · exact lt_trans before (below entry further)
    split
    · next same =>
      refine List.pairwise_cons.mpr ⟨fun entry present => ?_, later⟩
      exact same ▸ below entry present
    · next notBefore different =>
      refine List.pairwise_cons.mpr ⟨fun entry present => ?_, ih later⟩
      rcases mem_addBinding present with rfl | further
      · exact lt_of_le_of_ne (not_lt.mp notBefore) (Ne.symm different)
      · exact below entry further

def add (key : Bytes) (value : ν) (table : StringMap ν) : StringMap ν :=
  ⟨addBinding key value table.bindings, ordered_addBinding key value table.ordered⟩

def find? (key : Bytes) (table : StringMap ν) : Option ν :=
  (table.bindings.find? fun entry => entry.1 = key).map Prod.snd

def mem (key : Bytes) (table : StringMap ν) : Bool := table.bindings.any fun entry => entry.1 = key

def cardinal (table : StringMap ν) : Int := table.bindings.length

def filter (keep : Bytes → ν → Bool) (table : StringMap ν) : StringMap ν :=
  ⟨table.bindings.filter fun entry => keep entry.1 entry.2,
    table.ordered.sublist List.filter_sublist⟩

def remove (key : Bytes) (table : StringMap ν) : StringMap ν :=
  table.filter fun other _ => other ≠ key

/-- Change the binding of a key, or add or drop it. -/
def update (key : Bytes) (change : Option ν → Option ν) (table : StringMap ν) : StringMap ν :=
  match change (table.find? key) with
  | none => table.remove key
  | some value => table.add key value

def map (f : ν → ω) (table : StringMap ν) : StringMap ω :=
  ⟨table.bindings.map fun entry => (entry.1, f entry.2), List.pairwise_map.mpr table.ordered⟩

/-- The values in the order of their keys. -/
def values (table : StringMap ν) : List ν := table.bindings.map Prod.snd

/-- Bind each key to its value, one after the other. -/
def ofList (key : ν → Bytes) (items : List ν) : StringMap ν :=
  items.foldl (fun table item => table.add (key item) item) empty

/-- Every binding has a property. -/
def All (P : Bytes → ν → Prop) (table : StringMap ν) : Prop :=
  ∀ entry ∈ table.bindings, P entry.1 entry.2

section All

variable {P : Bytes → ν → Prop} {table : StringMap ν}

theorem all_empty : (empty : StringMap ν).All P := by
  intro entry present
  cases present

theorem All.add (all : table.All P) {key : Bytes} {value : ν} (holds : P key value) :
    (table.add key value).All P := by
  intro entry present
  rcases mem_addBinding present with rfl | former
  · exact holds
  · exact all entry former

theorem All.filter (all : table.All P) (keep : Bytes → ν → Bool) :
    (table.filter keep).All P := fun entry present =>
  all entry (List.mem_of_mem_filter present)

theorem All.remove (all : table.All P) (key : Bytes) : (table.remove key).All P := all.filter _

theorem All.map (all : table.All P) {f : ν → ω} {Q : Bytes → ω → Prop}
    (keeps : ∀ key value, P key value → Q key (f value)) : (table.map f).All Q := by
  intro entry present
  obtain ⟨former, listed, rfl⟩ := List.mem_map.mp present
  exact keeps _ _ (all former listed)

theorem All.find? (all : table.All P) {key : Bytes} {value : ν}
    (found : table.find? key = some value) : P key value := by
  unfold StringMap.find? at found
  obtain ⟨entry, listed, rfl⟩ := Option.map_eq_some_iff.mp found
  have same := List.find?_some listed
  rw [decide_eq_true_eq] at same
  exact same ▸ all entry (List.mem_of_find?_eq_some listed)

theorem all_ofList {key : ν → Bytes} {items : List ν} (holds : ∀ item ∈ items, P (key item) item) :
    (ofList key items).All P := by
  have general : ∀ table : StringMap ν, table.All P →
      (items.foldl (fun table item => table.add (key item) item) table).All P := by
    induction items with
    | nil => exact fun _ all => all
    | cons item rest ih =>
      intro table all
      exact ih
        (fun other listed => holds other (List.mem_cons_of_mem _ listed)) _
        (all.add (holds item List.mem_cons_self))
  exact general empty all_empty

end All

theorem find?_addBinding (key : Bytes) (value : ν) (entries : List (Bytes × ν)) (other : Bytes) :
    (addBinding key value entries).find? (fun entry => entry.1 = other) =
      if other = key then some (key, value)
      else entries.find? fun entry => entry.1 = other := by
  induction entries with
  | nil =>
    by_cases same : other = key
    · simp [addBinding, same]
    · simp [addBinding, same, Ne.symm same]
  | cons entry rest ih =>
    unfold addBinding
    by_cases same : other = key
    · subst same
      rw [if_pos rfl] at ih ⊢
      split
      · simp
      · split
        · simp
        · next below apart =>
            rw [List.find?_cons_of_neg
              (by simpa using fun same : entry.1 = other => apart same.symm)]
            exact ih
    · rw [if_neg same] at ih ⊢
      split
      · rw [List.find?_cons_of_neg (by simpa using Ne.symm same)]
      · split
        · next equal =>
            rw [List.find?_cons_of_neg (by simpa using Ne.symm same),
              List.find?_cons_of_neg (by simpa [← equal] using Ne.symm same)]
        · by_cases found : entry.1 = other
          · rw [List.find?_cons_of_pos (by simpa using found),
              List.find?_cons_of_pos (by simpa using found)]
          · rw [List.find?_cons_of_neg (by simpa using found),
              List.find?_cons_of_neg (by simpa using found)]
            exact ih

theorem find?_add (table : StringMap ν) (key : Bytes) (value : ν) (other : Bytes) :
    (table.add key value).find? other = if other = key then some value else table.find? other := by
  simp only [find?, add, find?_addBinding]
  split <;> simp

theorem find?_filter (table : StringMap ν) (keep : Bytes → ν → Bool) (key : Bytes) :
    (table.filter keep).find? key = (table.find? key).filter (keep key) := by
  obtain ⟨entries, ordered⟩ := table
  simp only [find?, filter]
  induction entries with
  | nil => simp
  | cons entry rest ih =>
    rw [List.pairwise_cons] at ordered
    have tail := ih ordered.2
    by_cases same : entry.1 = key
    · subst same
      rw [List.find?_cons_of_pos (by simp)]
      by_cases kept : keep entry.1 entry.2 = true
      · rw [List.filter_cons_of_pos (by simpa using kept), List.find?_cons_of_pos (by simp)]
        simp [Option.filter_some, kept]
      · rw [List.filter_cons_of_neg (by simpa using kept), tail]
        have absent : rest.find? (fun other => other.1 = entry.1) = none := by
          rw [List.find?_eq_none]
          intro other later
          have above := ordered.1 other later
          simpa using (ne_of_lt above).symm
        simp [absent, Option.filter_some, kept]
    · rw [List.find?_cons_of_neg (by simpa using same)]
      by_cases kept : keep entry.1 entry.2 = true
      · rw [List.filter_cons_of_pos (by simpa using kept),
          List.find?_cons_of_neg (by simpa using same)]
        exact tail
      · rw [List.filter_cons_of_neg (by simpa using kept)]
        exact tail

theorem find?_remove (table : StringMap ν) (key other : Bytes) :
    (table.remove key).find? other = if other = key then none else table.find? other := by
  rw [remove, find?_filter]
  by_cases same : other = key
  · simp [same, Option.filter_eq_none_iff]
  · cases table.find? other <;> simp [same]

theorem find?_update (table : StringMap ν) (key : Bytes)
    (change : Option ν → Option ν) (other : Bytes) :
    (table.update key change).find? other =
      if other = key then change (table.find? key) else table.find? other := by
  simp only [update]
  split
  · next none =>
      rw [find?_remove]
      simp [none]
  · next value changed =>
      rw [find?_add]
      simp [changed]

/-- Bindings of one key to related values. -/
def BindsAlike (R : ν → ω → Prop) (left : Bytes × ν) (right : Bytes × ω) : Prop :=
  left.1 = right.1 ∧ R left.2 right.2

/-- Maps that bind the same keys to related values. -/
def Alike (R : ν → ω → Prop) (left : StringMap ν) (right : StringMap ω) : Prop :=
  List.Forall₂ (BindsAlike R) left.bindings right.bindings

section Alike

variable {R : ν → ω → Prop} {left : StringMap ν} {right : StringMap ω}

theorem Alike.weaken (alike : Alike R left right) {S : ν → ω → Prop}
    (weaker : ∀ value value', R value value' → S value value') : Alike S left right :=
  List.Forall₂.imp (fun _ _ related => ⟨related.1, weaker _ _ related.2⟩) alike

theorem forall₂_addBinding (key : Bytes) {value : ν} {value' : ω} (related : R value value')
    {entries : List (Bytes × ν)} {entries' : List (Bytes × ω)}
    (alike : List.Forall₂ (BindsAlike R) entries entries') :
    List.Forall₂ (BindsAlike R) (addBinding key value entries)
      (addBinding key value' entries') := by
  induction alike with
  | nil => exact List.Forall₂.cons ⟨rfl, related⟩ List.Forall₂.nil
  | @cons entry entry' rest rest' same alike ih =>
    unfold addBinding
    rw [← same.1]
    split
    · exact .cons ⟨rfl, related⟩ (.cons same alike)
    split
    · exact .cons ⟨rfl, related⟩ alike
    · exact .cons same ih

theorem Alike.add (alike : Alike R left right) (key : Bytes) {value : ν} {value' : ω}
    (related : R value value') : Alike R (left.add key value) (right.add key value') :=
  forall₂_addBinding key related alike

theorem Alike.find? (alike : Alike R left right) (key : Bytes) :
    Option.Rel R (left.find? key) (right.find? key) := by
  unfold StringMap.find?
  unfold Alike at alike
  generalize left.bindings = entries at alike ⊢
  generalize right.bindings = entries' at alike ⊢
  induction alike with
  | nil => exact Option.Rel.none
  | @cons entry entry' rest rest' same alike ih =>
    rw [List.find?_cons, List.find?_cons, ← same.1]
    cases decide (entry.1 = key) with
    | true => exact Option.Rel.some same.2
    | false => exact ih

theorem Alike.mem (alike : Alike R left right) (key : Bytes) : left.mem key = right.mem key := by
  unfold StringMap.mem
  unfold Alike at alike
  generalize left.bindings = entries at alike ⊢
  generalize right.bindings = entries' at alike ⊢
  induction alike with
  | nil => rfl
  | cons same _ ih => rw [List.any_cons, List.any_cons, same.1, ih]

theorem Alike.cardinal (alike : Alike R left right) : left.cardinal = right.cardinal :=
  congrArg Nat.cast (List.Forall₂.length_eq alike)

theorem forall₂_filter {S : α → β → Prop} (keep : α → Bool) (keep' : β → Bool)
    {items : List α} {items' : List β} (alike : List.Forall₂ S items items')
    (same : ∀ item item', S item item' → keep item = keep' item') :
    List.Forall₂ S (items.filter keep) (items'.filter keep') := by
  induction alike with
  | nil => exact List.Forall₂.nil
  | cons related _ ih =>
    rw [List.filter_cons, List.filter_cons, ← same _ _ related]
    split
    · exact .cons related ih
    · exact ih

theorem Alike.filter (alike : Alike R left right) (keep : Bytes → ν → Bool)
    (keep' : Bytes → ω → Bool) (same : ∀ key value value', R value value' →
      keep key value = keep' key value') :
    Alike R (left.filter keep) (right.filter keep') :=
  forall₂_filter _ _ alike fun entry entry' related => by
    rw [← related.1, same entry.1 entry.2 entry'.2 related.2]

theorem Alike.remove (alike : Alike R left right) (key : Bytes) :
    Alike R (left.remove key) (right.remove key) :=
  alike.filter _ _ fun _ _ _ _ => rfl

theorem Alike.map (alike : Alike R left right) {S : α → β → Prop} {f : ν → α} {g : ω → β}
    (keeps : ∀ value value', R value value' → S (f value) (g value')) :
    Alike S (left.map f) (right.map g) := by
  unfold Alike StringMap.map
  rw [List.forall₂_map_left_iff, List.forall₂_map_right_iff]
  exact alike.imp fun entry entry' related => ⟨related.1, keeps _ _ related.2⟩

theorem Alike.values (alike : Alike R left right) : List.Forall₂ R left.values right.values := by
  unfold StringMap.values
  rw [List.forall₂_map_left_iff, List.forall₂_map_right_iff]
  exact alike.imp fun _ _ related => related.2

end Alike

end StringMap
end LiteNode
