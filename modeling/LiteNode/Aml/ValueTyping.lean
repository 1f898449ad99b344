import LiteNode.Aml.Values

/-!
# Values of types

What a value of each type looks like, that the value which fills a sequence is
of the type of its elements, and how much work a comparison can be.
-/

namespace LiteNode
namespace Aml

variable {typ elem left right : Typ} {value : Value} {len : Int}

section Shapes

attribute [local simp] typed

theorem typed_bool (holds : typed .bool value = true) : ∃ flag, value = .bool flag := by
  cases value <;> simp_all

theorem typed_int (holds : typed .int value = true) : ∃ number, value = .int number := by
  cases value <;> simp_all

theorem typed_num {sign : Sign} {bits : Int} (holds : typed (.num sign bits) value = true) :
    ∃ number, value = .int number ∧ (Typ.num sign bits).admits number = true := by
  cases value <;> simp_all

theorem typed_bytes (holds : typed (.bytes len) value = true) :
    ∃ raw : Bytes, value = .bytes raw ∧ len = raw.length := by
  cases value <;> simp_all

theorem typed_cap {kind : Int} (holds : typed (.cap kind) value = true) :
    ∃ id, value = .cap kind id ∧ CNat.valid id = true := by
  cases value <;> simp_all

theorem typed_pair (holds : typed (.pair left right) value = true) :
    ∃ first second, value = .pair first second ∧
      typed left first = true ∧ typed right second = true := by
  cases value <;> simp_all

theorem typed_sum (holds : typed (.sum left right) value = true) :
    (∃ payload, value = .inl payload ∧ typed left payload = true) ∨
      ∃ payload, value = .inr payload ∧ typed right payload = true := by
  cases value <;> simp_all

theorem typed_vec_iff :
    typed (.vec len elem) value = true ↔ ∃ values, value = .vec values ∧
      len = values.length ∧ ∀ item ∈ values, typed elem item = true := by
  cases value <;> simp

theorem typed_seq_iff :
    typed (.seq len elem) value = true ↔ ∃ used values empty,
      value = .pair (.int used) (.vec values) ∧ values.length = len ∧
        0 ≤ used ∧ used ≤ len ∧ zero elem = some empty ∧ (∀ item ∈ values, typed elem item = true) ∧
        padded empty used values = true := by
  constructor
  · intro holds
    cases value with
    | pair first second =>
      cases first with
      | int used =>
        cases second with
        | vec values =>
          simp only [typed] at holds
          split at holds
          · cases holds
          next sizes =>
          split at holds
          · cases holds
          next empty filled =>
          obtain ⟨each, behind⟩ := Bool.and_eq_true_iff.mp holds
          refine ⟨used, values, empty, rfl, ?_, ?_, ?_, filled, List.all_eq_true.mp each, behind⟩
          all_goals
            by_contra other
            exact sizes (by omega)
        | _ => simp at holds
      | _ => simp at holds
    | _ => simp at holds
  · rintro ⟨used, values, empty, rfl, size, natural, below, filled, each, behind⟩
    simp only [typed]
    rw [if_neg (by omega), filled]
    dsimp only
    rw [behind, List.all_eq_true.mpr each]
    rfl

end Shapes

theorem admits_zero {sign : Sign} {bits : Int} (positive : 0 < bits)
    (small : bits ≤ Typ.maxBits) : (Typ.num sign bits).admits 0 = true := by
  have power : ∀ n : Nat, (0 : Int) < 2 ^ n := fun n => Int.pow_pos (by decide)
  have range : bits < 1 ∨ Typ.maxBits < bits ↔ False := by
    constructor
    · omega
    · exact False.elim
  unfold Typ.admits Typ.range
  cases sign
  all_goals
    simp only [range, if_false]
    have whole := power bits.toNat
    have half := power (bits - 1).toNat
    simp only [Bool.and_eq_true, decide_eq_true_eq]
    omega

/-- Plain types have a value that fills sequences. -/
theorem typed_zero (formed : typ.Formed) (plain : typ.plain = true) :
    ∃ empty, zero typ = some empty ∧ typed typ empty = true := by
  induction typ with
  | unit | bool | int => exact ⟨_, rfl, rfl⟩
  | num sign bits => exact ⟨_, rfl, admits_zero formed.1 formed.2⟩
  | bytes len =>
    have natural := (CNat.valid_iff.mp formed).1
    refine ⟨_, rfl, ?_⟩
    simp only [typed, List.length_replicate, decide_eq_true_eq]
    omega
  | vec len elem ih =>
    obtain ⟨empty, filled, holds⟩ := ih formed.2 plain
    have natural := (CNat.valid_iff.mp formed.1).1
    refine ⟨.vec (List.replicate len.toNat empty), by rw [zero, filled]; rfl,
      typed_vec_iff.mpr ⟨_, rfl, ?_, ?_⟩⟩
    · rw [List.length_replicate]
      omega
    · intro item listed
      rw [List.eq_of_mem_replicate listed]
      exact holds
  | seq cap elem ih =>
    obtain ⟨empty, filled, holds⟩ := ih formed.2.2 plain
    have natural := (CNat.valid_iff.mp formed.1).1
    refine ⟨.pair (.int 0) (.vec (List.replicate cap.toNat empty)), by rw [zero, filled]; rfl,
      typed_seq_iff.mpr ⟨0, _, empty, rfl, ?_, le_rfl, natural, filled, ?_, ?_⟩⟩
    · rw [List.length_replicate]
      omega
    · intro item listed
      rw [List.eq_of_mem_replicate listed]
      exact holds
    · refine List.all_eq_true.mpr ?_
      intro item listed
      rw [List.eq_of_mem_replicate (List.mem_of_mem_drop listed)]
      exact Value.equal_self empty
  | pair left right left_ih right_ih =>
    obtain ⟨leftPlain, rightPlain⟩ := Bool.and_eq_true_iff.mp plain
    obtain ⟨first, filled, holds⟩ := left_ih formed.1 leftPlain
    obtain ⟨second, filled', holds'⟩ := right_ih formed.2 rightPlain
    refine ⟨.pair first second, by rw [zero, filled, filled']; rfl, ?_⟩
    rw [typed, holds, holds']
    rfl
  | sum left right left_ih right_ih =>
    obtain ⟨leftPlain, -⟩ := Bool.and_eq_true_iff.mp plain
    obtain ⟨first, filled, holds⟩ := left_ih formed.1 leftPlain
    exact ⟨.inl first, by rw [zero, filled], holds⟩
  | cap id => cases plain
  | enc key rem => cases plain

/-- The most work that comparing a value of a type can be. -/
def Typ.mostWork : Typ → Int
  | .bytes len => len + 1
  | .vec len elem => len * elem.mostWork + 1
  | .seq size elem => size * elem.mostWork + 2
  | .pair left right => left.mostWork + right.mostWork + 1
  | .sum left right => max left.mostWork right.mostWork + 1
  | .unit | .bool | .int | .num _ _ | .cap _ | .enc _ _ => 1

theorem foldl_work_le {most start : Int} {values : List Value}
    (each : ∀ item ∈ values, valueWork elem item ≤ most) :
    values.foldl (fun work value => work + valueWork elem value) start ≤
      values.length * most + start := by
  induction values generalizing start with
  | nil => simp
  | cons item values ih =>
    obtain ⟨here, others⟩ := List.forall_mem_cons.mp each
    have rest := @ih (start + valueWork elem item) others
    rw [List.foldl_cons, List.length_cons]
    push_cast
    rw [Int.add_mul, Int.one_mul]
    omega

theorem valueWork_le (holds : typed typ value = true) : valueWork typ value ≤ typ.mostWork := by
  induction typ generalizing value with
  | unit | bool | int | num | cap | enc => cases value <;> exact le_rfl
  | bytes len =>
    obtain ⟨raw, rfl, rfl⟩ := typed_bytes holds
    exact le_rfl
  | vec len elem ih =>
    obtain ⟨values, rfl, rfl, each⟩ := typed_vec_iff.mp holds
    exact foldl_work_le fun item listed => ih (each item listed)
  | seq cap elem ih =>
    obtain ⟨used, values, empty, rfl, rfl, -, -, -, each, -⟩ := typed_seq_iff.mp holds
    exact foldl_work_le fun item listed => ih (each item listed)
  | pair left right left_ih right_ih =>
    obtain ⟨first, second, rfl, holds, holds'⟩ := typed_pair holds
    have below := left_ih holds
    have below' := right_ih holds'
    dsimp only [valueWork, Typ.mostWork]
    omega
  | sum left right left_ih right_ih =>
    rcases typed_sum holds with ⟨payload, rfl, holds⟩ | ⟨payload, rfl, holds⟩
    · have below := left_ih holds
      dsimp only [valueWork, Typ.mostWork]
      omega
    · have below := right_ih holds
      dsimp only [valueWork, Typ.mostWork]
      omega

end Aml
end LiteNode
