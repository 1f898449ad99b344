import LiteNode.Circles.Handlers

/-!
# What the cells of a key say

The cells of a key are read as they were written, and the cells of other keys
are other cells. Of all transactions only those on keys write any.
-/

namespace LiteNode
namespace Circles

theorem trim_eq_self {text : Bytes} (solid : ∀ byte ∈ text, ¬ isSpace byte) : trim text = text := by
  have skipped : ∀ text : Bytes, (∀ byte ∈ text, ¬ isSpace byte) →
      text.dropWhile isSpace = text := by
    intro text solid
    cases text with
    | nil => rfl
    | cons first rest => exact List.dropWhile_cons_of_neg (solid first List.mem_cons_self)
  rw [trim, skipped text solid, skipped text.reverse, List.reverse_reverse]
  intro byte listed
  exact solid byte (List.mem_reverse.mp listed)

theorem solid_decimal (n : Nat) : ∀ byte ∈ decimal n, ¬ isSpace byte := by
  have solid : ∀ byte : UInt8, 48 ≤ byte → ¬ isSpace byte := by
    intro byte high space
    simp only [isSpace, Bool.or_eq_true, decide_eq_true_iff] at space
    rcases space with (((rfl | rfl) | rfl) | rfl) | rfl <;> exact absurd high (by decide)
  intro byte listed
  exact solid byte (digit_of_mem_decimal n byte listed).1

theorem solid_intToString (n : Int) : ∀ byte ∈ intToString n, ¬ isSpace byte := by
  unfold intToString
  split
  · exact List.forall_mem_cons.mpr ⟨by decide, solid_decimal _⟩
  · exact solid_decimal _

theorem int64Value_int64ToString (value : Int64) :
    int64Value (some (int64ToString value)) = some value := by
  have fits : FitsBits int64Bits value.toInt := ⟨value.le_toInt, value.toInt_lt⟩
  rw [int64Value, int64ToString, Option.bind_eq_bind, Option.bind_some,
    trim_eq_self (solid_intToString _), intOfString_intToString (by decide) fits]
  exact congrArg some (Int64.ofInt_toInt value)

theorem int64Value_map (value : Option Int64) : int64Value (value.map int64ToString) = value := by
  cases value with
  | none => rfl
  | some value => exact int64Value_int64ToString value

theorem boolValue_flag (value : Bool) : boolValue (KeyPolicy.flag value) = value := by
  cases value <;> decide

theorem append_cons_inj {mark : α} {left left' right right' : List α}
    (unmarked : mark ∉ right) (unmarked' : mark ∉ right')
    (same : left ++ mark :: right = left' ++ mark :: right') : left = left' ∧ right = right' := by
  rcases List.append_eq_append_iff.mp same with
    ⟨middle, rfl, rest⟩ | ⟨middle, rfl, rest⟩
  · cases middle with
    | nil =>
      cases rest
      exact ⟨(List.append_nil left).symm, rfl⟩
    | cons first middle =>
      obtain ⟨rfl, rfl⟩ := List.cons.inj rest
      exact absurd (by simp) unmarked
  · cases middle with
    | nil =>
      cases rest
      exact ⟨List.append_nil left', rfl⟩
    | cons first middle =>
      obtain ⟨rfl, rfl⟩ := List.cons.inj rest
      exact absurd (by simp) unmarked'

namespace KeyPolicy

/-- The name of a field has no colon, so that it ends a key. -/
theorem keyBase_append_inj {keyId keyId' field field' : Bytes} (plain : 58 ∉ field)
    (plain' : 58 ∉ field') (same : keyBase keyId ++ field = keyBase keyId' ++ field') :
    keyId = keyId' ∧ field = field' := by
  have colon : Bytes.ofAscii ":" = [58] := by decide
  simp only [keyBase, colon, List.append_assoc, List.singleton_append] at same
  exact append_cons_inj plain plain' (List.append_cancel_left same)

/-- The four fields, by whether they are those of one key. -/
theorem find?_writeSnapshot (storage : Table Bytes Bytes) (payload : KeyPolicyPutPayload)
    (keyId : Bytes) :
    ((writeSnapshot storage payload).find? (activateAfterKey keyId) =
      if keyId = payload.keyId then payload.activateAfterEpoch.map int64ToString
      else storage.find? (activateAfterKey keyId)) ∧
    ((writeSnapshot storage payload).find? (expireAfterKey keyId) =
      if keyId = payload.keyId then payload.expireAfterEpoch.map int64ToString
      else storage.find? (expireAfterKey keyId)) ∧
    ((writeSnapshot storage payload).find? (revokedKey keyId) =
      if keyId = payload.keyId then flag payload.revoked
      else storage.find? (revokedKey keyId)) ∧
    (writeSnapshot storage payload).find? (erasedKey keyId) =
      if keyId = payload.keyId then flag payload.erased
      else storage.find? (erasedKey keyId) := by
  have plain : 58 ∉ Bytes.ofAscii "activate_after_epoch" ∧ 58 ∉ Bytes.ofAscii "expire_after_epoch" ∧
      58 ∉ Bytes.ofAscii "revoked" ∧ 58 ∉ Bytes.ofAscii "erased" := by decide
  have fields : Bytes.ofAscii "activate_after_epoch" ≠ Bytes.ofAscii "expire_after_epoch" ∧
      Bytes.ofAscii "activate_after_epoch" ≠ Bytes.ofAscii "revoked" ∧
      Bytes.ofAscii "activate_after_epoch" ≠ Bytes.ofAscii "erased" ∧
      Bytes.ofAscii "expire_after_epoch" ≠ Bytes.ofAscii "revoked" ∧
      Bytes.ofAscii "expire_after_epoch" ≠ Bytes.ofAscii "erased" ∧
      Bytes.ofAscii "revoked" ≠ Bytes.ofAscii "erased" := by decide
  have equal : ∀ field field', 58 ∉ field → 58 ∉ field' →
      (keyBase keyId ++ field = keyBase payload.keyId ++ field' ↔
        keyId = payload.keyId ∧ field = field') := by
    intro field field' plain plain'
    refine ⟨keyBase_append_inj plain plain', ?_⟩
    rintro ⟨rfl, rfl⟩
    rfl
  simp only [writeSnapshot, activateAfterKey, expireAfterKey, revokedKey,
    erasedKey, Table.find?_alter]
  refine ⟨?_, ?_, ?_, ?_⟩ <;>
    simp [equal, plain, fields, fields.1.symm, fields.2.1.symm,
      fields.2.2.1.symm, fields.2.2.2.1.symm, fields.2.2.2.2.1.symm, fields.2.2.2.2.2.symm]

end KeyPolicy

theorem loadKeyPolicy_writeSnapshot
    (storage : Table Bytes Bytes) (payload : KeyPolicyPutPayload) (keyId : Bytes) :
    loadKeyPolicy ⟨KeyPolicy.writeSnapshot storage payload, []⟩ keyId =
      if keyId = payload.keyId then KeyPolicy.ofPutPayload payload
      else loadKeyPolicy ⟨storage, []⟩ keyId := by
  obtain ⟨activate, expire, revoked, erased⟩ := KeyPolicy.find?_writeSnapshot storage payload keyId
  simp only [loadKeyPolicy, readCircleStableInlineValue, activate, expire, revoked, erased]
  split
  · simp only [KeyPolicy.ofStoredValues, int64Value_map, boolValue_flag]
    rfl
  · rfl

theorem storageResult_eq_ok {result : Except Bytes α} {value : α}
    (done : storageResult result = .ok value) : result = .ok value := by
  cases result with
  | error reason => cases done
  | ok found =>
    cases done
    rfl

theorem stable_shutdownIntent (keyId : Bytes) (currentEpoch : Int64)
    (reason : ResolutionReason) (circle : Circle) (intentId : Bytes) :
    (shutdownIntent keyId currentEpoch reason circle intentId).stable = circle.stable := by
  unfold shutdownIntent
  dsimp only
  split <;> rfl

/-- Resolving intents writes no cell. -/
theorem stable_materializeShutdown (keyId : Bytes) (currentEpoch : Int64)
    (policy : KeyPolicy) (circle : Circle) :
    (materializeShutdown keyId currentEpoch policy circle).stable = circle.stable := by
  unfold materializeShutdown
  split
  · rfl
  · next reason shut =>
    have all : ∀ (intents : List Bytes) (circle : Circle),
        (intents.foldl (shutdownIntent keyId currentEpoch reason)
          circle).stable = circle.stable := by
      intro intents
      induction intents with
      | nil => exact fun _ => rfl
      | cons intentId rest ih =>
        intro circle
        rw [List.foldl_cons, ih, stable_shutdownIntent]
    exact all _ circle

/-- What is saved is what the key says from then on. -/
theorem saveKeyPolicy_spec
    {info : CircleInfo} {currentEpoch : Int64} {payload : KeyPolicyPutPayload}
    {circle circle' : Circle}
    (done : saveKeyPolicy info currentEpoch payload circle = .ok circle') :
    ∃ stable, circle' = materializeShutdown payload.keyId currentEpoch
        (KeyPolicy.ofPutPayload payload) { circle with stable := stable } ∧
      ∀ keyId, loadKeyPolicy stable keyId =
        if keyId = payload.keyId then KeyPolicy.ofPutPayload payload
        else loadKeyPolicy circle.stable keyId := by
  obtain ⟨storage, loaded, done⟩ := bind_eq_ok done
  obtain ⟨stable, saved, done⟩ := bind_eq_ok done
  cases done
  have loaded := storageResult_eq_ok loaded
  have saved := storageResult_eq_ok saved
  unfold loadCircleStableStorage at loaded
  split at loaded
  · cases loaded
    obtain ⟨_, -, saved⟩ := bind_eq_ok saved
    cases saved
    exact ⟨_, rfl, loadKeyPolicy_writeSnapshot circle.stable.inline payload⟩
  · cases loaded

/-- How an accepted transaction may change what a key says. -/
inductive KeyChange (currentEpoch : Int64) (stored : KeyPolicy)
    (tx : CircleTx) (keyId : Bytes) (next : KeyPolicy) : Prop
  | put (payload : KeyPolicyPutPayload) (is : tx = .keyPolicyPut payload)
      (named : payload.keyId = keyId) (same : next = KeyPolicy.ofPutPayload payload)
  | grant (payload : KeyGrantPayload) (is : tx = .keyGrant payload) (named : payload.keyId = keyId)
      (granted : stored.grant currentEpoch payload = .ok next)
  | extend (payload : KeyExtendPayload) (is : tx = .keyExtend payload)
      (named : payload.keyId = keyId) (extended : stored.extend currentEpoch payload = .ok next)
  | revoke (is : tx = .keyRevoke keyId) (revoked : stored.revoke = .ok next)
  | erase (is : tx = .keyErase keyId) (erased : stored.erase = .ok next)

section Transitions

variable {context : TxContext} {currentEpoch : Int64} {circle circle' : Circle}

theorem processKeyTransition_spec {keyId : Bytes} {apply : KeyPolicy → Except Refusal KeyPolicy}
    (done : processKeyTransition context currentEpoch keyId apply circle = .ok circle') :
    ∃ next stable, apply (loadKeyPolicy circle.stable keyId) = .ok next ∧
      circle' = materializeShutdown keyId currentEpoch next { circle with stable := stable } ∧
      ∀ other, loadKeyPolicy stable other =
        if other = keyId then next else loadKeyPolicy circle.stable other := by
  obtain ⟨info, -, done⟩ := bind_eq_ok done
  obtain ⟨_, -, done⟩ := bind_eq_ok done
  obtain ⟨_, -, done⟩ := bind_eq_ok done
  obtain ⟨next, applied, done⟩ := bind_eq_ok done
  obtain ⟨stable, shut, read⟩ := saveKeyPolicy_spec done
  exact ⟨next, stable, applied, shut, read⟩

theorem processKeyPolicyPut_spec {payload : KeyPolicyPutPayload}
    (done : processKeyPolicyPut context currentEpoch payload circle = .ok circle') :
    ∃ info stable, circle.info = some info ∧ info.owner = context.sender ∧
      circle' = materializeShutdown payload.keyId currentEpoch
        (KeyPolicy.ofPutPayload payload) { circle with stable := stable } ∧
      ∀ other, loadKeyPolicy stable other =
        if other = payload.keyId then KeyPolicy.ofPutPayload payload
        else loadKeyPolicy circle.stable other := by
  obtain ⟨info, found, done⟩ := bind_eq_ok done
  obtain ⟨_, checked, done⟩ := bind_eq_ok done
  obtain ⟨_, -, done⟩ := bind_eq_ok done
  obtain ⟨_, -, done⟩ := bind_eq_ok done
  obtain ⟨stable, shut, read⟩ := saveKeyPolicy_spec done
  refine ⟨info, stable, ?_, ?_, shut, read⟩
  · unfold circleInfo at found
    split at found
    · cases found
    · next known =>
      cases found
      exact known
  · by_contra stranger
    rw [checkKeyOwner, if_pos stranger] at checked
    cases checked

/-- The key that a transaction is about. -/
def CircleTx.keyId : CircleTx → Option Bytes
  | .keyPolicyPut payload => some payload.keyId
  | .keyGrant payload => some payload.keyId
  | .keyExtend payload => some payload.keyId
  | .keyRevoke keyId | .keyErase keyId => some keyId
  | _ => none

variable {policy : TransportPolicy} {tx : CircleTx}

/-- An accepted transaction on a key changes that key alone, and shuts down
what it no longer delivers. -/
theorem process_key (done : process context currentEpoch policy circle tx = .ok circle')
    {keyId : Bytes} (about : tx.keyId = some keyId) :
    ∃ next stable, KeyChange currentEpoch (loadKeyPolicy circle.stable keyId) tx keyId next ∧
      circle' = materializeShutdown keyId currentEpoch next { circle with stable := stable } ∧
      ∀ other, loadKeyPolicy stable other =
        if other = keyId then next else loadKeyPolicy circle.stable other := by
  cases tx with
  | keyPolicyPut payload =>
    cases about
    obtain ⟨info, stable, -, -, shut, read⟩ := processKeyPolicyPut_spec done
    exact ⟨_, stable, .put payload rfl rfl rfl, shut, read⟩
  | keyGrant payload =>
    cases about
    simp only [process] at done
    obtain ⟨next, stable, granted, shut, read⟩ := processKeyTransition_spec done
    exact ⟨next, stable, .grant payload rfl rfl granted, shut, read⟩
  | keyExtend payload =>
    cases about
    simp only [process] at done
    obtain ⟨next, stable, extended, shut, read⟩ := processKeyTransition_spec done
    exact ⟨next, stable, .extend payload rfl rfl extended, shut, read⟩
  | keyRevoke keyId =>
    cases about
    obtain ⟨next, stable, revoked, shut, read⟩ := processKeyTransition_spec done
    exact ⟨next, stable, .revoke rfl revoked, shut, read⟩
  | keyErase keyId =>
    cases about
    obtain ⟨next, stable, erased, shut, read⟩ := processKeyTransition_spec done
    exact ⟨next, stable, .erase rfl erased, shut, read⟩
  | outboxOpen payload => cases about
  | relayClaim claim => cases about
  | relayCancel cancel => cases about
  | ingressCommit payload => cases about

end Transitions
end Circles
end LiteNode
