import LiteNode.Data.JsonText
import LiteNode.Wire.Oce1

/-!
# Transactions

The fields of a transaction, what it must at least pay for its place in an
epoch, what it takes from the public balance of its sender, and the hash that
names it.
-/

namespace LiteNode

inductive OpType
  | standard | encryptOp | decryptOp | privateOp
  | contractDeploy | programDeploy | contractCall | programExec | multiExec
  | contractUpgrade
  | circleDeploy | circleProgramUpdate | circleAssetPut
  | circleAssetPutEncrypted | circleSealedSlotPut | circleSlotPolicyPut
  | circleStateDescriptorPut | circleBalanceCellPut | circleRegisterCellPut
  | circleTransportPolicyPut | circleHfhePolicyPut | circleKeyPolicyPut
  | circleKeyGrant | circleKeyExtend | circleKeyRevoke | circleKeyErase
  | circleOutboxOpen | circleRelayClaim | circleRelayCancel
  | circleIngressCommit | circleCall
  | validatorSetUpdate | validatorReady | validatorBond | validatorExit
  | validatorWithdraw | validatorEvidence
  | stealthOp | claimOp | recryptOp | keySwitch | op01Burn
  | computeFund | computeReturn | computeSettle
  deriving DecidableEq

def opTypeToString : OpType → String
  | .standard => "standard" | .encryptOp => "encrypt"
  | .decryptOp => "decrypt" | .privateOp => "private"
  | .contractDeploy => "deploy" | .contractCall => "call"
  | .programDeploy => "program_deploy"
  | .programExec => "program_exec"
  | .multiExec => "multi_exec"
  | .contractUpgrade => "upgrade"
  | .circleDeploy => "deploy_circle"
  | .circleProgramUpdate => "circle_program_update"
  | .circleAssetPut => "circle_asset_put"
  | .circleAssetPutEncrypted => "circle_asset_put_encrypted"
  | .circleSealedSlotPut => "circle_sealed_slot_put"
  | .circleSlotPolicyPut => "circle_slot_policy_put"
  | .circleStateDescriptorPut => "circle_state_descriptor_put"
  | .circleBalanceCellPut => "circle_balance_cell_put"
  | .circleRegisterCellPut => "circle_register_cell_put"
  | .circleTransportPolicyPut => "circle_transport_policy_put"
  | .circleHfhePolicyPut => "circle_hfhe_policy_put"
  | .circleKeyPolicyPut => "circle_key_policy_put"
  | .circleKeyGrant => "circle_key_grant"
  | .circleKeyExtend => "circle_key_extend"
  | .circleKeyRevoke => "circle_key_revoke"
  | .circleKeyErase => "circle_key_erase"
  | .circleOutboxOpen => "circle_outbox_open"
  | .circleRelayClaim => "circle_relay_claim"
  | .circleRelayCancel => "circle_relay_cancel"
  | .circleIngressCommit => "circle_ingress_commit"
  | .circleCall => "circle_call"
  | .validatorSetUpdate => "validator_set_update"
  | .validatorReady => "validator_ready"
  | .validatorBond => "validator_bond"
  | .validatorExit => "validator_exit"
  | .validatorWithdraw => "validator_withdraw"
  | .validatorEvidence => "validator_evidence"
  | .stealthOp => "stealth" | .claimOp => "claim"
  | .recryptOp => "recrypt"
  | .keySwitch => "key_switch"
  | .op01Burn => "op01_burn"
  | .computeFund => "compute_fund"
  | .computeReturn => "compute_return"
  | .computeSettle => "compute_settle"

/-- A transaction, with the bits of its timestamp. -/
structure Transaction where
  sender : Bytes
  recipient : Bytes
  amount : Int
  nonce : Int
  ou : Int
  timestamp : UInt64
  signature : Bytes
  publicKey : Option Bytes
  message : Option Bytes
  opType : OpType
  encryptedData : Option Bytes
  deriving DecidableEq

namespace Transaction

/-! ## Costs -/

/-- What the costs of transactions are read with. -/
structure CostRules where
  texts : Texts
  zOfString : Bytes → Option Int
  /-- `OCTRA_STEALTH_MIN_OU`. -/
  stealthMinOu : Option Bytes

def circleAssetFeeBucket (rawSize : Nat) : Int :=
  if rawSize ≤ 4096 then 5000
  else if rawSize ≤ 16384 then 10000
  else if rawSize ≤ 32768 then 20000
  else if rawSize ≤ 131072 then 40000
  else if rawSize ≤ 524288 then 80000
  else if rawSize ≤ 2097152 then 160000
  else if rawSize ≤ 8388608 then 320000
  else 640000

def circleAssetDecodedSizeUpperBound (wireLen : Nat) : Nat := (wireLen + 3) / 4 * 3

def circleAssetMinOu : Option Bytes → Int
  | none => 5000
  | some bodyB64 => circleAssetFeeBucket (circleAssetDecodedSizeUpperBound bodyB64.length)

def stealthMinOuDefault : Int := 5000

def stealthMinOuMax : Int := 10000000000

def programDeployMinOu (encodedSize : Nat) : Int :=
  200000 + ((encodedSize + 1023) / 1024 : Nat) * 1000

section Costs

variable (rules : CostRules)

def stealthMinOuOf : Int :=
  match rules.stealthMinOu with
  | none => stealthMinOuDefault
  | some raw =>
    match rules.zOfString raw with
    | none => stealthMinOuDefault
    | some value =>
      if value ≤ 0 ∨ stealthMinOuMax < value then stealthMinOuDefault
      else value

/-- Number of calls that a message lists, one if it lists none. -/
def countCalls (message : Option Bytes) : Nat :=
  match message.bind rules.texts.parse with
  | some (.list calls) => calls.length
  | some (.assoc fields) =>
    match fields.lookup "calls" with
    | some (.list calls) => calls.length
    | _ => 1
  | _ => 1

def maxWire : Nat := 262144

def maxFuel : Int := 5000000

def modelLimit : Int := 67108864

open Oce1 in
/-- Fuel and records of a compute payment. -/
def decodeRequest (raw : Bytes) : Except String (Int × List Bytes) :=
  if maxWire < raw.length then .error "compute payment size"
  else
    match rules.texts.decode raw with
    | none => .error "compute payment encoding"
    | some decoded =>
      let get : Get (Int × List Bytes) := do
        let fuel ← getU32Int
        let count ← getU16
        if fuel ≤ 0 ∨ maxFuel < fuel ∨ count ≤ 0 ∨ 64 < count then fail "compute payment limits"
        else
          let records ← getItems (getBytesBounded maxWire) count.toNat
          return (fuel, records)
      match Oce1.decode get decoded with
      | .error _ => .error "compute payment encoding"
      | .ok request => .ok request

def billFee (raw : Bytes) : Int :=
  match decodeRequest rules raw with
  | .error _ => 10000000
  | .ok (fuel, _) => modelLimit / 16 + (10000 + fuel + 2 * raw.length)

/-- What a transaction must at least pay. -/
def ouCost (tx : Transaction) : Int :=
  match tx.opType with
  | .encryptOp | .decryptOp => 3000
  | .privateOp | .stealthOp => stealthMinOuOf rules
  | .claimOp => 3000
  | .recryptOp => 5000
  | .contractDeploy => 200000
  | .programDeploy => programDeployMinOu ((tx.encryptedData.map List.length).getD 0)
  | .contractCall | .programExec => 1000
  | .multiExec => 1000 + 1000 * (max 1 (countCalls rules tx.message) : Nat)
  | .contractUpgrade => 200000
  | .circleDeploy => 200000
  | .circleProgramUpdate => 200000
  | .circleAssetPut => circleAssetMinOu tx.encryptedData
  | .circleAssetPutEncrypted => circleAssetMinOu tx.encryptedData
  | .circleSealedSlotPut => circleAssetMinOu tx.encryptedData
  | .circleSlotPolicyPut => 1000
  | .circleStateDescriptorPut => 1000
  | .circleBalanceCellPut => circleAssetMinOu tx.encryptedData
  | .circleRegisterCellPut => circleAssetMinOu tx.encryptedData
  | .circleTransportPolicyPut => 1000
  | .circleHfhePolicyPut => 1000
  | .circleKeyPolicyPut => 1000
  | .circleKeyGrant => 1000
  | .circleKeyExtend => 1000
  | .circleKeyRevoke => 1000
  | .circleKeyErase => 1000
  | .circleOutboxOpen => 3000
  | .circleRelayClaim => 3000
  | .circleRelayCancel => 3000
  | .circleIngressCommit => 3000
  | .circleCall => 1000
  | .validatorSetUpdate | .validatorReady | .validatorBond | .validatorExit
  | .validatorWithdraw => 1000
  | .validatorEvidence => 5000
  | .keySwitch => 3000
  | .standard => 1000
  | .op01Burn => 1000
  | .computeFund => 10000
  | .computeReturn => 1000
  | .computeSettle => billFee rules (tx.message.getD [])

end Costs

/-- What a transaction takes from the public balance of its sender. -/
def publicBalanceCost (tx : Transaction) : Int :=
  match tx.opType with
  | .decryptOp | .claimOp | .stealthOp | .privateOp => tx.ou
  | _ => tx.amount + tx.ou

/-- Amount and fee are not negative, as decoding ensures. -/
def WellFormed (tx : Transaction) : Prop := 0 ≤ tx.amount ∧ 0 ≤ tx.ou

theorem publicBalanceCost_nonneg {tx : Transaction}
    (wellFormed : tx.WellFormed) : 0 ≤ tx.publicBalanceCost := by
  obtain ⟨amount, ou⟩ := wellFormed
  unfold publicBalanceCost
  split <;> omega

theorem circleAssetMinOu_pos (body : Option Bytes) : 0 < circleAssetMinOu body := by
  unfold circleAssetMinOu
  split
  · decide
  · unfold circleAssetFeeBucket
    repeat' split
    all_goals decide

theorem stealthMinOuOf_pos (rules : CostRules) : 0 < stealthMinOuOf rules := by
  have least : 0 < stealthMinOuDefault := by decide
  unfold stealthMinOuOf
  split
  · exact least
  · split
    · exact least
    · split
      · exact least
      · next allowed => omega

theorem fuel_of_decodeRequest
    {rules : CostRules} {raw : Bytes} {fuel : Int} {records : List Bytes}
    (decoded : decodeRequest rules raw = .ok (fuel, records)) : 0 < fuel := by
  unfold decodeRequest at decoded
  rw [ite_error_eq_ok_iff] at decoded
  obtain ⟨-, decoded⟩ := decoded
  split at decoded
  · cases decoded
  · next bytes _ =>
    dsimp only at decoded
    split at decoded
    · cases decoded
    · next request read =>
      cases decoded
      unfold Oce1.decode at read
      split at read
      · cases read
      · next value got =>
        cases read
        obtain ⟨⟨first, rest⟩, -, got⟩ := bind_eq_ok got
        obtain ⟨⟨count, rest'⟩, -, got⟩ := bind_eq_ok got
        dsimp only at got
        split at got
        · cases got
        · next limits =>
          obtain ⟨⟨items, rest''⟩, -, got⟩ := bind_eq_ok got
          cases got
          omega
      · cases read

theorem billFee_pos (rules : CostRules) (raw : Bytes) : 0 < billFee rules raw := by
  unfold billFee
  split
  · decide
  · next fuel records decoded =>
    have positive := fuel_of_decodeRequest decoded
    have base : modelLimit / 16 = 4194304 := by decide
    omega

theorem ouCost_pos (rules : CostRules) (tx : Transaction) : 0 < ouCost rules tx := by
  have asset := circleAssetMinOu_pos tx.encryptedData
  have stealth := stealthMinOuOf_pos rules
  have bill := billFee_pos rules (tx.message.getD [])
  have deploy : ∀ size : Nat, 0 < programDeployMinOu size := by
    intro size
    unfold programDeployMinOu
    omega
  unfold ouCost
  split <;> first | assumption | exact deploy _ | omega

def optJson : Option Bytes → Json
  | none => .null
  | some text => .string text

/-- How transactions are written and hashed. -/
structure HashRules where
  sha256 : Bytes → Bytes
  print : Json → Bytes
  /-- How a timestamp is written. -/
  floatText : UInt64 → Bytes

section Hash

variable (rules : HashRules)

def hashJson (tx : Transaction) : Json :=
  .assoc [("from", .string tx.sender), ("to_", .string tx.recipient),
    ("amount", .string (intToString tx.amount)), ("nonce", .int tx.nonce),
    ("ou", .string (intToString tx.ou)), ("timestamp", .number (rules.floatText tx.timestamp)),
    ("signature", .string tx.signature),
    ("op_type", .string (Bytes.ofAscii (opTypeToString tx.opType))),
    ("public_key", optJson tx.publicKey), ("message", optJson tx.message),
    ("encrypted_data", optJson tx.encryptedData)]

/-- Lower-case hexadecimal digits. -/
def toHex (raw : Bytes) : Bytes :=
  raw.flatMap fun byte => [Json.hexDigit (byte.toNat / 16), Json.hexDigit (byte.toNat % 16)]

def hash (tx : Transaction) : Bytes := toHex (rules.sha256 (rules.print (hashJson rules tx)))

/-- Known transactions do not collide, and what is written of a transaction
tells its sender and its nonce. -/
structure HashRules.Naming (rules : HashRules) (known : Transaction → Prop) : Prop where
  distinct : ∀ tx tx', known tx → known tx' →
    rules.sha256 (rules.print (hashJson rules tx)) =
      rules.sha256 (rules.print (hashJson rules tx')) →
    rules.print (hashJson rules tx) = rules.print (hashJson rules tx')
  written : ∀ tx tx', rules.print (hashJson rules tx) =
    rules.print (hashJson rules tx') → tx.sender = tx'.sender ∧ tx.nonce = tx'.nonce

end Hash

theorem hexDigit_inj :
    ∀ value < 16, ∀ other < 16, Json.hexDigit value = Json.hexDigit other → value = other := by
  decide

theorem toHex_inj {raw other : Bytes} (same : toHex raw = toHex other) : raw = other := by
  induction raw generalizing other with
  | nil =>
    cases other with
    | nil => rfl
    | cons byte rest => simp [toHex] at same
  | cons byte rest ih =>
    cases other with
    | nil => simp [toHex] at same
    | cons byte' rest' =>
      unfold toHex at same
      simp only [List.flatMap_cons, List.cons_append, List.nil_append, List.cons.injEq] at same
      obtain ⟨high, low, later⟩ := same
      have below := byte.toNat_lt
      have below' := byte'.toNat_lt
      have high := hexDigit_inj _ (by omega) _ (by omega) high
      have low := hexDigit_inj _ (by omega) _ (by omega) low
      rw [UInt8.toNat_inj.mp (show byte.toNat = byte'.toNat by omega), ih later]

theorem sender_nonce_of_hash {rules : HashRules} {known : Transaction → Prop}
    (naming : rules.Naming known) {tx tx' : Transaction}
    (knownTx : known tx) (knownTx' : known tx') (same : hash rules tx = hash rules tx') :
    tx.sender = tx'.sender ∧ tx.nonce = tx'.nonce :=
  naming.written tx tx' (naming.distinct tx tx' knownTx knownTx' (toHex_inj same))

theorem writeString_append_inj {text text' rest rest' : Bytes}
    (same : Json.writeString text ++ rest = Json.writeString text' ++ rest') :
    text = text' ∧ rest = rest' := by
  unfold Json.writeString at same
  simp only [List.cons_append, List.append_assoc, List.nil_append,
    List.cons.injEq, true_and] at same
  have enough : text.length < text.length + text'.length + 1 := by omega
  have enough' : text'.length < text.length + text'.length + 1 := by omega
  have read := Json.readString_writeString text rest enough
  rw [same, Json.readString_writeString text' rest' enough'] at read
  cases read
  exact ⟨rfl, rfl⟩

/-- A comma ends a written integer. -/
theorem intToString_append_inj {n n' : Int} {rest rest' : Bytes}
    (same : intToString n ++ 44 :: rest = intToString n' ++ 44 :: rest') : n = n' := by
  have outside : Json.inNumber 44 = false := by decide
  have read := Json.readInt_intToString n (Json.delimited_cons outside rest)
  rw [same, Json.readInt_intToString n' (Json.delimited_cons outside rest')] at read
  cases read
  rfl

/-- Texts as written without blanks tell the sender and the nonce. -/
theorem written_plain {rules : HashRules} (plain : rules.print = Json.write)
    (tx tx' : Transaction) (same : rules.print (hashJson rules tx) =
      rules.print (hashJson rules tx')) :
    tx.sender = tx'.sender ∧ tx.nonce = tx'.nonce := by
  have string : ∀ text, Json.write (.string text) = Json.writeString text := by
    intro text
    rw [Json.write]
  have integer : ∀ n, Json.write (.int n) = intToString n := by
    intro n
    rw [Json.write]
  rw [plain] at same
  unfold hashJson at same
  rw [Json.write_assoc, Json.write_assoc] at same
  simp only [List.map_cons, Json.joined, Json.writeField, string, integer,
    List.cons_append, List.append_assoc, List.cons.injEq, true_and] at same
  -- each field is its name, a colon and its value, up to the nonce
  have same := (List.cons.inj (writeString_append_inj same).2).2
  obtain ⟨sender, same⟩ := writeString_append_inj same
  have same := (writeString_append_inj (List.cons.inj same).2).2
  have same := (writeString_append_inj (List.cons.inj same).2).2
  have same := (writeString_append_inj (List.cons.inj same).2).2
  have same := (writeString_append_inj (List.cons.inj same).2).2
  have same := (writeString_append_inj (List.cons.inj same).2).2
  have same := (List.cons.inj same).2
  exact ⟨sender, intToString_append_inj same⟩

end Transaction
end LiteNode
