import LiteNode.Transactions.Balances
import LiteNode.Validators.Handover

/-!
# Transactions of validators

Bonds are held at the escrow address. The handlers check a transaction against
the stored registry, move the money and store the next registry.
-/

namespace LiteNode

structure ReadyPayload where
  consensusPubkeyB64 : Bytes
  headEpoch : Int
  stateRoot : Bytes
  headProposalId : Option Bytes

/-- The rules of an epoch that the handlers ask for. -/
structure TxFold extends FoldContext where
  readyMode : RuleMode
  readyRefMode : RuleMode
  exitMode : RuleMode
  members : List Bytes

structure TxEnv where
  epochId : Int
  validatorAddrs : List Bytes
  fold : Except String TxFold

abbrev Metadata := Table Bytes Bytes

/-- What a validator shows to be ready, checked by others: the proof and the
reference and the policy, the duty that it leaves with whether it allows the
validator, and the former kind of readiness with what it stores. -/
structure ReadyChecks where
  payloadOfMessage : Option Bytes → Except String ReadyPayload
  admitted : TxEnv → TxFold → Transaction → ReadyPayload → Metadata → Except String Unit
  updateReadyFold : TxEnv → TxFold → Transaction → ReadyPayload → Metadata →
    Except String (Option (Bytes × Bool))
  legacy : TxEnv → Transaction → Metadata → Except (String × String) (Bytes × Bytes)

structure ValidatorTxContext where
  evidence : EvidenceContext
  zOfString : Bytes → Option Int
  verifyAddressPubkey : Bytes → Bytes → Bool
  addressFromPubkey : Bytes → Bytes
  policy : ValidatorPolicy
  bondPayloadOfMessage : Option Bytes → Except String BondPayload
  proofOfMessage : Option Bytes → Except String VoteConflict
  ready : ReadyChecks
  senderKeyActivationEpoch : Option Int

namespace ValidatorTxContext

def update (ctx : ValidatorTxContext) : UpdateContext where
  texts := ctx.evidence.texts
  sha256 := ctx.evidence.sha256
  zOfString := ctx.zOfString
  verifyAddressPubkey := ctx.verifyAddressPubkey

/-- No key is known for the address of the escrow. -/
def escrowAddress (ctx : ValidatorTxContext) : Bytes :=
  ctx.addressFromPubkey (ctx.evidence.texts.encode
    (ctx.evidence.sha256 (Bytes.ofAscii "octra:validator_bond:escrow")))

end ValidatorTxContext

def registryKey : Bytes := Bytes.ofAscii "bft.validator_registry"

def setFoldKey : Bytes := Bytes.ofAscii "bft.validator_duty"

def readyMetaKey (fingerprint address : Bytes) : Bytes :=
  Bytes.ofAscii "bft.validator_set.ready." ++ fingerprint ++ Bytes.ofAscii "." ++ address

def totalSupplyKey : Bytes := Bytes.ofAscii "total_supply"

def emissionRemainingKey : Bytes := Bytes.ofAscii "emission_remaining"

def retiredKey : Bytes := Bytes.ofAscii "supply_retired"

namespace ValidatorPolicy

def exitWindow : Int := 4096

def exitWait : Int := exitWindow * 2

def exitParameters (mode : RuleMode) (value : ValidatorEntry.Parameters) :
    ValidatorEntry.Parameters :=
  match mode with
  | .prior => value
  | .active => { value with unbondingEpochs := exitWait }

def evidenceAge (mode : RuleMode) (prior : Int) : Int :=
  match mode with
  | .prior => prior
  | .active => exitWindow

end ValidatorPolicy

namespace ValidatorTx

open ValidatorRegistry Tx

section Handlers

variable (ctx : ValidatorTxContext) (env : TxEnv) (tx : Transaction)

def setMeta (key value : Bytes) : Tx Metadata Unit :=
  store fun metadata => metadata.replace key value

def loadRegistry : Tx Metadata ValidatorRegistry := do
  let stored ← load fun metadata => metadata.find? registryKey
  need "validator_registry_corrupt" (loadValidatorRegistry ctx.update stored)

def saveRegistry (registry : ValidatorRegistry) : Tx Metadata Unit :=
  setMeta registryKey (registry.toString ctx.evidence.texts)

def ensureEscrow : Tx Metadata Unit := do
  if ← mem ctx.escrowAddress then pure ()
  else post "validator_escrow_rejected" (.account (.addAccount ctx.escrowAddress 0))

def processBond : Tx Metadata Int := do
  match ctx.policy with
  | .inactive => refuse "validator_bond_rejected" "validator admission is inactive"
  | .bonded policy =>
    check (tx.recipient = ctx.escrowAddress) "validator_bond_rejected"
      "recipient must be validator escrow"
    let payload ← need "malformed_transaction"
      (ctx.bondPayloadOfMessage tx.message)
    let registry ← loadRegistry ctx
    let next ← need "validator_bond_rejected"
      (applyBond ctx.evidence.texts ctx.evidence.ext.verifyEd25519
        policy.parameters ctx.evidence.chainId env.epochId tx.sender
        (tx.publicKey.getD []) tx.amount tx.nonce payload registry)
    debit "insufficient_balance" tx.sender (tx.amount + tx.ou) tx.nonce
    ensureEscrow ctx
    credit "validator_escrow_rejected" ctx.escrowAddress tx.amount
    saveRegistry ctx next
    return tx.ou

def processExit : Tx Metadata Int := do
  match ctx.policy with
  | .inactive => refuse "validator_exit_rejected" "validator admission is inactive"
  | .bonded _ =>
    check (tx.amount = 0) "validator_exit_rejected" "amount must be zero"
    check (tx.sender = tx.recipient) "validator_exit_rejected"
      "validator exit must be self-directed"
    let registry ← loadRegistry ctx
    let next ← need "validator_exit_rejected"
      (requestExit env.epochId tx.sender registry)
    debit "insufficient_balance" tx.sender tx.ou tx.nonce
    saveRegistry ctx next
    return tx.ou

def processWithdraw : Tx Metadata Int := do
  match ctx.policy with
  | .inactive => refuse "validator_withdraw_rejected" "validator admission is inactive"
  | .bonded policy =>
    check (tx.amount = 0) "validator_withdraw_rejected" "amount must be zero"
    check (tx.sender = tx.recipient) "validator_withdraw_rejected"
      "validator withdrawal must be self-directed"
    let fold ← force env.fold
    let registry ← loadRegistry ctx
    let (next, amount) ← need "validator_withdraw_rejected"
      (withdraw
        (ValidatorPolicy.exitParameters fold.exitMode policy.parameters)
        env.epochId (fold.stdValue env.validatorAddrs fold.members) tx.sender
        registry)
    debit "insufficient_balance" tx.sender tx.ou tx.nonce
    debitAmountOnly "validator_escrow_rejected" ctx.escrowAddress amount
    credit "validator_withdraw_rejected" tx.sender amount
    saveRegistry ctx next
    return tx.ou

def parseNonnegativeMeta (label : String) : Option Bytes → Except String Int
  | none => .error (label ++ " is unavailable")
  | some raw =>
    match ctx.zOfString raw with
    | none => .error ("invalid " ++ label)
    | some value => if value < 0 then .error (label ++ " is negative") else .ok value

/-- The total and the retired supply, which add up with what is to be emitted
to the maximal one. -/
def slashSupply (total remaining retired : Option Bytes) : Except String (Int × Int) := do
  let total ← parseNonnegativeMeta ctx "total supply" total
  let remaining ← parseNonnegativeMeta ctx "emission remaining" remaining
  let retired ← parseNonnegativeMeta ctx "retired supply" retired
  if total + (remaining + retired) = maxSupply then return (total, retired)
  else .error "validator slash supply envelope mismatch"

def loadSlashSupply : Tx Metadata (Int × Int) := do
  let total ← load fun metadata => metadata.find? totalSupplyKey
  let remaining ← load fun metadata => metadata.find? emissionRemainingKey
  let retired ← load fun metadata => metadata.find? retiredKey
  need "validator_evidence_rejected" (slashSupply ctx total remaining retired)

def processEvidence : Tx Metadata Int := do
  match ctx.policy with
  | .inactive => refuse "validator_evidence_rejected" "validator admission is inactive"
  | .bonded policy =>
    let fold ← force env.fold
    let evidenceEpochs := ValidatorPolicy.evidenceAge fold.exitMode policy.evidenceEpochs
    check (policy.activationEpoch ≤ env.epochId) "validator_evidence_rejected"
      "validator admission is not active"
    check (tx.amount = 0) "validator_evidence_rejected" "amount must be zero"
    let proof ← need "malformed_transaction" (ctx.proofOfMessage tx.message)
    let registry ← loadRegistry ctx
    let (next, change) ← need "validator_evidence_rejected"
      (slashBy ctx.evidence env.epochId evidenceEpochs tx.recipient proof registry)
    let amount := -change.flow
    let (total, retired) ← loadSlashSupply ctx
    check (amount ≤ total) "validator_evidence_rejected"
      "validator slash exceeds total supply"
    debit "insufficient_balance" tx.sender tx.ou tx.nonce
    debitAmountOnly "validator_escrow_rejected" ctx.escrowAddress amount
    saveRegistry ctx next
    setMeta totalSupplyKey (intToString (total - amount))
    setMeta retiredKey (intToString (retired + amount))
    return tx.ou

/-- The mark is kept back as long as the duty does not allow it. -/
def readyMark (mode : RuleMode) (prior marked : ValidatorRegistry) :
    Option (Bytes × Bool) → ValidatorRegistry
  | none => marked
  | some (_, allowed) =>
    match mode with
    | .prior => marked
    | .active => if allowed then marked else prior

def processBondedReady (fold : TxFold) (ready : ReadyPayload) : Tx Metadata Int := do
  check (tx.sender = tx.recipient) "validator_ready_rejected"
    "bonded validator readiness must be self-directed"
  let admitted ← load fun metadata => ctx.ready.admitted env fold tx ready metadata
  need "validator_ready_rejected" admitted
  let registry ← loadRegistry ctx
  let marked ← need "validator_ready_rejected"
    (markReady ctx.evidence.texts env.epochId tx.sender ready.consensusPubkeyB64 registry)
  let updated ← load fun metadata => ctx.ready.updateReadyFold env fold tx ready metadata
  let duty ← need "validator_ready_rejected" updated
  let next := readyMark (fold.stdValue fold.readyRefMode fold.liveMode) registry marked duty
  debit "insufficient_balance" tx.sender tx.ou tx.nonce
  saveRegistry ctx next
  match duty with
  | none => pure ()
  | some (state, _) => setMeta setFoldKey state
  return tx.ou

def processLegacyReady : Tx Metadata Int := do
  let checked ← load fun metadata => ctx.ready.legacy env tx metadata
  match checked with
  | .error (kind, reason) => refuse kind reason
  | .ok (fingerprint, text) =>
    debit "insufficient_balance" tx.sender tx.ou tx.nonce
    setMeta (readyMetaKey fingerprint tx.sender) text
    return tx.ou

def processReady : Tx Metadata Int := do
  check (tx.amount = 0) "validator_ready_rejected" "amount must be zero"
  match ctx.policy with
  | .inactive => processLegacyReady ctx env tx
  | .bonded _ =>
    let fold ← force env.fold
    match ctx.ready.payloadOfMessage tx.message with
    | .ok ready => processBondedReady ctx env tx fold ready
    | .error reason =>
      match fold.readyMode with
      | .prior => processLegacyReady ctx env tx
      | .active => refuse "validator_ready_rejected" reason

/-- Open an account; it does not matter whether that succeeds. -/
def openAccount (addr : Bytes) : Tx Metadata Unit := do
  if ← mem addr then pure ()
  else let _ ← Tx.perform (.account (.addAccount addr 0))

def processStandard : Tx Metadata Int := do
  debit "insufficient_balance" tx.sender (tx.amount + tx.ou) tx.nonce
  openAccount tx.recipient
  credit "supply_violation" tx.recipient tx.amount
  return tx.ou

/-- The kinds of transactions that move bonds, and transfers. -/
inductive Kind
  | bond | ready | exit | withdraw | evidence | standard
  deriving DecidableEq

def processTx : Kind → Tx Metadata Int
  | .bond => processBond ctx env tx
  | .ready => processReady ctx env tx
  | .exit => processExit ctx env tx
  | .withdraw => processWithdraw ctx env tx
  | .evidence => processEvidence ctx env tx
  | .standard => processStandard tx

/-- The key of a sender is kept once a transaction of it is confirmed. -/
def registerConfirmedSenderKey : Tx Metadata Unit := do
  let account ← findOpt tx.sender
  let stored := account.bind Account.publicKey
  match ctx.senderKeyActivationEpoch, stored, tx.publicKey with
  | some activation, none, some key =>
    if activation ≤ env.epochId then
      let _ ← Tx.perform (.account (.registerPublicKey tx.sender key))
    else pure ()
  | _, _, _ => pure ()

/-- A transaction as an epoch executes it. -/
def execute (kind : Kind) (s : ExecState Metadata) : Except TxFailure Int × ExecState Metadata :=
  TxSavepoint.run (do
    let fee ← processTx ctx env tx kind
    registerConfirmedSenderKey ctx env tx
    return fee) s

end Handlers
end ValidatorTx
end LiteNode
