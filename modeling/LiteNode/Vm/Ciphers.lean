import LiteNode.Vm.Floats

/-!
# Instructions on ciphers and proofs

Work on ciphers, keys and proofs is done at once, or the instruction waits for
a worker; what it does with the answer of either is the same.
-/

namespace LiteNode
namespace Vm

/-- Division of what is not negative, rounded up. -/
def ceilDiv (value divisor : Int) : Int := if value ≤ 0 then 0 else 1 + (value - 1) / divisor

def maxFheCipherBytes : Nat := 1048576

def maxFhePubkeyBytes : Nat := 18000000

def fheDecodeInputCost (encoded : Bytes) : Int := ceilDiv encoded.length 16

/-- Size of a key once it is unpacked. -/
def packedPubkeySize (raw : Bytes) : Option Nat :=
  match raw with
  | 236 :: b1 :: b2 :: b3 :: b4 :: _ =>
    let size := b1.toNat * 2 ^ 24 + b2.toNat * 2 ^ 16 + b3.toNat * 2 ^ 8 + b4.toNat
    if maxFhePubkeyBytes < size then none else some size
  | 236 :: _ => none
  | raw => some raw.length

def fhePubkeyOutputCost (raw : Bytes) : Option Int :=
  (packedPubkeySize raw).map fun size => ceilDiv size 16

/-- Number of public inputs that a verifying key is for. -/
def groth16PublicInputs (raw : Bytes) : Option Nat :=
  if raw.take 6 ≠ Bytes.ofAscii "OG16V1" then none
  else
    match raw.drop 6 with
    | 0 :: 0 :: 0 :: count :: _ => some count.toNat
    | _ => none

def groth16ShapeOk (vk proof inputs : Bytes) (count : Nat) : Bool :=
  count ≤ 32 && vk.length = 10 + 64 + 3 * 128 + (count + 1) * 64 &&
    proof.length = 6 + 64 + 128 + 64 && inputs.length = count * 32

section Ciphers

variable (env : Env) {scope : Scope}

def stateProofEnabled : Bool := env.proofExec && env.fheWork && env.math

def finishFheVerification (rd : Reg) : FheVerification → Exec env scope Bool
  | .verified => put rd (.vBool true)
  | .rejected => put rd (.vBool false)
  | .unavailable =>
    if !env.isView && stateProofEnabled env then throw .fatal
    else revertWithReason env (Bytes.ofAscii "fhe verifier unavailable")

def finishFhe (rd : Reg) (reason : Option Bytes) : Except FheError FheValue → Exec env scope Bool
  | .ok (.key key) => put rd (.vPubKey key)
  | .ok (.cipher cipher) => put rd (.vCipher cipher)
  | .ok (.text text) => put rd (.vString text)
  | .ok (.check _) | .ok (.verified _) => throw .fatal
  | .error .invalid =>
    match reason with
    | some reason => revertWithReason env reason
    | none => revert
  | .error (.resource _) => throw .fatal

def verifyProof (async : Bool) (rd : Reg) (request : ProofRequest) :
    Exec env .waiting FheVerification := do
  if async then throw (.suspend rfl (.proofWait rd request))
  else return env.fhe.verifyProof (← read) request

/-- Charge the work on a key that a request names. -/
def chargeRequest (request : FheRequest) : Exec env scope Bool := do
  match env.fhe.keyEffort request with
  | none => return false
  | some cost => addDynEffort env cost

def evalFhe (async : Bool) (rd : Reg) (request : FheRequest)
    (reason : Option Bytes) : Exec env .waiting Bool := do
  let active := env.proofExec || env.isView
  if ← (if active then chargeRequest env request else return true) then
    if !active then finishFhe env rd reason (env.fhe.direct (← read) request)
    else if async then throw (.suspend rfl (.fheWait rd reason request))
    else finishFhe env rd reason (env.fhe.eval (← read) request)
  else revert

/-- Encode a proof and ask for it to be verified. -/
def packProof (async : Bool) (rd : Reg) (kind : ProofKind) (key cipher : Nat)
    (proof : Bytes) : Exec env .waiting FheVerification := do
  let task := FheRequest.pack kind key cipher proof
  if async then throw (.suspend rfl (.fheWait rd none task))
  else
    match env.fhe.eval (← read) task with
    | .ok (.check request) => verifyProof env false rd request
    | .error .invalid => raise
    | .error (.resource .memory) | .error (.resource .stack) => throw .fatal
    | .ok _ | .error (.resource .host) => return .unavailable

/-- Reserve memory for what there is a size of. -/
def reserveSize (size : Option Int) : Exec env scope Bool := do
  match size with
  | none => return false
  | some amount => reserveFhe env amount

def keyAllowed : FheKey → Exec env scope Bool
  | .keyValue key => reserveFhe env (env.fhe.keyMemory key)
  | .keyBytes raw => do
    if (← read).fheMemory.isSome then reserveSize env (env.fhe.keyDecodeMemory raw)
    else return true

def chargeFheKey (source : FheKey) : Exec env scope Bool := do
  let active := env.isView || env.proofExec
  if !active && !env.fheWork then return true
  else
    let cost :=
      match source with
      | .keyValue key => env.fhe.keyWriteEffort active key
      | .keyBytes raw => env.fhe.keyReadEffort active raw
    match cost with
    | none => return false
    | some cost => addDynEffort env cost

def pubkeyMissing (addr : Bytes) : Bytes := Bytes.ofAscii "fhe pubkey not available: " ++ addr

def fheLoadPk (async : Bool) (rd rs : Reg) : Exec env .waiting Bool := do
  if env.allowFheCapability .loadPk then
    let addr := (← getr rs).toString
    match env.getFhePubkey (← read) addr with
    | none => revertWithReason env (pubkeyMissing addr)
    | some source =>
      if ← chargeFheKey env source then
        if ← keyAllowed env source then
          match source with
          | .keyValue key => put rd (.vPubKey key)
          | .keyBytes raw => evalFhe env async rd (.loadKey raw) (some (pubkeyMissing addr))
        else revertWithReason env (pubkeyMissing addr)
      else revert
  else revertWithReason env (Bytes.ofAscii "fhe_load_pk not allowed")

/-- Work on two ciphers under a key. -/
def onCiphers (rpk ra rb : Reg) (work : Nat → Nat → Nat → Exec env .waiting Bool) :
    Exec env .waiting Bool := do
  if env.allowFheCapability .cipherArithmetic then
    match (← getr rpk).toPubKey, (← getr ra).toCipher, (← getr rb).toCipher with
    | some pk, some a, some b => work pk a b
    | _, _, _ => revert
  else revert

/-- Work on a cipher under a key. -/
def onCipher (rpk rct : Reg) (work : Nat → Nat → Exec env .waiting Bool) :
    Exec env .waiting Bool := do
  if env.allowFheCapability .cipherArithmetic then
    match (← getr rpk).toPubKey, (← getr rct).toCipher with
    | some pk, some ct => work pk ct
    | _, _ => revert
  else revert

def fheAdd (async : Bool) (rd rpk ra rb : Reg) : Exec env .waiting Bool :=
  onCiphers env rpk ra rb fun pk a b => evalFhe env async rd (.add pk a b) none

def fheSub (async : Bool) (rd rpk ra rb : Reg) : Exec env .waiting Bool :=
  onCiphers env rpk ra rb fun pk a b => evalFhe env async rd (.sub pk a b) none

/-- A seed that no other instruction of the transaction has. -/
def fheMulSeed (rd : Reg) : Exec env scope Bytes :=
  return env.sha256Raw (List.intercalate [(0 : UInt8)]
    [Bytes.ofAscii "aml.fhe_mul", env.txHash, env.address, intToString (← read).pc, intToString rd])

def fheMul (async : Bool) (rd rpk ra rb : Reg) : Exec env .waiting Bool :=
  onCiphers env rpk ra rb fun pk a b => do
    if env.fhe.slotsMatch a b then
      let seed ← fheMulSeed env rd
      evalFhe env async rd (.mul env.math (env.isView || env.fheWork) pk a b seed) none
    else revert

/-- Work on a cipher and a number of 64 bits. -/
def fheConst (async : Bool) (rd rpk rct rconst : Reg)
    (request : Nat → Nat → Int → FheRequest) : Exec env .waiting Bool :=
  onCipher env rpk rct fun pk ct => do
    let amount ← toInt64 (← getZ env rconst)
    evalFhe env async rd (request pk ct amount) none

def fheDivConst (async : Bool) (rd rpk rct rdivisor : Reg) : Exec env .waiting Bool :=
  onCipher env rpk rct fun pk ct => do
    let divisor ← getZ env rdivisor
    if divisor ≤ 0 ∨ 2 ^ 63 - 1 < divisor then
      revertWithReason env (Bytes.ofAscii "fhe_div_const divisor out of range")
    else evalFhe env async rd (.divide pk ct divisor) none

def fheCommit (async : Bool) (rd rpk rct : Reg) : Exec env .waiting Bool := do
  if env.allowFheCapability .commit then
    match (← getr rpk).toPubKey, (← getr rct).toCipher with
    | some pk, some ct => evalFhe env async rd (.commit pk ct) none
    | _, _ => revert
  else revert

def fheSer (async : Bool) (rd rct : Reg) : Exec env .waiting Bool := do
  if env.allowFheCapability .cipherSerde then
    match (← getr rct).toCipher with
    | some ct => evalFhe env async rd (.writeCipher ct) none
    | none => revert
  else revert

/-- Bytes in base64, or as they are. -/
def decodeSerializedText (text : Bytes) : Bytes := (env.decode64 text).getD text

def fheDeser (async : Bool) (rd rbytes : Reg) : Exec env .waiting Bool := do
  if env.allowFheCapability .cipherSerde then
    match (← getr rbytes).toBytes with
    | none => revert
    | some encoded =>
      let raw := decodeSerializedText env encoded
      require env [addDynEffort env (fheDecodeInputCost encoded),
          test env (raw.length ≤ maxFheCipherBytes),
          reserveFhe env (env.fhe.cipherDecodeMemory raw)] do
        evalFhe env async rd
          (.readCipher env.pointOps (env.isView || env.pointOps || env.fheWork) raw) none
  else revert

def fheSerPk (async : Bool) (rd rpk : Reg) : Exec env .waiting Bool := do
  if env.allowFheCapability .pubkeySerde then
    match (← getr rpk).toPubKey with
    | none => revert
    | some pk =>
      require env [chargeFheKey env (.keyValue pk), reserveFhe env (env.fhe.keyMemory pk)] do
        evalFhe env async rd (.writeKey pk) none
  else revert

def fheDeserPk (async : Bool) (rd rbytes : Reg) : Exec env .waiting Bool := do
  if env.allowFheCapability .pubkeySerde then
    match (← getr rbytes).toBytes with
    | none => revert
    | some encoded =>
      let raw := decodeSerializedText env encoded
      require env [addDynEffort env (fheDecodeInputCost encoded),
          test env (raw.length ≤ maxFhePubkeyBytes)] do
        match fhePubkeyOutputCost raw with
        | none => revert
        | some cost =>
          require env [addDynEffort env cost, keyAllowed env (.keyBytes raw)] do
            evalFhe env async rd (.readKey raw) none
  else revert

/-- Do something while no other proof is verified. -/
def withVerifierLane (work : Exec env scope FheVerification) : Exec env scope FheVerification := do
  if env.fhe.laneFree (← read) then work else return .unavailable

/-- Whether proofs are verified in this mode. -/
def proofsAllowed : Bool := env.isView || stateProofEnabled env

def verifyCommitted (async : Bool) (rd rpk rct rproof : Reg) (commitBytes : Option Bytes)
    (prepare : Bytes → Bytes → Option (ProofKind × Bytes)) :
    Exec env .waiting Bool := do
  match (← getr rpk).toPubKey, (← getr rct).toCipher, (← getr rproof).toBytes, commitBytes with
  | some pk, some ct, some proofBytes, some commitBytes =>
    let rawLen := (decodeSerializedText env proofBytes).length
    if !env.fhe.cipherAllowed ct then revert
    else if env.fhe.maxProofBytes < rawLen then put rd (.vBool false)
    else
      let verification ← withVerifierLane env do
        match prepare proofBytes commitBytes with
        | none => return .rejected
        | some (kind, proof) => packProof env async rd kind pk ct proof
      finishFheVerification env rd verification
  | _, _, _, _ => revert

/-- Verify a proof about a cipher, and about a commitment if there is one. -/
def verifyCipher (async : Bool) (capability : FheCapability)
    (rd rpk rct rproof : Reg) (rcommit : Option Reg)
    (prepare : Bytes → Bytes → Option (ProofKind × Bytes)) :
    Exec env .waiting Bool := do
  if env.allowFheCapability capability && proofsAllowed env then
    match rcommit with
    | none => verifyCommitted env async rd rpk rct rproof (some []) prepare
    | some reg => verifyCommitted env async rd rpk rct rproof (← getr reg).toBytes prepare
  else revert

def fheVerifyZero (async : Bool) (rd rpk rct rproof : Reg) : Exec env .waiting Bool :=
  verifyCipher env async .verifyZero rd rpk rct rproof none fun proof _ =>
    (env.fhe.zeroProof proof).map (.zero, ·)

def fheVerifyRange (async : Bool) (rd rpk rct rproof : Reg) : Exec env .waiting Bool :=
  verifyCipher env async .verifyRange rd rpk rct rproof none fun proof _ =>
    (env.fhe.rangeProof proof).map (.range, ·)

def fheVerifyBound (async : Bool) (rd rpk rct rproof rcommit : Reg) : Exec env .waiting Bool :=
  verifyCipher env async .verifyBound rd rpk rct rproof (some rcommit)
    fun proof commit => do
      let proof ← env.fhe.zeroProof proof
      let commitment ← env.fhe.commitment commit
      return (.claim commitment, proof)

def groth16PublicInputEffort : Int := 20000

def groth16VerifyBn254 (async : Bool) (rd rvk rproof rinputs : Reg) : Exec env .waiting Bool := do
  if proofsAllowed env then
    match (← getr rvk).toBytes, (← getr rproof).toBytes, (← getr rinputs).toBytes with
    | some vk, some proof, some inputs =>
      let vk := decodeSerializedText env vk
      let proof := decodeSerializedText env proof
      let inputs := decodeSerializedText env inputs
      if 2570 < vk.length ∨ 1024 < proof.length ∨ 32 * 32 < inputs.length then
        put rd (.vBool false)
      else
        match groth16PublicInputs vk with
        | none => put rd (.vBool false)
        | some count =>
          if !groth16ShapeOk vk proof inputs count then put rd (.vBool false)
          else if ← addDynEffort env (count * groth16PublicInputEffort) then
            if stateProofEnabled env then
              let verification ← verifyProof env async rd (.groth16 vk proof inputs)
              finishFheVerification env rd verification
            else put rd (.vBool (env.fhe.groth16 vk proof inputs))
          else put rd (.vBool false)
    | _, _, _ => revert
  else revert

/-- A text in base64 of what there may be a result of. -/
def putEncoded (rd : Reg) : Option Bytes → Exec env scope Bool
  | some result => put rd (.vString (env.encode64 result))
  | none => raise

def fhePedersen (rd ramount rblinding : Reg) : Exec env scope Bool := do
  if env.allowFheCapability .pedersen then
    match (← getr rblinding).toBytes with
    | none => revert
    | some blinding =>
      rescue (do
        let amount ← toInt64 (← getZ env ramount)
        putEncoded env rd (env.fhe.pedersenCommit amount blinding)) revert
  else revert

def combinePedersen (combine : Bytes → Bytes → Option Bytes)
    (rd rleft rright : Reg) : Exec env scope Bool := do
  if env.pointOps && env.allowFheCapability .pedersen then
    match (← getr rleft).toBytes, (← getr rright).toBytes with
    | some left, some right =>
      match decodeRawOrB64Len env 32 left, decodeRawOrB64Len env 32 right with
      | some left, some right => rescue (putEncoded env rd (combine left right)) revert
      | _, _ => revert
    | _, _ => revert
  else revert

def fhePedersenAdd (rd rleft rright : Reg) : Exec env scope Bool :=
  combinePedersen env env.fhe.pedersenAdd rd rleft rright

def fhePedersenSub (rd rleft rright : Reg) : Exec env scope Bool :=
  combinePedersen env env.fhe.pedersenSub rd rleft rright

def fhePedersenIdentity (rd : Reg) : Exec env scope Bool := do
  if env.pointOps && env.allowFheCapability .pedersen then
    rescue (putEncoded env rd env.fhe.pedersenIdentity) revert
  else revert

end Ciphers
end Vm
end LiteNode
