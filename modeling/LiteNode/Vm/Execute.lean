import LiteNode.Vm.Ciphers

/-!
# Execution of an instruction

A call of another program and the making of a new one. Both run to their end,
or the instruction waits for the answer.

Every instruction is checked and charged before it is executed. What it may
change is known from its kind.
-/

namespace LiteNode
namespace Vm

def spawnNonceKey : Bytes := 0 :: Bytes.ofAscii "spawn_nonce"

def validRegSpan (base count : Int) : Bool := 0 ≤ count ∧ 0 ≤ base ∧ base ≤ 63 ∧ count ≤ 64 - base

section Calls

variable (env : Env) {scope : Scope}

/-- What a sub-call is given: its depth and the effort that is left. -/
def childScope (st : State) : CallScope where
  depth := env.callDepth + 1
  limit :=
    if env.isView || env.fheWork || st.budget.isSome then
      some (max 0 (env.effortLimit - st.effortUsed))
    else none

variable {env}

/-- Take over what a sub-call left of what it shares. -/
def share (left : Shared) : Exec env .calling Unit :=
  .change (fun st =>
      { st with storage := left.storage, budget := left.budget, fheMemory := left.fheMemory })
    fun st => .shared rfl st left

def setSpawnNonce (nonce : Int) : Exec env .calling Unit :=
  .change (State.replaced · spawnNonceKey (intToString nonce))
    fun st => .nonce rfl st spawnNonceKey (intToString nonce)

variable (env)

/-- Go on with what a sub-call returned, if its effort can be charged. -/
def finishCall (rd : Reg) (effort : Int) (events : List EventRecord)
    (value : Value) : Exec env scope Bool := do
  if ← addDynEffort env effort then
    appendLogs events
    put rd value
  else revert

def xcall (async : Bool) (rd rt rm ra : Reg) (nargs : Int) : Exec env .calling Bool := do
  if !validRegSpan ra nargs then revert
  else if callDepthMax ≤ env.callDepth then revert
  else
    let target := (← getr rt).toString
    let methodName := (← getr rm).toString
    let args ← (spanRegs ra nargs).mapM getr
    if async then throw (.suspend rfl (.callWait rd target methodName args))
    else
      let st ← read
      let (answer, left) := env.callContract st env.address target methodName
        args (childScope env st)
      share left
      match ← answered answer with
      | .ok sub => finishCall env rd sub.effortUsed sub.events sub.returnValue
      | .error _ => revert

/-- The code of a new program, as it is or in base64. -/
def spawnInput (input : Bytes) : Exec env scope (Option Bytes) := do
  if input.take 4 = Bytes.ofAscii "OCTB" then return some input
  else if ← reserveDecode env input 0 0 false
      fun size => return some (5000 + size / 100) then
    match env.decode64 input with
    | some raw => return some raw
    | none => if ← bounded then return none else return some input
  else return none

def spawnNonce (st : State) : Int := ((st.storage.find? spawnNonceKey).bind env.intOfString).getD 0

/-- Make a program of some code, with some parameters. -/
def spawnCode (async : Bool) (rd : Reg) (code : Bytes) (params : List Value) :
    Exec env .calling Bool := do
  let nonce := spawnNonce env (← read)
  let next := wrapInt (nonce + 1)
  if ← chargeBytes env 0 0
      [.write spawnNonceKey.length (intToString next).length] then
    setSpawnNonce next
    if ← addDynEffort env (5000 + code.length / 100) then
      if async then throw (.suspend rfl (.spawnWait rd code nonce params))
      else
        let st ← read
        let (answer, left) := env.deployContract st env.address code nonce
          (childScope env st) params
        share left
        match ← answered answer with
        | .ok spawned =>
          finishCall env rd spawned.effortUsed spawned.events (.vAddr spawned.spawnedAddr)
        | .error _ =>
          setSpawnNonce nonce
          revert
    else revert
  else revert

def spawn2 (async : Bool) (rd rs base : Reg) (nargs : Int) : Exec env .calling Bool := do
  if !validRegSpan base nargs then revert
  else if ← viewGuard env then
    if callDepthMax ≤ env.callDepth then revert
    else
      match ← spawnInput env (← getr rs).toString with
      | none => revert
      | some code =>
        if code.length < 12 then revert
        else
          let params ← (spanRegs base nargs).mapM getr
          spawnCode env async rd code params
  else return false

/-- A new program without parameters. -/
def spawn (async : Bool) (rd rs : Reg) : Exec env .calling Bool := spawn2 env async rd rs 0 0

end Calls

/-- What kind of changes an instruction makes. -/
def Instr.scope : Instr → Scope
  | .fstore .. => .blob
  | .capClose .. => .closing
  | .sdel .. | .sdelk .. => .erasing
  | .sstore .. | .sstorek .. | .sstoren .. | .objectTransitionApply .. => .storing
  | .checkpoint | .rollback | .commit => .marking
  | .fheLoadPk .. | .fheAdd .. | .fheSub .. | .fheMul .. | .fheScale ..
  | .fheDivConst .. | .fheAddConst .. | .fheSubConst .. | .fheVerifyZero ..
  | .fheVerifyRange .. | .fheVerifyBound .. | .groth16VerifyBn254 ..
  | .fheCommit .. | .fheSer .. | .fheDeser .. | .fheSerPk ..
  | .fheDeserPk .. => .waiting
  | .xcall .. | .spawn .. | .spawn2 .. => .calling
  | _ => .plain

section Execute

variable (env : Env)

def ldi (rd : Reg) (v : Value) : Exec env scope Bool :=
  match v with
  | .vCap _ => revert
  | v => put rd v

/-- What an instruction does once it was admitted; with `async` it waits for
workers. -/
def perform (async : Bool) : (op : Instr) → Exec env op.scope Bool
  | .add rd rs1 rs2 => arith env (· + ·) rd rs1 rs2
  | .sub rd rs1 rs2 => arith env (· - ·) rd rs1 rs2
  | .mul rd rs1 rs2 => arith env (· * ·) rd rs1 rs2
  | .div rd rs1 rs2 => divide env Int.tdiv rd rs1 rs2
  | .mod rd rs1 rs2 => divide env Int.tmod rd rs1 rs2
  | .neg rd rs => unary env (-·) rd rs
  | .abs rd rs => unary env (|·|) rd rs
  | .eq rd rs1 rs2 => eqValues env rd rs1 rs2
  | .lt rd rs1 rs2 => compareValues env (· < ·) rd rs1 rs2
  | .gt rd rs1 rs2 => compareValues env (· > ·) rd rs1 rs2
  | .neq rd rs1 rs2 => neqValues env rd rs1 rs2
  | .ldi rd v => ldi env rd v
  | .mov rd rs => do put rd (← getr rs)
  | .sload rd key => sload env rd key
  | .sstore key rs => sstore env key rs
  | .sdel key => sdel env key
  | .sloadk rd rs => sloadk env rd rs
  | .sstorek rk rv => sstorek env rk rv
  | .sdelk rk => sdelk env rk
  | .capCheck kind reg => capCheck env kind reg
  | .capClose kind reg => capClose env kind reg
  | .mload rd idx => mload env rd idx
  | .mstore idx rs => mstore env idx rs
  | .jmp addr => do
    goto env addr
    return true
  | .jif rs addr => jif env rs addr
  | .jdest _ => return true
  | .stop => stop env
  | .revert => revert
  | .caller rd => put rd (.vAddr env.caller)
  | .origin rd => put rd (.vAddr env.origin)
  | .self rd => put rd (.vAddr env.address)
  | .epoch rd => put rd (.vInt env.currentEpoch)
  | .epochTime rd => put rd (.vInt env.epochTimeMs)
  | .value rd => put rd (.vInt env.value)
  | .balance rd rs => balance env rd rs
  | .treehash rd => put rd (.vString env.treeHash)
  | .nodeid rd => put rd (.vString env.nodeId)
  | .txhash rd => put rd (.vString env.txHash)
  | .xcall rd rt rm ra nargs => xcall env async rd rt rm ra nargs
  | .spawn rd rs => spawn env async rd rs
  | .spawn2 rd rs base nargs => spawn2 env async rd rs base nargs
  | .transfer rd ra rv => transfer env rd ra rv
  | .checkpoint => checkpoint env
  | .rollback => rollback env
  | .commit => commit env
  | .emit event regs => emit env event regs
  | .concat rd rs1 rs2 => concat env rd rs1 rs2
  | .strlen rd rs => strlen env rd rs
  | .assert rs => assert env rs
  | .effort rd => do put rd (.vInt (← read).effortUsed)
  | .nop => return true
  | .fheLoadPk rd rs => fheLoadPk env async rd rs
  | .fheAdd rd rpk ra rb => fheAdd env async rd rpk ra rb
  | .fheSub rd rpk ra rb => fheSub env async rd rpk ra rb
  | .fheMul rd rpk ra rb => fheMul env async rd rpk ra rb
  | .fheScale rd rpk rct rscalar => fheConst env async rd rpk rct rscalar (.scale env.math)
  | .fheDivConst rd rpk rct rdivisor => fheDivConst env async rd rpk rct rdivisor
  | .fheAddConst rd rpk rct rconst => fheConst env async rd rpk rct rconst (.addInt env.math)
  | .fheSubConst rd rpk rct rconst => fheConst env async rd rpk rct rconst (.subInt env.math)
  | .fheVerifyZero rd rpk rct rproof => fheVerifyZero env async rd rpk rct rproof
  | .fheVerifyRange rd rpk rct rproof => fheVerifyRange env async rd rpk rct rproof
  | .fheVerifyBound rd rpk rct rproof rcommit => fheVerifyBound env async rd rpk rct rproof rcommit
  | .groth16VerifyBn254 rd rvk rproof rinputs => groth16VerifyBn254 env async rd rvk rproof rinputs
  | .fheCommit rd rpk rct => fheCommit env async rd rpk rct
  | .fhePedersen rd ramount rblinding => fhePedersen env rd ramount rblinding
  | .fhePedersenAdd rd rleft rright => fhePedersenAdd env rd rleft rright
  | .fhePedersenSub rd rleft rright => fhePedersenSub env rd rleft rright
  | .fhePedersenIdentity rd => fhePedersenIdentity env rd
  | .fheSer rd rct => fheSer env async rd rct
  | .fheDeser rd rbytes => fheDeser env async rd rbytes
  | .fheSerPk rd rpk => fheSerPk env async rd rpk
  | .fheDeserPk rd rbytes => fheDeserPk env async rd rbytes
  | .callInt rd label => callInt env rd label
  | .mloadr rd rsIdx => mloadr env rd rsIdx
  | .mstorer rsIdx rsVal => mstorer env rsIdx rsVal
  | .parseInts rdCount rsString rsBase => parseInts env rdCount rsString rsBase
  | .isaddr rd rs => ofText env isValidAddr rd rs
  | .ishex rd rs => ofText env isHex rd rs
  | .statePathKey rd rs => statePathKey env rd rs
  | .objectMemberCount rd robjectRef => objectMemberCount env rd robjectRef
  | .objectHasMember rd robjectRef rmemberRef => objectHasMember env rd robjectRef rmemberRef
  | .objectMemberRefAt rd robjectRef rindex => objectMemberRefAt env rd robjectRef rindex
  | .objectTransitionApply rd transition object previous next bundle touched
      kind receipt status intent =>
      objectTransitionApply env rd object [transition, object, previous, next,
        bundle, touched, kind, receipt, status, intent]
  | .assertAddr rs => assertAddr env rs
  | .substr rd rs rstart rlen => substr env rd rs rstart rlen
  | .indexof rd rs rsearch => indexof env rd rs rsearch
  | .sha256 rd rs => digest env env.sha256 rd rs
  | .keccak256 rd rs => digest env env.keccak256 rd rs
  | .ed25519Ok rd rpk rmsg rsig => ed25519Ok env rd rpk rmsg rsig
  | .bitand rd ra rb => bitwise env (· &&& ·) rd ra rb
  | .bitor rd ra rb => bitwise env (· ||| ·) rd ra rb
  | .bitxor rd ra rb => bitwise env (· ^^^ ·) rd ra rb
  | .bitshl rd ra rb => shift env shiftLeft rd ra rb
  | .bitshr rd ra rb => shift env shiftRight rd ra rb
  | .skeys rdCount rsPrefix rsBase => skeys env rdCount rsPrefix rsBase
  | .skeysPage rdCount rdNext rsPrefix rsAfter rsBase =>
    skeysPage env rdCount rdNext rsPrefix rsAfter rsBase
  | .sloadn rsBaseKey rsBaseVal rsCount => sloadn env rsBaseKey rsBaseVal rsCount
  | .sstoren rsBaseKey rsBaseVal rsCount => sstoren env rsBaseKey rsBaseVal rsCount
  | .fstore rdHash rsData => fstore env rdHash rsData
  | .fload rdData rsHash => fload env rdData rsHash
  | .matmul dst lhs rhs m k n => matmul env dst lhs rhs m k n
  | .vecdot rd a b n => vecdot env rd a b n
  | .vecdotQ16 rd a b n => vecdotQ16 env rd a b n
  | .expLut rd x => expLut env rd x
  | .expQ16 rd x => expQ16 env rd x
  | .softmaxInplace addr n => softmaxInplace env addr n
  | .softmaxQ16Inplace addr n => softmaxQ16Inplace env addr n
  | .layernormInplace addr n gamma beta => layernormInplace env addr n gamma beta
  | .layernormQ16Inplace addr n gamma beta => layernormQ16Inplace env addr n gamma beta
  | .reluInplace addr n => reluInplace env addr n
  | .rmsnormInplace addr n gamma => rmsnormInplace env addr n gamma
  | .rmsnormQ16Inplace addr n gamma => rmsnormQ16Inplace env addr n gamma
  | .siluInplace addr n => siluInplace env addr n
  | .siluQ16Inplace addr n => siluQ16Inplace env addr n
  | .elemwiseMulInplace dst src n => pairwise env .mul FixedQ16.truncMul (· / 2) dst src n
  | .elemwiseMulQ16 dst src n => elemwiseMulQ16 env dst src n
  | .loadInt8BytesToMem dst src off n scale => loadInt8BytesToMem env dst src off n scale
  | .residualAdd dst src n => pairwise env .add (· + ·) (· / 4) dst src n
  | .residualAddQ16 dst src n => residualAddQ16 env dst src n
  | .ropeApply addr nDim pos base => ropeApply env addr nDim pos base
  | .ropeApplyQ16 addr nDim pos base => ropeApplyQ16 env addr nDim pos base
  | .loadInt8B64ToMem dst src off n scale => loadInt8B64ToMem env dst src off n scale
  | .loadInt8Q16 dst src off n scale => loadInt8Q16 env dst src off n scale
  | .appendVecQ16 dst pos src n => appendVecQ16 env dst pos src n
  | .argmaxQ16 rd addr n => argmaxQ16 env rd addr n
  | .matmulQ16 dst lhs rhs m k n => matmulQ16 env dst lhs rhs m k n
  | .shiftRoundInplace addr n bits => shiftRoundInplace env addr n bits
  | .matmulFp dst lhs rhs m k n => matmulFp env dst lhs rhs m k n
  | .rmsnormFp addr n gamma => rmsnormFp env addr n gamma
  | .siluFp addr n => siluFp env addr n
  | .elemwiseMulFp dst src n => pairwiseFp env (· * ·) id dst src n
  | .residualAddFp dst src n => pairwiseFp env (· + ·) (· / 2) dst src n
  | .ropeApplyFp addr nDim pos base => ropeApplyFp env addr nDim pos base
  | .loadInt8Fp dst src off n scale => loadInt8Fp env dst src off n scale
  | .vecdotFp rd a b n => vecdotFp env rd a b n
  | .argmaxFp rd addr n => argmaxFp env rd addr n
  | .attentionKvFp q k v ctx total qHeads kvHeads headDim =>
    attentionKvFp env q k v ctx total qHeads kvHeads headDim
  | .attentionKvQ16 q k v ctx total qHeads kvHeads headDim =>
    attentionKvQ16 env q k v ctx total qHeads kvHeads headDim
  | .appendVecFp dst pos src n => appendVecFp env dst pos src n

/-- The effort of an instruction; it is the least one when its operands are
refused. -/
def chargedEffort (op : Instr) (strict : Bool) : Exec env scope Int :=
  if strict then opEffort env op else return op.effortCost

/-- Check and charge an instruction, and execute it; whether to go on. -/
def execOne (async : Bool) (op : Instr) : Exec env op.scope Bool := do
  if ← reserveNumbers env op then
    let strict ← strictOk env op
    let work ← chargedEffort env op strict
    if ← addZEffort env work then
      if strict then
        if ← byteInputsOk env op then
          if ← prepareFheWork env op then perform env async op else revert
        else revert
      else revert
    else revert
  else revert

end Execute
end Vm
end LiteNode
