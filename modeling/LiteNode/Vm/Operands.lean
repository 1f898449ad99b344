import LiteNode.Vm.State

/-!
# Operands

What is checked and charged before an instruction is executed: texts that are
read as numbers, the kinds of operands in strict mode, the effort of the
instruction, the sizes of texts under a byte budget and the work on ciphers.
-/

namespace LiteNode
namespace Vm

open ByteWork (Request)

section Operands

variable (env : Env) {scope : Scope}

/-- A register that is read as an integer, or as a native one, some times. -/
inductive NumberArg
  | numeric (reg : Reg) (passes : Nat)
  | machine (reg : Reg) (passes : Nat)

def NumberArg.reg : NumberArg → Reg
  | numeric reg _ | machine reg _ => reg

def NumberArg.passes : NumberArg → Nat
  | numeric _ passes | machine _ passes => passes

def numbers (passes : Nat) (regs : List Reg) : List NumberArg :=
  regs.map fun reg => .numeric reg passes

def indices (passes : Nat) (regs : List Reg) : List NumberArg :=
  regs.map fun reg => .machine reg (passes + 1)

def numberInputs (strict : Bool) : Instr → List NumberArg
  | .add _ left right => numbers (if strict then 3 else 2) [left, right]
  | .sub _ left right | .mul _ left right | .div _ left right
  | .mod _ left right => numbers 2 [left, right]
  | .neg _ source | .abs _ source => numbers 2 [source]
  | .lt _ left right | .gt _ left right | .bitand _ left right
  | .bitor _ left right | .bitxor _ left right => numbers 1 [left, right]
  | .bitshl _ left right | .bitshr _ left right => numbers 1 [left] ++ indices 1 [right]
  | .mloadr _ index | .mstorer index _ | .parseInts _ _ index
  | .objectMemberRefAt _ _ index | .skeys _ _ index
  | .skeysPage _ _ _ _ index => indices 1 [index]
  | .substr _ _ start length => indices 2 [start, length]
  | .sstoren keys values count => indices 2 [keys, values, count]
  | .sloadn keys values count => indices 1 [keys, values, count]
  | .matmul dst left right rows inner columns
  | .matmulQ16 dst left right rows inner columns
  | .matmulFp dst left right rows inner columns =>
    indices 1 [dst, left, right, rows, inner, columns]
  | .vecdot _ left right count | .vecdotQ16 _ left right count
  | .vecdotFp _ left right count => indices 1 [left, right, count]
  | .softmaxInplace addr count | .softmaxQ16Inplace addr count
  | .reluInplace addr count | .siluInplace addr count
  | .siluQ16Inplace addr count | .siluFp addr count
  | .argmaxQ16 _ addr count | .argmaxFp _ addr count => indices 1 [addr, count]
  | .layernormInplace addr count gamma beta
  | .layernormQ16Inplace addr count gamma beta => indices 1 [addr, count, gamma, beta]
  | .rmsnormInplace addr count gamma | .rmsnormQ16Inplace addr count gamma
  | .rmsnormFp addr count gamma => indices 1 [addr, count, gamma]
  | .elemwiseMulInplace dst source count | .elemwiseMulQ16 dst source count
  | .elemwiseMulFp dst source count | .residualAdd dst source count
  | .residualAddQ16 dst source count | .residualAddFp dst source count =>
    indices 1 [dst, source, count]
  | .ropeApply addr count position base
  | .ropeApplyQ16 addr count position base
  | .ropeApplyFp addr count position base => indices 1 [addr, count, position] ++ numbers 1 [base]
  | .loadInt8BytesToMem dst _ offset count scale =>
    indices 1 [dst, offset, count] ++ numbers 1 [scale]
  | .loadInt8B64ToMem dst _ offset count scale
  | .loadInt8Q16 dst _ offset count scale
  | .loadInt8Fp dst _ offset count scale => indices 2 [dst, offset, count] ++ numbers 1 [scale]
  | .appendVecQ16 dst position source count
  | .appendVecFp dst position source count => indices 1 [dst, position, source, count]
  | .attentionKvQ16 query key value context total queryHeads keyHeads headDim
  | .attentionKvFp query key value context total queryHeads keyHeads
      headDim =>
      indices 1 [query, key, value, context, total, queryHeads, keyHeads, headDim]
  | .shiftRoundInplace addr count bits => indices 1 [addr, count, bits]
  | .expLut _ value | .expQ16 _ value | .transfer _ _ value
  | .fheScale _ _ _ value | .fheDivConst _ _ _ value
  | .fheAddConst _ _ _ value | .fheSubConst _ _ _ value
  | .fhePedersen _ value _ => numbers 1 [value]
  | _ => []

variable {env}

/-- Cost and requests of reading the texts among the operands. -/
def planNumbers (base : Int) (requests : List Request) :
    List NumberArg → Exec env scope (Option (Int × List Request))
  | [] => return some (base, requests)
  | input :: rest => do
    match ← getr input.reg with
    | .vString text =>
      match ByteWork.parsing text.length 1 with
      | none => return none
      | some (cost, parts) =>
        planNumbers (base + input.passes * cost)
          ((List.replicate input.passes parts).flatten ++ requests) rest
    | _ => planNumbers base requests rest

variable (env)

/-- Whether requests fit what is left. -/
def fits (base : Int) (requests : List Request) : Exec env scope Bool := do
  let st ← read
  match st.budget with
  | none => return true
  | some budget =>
    return (ByteWork.plan budget.limits budget.remaining budget.available
      st.effortUsed env.effortLimit base requests).isSome

/-- Operands that are read as native integers fit. -/
def machineNumbers : List NumberArg → Exec env scope Bool
  | [] => return true
  | .numeric _ _ :: rest => machineNumbers rest
  | .machine reg _ :: rest => do
    if fitsInt (← getZ env reg) then machineNumbers rest else return false

def admitNumbers (op : Instr) (inputs : List NumberArg) : Exec env scope Bool := do
  match ← planNumbers 0 [] inputs with
  | none => return false
  | some (_, []) => return true
  | some (base, requests) =>
    if ← fits env (base + op.effortCost) requests then chargeBytes env base 0 requests
    else return false

def reserveNumbers (op : Instr) : Exec env scope Bool := do
  if ← bounded then
    let inputs := numberInputs env.strictValues op
    if ← admitNumbers env op inputs then machineNumbers env inputs
    else return false
  else return true

/-! ## Strict mode -/

variable {env}

/-- Whether the value of a register passes a test. -/
def regIs (test : Value → Bool) (reg : Reg) : Exec env scope Bool := return test (← getr reg)

/-- Whether a list of checks all pass; the first that fails ends them. -/
def allOf : List (Exec env scope Bool) → Exec env scope Bool
  | [] => return true
  | check :: rest => do if ← check then allOf rest else return false

def allNumeric (regs : List Reg) : Exec env scope Bool := allOf (regs.map (regIs Value.isNumeric))

def allText (regs : List Reg) : Exec env scope Bool := allOf (regs.map (regIs Value.isText))

def noCaps (regs : List Reg) : Exec env scope Bool :=
  allOf (regs.map (regIs fun value => !value.isCap))

def isCipher (value : Value) : Bool := value.toCipher.isSome

def isPubKey (value : Value) : Bool := value.toPubKey.isSome

def keyAndCipher (key cipher : Reg) : List (Exec env scope Bool) :=
  [regIs isPubKey key, regIs isCipher cipher]

def spanRegs (base count : Int) : List Reg :=
  (List.range count.toNat).map fun (index : Nat) => base + index

def spanInRegs (base count : Int) : Bool := 0 ≤ base ∧ 0 ≤ count ∧ base ≤ 64 ∧ count ≤ 64 - base

variable (env)

def strictOperands : Instr → Exec env scope Bool
  | .add _ a b => do
    return Value.isAddOperand env.zOfString (← getr a) (← getr b)
  | .sub _ a b | .mul _ a b | .div _ a b | .mod _ a b | .lt _ a b | .gt _ a b
  | .bitand _ a b | .bitor _ a b | .bitxor _ a b | .bitshl _ a b
  | .bitshr _ a b => allNumeric [a, b]
  | .neg _ a | .abs _ a | .mloadr _ a => allNumeric [a]
  | .mstore _ source => noCaps [source]
  | .mstorer index source =>
    allOf [regIs Value.isNumeric index, regIs (fun value => !value.isCap) source]
  | .vecdotQ16 _ a b n => allNumeric [a, b, n]
  | .elemwiseMulQ16 a b n | .residualAddQ16 a b n => allNumeric [a, b, n]
  | .expQ16 _ source => allNumeric [source]
  | .softmaxQ16Inplace addr count => allNumeric [addr, count]
  | .layernormQ16Inplace addr count gamma beta => allNumeric [addr, count, gamma, beta]
  | .rmsnormQ16Inplace addr count gamma => allNumeric [addr, count, gamma]
  | .siluQ16Inplace addr count => allNumeric [addr, count]
  | .ropeApplyQ16 addr count position base => allNumeric [addr, count, position, base]
  | .attentionKvQ16 query key value context total queryHeads keyHeads
      headDim =>
      allNumeric [query, key, value, context, total, queryHeads, keyHeads, headDim]
  | .eq _ a b | .neq _ a b => do
    return Value.comparable (← getr a) (← getr b)
  | .jif a _ | .assert a => regIs Value.isBool a
  | .balance _ a | .sloadk _ a | .sdelk a | .isaddr _ a | .ishex _ a
  | .statePathKey _ a | .assertAddr a => regIs Value.isAddress a
  | .capCheck kind reg | .capClose kind reg => regIs (capValue kind) reg
  | .sstore key source =>
    match env.storageKinds.find? key with
    | some kind => regIs (kind.valueMatches env.zOfString) source
    | none => regIs Value.isScalar source
  | .sstorek key value => allOf [regIs Value.isAddress key, regIs Value.isScalar value]
  | .parseInts _ text base => allOf [regIs Value.isText text, regIs Value.isNumeric base]
  | .objectMemberCount _ objectRef => allText [objectRef]
  | .objectHasMember _ objectRef memberRef => allText [objectRef, memberRef]
  | .objectMemberRefAt _ objectRef index =>
    allOf [regIs Value.isText objectRef, regIs Value.isNumeric index]
  | .objectTransitionApply _ transitionRef objectRef previousRef nextRef
      memberBundle touchedHash proofKind proofHash status intentId =>
      allText [transitionRef, objectRef, previousRef, nextRef, memberBundle,
        touchedHash, proofKind, proofHash, status, intentId]
  | .substr _ text start length =>
    allOf [regIs Value.isText text, regIs Value.isNumeric start, regIs Value.isNumeric length]
  | .indexof _ text needle => allText [text, needle]
  | .sha256 _ text | .keccak256 _ text | .fstore _ text | .fload _ text => allText [text]
  | .skeys _ pref base => allOf [regIs Value.isText pref, regIs Value.isNumeric base]
  | .skeysPage _ _ pref after base =>
    allOf [regIs Value.isText pref, regIs Value.isText after, regIs Value.isNumeric base]
  | .sloadn baseKey baseValue count | .sstoren baseKey baseValue count =>
    allNumeric [baseKey, baseValue, count]
  | .concat _ left right => do
    let left ← getr left
    let right ← getr right
    match env.byteResult with
    | .stringBytes => return left.isScalar && right.isScalar
    | .typedBytes =>
      match left, right with
      | .vBytes _, .vBytes _ => return true
      | _, _ => return false
  | .strlen _ text => allText [text]
  | .xcall _ target methodName base count => do
    if ← allOf [regIs Value.isAddress target, regIs Value.isText methodName] then
      if spanInRegs base count then noCaps (spanRegs base count)
      else return false
    else return false
  | .spawn _ code => allText [code]
  | .spawn2 _ code base count => do
    if ← allText [code] then
      if spanInRegs base count then noCaps (spanRegs base count)
      else return false
    else return false
  | .emit _ regs => noCaps regs
  | .transfer _ target value => allOf [regIs Value.isAddress target, regIs Value.isNumeric value]
  | .fheLoadPk _ address => regIs Value.isAddress address
  | .fheAdd _ key left right | .fheSub _ key left right
  | .fheMul _ key left right =>
    allOf [regIs isPubKey key, regIs isCipher left, regIs isCipher right]
  | .fheScale _ key cipher scalar | .fheDivConst _ key cipher scalar
  | .fheAddConst _ key cipher scalar | .fheSubConst _ key cipher scalar =>
    allOf (keyAndCipher key cipher ++ [regIs Value.isNumeric scalar])
  | .fheVerifyZero _ key cipher proof | .fheVerifyRange _ key cipher proof =>
    allOf (keyAndCipher key cipher ++ [regIs Value.isText proof])
  | .fheVerifyBound _ key cipher proof commitment =>
    allOf (keyAndCipher key cipher ++ [regIs Value.isText proof, regIs Value.isText commitment])
  | .fheCommit _ key cipher => allOf (keyAndCipher key cipher)
  | .fhePedersen _ amount blinding =>
    allOf [regIs Value.isNumeric amount, regIs Value.isText blinding]
  | .fhePedersenAdd _ left right | .fhePedersenSub _ left right => allText [left, right]
  | .fhePedersenIdentity _ => return true
  | .fheSer _ cipher => regIs isCipher cipher
  | .fheDeser _ bytes | .fheDeserPk _ bytes => allText [bytes]
  | .fheSerPk _ key => regIs isPubKey key
  | .groth16VerifyBn254 _ key proof inputs => allText [key, proof, inputs]
  | .ed25519Ok _ key message signature => allText [key, message, signature]
  | .loadInt8BytesToMem dst source offset length scale
  | .loadInt8B64ToMem dst source offset length scale
  | .loadInt8Q16 dst source offset length scale =>
    allOf [regIs Value.isNumeric dst, regIs Value.isText source,
      regIs Value.isNumeric offset, regIs Value.isNumeric length, regIs Value.isNumeric scale]
  | .appendVecQ16 dst pos source length => allNumeric [dst, pos, source, length]
  | .argmaxQ16 dest addr length => allNumeric [dest, addr, length]
  | _ => return true

def strictOk (op : Instr) : Exec env scope Bool :=
  if env.strictValues then strictOperands env op else return true

/-- Under a byte budget integers are always paid for by their size. -/
def workMode : Exec env scope IntWork.Mode := do
  if ← bounded then return .active else return env.intMode

def binaryEffort (op : Instr) (kind : IntWork.Op) (left right : Reg) : Exec env scope Int := do
  let mode ← workMode env
  let a ← getZ env left
  let b ← getZ env right
  return IntWork.cost op.effortCost mode kind a b

def unaryEffort (op : Instr) (kind : IntWork.Op) (source : Reg) : Exec env scope Int := do
  let mode ← workMode env
  let a ← getZ env source
  return IntWork.cost op.effortCost mode kind a 0

def opEffort (op : Instr) : Exec env scope Int :=
  match op with
  | .add _ left right => binaryEffort env op .add left right
  | .sub _ left right => binaryEffort env op .sub left right
  | .mul _ left right => binaryEffort env op .mul left right
  | .div _ left right => binaryEffort env op .div left right
  | .mod _ left right => binaryEffort env op .mod left right
  | .neg _ source => unaryEffort env op .neg source
  | .abs _ source => unaryEffort env op .abs source
  | _ => return op.effortCost

def textInputOk (cap : Int) : Value → Bool
  | .vInt z | .vU64 z | .vU128 z | .vU256 z => numbits z ≤ cap * 4
  | _ => true

def reserveText (value : Value) : Exec env scope Bool := do
  match (← read).budget, value with
  | some budget, .vInt z | some budget, .vU64 z | some budget, .vU128 z
  | some budget, .vU256 z =>
    let bytes : Int := numbits z / 3 + 2
    if bytes ≤ ByteWork.textLimit budget then chargeBytes env 0 0 [.allocate bytes]
    else return false
  | _, _ => return true

def textRegister (cap : Int) (index : Reg) : Exec env scope Bool := do
  let value ← getr index
  if textInputOk cap value then reserveText env value else return false

/-- Whether a register holds a native integer. -/
def hasInt (reg : Reg) : Exec env scope Bool := return (← readInt env reg).isSome

/-- Texts of a batch of keys and values are not too large. -/
def batchCells (cap keys values : Int) : Nat → Nat → Exec env scope Bool
  | 0, _ => return true
  | count + 1, index => do
    let cellOk (cell : Int) : Exec env scope Bool :=
      return ((← findCell cell).map (textInputOk cap)).getD true
    if ← cellOk (keys + index) then
      if ← cellOk (values + index) then batchCells cap keys values count (index + 1)
      else return false
    else return false

def batchOk (cap : Int) (keys values count : Reg) : Exec env scope Bool := do
  let count ← getZ env count
  let keys ← getZ env keys
  let values ← getZ env values
  if (0 ≤ count ∧ count ≤ 1000) ∧ (0 ≤ keys ∧ keys ≤ memoryMax) ∧
      (0 ≤ values ∧ values ≤ memoryMax) then
    if count ≤ memoryMax - keys ∧ count ≤ memoryMax - values then
      batchCells env cap keys values count.toNat 0
    else return false
  else return false

def byteInputsOk (op : Instr) : Exec env scope Bool := do
  match (← read).budget with
  | none => return true
  | some budget =>
    let register := textRegister env (ByteWork.textLimit budget)
    match op with
    | .sstore _ value | .fstore _ value | .spawn _ value
    | .spawn2 _ value _ _ => register value
    | .sstorek key value | .concat _ key value => allOf [register key, register value]
    | .substr _ source start length => allOf [register source, hasInt env start, hasInt env length]
    | .strlen _ source | .sha256 _ source | .keccak256 _ source
    | .sdelk source | .skeys _ source _ => register source
    | .indexof _ source pattern => allOf [register source, register pattern]
    | .parseInts _ source _ => register source
    | .loadInt8BytesToMem dst source off count _
    | .loadInt8B64ToMem dst source off count _
    | .loadInt8Q16 dst source off count _
    | .loadInt8Fp dst source off count _ =>
      allOf [register source, hasInt env dst, hasInt env off, hasInt env count]
    | .skeysPage _ _ pref after _ => allOf [register pref, register after]
    | .sstoren keys values count => batchOk env (ByteWork.textLimit budget) keys values count
    | _ => return true

def reserveFhe (amount : Int) : Exec env scope Bool := do
  match (← read).fheMemory with
  | none => return true
  | some spent =>
    if amount < 0 ∨ env.fhe.memoryLimit - spent < amount then return false
    else
      update fun st => { st with fheMemory := some (spent + amount) }
      return true

/-- The kind of work, the operands and the key of an instruction on ciphers. -/
def fheOperands : Instr → Option (ViewOp × Reg × Reg × Option Reg)
  | .fheAdd _ _ left right | .fheSub _ _ left right => some (.join, left, right, none)
  | .fheMul _ pk left right => some (.product, left, right, some pk)
  | .fheScale _ _ source _ | .fheDivConst _ _ source _
  | .fheAddConst _ _ source _ | .fheSubConst _ _ source _ | .fheSer _ source
  | .fheCommit _ _ source => some (.copy, source, source, none)
  | .fheVerifyZero _ pk source _ | .fheVerifyRange _ pk source _
  | .fheVerifyBound _ pk source _ _ => some (.copy, source, source, some pk)
  | _ => none

/-- The key of the work, if one is needed, for which memory is reserved. -/
def fheKeyWork : Option Reg → Exec env scope (Option (Option Nat))
  | none => return some none
  | some reg => do
    match (← getr reg).toPubKey with
    | none => return none
    | some key =>
      if ← reserveFhe env (env.fhe.keyMemory key) then return some (some key)
      else return none

def chargeFheWork (op : Instr) (kind : ViewOp) (left right : Reg) (pk : Option Reg) :
    Exec env scope Bool := do
  let key ← fheKeyWork env pk
  let left := (← getr left).toCipher
  let right := (← getr right).toCipher
  match key, left, right with
  | some key, some left, some right =>
    match env.fhe.viewPlan kind op.effortCost left right key with
    | none => return false
    | some (effort, memory) =>
      if ← addDynEffort env effort then reserveFhe env memory
      else return false
  | _, _, _ => return false

def prepareFheWork (op : Instr) : Exec env scope Bool :=
  if !env.isView && !env.fheWork then return true
  else
    match fheOperands op with
    | none => return true
    | some (kind, left, right, pk) =>
      rescue (chargeFheWork env op kind left right pk) (return false)

end Operands
end Vm
end LiteNode
