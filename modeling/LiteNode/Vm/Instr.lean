import LiteNode.Vm.Value

/-!
# Instructions

The instructions of the virtual machine and the effort each costs at least.
-/

namespace LiteNode
namespace Vm

/-- A register, which a program that was not verified may take out of range. -/
abbrev Reg := Int

inductive Instr
  | add (rd rs1 rs2 : Reg) | sub (rd rs1 rs2 : Reg) | mul (rd rs1 rs2 : Reg)
  | div (rd rs1 rs2 : Reg) | mod (rd rs1 rs2 : Reg)
  | neg (rd rs : Reg) | abs (rd rs : Reg)
  | eq (rd rs1 rs2 : Reg) | lt (rd rs1 rs2 : Reg) | gt (rd rs1 rs2 : Reg)
  | neq (rd rs1 rs2 : Reg)
  | ldi (rd : Reg) (v : Value) | mov (rd rs : Reg)
  | sload (rd : Reg) (key : Bytes) | sstore (key : Bytes) (rs : Reg)
  | sdel (key : Bytes)
  | sloadk (rd rs : Reg) | sstorek (rk rv : Reg) | sdelk (rk : Reg)
  | capCheck (kind : Int) (reg : Reg) | capClose (kind : Int) (reg : Reg)
  | mload (rd : Reg) (idx : Int) | mstore (idx : Int) (rs : Reg)
  | jmp (addr : Int) | jif (rs : Reg) (addr : Int) | jdest (label : Int)
  | stop | revert
  | caller (rd : Reg) | origin (rd : Reg) | self (rd : Reg) | epoch (rd : Reg)
  | epochTime (rd : Reg) | value (rd : Reg) | balance (rd rs : Reg)
  | treehash (rd : Reg) | nodeid (rd : Reg) | txhash (rd : Reg)
  | xcall (rd rt rm ra : Reg) (nargs : Int)
  | spawn (rd rs : Reg) | spawn2 (rd rs base : Reg) (nargs : Int)
  | transfer (rd ra rv : Reg)
  | checkpoint | rollback | commit
  | emit (event : Bytes) (regs : List Reg)
  | concat (rd rs1 rs2 : Reg) | strlen (rd rs : Reg) | assert (rs : Reg)
  | effort (rd : Reg) | nop
  | fheLoadPk (rd rs : Reg)
  | fheAdd (rd rpk ra rb : Reg) | fheSub (rd rpk ra rb : Reg)
  | fheMul (rd rpk ra rb : Reg) | fheScale (rd rpk rct rscalar : Reg)
  | fheDivConst (rd rpk rct rdivisor : Reg)
  | fheAddConst (rd rpk rct rconst : Reg)
  | fheSubConst (rd rpk rct rconst : Reg)
  | fheVerifyZero (rd rpk rct rproof : Reg)
  | fheVerifyRange (rd rpk rct rproof : Reg)
  | fheVerifyBound (rd rpk rct rproof rcommit : Reg)
  | groth16VerifyBn254 (rd rvk rproof rinputs : Reg)
  | fheCommit (rd rpk rct : Reg) | fhePedersen (rd ramount rblinding : Reg)
  | fhePedersenAdd (rd rleft rright : Reg)
  | fhePedersenSub (rd rleft rright : Reg) | fhePedersenIdentity (rd : Reg)
  | fheSer (rd rct : Reg) | fheDeser (rd rbytes : Reg)
  | fheSerPk (rd rpk : Reg) | fheDeserPk (rd rbytes : Reg)
  | callInt (rd : Reg) (label : Int)
  | mloadr (rd rsIdx : Reg) | mstorer (rsIdx rsVal : Reg)
  | parseInts (rdCount rsString rsBase : Reg)
  | isaddr (rd rs : Reg) | ishex (rd rs : Reg) | statePathKey (rd rs : Reg)
  | objectMemberCount (rd robjectRef : Reg)
  | objectHasMember (rd robjectRef rmemberRef : Reg)
  | objectMemberRefAt (rd robjectRef rindex : Reg)
  | objectTransitionApply (rd rtransitionRef robjectRef rpreviousStateRef
      rnextStateRef rmemberBundle rtouchedMembersHash rproofKind
      rproofReceiptHash rstatus rintentId : Reg)
  | assertAddr (rs : Reg)
  | substr (rd rs rstart rlen : Reg) | indexof (rd rs rsearch : Reg)
  | sha256 (rd rs : Reg) | keccak256 (rd rs : Reg)
  | ed25519Ok (rd rpk rmsg rsig : Reg)
  | bitand (rd ra rb : Reg) | bitor (rd ra rb : Reg) | bitxor (rd ra rb : Reg)
  | bitshl (rd ra rb : Reg) | bitshr (rd ra rb : Reg)
  | skeys (rdCount rsPrefix rsBase : Reg)
  | skeysPage (rdCount rdNext rsPrefix rsAfter rsBase : Reg)
  | sloadn (rsBaseKey rsBaseVal rsCount : Reg)
  | sstoren (rsBaseKey rsBaseVal rsCount : Reg)
  | fstore (rdHash rsData : Reg) | fload (rdData rsHash : Reg)
  | matmul (dst lhs rhs m k n : Reg)
  | vecdot (rd a b n : Reg) | vecdotQ16 (rd a b n : Reg)
  | expLut (rd x : Reg) | expQ16 (rd x : Reg)
  | softmaxInplace (addr n : Reg) | softmaxQ16Inplace (addr n : Reg)
  | layernormInplace (addr n gamma beta : Reg)
  | layernormQ16Inplace (addr n gamma beta : Reg)
  | reluInplace (addr n : Reg)
  | rmsnormInplace (addr n gamma : Reg)
  | rmsnormQ16Inplace (addr n gamma : Reg)
  | siluInplace (addr n : Reg) | siluQ16Inplace (addr n : Reg)
  | elemwiseMulInplace (dst src n : Reg) | elemwiseMulQ16 (dst src n : Reg)
  | loadInt8BytesToMem (dst src off n scale : Reg)
  | residualAdd (dst src n : Reg) | residualAddQ16 (dst src n : Reg)
  | ropeApply (addr nDim pos base : Reg)
  | ropeApplyQ16 (addr nDim pos base : Reg)
  | loadInt8B64ToMem (dst src off n scale : Reg)
  | loadInt8Q16 (dst src off n scale : Reg)
  | appendVecQ16 (dst pos src n : Reg) | argmaxQ16 (rd addr n : Reg)
  | matmulQ16 (dst lhs rhs m k n : Reg)
  | shiftRoundInplace (addr n bits : Reg)
  | matmulFp (dst lhs rhs m k n : Reg) | rmsnormFp (addr n gamma : Reg)
  | siluFp (addr n : Reg) | elemwiseMulFp (dst src n : Reg)
  | residualAddFp (dst src n : Reg) | ropeApplyFp (addr nDim pos base : Reg)
  | loadInt8Fp (dst src off n scale : Reg) | vecdotFp (rd a b n : Reg)
  | argmaxFp (rd addr n : Reg)
  | attentionKvFp (q k v ctx total qHeads kvHeads headDim : Reg)
  | attentionKvQ16 (q k v ctx total qHeads kvHeads headDim : Reg)
  | appendVecFp (dst pos src n : Reg)

namespace Instr

def effortCost : Instr → Int
  | ldi .. | mov .. | jmp .. | jdest .. | stop | revert | nop | effort ..
  | callInt .. => 1
  | eq .. | lt .. | gt .. | neq .. => 2
  | caller .. | origin .. | self .. | epoch .. | epochTime .. | value .. => 2
  | add .. | sub .. | mul .. | mload .. | mstore .. | mloadr .. | mstorer ..
  | concat .. | strlen .. | isaddr .. | ishex .. | statePathKey .. => 3
  | div .. | mod .. | neg .. | abs .. => 5
  | objectHasMember .. => 30
  | objectMemberCount .. | objectMemberRefAt .. => 50
  | jif .. | assert .. | assertAddr .. | treehash .. | nodeid .. | txhash .. => 5
  | sload .. | sloadk .. | balance .. => 20
  | emit .. => 30
  | sdel .. | sdelk .. | capClose .. | transfer .. => 50
  | capCheck .. => 20
  | sstore .. | sstorek .. | xcall .. | checkpoint => 100
  | rollback => 200
  | spawn .. | spawn2 .. => 5000
  | commit => 10
  | fheSerPk .. | fheDeserPk .. => 50
  | fheLoadPk .. | fheSer .. | fheDeser .. => 100
  | fheCommit .. | fhePedersen .. | fhePedersenAdd .. | fhePedersenSub ..
  | fhePedersenIdentity .. => 200
  | fheAdd .. | fheSub .. | fheAddConst .. | fheSubConst .. => 500
  | fheScale .. | fheDivConst .. => 1000
  | fheMul .. => 10000
  | fheVerifyZero .. | fheVerifyRange .. | fheVerifyBound .. => 5000000
  | parseInts .. => 10
  | substr .. => 5
  | indexof .. => 10
  | sha256 .. | keccak256 .. => 20
  | ed25519Ok .. => 2000
  | bitand .. | bitor .. | bitxor .. | bitshl .. | bitshr .. => 3
  | skeys .. => 50
  | skeysPage .. => 50
  | sloadn .. => 50
  | sstoren .. => 100
  | fstore .. => 100
  | fload .. => 100
  | groth16VerifyBn254 .. => 50000
  | objectTransitionApply .. => 300
  | matmul .. => 100
  | vecdot .. => 10
  | vecdotQ16 .. => 10
  | expLut .. => 5
  | expQ16 .. => 8
  | softmaxInplace .. => 20
  | softmaxQ16Inplace .. => 25
  | layernormInplace .. => 30
  | layernormQ16Inplace .. => 30
  | reluInplace .. => 5
  | rmsnormInplace .. => 25
  | rmsnormQ16Inplace .. => 25
  | siluInplace .. => 10
  | siluQ16Inplace .. => 10
  | elemwiseMulInplace .. => 5
  | elemwiseMulQ16 .. => 5
  | loadInt8BytesToMem .. => 10
  | residualAdd .. => 5
  | residualAddQ16 .. => 5
  | ropeApply .. => 50
  | ropeApplyQ16 .. => 50
  | loadInt8B64ToMem .. => 30
  | loadInt8Q16 .. => 30
  | appendVecQ16 .. => 5
  | argmaxQ16 .. => 5
  | matmulQ16 .. => 100
  | shiftRoundInplace .. => 5
  | matmulFp .. => 200
  | rmsnormFp .. => 50
  | siluFp .. => 20
  | elemwiseMulFp .. => 10
  | residualAddFp .. => 10
  | ropeApplyFp .. => 100
  | loadInt8Fp .. => 30
  | vecdotFp .. => 20
  | argmaxFp .. => 5
  | attentionKvFp .. => 200
  | attentionKvQ16 .. => 200
  | appendVecFp .. => 5

/-- Every instruction costs something. -/
theorem effortCost_pos (op : Instr) : 1 ≤ op.effortCost := by
  unfold effortCost
  split <;> decide

end Instr
end Vm
end LiteNode
