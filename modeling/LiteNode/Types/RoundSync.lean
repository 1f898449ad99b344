import LiteNode.Types.Messages
import LiteNode.Wire.Oce1

/-!
# Round syncs

The step that a validator is at in a round, signed, and how it is written. A
round sync within the limits of the codec is read as it was written.
-/

namespace LiteNode

open Oce1

structure RoundSync where
  chainId : Bytes
  epochId : Int
  round : Int
  step : RoundStep
  request : Bool
  validator : Bytes
  signature : Bytes
  deriving DecidableEq

namespace RoundSync

def maxChainIdBytes : Int := 128

def maxAddrBytes : Int := 128

def maxSignatureBytes : Int := 64

def maxRound : Int := 1000000

def roundStepToU8 : RoundStep → Int
  | .proposeStep => 1
  | .prevoteStep => 2
  | .precommitStep => 3

def roundStepOfU8 (v : Int) : Get RoundStep :=
  if v = 1 then return .proposeStep
  else if v = 2 then return .prevoteStep
  else if v = 3 then return .precommitStep
  else fail "bad round_step"

def getRound : Get Int := do
  let round ← getU32Int
  if round < 0 ∨ maxRound < round then fail "consensus codec: round out of range"
  else return round

def getExactBytes (len : Int) : Get Bytes := do
  let value ← getBytesBounded len
  if (value.length : Int) ≠ len then fail "consensus codec: bad byte length"
  else return value

def encode (sync : RoundSync) : Bytes :=
  putString sync.chainId ++ (putU64 sync.epochId ++ (putU32Int sync.round ++
    (putU8 (roundStepToU8 sync.step) ++ (putBool sync.request ++
      (putString sync.validator ++ putBytes sync.signature)))))

def get : Get RoundSync := do
  let chainId ← getBytesBounded maxChainIdBytes
  let epochId ← getU64
  let round ← getRound
  let step ← roundStepOfU8 (← getU8)
  let request ← getBool
  let validator ← getBytesBounded maxAddrBytes
  let signature ← getExactBytes maxSignatureBytes
  return { chainId, epochId, round, step, request, validator, signature }

def decode (payload : Bytes) : Except String RoundSync := Oce1.decode get payload

/-- Fields within the limits of the codec. -/
structure Encodable (sync : RoundSync) : Prop where
  chainId : (sync.chainId.length : Int) ≤ maxChainIdBytes
  early : -2 ^ 63 ≤ sync.epochId
  late : sync.epochId < 2 ^ 63
  least : 0 ≤ sync.round
  most : sync.round ≤ maxRound
  validator : (sync.validator.length : Int) ≤ maxAddrBytes
  signature : (sync.signature.length : Int) = maxSignatureBytes

theorem gets_round {round : Int} (least : 0 ≤ round)
    (most : round ≤ maxRound) : Gets getRound (putU32Int round) round := by
  have small : round < 2 ^ 31 := by
    simp only [maxRound] at most
    omega
  have gets : Gets getRound (putU32Int round ++ []) round := by
    apply Gets.bind (Gets.getU32Int least small)
    rw [if_neg (by omega)]
    exact Gets.pure round
  rwa [List.append_nil] at gets

theorem gets_step (step : RoundStep) : Gets (roundStepOfU8 (roundStepToU8 step)) [] step := by
  cases step <;> exact fun rest => rfl

theorem gets_exactBytes {len : Int} {bytes : Bytes}
    (size : (bytes.length : Int) = len) (small : len < 2 ^ 31) :
    Gets (getExactBytes len) (putBytes bytes) bytes := by
  have gets : Gets (getExactBytes len) (putBytes bytes ++ []) bytes := by
    apply Gets.bind (Gets.getBytesBounded size.le small)
    rw [if_neg (by simpa using size)]
    exact Gets.pure bytes
  rwa [List.append_nil] at gets

/-- What is written within limits is read as it was. -/
theorem decode_encode {sync : RoundSync} (encodable : sync.Encodable) :
    decode sync.encode = .ok sync := by
  have code : 0 ≤ roundStepToU8 sync.step ∧ roundStepToU8 sync.step < 256 := by
    cases sync.step <;> simp [roundStepToU8]
  apply decode_of_gets
  apply Gets.bind (Gets.getBytesBounded encodable.chainId (by decide))
  apply Gets.bind (Gets.getU64 encodable.early encodable.late)
  apply Gets.bind (gets_round encodable.least encodable.most)
  apply Gets.bind (Gets.getU8 code.1 code.2)
  apply @Gets.bind _ _ _ _ [] _ _ _ (gets_step sync.step)
  apply Gets.bind (Gets.getBool sync.request)
  apply Gets.bind (Gets.getBytesBounded encodable.validator (by decide))
  exact Gets.map (gets_exactBytes encodable.signature (by decide))

theorem length_encode (sync : RoundSync) :
    sync.encode.length = 26 + sync.chainId.length + sync.validator.length +
      sync.signature.length := by
  simp only [encode, putString, putBytes, putU32Int, putU64, putU8, putBool,
    List.length_append, length_putUint]
  omega

end RoundSync
end LiteNode
