import Mathlib.Algebra.Order.Ring.Int
import Mathlib.Tactic.Ring
import LiteNode.Data.Bytes

/-!
# The reward plan of an epoch

At the end of an epoch a base reward leaves the emission reserve and the fees
are split into a burned and a rewarded part. The plan divides what is rewarded
between the proposer and the validators, and moves the three parts of the
supply envelope together.
-/

/-! ## Supply cap -/

namespace LiteNode

def unitsPerOct : Int := 1000000

def maxSupply : Int := 1000000000 * unitsPerOct

namespace EmissionPolicy

/-- Headroom below the cap, if the supply and the reserve fit into it. -/
def validateState (emissionRemaining totalSupply : Int) : Except String Int :=
  if emissionRemaining < 0 then .error "negative emission_remaining"
  else if totalSupply < 0 then .error "negative total_supply"
  else if maxSupply < totalSupply then .error "total_supply exceeds hard cap"
  else
    let headroom := maxSupply - totalSupply
    if headroom < emissionRemaining then .error "emission_remaining exceeds supply headroom"
    else .ok headroom

end EmissionPolicy

namespace FeePolicy

structure Split where
  burned : Int
  rewarded : Int
  deriving DecidableEq

def burnNumerator : Int := 1

def burnDenominator : Int := 5

/-- Burn a fifth of the fees once burning is active. -/
def split (active : Bool) (fees : Int) : Except String Split :=
  if fees < 0 then .error "negative confirmed fees"
  else
    let burned := if active then (fees * burnNumerator).tdiv burnDenominator else 0
    .ok { burned, rewarded := fees - burned }

end FeePolicy

namespace RewardPolicy

def emissionDivisor : Int := 18198732

def emissionFloor : Int := 10000

def proposerNumerator : Int := 7

def proposerDenominator : Int := 10

def computeBase (emissionRemaining : Int) : Int :=
  if emissionRemaining ≤ 0 then 0
  else
    let raw := emissionRemaining.tdiv emissionDivisor
    let reward := max raw emissionFloor
    min reward emissionRemaining

/-- The proposer's cut and the pool of the validators. -/
def split (totalReward : Int) : Except String (Int × Int) :=
  if totalReward < 0 then .error "reward total is negative"
  else
    let proposer := (totalReward * proposerNumerator).tdiv proposerDenominator
    .ok (proposer, totalReward - proposer)

end RewardPolicy

structure RewardPlan where
  baseReward : Int
  feesBurned : Int
  feesRewarded : Int
  totalReward : Int
  proposerTotal : Int
  eachValidator : Int
  remainder : Int
  newEmissionRemaining : Int
  newTotalSupply : Int
  newSupplyRetired : Int
  supplyTrackingActive : Bool
  deriving DecidableEq

def buildRewardPlanWithBase (feeBurnActive : Bool) (supplyRetired baseReward validatorCount
      emissionRemaining confirmedFees prevSupply : Int) :
    Except String RewardPlan :=
  if validatorCount ≤ 0 then .error "reward plan requires active validators"
  else if supplyRetired < 0 then .error "negative retired supply"
  else
    match FeePolicy.split feeBurnActive confirmedFees with
    | .error error => .error error
    | .ok feeSplit =>
      match EmissionPolicy.validateState emissionRemaining prevSupply with
      | .error error => .error error
      | .ok headroom =>
        if baseReward < 0 then .error "negative base reward"
        else if emissionRemaining < baseReward then .error "base reward exceeds emission reserve"
        else if headroom < baseReward then .error "base reward exceeds supply headroom"
        else
          let totalReward := baseReward + feeSplit.rewarded
          match RewardPolicy.split totalReward with
          | .error error => .error error
          | .ok (proposerCut, validatorPool) =>
            let eachValidator := validatorPool.tdiv validatorCount
            let remainder := validatorPool - eachValidator * validatorCount
            let newEmissionRemaining := emissionRemaining - baseReward
            let newTotalSupply := prevSupply + baseReward - feeSplit.burned
            let newSupplyRetired := supplyRetired + feeSplit.burned
            if newTotalSupply < 0 then .error "fee burn exceeds total supply"
            else if feeBurnActive && decide
                (newTotalSupply + (newEmissionRemaining + newSupplyRetired) ≠ maxSupply) then
              .error "supply envelope transition mismatch"
            else
              .ok {
                baseReward
                feesBurned := feeSplit.burned
                feesRewarded := feeSplit.rewarded
                totalReward
                proposerTotal := proposerCut + remainder
                eachValidator, remainder, newEmissionRemaining
                newTotalSupply, newSupplyRetired
                supplyTrackingActive := feeBurnActive }

def buildRewardPlan (feeBurnActive : Bool) (supplyRetired validatorCount emissionRemaining
      confirmedFees prevSupply : Int) : Except String RewardPlan :=
  buildRewardPlanWithBase feeBurnActive supplyRetired
    (RewardPolicy.computeBase emissionRemaining) validatorCount
    emissionRemaining confirmedFees prevSupply

theorem FeePolicy.split_spec {active : Bool} {fees : Int} {parts : FeePolicy.Split}
    (accepted : FeePolicy.split active fees = .ok parts) :
    0 ≤ parts.burned ∧ 0 ≤ parts.rewarded ∧ parts.burned + parts.rewarded = fees := by
  unfold FeePolicy.split at accepted
  split at accepted
  · cases accepted
  · next fees_nonneg =>
    cases accepted
    unfold burnNumerator burnDenominator
    rw [mul_one, Int.tdiv_eq_ediv_of_nonneg (by omega)]
    split <;> refine ⟨?_, ?_, ?_⟩ <;> dsimp only <;> omega

theorem RewardPolicy.split_spec {totalReward proposer pool : Int}
    (accepted : RewardPolicy.split totalReward = .ok (proposer, pool)) :
    0 ≤ proposer ∧ 0 ≤ pool ∧ proposer + pool = totalReward := by
  unfold RewardPolicy.split at accepted
  split at accepted
  · cases accepted
  · next total_nonneg =>
    cases accepted
    unfold proposerNumerator proposerDenominator
    rw [Int.tdiv_eq_ediv_of_nonneg (by omega)]
    omega

/-- A plan divides the total reward without a rest and moves the supply
envelope as a whole. -/
structure RewardPlan.Balanced (plan : RewardPlan) (validatorCount envelope : Int) : Prop where
  base_nonneg : 0 ≤ plan.baseReward
  fees_nonneg : 0 ≤ plan.feesRewarded
  total_eq : plan.totalReward = plan.baseReward + plan.feesRewarded
  cut_nonneg : 0 ≤ plan.proposerTotal - plan.remainder
  pool_nonneg : 0 ≤ plan.eachValidator * validatorCount + plan.remainder
  divided : plan.proposerTotal - plan.remainder +
    (plan.eachValidator * validatorCount + plan.remainder) = plan.totalReward
  envelope_eq : plan.newTotalSupply + plan.newEmissionRemaining + plan.newSupplyRetired = envelope

theorem balanced_of_buildRewardPlanWithBase
    {feeBurnActive : Bool} {supplyRetired baseReward validatorCount
      emissionRemaining confirmedFees prevSupply : Int} {plan : RewardPlan}
    (planned : buildRewardPlanWithBase feeBurnActive supplyRetired baseReward
      validatorCount emissionRemaining confirmedFees prevSupply = .ok plan) :
    plan.baseReward = baseReward ∧ plan.Balanced validatorCount
      (prevSupply + emissionRemaining + supplyRetired) := by
  unfold buildRewardPlanWithBase at planned
  split at planned
  · cases planned
  split at planned
  · cases planned
  split at planned
  · cases planned
  next feeSplit fees =>
  split at planned
  · cases planned
  split at planned
  · cases planned
  next base_nonneg =>
  split at planned
  · cases planned
  split at planned
  · cases planned
  dsimp only at planned
  split at planned
  · cases planned
  next proposerCut validatorPool parts =>
  split at planned
  · cases planned
  split at planned
  · cases planned
  cases planned
  obtain ⟨-, rewarded_nonneg, -⟩ := FeePolicy.split_spec fees
  obtain ⟨cut_nonneg, pool_nonneg, total⟩ := RewardPolicy.split_spec parts
  refine ⟨rfl, ?_⟩
  constructor <;> dsimp only <;> omega

end LiteNode
