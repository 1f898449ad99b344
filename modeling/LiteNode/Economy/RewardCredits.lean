import LiteNode.Data.Table
import LiteNode.Economy.RewardPlan

/-!
# Rewards credited to the validators

The validator pool of a plan is divided by weight, rounding down, and the rest
goes to the proposer with its own cut. Credits are gathered in a table by
address, so a proposer that is also a validator gets one credit.
-/

namespace LiteNode

structure RewardValidator where
  address : Bytes
  publicKey : Option Bytes
  weight : Int
  deriving DecidableEq

structure RewardAttribution where
  proposerAddr : Bytes
  proposerPublicKey : Option Bytes
  validators : List RewardValidator
  deriving DecidableEq

structure RewardCredit where
  address : Bytes
  proposer : Bool
  validator : Bool
  amount : Int
  deriving DecidableEq

def canonicalRewardValidators (validators : List RewardValidator) : List RewardValidator :=
  sortByKey RewardValidator.address validators

def addCredit (table : Table Bytes RewardCredit) (address : Bytes)
    (proposer validator : Bool) (amount : Int) : Table Bytes RewardCredit :=
  let prior := (table.find? address).getD {
    address, proposer := false, validator := false, amount := 0 }
  table.replace address {
    address
    proposer := prior.proposer || proposer
    validator := prior.validator || validator
    amount := prior.amount + amount }

def totalWeight (validators : List RewardValidator) : Int :=
  validators.foldl (fun total validator => total + validator.weight) 0

def poolShares (validators : List RewardValidator) (pool : Int) : List (RewardValidator × Int) :=
  validators.map fun validator =>
    (validator, (pool * validator.weight).tdiv (totalWeight validators))

/-- Credits of the shares, and of the proposer's amount on top. -/
def creditTable (shares : List (RewardValidator × Int)) (proposerAddr : Bytes)
    (proposerAmount : Int) : Table Bytes RewardCredit :=
  addCredit
    (shares.foldl
      (fun table share => addCredit table share.1.address false true share.2)
      ∅)
    proposerAddr true false proposerAmount

def rewardCredits (reward : RewardAttribution) (plan : RewardPlan) :
    Except String (List RewardCredit) :=
  let validators := canonicalRewardValidators reward.validators
  let addresses := validators.map RewardValidator.address
  if validators = [] then .error "reward distribution requires validators"
  else if addresses ≠ sortUniq addresses then .error "reward distribution has duplicate validators"
  else if validators.any fun validator => decide (validator.weight ≤ 0) then
    .error "reward distribution has non-positive weight"
  else if totalWeight validators ≤ 0 then .error "reward distribution total weight is not positive"
  else
    let validatorCount : Int := validators.length
    let validatorPool := plan.eachValidator * validatorCount + plan.remainder
    let proposerBase := plan.proposerTotal - plan.remainder
    if proposerBase < 0 then .error "reward proposer base is negative"
    else
      let shares := poolShares validators validatorPool
      let distributed := shares.foldl (fun total share => total + share.2) 0
      let proposerAmount := proposerBase + (validatorPool - distributed)
      let table := creditTable shares reward.proposerAddr proposerAmount
      let credits := sortByKey RewardCredit.address
        (table.values.filter fun credit => decide (0 < credit.amount))
      let credited := credits.foldl (fun total credit => total + credit.amount) 0
      if credited ≠ plan.totalReward then .error "reward distribution total mismatch"
      else .ok credits

theorem totalWeight_eq_sum (validators : List RewardValidator) :
    totalWeight validators = (validators.map RewardValidator.weight).sum := by
  rw [List.sum_eq_foldl, List.foldl_map, totalWeight]

/-- Rounding every share down never gives out more than the pool. -/
theorem sum_floors_le (pool : Int) {total : Int} (positive : 0 < total) (weights : List Int) :
    (weights.map fun weight => (pool * weight) / total).sum * total ≤ pool * weights.sum := by
  induction weights with
  | nil => simp
  | cons weight rest ih =>
    have here := Int.ediv_mul_le (pool * weight) (by omega : total ≠ 0)
    rw [List.map_cons, List.sum_cons, List.sum_cons, add_mul, mul_add]
    omega

/-- Shares of a nonnegative pool are floors of the exact shares, and fit into
the pool. -/
theorem poolShares_spec
    {validators : List RewardValidator} {pool : Int} (pool_nonneg : 0 ≤ pool)
    (positive : ∀ validator ∈ validators, 0 < validator.weight)
    (total_pos : 0 < totalWeight validators) :
    (∀ share ∈ poolShares validators pool, 0 ≤ share.2 ∧
      share.2 = pool * share.1.weight / totalWeight validators) ∧
    ((poolShares validators pool).map Prod.snd).sum ≤ pool := by
  have floor : ∀ share ∈ poolShares validators pool, 0 ≤ share.2 ∧
      share.2 = pool * share.1.weight / totalWeight validators := by
    intro share present
    obtain ⟨validator, listed, rfl⟩ := List.mem_map.mp present
    have product : 0 ≤ pool * validator.weight :=
      mul_nonneg pool_nonneg (positive validator listed).le
    exact ⟨Int.tdiv_nonneg product total_pos.le, Int.tdiv_eq_ediv_of_nonneg product⟩
  refine ⟨floor, ?_⟩
  have shares_eq : (poolShares validators pool).map Prod.snd =
      (validators.map RewardValidator.weight).map fun weight =>
        pool * weight / totalWeight validators := by
    unfold poolShares
    rw [List.map_map, List.map_map]
    refine List.map_congr_left fun validator listed => ?_
    exact Int.tdiv_eq_ediv_of_nonneg (mul_nonneg pool_nonneg (positive validator listed).le)
  rw [shares_eq]
  have bound := sum_floors_le pool total_pos (validators.map RewardValidator.weight)
  rw [← totalWeight_eq_sum] at bound
  exact le_of_mul_le_mul_right bound total_pos

/-- Amount credited to the addresses that pass a test. -/
def paidTo (test : Bytes → Bool) (credits : List RewardCredit) : Int :=
  ((credits.filter fun credit => test credit.address).map RewardCredit.amount).sum

/-- Credits stand under their own address and are not negative. -/
def CreditsKept (table : Table Bytes RewardCredit) : Prop :=
  ∀ address credit, table.find? address = some credit → credit.address = address ∧ 0 ≤ credit.amount

theorem creditsKept_empty : CreditsKept ∅ := by
  intro address credit found
  simp at found

variable {table : Table Bytes RewardCredit}

theorem CreditsKept.addCredit (kept : CreditsKept table)
    (address : Bytes) (proposer validator : Bool) {amount : Int} (nonneg : 0 ≤ amount) :
    CreditsKept (addCredit table address proposer validator amount) := by
  intro other credit found
  unfold LiteNode.addCredit at found
  rw [Table.find?_replace_eq_ite] at found
  split at found
  · next same =>
    cases found
    refine ⟨same.symm, ?_⟩
    dsimp only
    cases prior : table.find? address with
    | none =>
      rw [Option.getD_none, zero_add]
      exact nonneg
    | some prior' =>
      have prior_nonneg := (kept address prior' prior).2
      rw [Option.getD_some]
      omega
  · exact kept other credit found

/-- Weight of a credit for the addresses that pass a test. -/
def weightFor (test : Bytes → Bool) (credit : RewardCredit) : Int :=
  if test credit.address then credit.amount else 0

theorem sumBy_addCredit (kept : CreditsKept table)
    (test : Bytes → Bool) (address : Bytes) (proposer validator : Bool) (amount : Int) :
    (addCredit table address proposer validator amount).sumBy
        (weightFor test) =
      table.sumBy (weightFor test) + if test address then amount else 0 := by
  unfold addCredit
  rw [Table.sumBy_replace]
  cases prior : table.find? address with
  | none =>
    simp only [Table.weightAt, prior, weightFor, Option.map_none, Option.getD_none]
    split <;> omega
  | some prior' =>
    have own := (kept address prior' prior).1
    simp only [Table.weightAt, prior, weightFor, Option.map_some, Option.getD_some, own]
    split <;> omega

/-- Gathering shares adds up the shares of the addresses that pass. -/
theorem foldl_addCredit
    (test : Bytes → Bool) (shares : List (RewardValidator × Int)) (kept : CreditsKept table)
    (nonneg : ∀ share ∈ shares, 0 ≤ share.2) :
    let gathered := shares.foldl
      (fun table share => addCredit table share.1.address false true share.2)
      table
    CreditsKept gathered ∧
      gathered.sumBy (weightFor test) = table.sumBy (weightFor test) +
        (shares.map fun share => if test share.1.address then share.2 else 0).sum := by
  induction shares generalizing table with
  | nil => simpa using kept
  | cons share rest ih =>
    have share_nonneg := nonneg share List.mem_cons_self
    obtain ⟨kept', total⟩ := ih
      (kept.addCredit share.1.address false true share_nonneg)
      fun other present => nonneg other (List.mem_cons_of_mem _ present)
    refine ⟨kept', ?_⟩
    rw [List.foldl_cons, total, sumBy_addCredit kept, List.map_cons, List.sum_cons]
    omega

theorem creditTable_spec (test : Bytes → Bool) {shares : List (RewardValidator × Int)}
    {proposerAmount : Int} (proposerAddr : Bytes) (nonneg : ∀ share ∈ shares, 0 ≤ share.2)
    (proposer_nonneg : 0 ≤ proposerAmount) :
    CreditsKept (creditTable shares proposerAddr proposerAmount) ∧
      (creditTable shares proposerAddr proposerAmount).sumBy
          (weightFor test) =
        (shares.map fun share => if test share.1.address then share.2 else 0).sum +
        if test proposerAddr then proposerAmount else 0 := by
  obtain ⟨kept, total⟩ := foldl_addCredit test shares creditsKept_empty nonneg
  refine ⟨kept.addCredit _ _ _ proposer_nonneg, ?_⟩
  rw [creditTable, sumBy_addCredit kept, total, Table.sumBy_empty, zero_add]

/-- Dropping the credits of nothing leaves the amounts paid. -/
theorem paidTo_filter (test : Bytes → Bool) {credits : List RewardCredit}
    (nonneg : ∀ credit ∈ credits, 0 ≤ credit.amount) :
    paidTo test (credits.filter fun credit => decide (0 < credit.amount)) =
      (credits.map (weightFor test)).sum := by
  induction credits with
  | nil => rfl
  | cons credit rest ih =>
    have rest_eq := ih fun other present => nonneg other (List.mem_cons_of_mem _ present)
    have credit_nonneg := nonneg credit List.mem_cons_self
    unfold paidTo at rest_eq ⊢
    rw [List.map_cons, List.sum_cons, ← rest_eq, List.filter_cons]
    unfold weightFor
    by_cases positive : 0 < credit.amount <;>
      by_cases passes : test credit.address = true <;>
      simp [positive, passes]
    all_goals omega

/-- The credits listed from a table. -/
theorem credits_spec (test : Bytes → Bool) (kept : CreditsKept table) :
    let credits := sortByKey RewardCredit.address
      (table.values.filter fun credit => decide (0 < credit.amount))
    (∀ credit ∈ credits, 0 < credit.amount) ∧ (credits.map RewardCredit.address).Nodup ∧
      paidTo test credits = table.sumBy (weightFor test) := by
  have values_nonneg : ∀ credit ∈ table.values, 0 ≤ credit.amount := by
    intro credit present
    obtain ⟨address, found⟩ := Table.mem_values.mp present
    exact (kept address credit found).2
  have keys_eq : table.values.map RewardCredit.address = table.toList.map Prod.fst := by
    unfold Table.values
    rw [List.map_map]
    refine List.map_congr_left fun entry present => ?_
    exact (kept entry.1 entry.2 (Table.mem_toList.mp present)).1
  refine ⟨?_, ?_, ?_⟩
  · intro credit present
    rw [mem_sortByKey, List.mem_filter] at present
    exact of_decide_eq_true present.2
  · have sorted := (sortByKey_perm RewardCredit.address (table.values.filter
      fun credit => decide (0 < credit.amount))).map RewardCredit.address
    rw [sorted.nodup_iff]
    have all_nodup : (table.values.map RewardCredit.address).Nodup := by
      rw [keys_eq]
      exact table.nodup_keys
    exact all_nodup.sublist (List.filter_sublist.map _)
  · have sorted := sortByKey_perm RewardCredit.address (table.values.filter
      fun credit => decide (0 < credit.amount))
    have same : paidTo test (sortByKey RewardCredit.address
        (table.values.filter fun credit => decide (0 < credit.amount))) =
        paidTo test (table.values.filter fun credit => decide (0 < credit.amount)) :=
      ((sorted.filter _).map _).sum_eq
    rw [same, paidTo_filter test values_nonneg]
    rfl

/-- The share of one of several distinct validators is the only one at its
address. -/
theorem sum_shareAt {shares : List (RewardValidator × Int)}
    (distinct : (shares.map fun share => share.1.address).Nodup)
    {share : RewardValidator × Int} (listed : share ∈ shares) :
    (shares.map fun other =>
      if decide (other.1.address = share.1.address) then other.2 else 0).sum = share.2 := by
  induction shares with
  | nil => simp at listed
  | cons head rest ih =>
    rw [List.map_cons, List.nodup_cons] at distinct
    rw [List.map_cons, List.sum_cons]
    rcases List.mem_cons.mp listed with rfl | later
    · have others : (rest.map fun other =>
          if decide (other.1.address = share.1.address) then other.2
          else 0) = rest.map fun _ => 0 := by
        refine List.map_congr_left fun other present => if_neg ?_
        intro same
        apply distinct.1
        rw [← of_decide_eq_true same]
        exact List.mem_map_of_mem present
      rw [others]
      simp
    · have apart : head.1.address ≠ share.1.address := by
        intro same
        apply distinct.1
        rw [same]
        exact List.mem_map_of_mem later
      rw [ih distinct.2 later]
      simp [apart]

/-- Distinct validators of positive weight get their shares of the pool, the
proposer gets its cut and the rest, and nothing is lost. -/
theorem rewardCredits_spec {reward : RewardAttribution} {plan : RewardPlan} {envelope : Int}
    (balanced : plan.Balanced reward.validators.length envelope) (present : reward.validators ≠ [])
    (distinct : (reward.validators.map RewardValidator.address).Nodup)
    (positive : ∀ validator ∈ reward.validators, 0 < validator.weight) :
    ∃ credits, rewardCredits reward plan = .ok credits ∧ (∀ credit ∈ credits, 0 < credit.amount) ∧
      (credits.map RewardCredit.address).Nodup ∧
      (credits.map RewardCredit.amount).sum = plan.totalReward ∧
      ∀ validator ∈ reward.validators, validator.address ≠ reward.proposerAddr →
        paidTo (fun address => decide (address = validator.address)) credits =
          (plan.eachValidator * reward.validators.length + plan.remainder) *
            validator.weight / totalWeight reward.validators := by
  let validators := canonicalRewardValidators reward.validators
  let pool := plan.eachValidator * reward.validators.length + plan.remainder
  have sorted : validators.Perm reward.validators := sortByKey_perm _ _
  have nonempty : validators ≠ [] := by
    rw [Ne, ← List.length_eq_zero_iff, sorted.length_eq]
    exact fun empty => present (List.length_eq_zero_iff.mp empty)
  have distinct' : (validators.map RewardValidator.address).Nodup :=
    (sorted.map _).nodup_iff.mpr distinct
  have positive' : ∀ validator ∈ validators, 0 < validator.weight :=
    fun validator listed => positive validator (sorted.mem_iff.mp listed)
  have weight_eq : totalWeight validators = totalWeight reward.validators := by
    rw [totalWeight_eq_sum, totalWeight_eq_sum]
    exact (sorted.map _).sum_eq
  have weight_pos : 0 < totalWeight validators := by
    rw [totalWeight_eq_sum]
    refine List.sum_pos _ ?_ (by simpa using nonempty)
    intro weight listed
    obtain ⟨validator, member, rfl⟩ := List.mem_map.mp listed
    exact positive' validator member
  obtain ⟨floors, fits⟩ := poolShares_spec balanced.pool_nonneg positive' weight_pos
  let shares := poolShares validators pool
  let proposerAmount := plan.proposerTotal - plan.remainder + (pool - (shares.map Prod.snd).sum)
  have proposer_nonneg : 0 ≤ proposerAmount := by
    have cut := balanced.cut_nonneg
    change (shares.map Prod.snd).sum ≤ pool at fits
    change 0 ≤ plan.proposerTotal - plan.remainder + (pool - (shares.map Prod.snd).sum)
    omega
  have gathered := fun test => creditTable_spec test reward.proposerAddr
    (fun share listed => (floors share listed).1) proposer_nonneg
  let table := creditTable shares reward.proposerAddr proposerAmount
  have kept : CreditsKept table := (gathered fun _ => true).1
  let credits := sortByKey RewardCredit.address
    (table.values.filter fun credit => decide (0 < credit.amount))
  have listed := fun test => credits_spec test kept
  have credited : (credits.map RewardCredit.amount).sum = plan.totalReward := by
    have paid := (listed fun _ => true).2.2
    rw [(gathered fun _ => true).2] at paid
    have all : paidTo (fun _ => true) credits = (credits.map RewardCredit.amount).sum := by
      unfold paidTo
      rw [List.filter_true]
    have total : (shares.map fun share => if true then share.2 else 0).sum =
        (shares.map Prod.snd).sum := rfl
    have divided := balanced.divided
    rw [← all]
    refine paid.trans ?_
    rw [if_pos rfl]
    change (shares.map Prod.snd).sum + (plan.proposerTotal - plan.remainder +
      (pool - (shares.map Prod.snd).sum)) = plan.totalReward
    omega
  refine ⟨credits, ?_, (listed fun _ => true).1, (listed fun _ => true).2.1, credited, ?_⟩
  · have sortedKeys : validators.map RewardValidator.address =
        sortUniq (validators.map RewardValidator.address) := by
      refine ((sortUniq_eq_self_iff ?_).mpr distinct').symm
      rw [List.pairwise_map]
      exact sortByKey_pairwise _ _
    have weighted : ¬ (validators.any fun validator =>
        decide (validator.weight ≤ 0)) = true := by
      simpa using positive'
    have count_eq : validators.length = reward.validators.length := sorted.length_eq
    have shared : ∀ start : List (RewardValidator × Int),
        start.foldl (fun total share => total + share.2) 0 = (start.map Prod.snd).sum := by
      intro start
      rw [List.sum_eq_foldl, List.foldl_map]
    have summed : credits.foldl
        (fun total credit => total + credit.amount) 0 = plan.totalReward := by
      rw [← credited, List.sum_eq_foldl, List.foldl_map]
    unfold rewardCredits
    dsimp only
    rw [if_neg nonempty, if_neg (not_not.mpr sortedKeys), if_neg weighted,
      if_neg (not_le.mpr weight_pos), if_neg (not_lt.mpr balanced.cut_nonneg), shared]
    rw [count_eq]
    exact if_neg (not_not.mpr summed)
  · intro validator member apart
    have share_mem : (validator, (pool * validator.weight).tdiv
        (totalWeight validators)) ∈ shares :=
      List.mem_map_of_mem (sorted.mem_iff.mpr member)
    have names : (shares.map fun share => share.1.address) =
        validators.map RewardValidator.address := by
      simp [shares, poolShares, Function.comp_def]
    have own := sum_shareAt (names ▸ distinct') share_mem
    have paid := (listed fun address => decide (address = validator.address)).2.2
    rw [(gathered _).2, own, if_neg (by simpa using Ne.symm apart), add_zero] at paid
    rw [paid, (floors _ share_mem).2, weight_eq]

/-- The order of distinct validators does not matter. -/
theorem rewardCredits_perm {reward : RewardAttribution} {others : List RewardValidator}
    (plan : RewardPlan) (same : others.Perm reward.validators)
    (distinct : (reward.validators.map RewardValidator.address).Nodup) :
    rewardCredits { reward with validators := others } plan = rewardCredits reward plan := by
  have sorted : canonicalRewardValidators others = canonicalRewardValidators reward.validators :=
    (sortByKey_eq_of_perm same.symm distinct).symm
  unfold rewardCredits
  rw [sorted]

/-- A plan that was built is credited in full: to distinct addresses, by
weight, in whatever order the validators are listed, and with the supply
envelope unchanged. -/
theorem rewardCredits_of_plan {feeBurnActive : Bool} {supplyRetired baseReward emissionRemaining
      confirmedFees prevSupply : Int} {plan : RewardPlan} {reward : RewardAttribution}
    (planned : buildRewardPlanWithBase feeBurnActive supplyRetired baseReward
      reward.validators.length emissionRemaining confirmedFees prevSupply =
        .ok plan) (present : 1 ≤ reward.validators.length)
    (distinct : (reward.validators.map RewardValidator.address).Nodup)
    (positive : ∀ validator ∈ reward.validators, 0 < validator.weight) :
    ∃ credits, rewardCredits reward plan = .ok credits ∧
      (∀ credit ∈ credits, 0 < credit.amount) ∧
      (credits.map RewardCredit.address).Nodup ∧
      (credits.map RewardCredit.amount).sum = baseReward + plan.feesRewarded ∧
      (∀ validator ∈ reward.validators,
        validator.address ≠ reward.proposerAddr →
        paidTo (fun address => decide (address = validator.address)) credits =
          (plan.eachValidator * reward.validators.length + plan.remainder) *
            validator.weight / totalWeight reward.validators) ∧
      (∀ others : List RewardValidator, others.Perm reward.validators →
        rewardCredits { reward with validators := others } plan = .ok credits) ∧
      plan.newTotalSupply + plan.newEmissionRemaining + plan.newSupplyRetired =
        prevSupply + emissionRemaining + supplyRetired := by
  obtain ⟨base_eq, balanced⟩ := balanced_of_buildRewardPlanWithBase planned
  have nonempty : reward.validators ≠ [] := List.ne_nil_of_length_pos present
  obtain ⟨credits, credited, amounts, addresses, total, shared⟩ :=
    rewardCredits_spec balanced nonempty distinct positive
  refine ⟨credits, credited, amounts, addresses, ?_, shared, ?_,
    balanced.envelope_eq⟩
  · rw [total, balanced.total_eq, base_eq]
  · intro others same
    rw [rewardCredits_perm plan same distinct, credited]

/-- Two validators of weights one and two, with the first as proposer. -/
def twoValidators : RewardAttribution where
  proposerAddr := [1]
  proposerPublicKey := none
  validators := [⟨[2], none, 2⟩, ⟨[1], none, 1⟩]

/-- Plan of a base reward of one hundred units and of ten units of fees. -/
def hundredPlan : RewardPlan where
  baseReward := 100
  feesBurned := 2
  feesRewarded := 8
  totalReward := 108
  proposerTotal := 76
  eachValidator := 16
  remainder := 1
  newEmissionRemaining := 900
  newTotalSupply := 999999999998098
  newSupplyRetired := 1002
  supplyTrackingActive := true

theorem rewardCredits_twoValidators :
    ∃ credits, rewardCredits twoValidators hundredPlan = .ok credits ∧
      (∀ credit ∈ credits, 0 < credit.amount) ∧
      (credits.map RewardCredit.address).Nodup ∧
      (credits.map RewardCredit.amount).sum = 100 + hundredPlan.feesRewarded ∧
      (∀ validator ∈ twoValidators.validators,
        validator.address ≠ twoValidators.proposerAddr →
        paidTo (fun address => decide (address = validator.address)) credits =
          (hundredPlan.eachValidator * twoValidators.validators.length + hundredPlan.remainder) *
            validator.weight / totalWeight twoValidators.validators) ∧
      (∀ others : List RewardValidator,
        others.Perm twoValidators.validators →
        rewardCredits { twoValidators with validators := others } hundredPlan = .ok credits) ∧
      hundredPlan.newTotalSupply + hundredPlan.newEmissionRemaining +
          hundredPlan.newSupplyRetired =
        999999999998000 + 1000 + 1000 :=
  @rewardCredits_of_plan true 1000 100 1000 10 999999999998000 hundredPlan
    twoValidators (by decide +kernel) (by decide) (by decide) (by decide)

end LiteNode
