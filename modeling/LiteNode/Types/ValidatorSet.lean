import Mathlib.Algebra.Order.BigOperators.Group.List
import Mathlib.Algebra.BigOperators.Ring.List
import LiteNode.Data.Bytes

/-!
# Validator sets

Validator sets as `build_validator_set` lays them out, the checks made before a
weighted set is built, the capped re-weighting and the quorum predicates.
Integers of arbitrary size are `Int`; division truncates towards zero.
-/

/-!
## Quorum policy

Which quorum rule holds at an epoch. A policy is only built by `make` and
`withRoundEpoch`, so the order of its activation epochs is part of the type
and selecting a rule never fails.
-/

namespace LiteNode

/-- The quorum rule in force at an epoch. -/
inductive QuorumRule
  | prior
  | capped
  | stake
  deriving DecidableEq

/-- Activation epochs of the quorum rules and of the round timers. -/
structure QuorumPolicy where
  countEpoch : Int
  stakeEpoch : Option Int
  roundEpoch : Option Int
  count_nonneg : 0 ≤ countEpoch
  count_lt_stake : ∀ stake ∈ stakeEpoch, countEpoch < stake
  stake_le_round : ∀ round ∈ roundEpoch, ∃ stake ∈ stakeEpoch, stake ≤ round
  deriving DecidableEq

namespace QuorumPolicy

def withRoundEpoch (policy : QuorumPolicy) (epoch : Option Int) : Except String QuorumPolicy :=
  if ordered : ∀ round ∈ epoch, ∃ stake ∈ policy.stakeEpoch, stake ≤ round then
    .ok { policy with roundEpoch := epoch, stake_le_round := ordered }
  else .error "round activation order"

/-- Check the order of the activation epochs and build the policy. -/
def make (countEpoch : Int) (stakeEpoch roundEpoch : Option Int) : Except String QuorumPolicy :=
  if ordered : 0 ≤ countEpoch ∧ ∀ stake ∈ stakeEpoch, countEpoch < stake then
    withRoundEpoch
      { countEpoch
        stakeEpoch
        roundEpoch := none
        count_nonneg := ordered.1
        count_lt_stake := ordered.2
        stake_le_round := by simp } roundEpoch
  else .error "quorum activation order"

/-- Rule at an epoch for bare activation epochs, whose order is checked. -/
def ruleAt (countEpoch : Int) (stakeEpoch : Option Int) (epochId : Int) :
    Except String QuorumRule :=
  if 0 ≤ countEpoch ∧ ∀ stake ∈ stakeEpoch, countEpoch < stake then
    if epochId < countEpoch then .ok .prior
    else match stakeEpoch with
      | some epoch => if epoch ≤ epochId then .ok .stake else .ok .capped
      | none => .ok .capped
  else .error "quorum activation order"

/-- Rule of a policy at an epoch. -/
def select (policy : QuorumPolicy) (epochId : Int) : QuorumRule :=
  if epochId < policy.countEpoch then .prior
  else match policy.stakeEpoch with
    | some epoch => if epoch ≤ epochId then .stake else .capped
    | none => .capped

/-- Whether step timers wait for a quorum of votes. -/
def roundWait (policy : QuorumPolicy) (epochId : Int) : Bool :=
  match policy.roundEpoch with
  | some epoch => decide (epoch ≤ epochId)
  | none => false

/-- Chain whose activation epochs are written into the code. -/
def devnetChainId : Bytes := Bytes.ofAscii "octra-devnet-9871-cluster"

def countEpochFor (chainId : Bytes) : Int := if chainId = devnetChainId then 1306547 else 0

/-- Epoch from which a chain weighs votes by stake. -/
def linearEpoch (chainId : Bytes) : Option Int :=
  if chainId = devnetChainId then some 1737333 else none

/-- Epoch from which a chain's step timers wait for a quorum. -/
def roundEpochFor (chainId : Bytes) : Option Int :=
  if chainId = devnetChainId then some 1740000 else none

def forChain (chainId : Bytes) : QuorumPolicy where
  countEpoch := countEpochFor chainId
  stakeEpoch := linearEpoch chainId
  roundEpoch := roundEpochFor chainId
  count_nonneg := by unfold countEpochFor; split <;> decide
  count_lt_stake := by
    unfold countEpochFor linearEpoch
    split <;> simp
  stake_le_round := by
    unfold linearEpoch roundEpochFor
    split <;> simp

/-- Whether a chain weighs votes by stake at an epoch. -/
def linearWeight (chainId : Bytes) (epochId : Int) : Bool :=
  (forChain chainId).select epochId = .stake

end QuorumPolicy

structure ValidatorInfo where
  address : Bytes
  pubkey : Bytes
  deriving DecidableEq

/-- A validator set. The field `weighed` says that every member has a weight,
which the lookups of the source rely on. -/
structure ValidatorSet where
  validators : List ValidatorInfo
  weights : List (Bytes × Int)
  n : Int
  f : Int
  quorum : Int
  totalWeight : Int
  quorumWeight : Int
  weighted : Bool
  authors : Option (Int × List (ValidatorInfo × Int))
  weighed : ∀ validator ∈ validators, (weights.lookup validator.address).isSome
  deriving DecidableEq

/-- Smallest weight above two thirds of the total. -/
def quorumWeightOf (totalWeight : Int) : Int := (totalWeight * 2).tdiv 3 + 1

theorem lookup_map_address_isSome
    {entries : List (ValidatorInfo × Int)} {validator : ValidatorInfo}
    (member : validator ∈ entries.map Prod.fst) :
    ((entries.map fun entry => (entry.1.address, entry.2)).lookup validator.address).isSome := by
  obtain ⟨entry, present, rfl⟩ := List.mem_map.mp member
  rw [List.lookup_isSome_iff]
  exact ⟨(entry.1.address, entry.2), List.mem_map.mpr ⟨entry, present, rfl⟩, beq_self_eq_true _⟩

/-- Lay out a set: members sorted by address, totals and thresholds. -/
def buildValidatorSet (weighted : Bool) (entries : List (ValidatorInfo × Int)) : ValidatorSet :=
  let sorted := sortByKey (fun entry => entry.1.address) entries
  let totalWeight := sorted.foldl (fun total entry => total + entry.2) 0
  let n : Int := sorted.length
  let f := (n - 1).tdiv 3
  { validators := sorted.map Prod.fst
    weights := sorted.map fun entry => (entry.1.address, entry.2)
    n
    f
    quorum := if n ≤ 0 then 0 else if n < 4 then n else n - f
    totalWeight
    quorumWeight := if totalWeight ≤ 0 then 0 else quorumWeightOf totalWeight
    weighted
    authors := none
    weighed := fun _ member => lookup_map_address_isSome member }

def makeValidatorSet (validators : List ValidatorInfo) : ValidatorSet :=
  buildValidatorSet false (validators.map fun validator => (validator, 1))

/-- Checks on the entries of a weighted set, in the order of the list. -/
def validateEntries (addresses pubkeys : List Bytes) :
    List (ValidatorInfo × Int) → Except String Unit
  | [] => if addresses.isEmpty then .error "validator set is empty" else .ok ()
  | (validator, weight) :: rest =>
    if validator.address = [] then .error "validator address is empty"
    else if validator.pubkey.length ≠ 32 then .error "validator public key must contain 32 bytes"
    else if weight ≤ 0 then .error "validator weight must be positive"
    else if validator.address ∈ addresses then .error "duplicate validator address"
    else if validator.pubkey ∈ pubkeys then .error "duplicate validator public key"
    else validateEntries (validator.address :: addresses) (validator.pubkey :: pubkeys) rest

def makeWeightedValidatorSet (entries : List (ValidatorInfo × Int)) : Except String ValidatorSet :=
  match validateEntries [] [] entries with
  | .error reason => .error reason
  | .ok () => .ok (buildValidatorSet true entries)

/-- What the checks of a weighted set establish. -/
structure EntriesValid (entries : List (ValidatorInfo × Int)) : Prop where
  nonempty : entries ≠ []
  address_ne_nil : ∀ entry ∈ entries, entry.1.address ≠ []
  pubkey_length : ∀ entry ∈ entries, entry.1.pubkey.length = 32
  weight_pos : ∀ entry ∈ entries, 0 < entry.2
  nodup_address : (entries.map fun entry => entry.1.address).Nodup
  nodup_pubkey : (entries.map fun entry => entry.1.pubkey).Nodup

/-- The checks pass exactly on entries that are valid and disjoint from those
already seen. -/
theorem validateEntries_eq_ok_iff
    (addresses pubkeys : List Bytes) (entries : List (ValidatorInfo × Int)) :
    validateEntries addresses pubkeys entries = .ok () ↔ (entries ≠ [] ∨ addresses ≠ []) ∧
      (∀ entry ∈ entries, entry.1.address ≠ [] ∧ entry.1.pubkey.length = 32 ∧ 0 < entry.2 ∧
        entry.1.address ∉ addresses ∧ entry.1.pubkey ∉ pubkeys) ∧
      (entries.map fun entry => entry.1.address).Nodup ∧
      (entries.map fun entry => entry.1.pubkey).Nodup := by
  induction entries generalizing addresses pubkeys with
  | nil => simp [validateEntries]
  | cons entry rest ih =>
    obtain ⟨validator, weight⟩ := entry
    simp only [validateEntries]
    split
    · next empty => simp [empty]
    split
    · next badKey => simp [badKey]
    split
    · next nonPositive => simp [not_lt.mpr nonPositive]
    split
    · next duplicate => simp [duplicate]
    split
    · next duplicate => simp [duplicate]
    next nonempty key positive freshAddress freshKey =>
    rw [ih]
    simp only [ne_eq, reduceCtorEq, not_false_eq_true, or_true, true_and,
      List.mem_cons, not_or, List.map_cons, List.nodup_cons, List.mem_map,
      true_or, forall_eq_or_imp, not_exists, not_and]
    have key' : validator.pubkey.length = 32 := not_not.mp key
    have positive' : 0 < weight := not_le.mp positive
    constructor
    · rintro ⟨fresh, addressNodup, keyNodup⟩
      refine ⟨⟨⟨nonempty, key', positive', freshAddress, freshKey⟩,
        fun other present => ?_⟩, ⟨fun other present equal => ?_,
        addressNodup⟩, fun other present equal => ?_, keyNodup⟩
      · have facts := fresh other present
        exact ⟨facts.1, facts.2.1, facts.2.2.1, facts.2.2.2.1.2, facts.2.2.2.2.2⟩
      · exact (fresh other present).2.2.2.1.1 equal
      · exact (fresh other present).2.2.2.2.1 equal
    · rintro ⟨⟨-, fresh⟩, ⟨addressNew, addressNodup⟩, keyNew, keyNodup⟩
      refine ⟨fun other present => ?_, addressNodup, keyNodup⟩
      have facts := fresh other present
      exact ⟨facts.1, facts.2.1, facts.2.2.1, ⟨addressNew other present, facts.2.2.2.1⟩,
        keyNew other present, facts.2.2.2.2⟩

/-- A weighted set is built exactly from valid entries. -/
theorem makeWeightedValidatorSet_eq_ok_iff
    {entries : List (ValidatorInfo × Int)} {vs : ValidatorSet} :
    makeWeightedValidatorSet entries = .ok vs ↔
      EntriesValid entries ∧ buildValidatorSet true entries = vs := by
  have checks := validateEntries_eq_ok_iff [] [] entries
  unfold makeWeightedValidatorSet
  cases outcome : validateEntries [] [] entries with
  | error reason =>
    simp only [reduceCtorEq, false_iff, not_and]
    intro valid
    rw [outcome] at checks
    refine absurd (checks.mpr ⟨Or.inl valid.nonempty, fun entry present =>
      ⟨valid.address_ne_nil entry present, valid.pubkey_length entry present,
        valid.weight_pos entry present, by simp, by simp⟩,
      valid.nodup_address, valid.nodup_pubkey⟩) (by simp)
  | ok _ =>
    obtain ⟨nonempty, fields, addressNodup, keyNodup⟩ := checks.mp outcome
    have valid : EntriesValid entries :=
      { nonempty := by simpa using nonempty
        address_ne_nil := fun entry present => (fields entry present).1
        pubkey_length := fun entry present => (fields entry present).2.1
        weight_pos := fun entry present => (fields entry present).2.2.1
        nodup_address := addressNodup
        nodup_pubkey := keyNodup }
    simp [valid]

namespace ValidatorSet

/-- Public key of a member. -/
def pubkeyOfAddr (vs : ValidatorSet) (addr : Bytes) : Option Bytes :=
  (vs.validators.find? fun validator => validator.address == addr).map ValidatorInfo.pubkey

/-- Whether an address belongs to a member. -/
def isValidator (vs : ValidatorSet) (addr : Bytes) : Bool :=
  vs.validators.any fun validator => validator.address == addr

def weightOfAddr (vs : ValidatorSet) (addr : Bytes) : Option Int := vs.weights.lookup addr

/-- Members with their weights. The field `weighed` closes the branch in
which the source raises for a missing weight. -/
def weightsOfSet (vs : ValidatorSet) : List (ValidatorInfo × Int) :=
  vs.validators.map fun validator => (validator, (vs.weightOfAddr validator.address).getD 0)

end ValidatorSet

def sumWeights (entries : List (ValidatorInfo × Int)) : Int :=
  entries.foldl (fun total entry => total + entry.2) 0

def capEntries (cap : Int) (entries : List (ValidatorInfo × Int)) : List (ValidatorInfo × Int) :=
  entries.map fun entry => (entry.1, min entry.2 cap)

def largestWeightSum (count : Int) (entries : List (ValidatorInfo × Int)) : Int :=
  (((entries.map Prod.snd).insertionSort fun left right => right ≤ left).take
    count.toNat).foldl (· + ·) 0

/-- Whether a quorum remains without the `faults` heaviest members once every
weight is capped. -/
def countLiveAtCap (faults cap : Int) (entries : List (ValidatorInfo × Int)) : Bool :=
  let effective := capEntries cap entries
  let total := sumWeights effective
  let unavailable := largestWeightSum faults effective
  decide (quorumWeightOf total ≤ total - unavailable)

/-- Binary search for a live cap between two bounds. -/
def searchCap (faults : Int) (entries : List (ValidatorInfo × Int)) (lower upper : Int) : Int :=
  if upper ≤ lower then lower
  else
    let middle := (lower + upper + 1).tdiv 2
    if countLiveAtCap faults middle entries then searchCap faults entries middle upper
    else searchCap faults entries lower (middle - 1)
termination_by (upper - lower).toNat
decreasing_by
  all_goals
    have unit : Int.sign 2 = 1 := rfl
    rw [Int.tdiv_eq_ediv, unit]
    split <;> omega

/-- Cap that keeps the set live without its `f` heaviest members. -/
def countWeightCap (vs : ValidatorSet) : Int :=
  match vs.weightsOfSet with
  | [] => 0
  | first :: rest =>
    let maximum := rest.foldl (fun current entry => max current entry.2) first.2
    if vs.f ≤ 0 || countLiveAtCap vs.f maximum (first :: rest) then maximum
    else searchCap vs.f (first :: rest) 1 maximum

def countCappedSet (vs : ValidatorSet) : ValidatorSet :=
  if !vs.weighted || vs.n < 4 then vs
  else buildValidatorSet true (capEntries (countWeightCap vs) vs.weightsOfSet)

def validatorSetForRule (rule : QuorumRule) (vs : ValidatorSet) : ValidatorSet :=
  match rule with
  | .capped => countCappedSet vs
  | .prior | .stake => vs

/-- Set that counts at an epoch. Extra proposal authors are dropped outside
their own epoch and outside the stake rule. -/
def validatorSetForEpoch (policy : QuorumPolicy) (epochId : Int) (vs : ValidatorSet) :
    ValidatorSet :=
  let rule := policy.select epochId
  let vs := match vs.authors with
    | some (height, _) =>
      if height ≠ epochId ∨ rule ≠ .stake then { vs with authors := none }
      else vs
    | none => vs
  validatorSetForRule rule vs

namespace ValidatorSet

/-- Member or extra author with the given address. -/
def authorEntry (chainId : Bytes) (epochId : Int) (vs : ValidatorSet) (addr : Bytes) :
    Option (ValidatorInfo × Int) :=
  match vs.validators.find? fun validator => validator.address == addr with
  | some member => (vs.weightOfAddr addr).map fun weight => (member, weight)
  | none =>
    match vs.authors with
    | some (height, entries) =>
      if height = epochId ∧ QuorumPolicy.linearWeight chainId epochId then
        entries.find? fun entry => entry.1.address == addr
      else none
    | none => none

/-- Whether an address may sign a proposal's header. -/
def isAuthor (chainId : Bytes) (epochId : Int) (vs : ValidatorSet) (addr : Bytes) : Bool :=
  (vs.authorEntry chainId epochId addr).isSome

/-- Members together with the extra authors, as a set of its own. -/
def sourceSet (chainId : Bytes) (epochId : Int) (vs : ValidatorSet) : Option ValidatorSet :=
  match vs.authors with
  | some (height, entries) =>
    if height = epochId ∧ QuorumPolicy.linearWeight chainId epochId then
      (makeWeightedValidatorSet (vs.weightsOfSet ++ entries)).toOption
    else none
  | none => none

/-- Weight of the distinct signers, `none` when one is not a member. -/
def signedWeightFrom (vs : ValidatorSet) (seen : List Bytes) (total : Int) :
    List Bytes → Option Int
  | [] => some total
  | validator :: rest =>
    if validator ∈ seen then signedWeightFrom vs seen total rest
    else
      match vs.weightOfAddr validator with
      | none => none
      | some weight => signedWeightFrom vs (validator :: seen) (total + weight) rest

def signedWeight (vs : ValidatorSet) (validators : List Bytes) : Option Int :=
  vs.signedWeightFrom [] 0 validators

/-- Number of distinct addresses. -/
def uniqueSignerCount (validators : List Bytes) : Int := (sortByKey id validators.dedup).length

def hasWeightQuorum (vs : ValidatorSet) (validators : List Bytes) : Bool :=
  match vs.signedWeight validators with
  | none => false
  | some weight => decide (vs.quorumWeight ≤ weight)

def hasQuorumValues (vs : ValidatorSet) (signerCount signedWeight : Int) : Bool :=
  decide (vs.quorum ≤ signerCount) && decide (vs.quorumWeight ≤ signedWeight)

def hasQuorum (vs : ValidatorSet) (validators : List Bytes) : Bool :=
  match vs.signedWeight validators with
  | none => false
  | some weight => vs.hasQuorumValues (uniqueSignerCount validators) weight

/-- The stake rule needs a weighted set. -/
def weightsValid (rule : QuorumRule) (vs : ValidatorSet) : Bool := rule ≠ .stake || vs.weighted

/-- Whether the signers reach a quorum of the set under a rule. -/
def hasQuorumForRule (rule : QuorumRule) (vs : ValidatorSet) (validators : List Bytes) : Bool :=
  let effective := validatorSetForRule rule vs
  weightsValid rule vs &&
    match rule with
    | .prior => effective.hasWeightQuorum validators
    | .capped | .stake => effective.hasQuorum validators

def hasQuorumAt (policy : QuorumPolicy) (epochId : Int) (vs : ValidatorSet)
    (validators : List Bytes) : Bool :=
  hasQuorumForRule (policy.select epochId) vs validators

/-- Whether counted votes reach the quorum of a set that is already the one
that counts at the epoch. -/
def quorumReachedAt (policy : QuorumPolicy) (epochId : Int) (vs : ValidatorSet)
    (signerCount signedWeight : Int) : Bool :=
  weightsValid (policy.select epochId) vs &&
    decide (vs.quorumWeight ≤ signedWeight) &&
    (policy.select epochId = .prior || decide (vs.quorum ≤ signerCount))

def roundSkipWeight (vs : ValidatorSet) : Int := vs.totalWeight - vs.quorumWeight + 1

/-- Whether reports of a higher round justify skipping to it. -/
def roundSkipReachedAt (policy : QuorumPolicy) (epochId : Int) (vs : ValidatorSet)
    (signerCount signedWeight : Int) : Bool :=
  weightsValid (policy.select epochId) vs &&
    decide (vs.roundSkipWeight ≤ signedWeight) &&
    (policy.select epochId = .prior || decide (vs.f + 1 ≤ signerCount))

end ValidatorSet
end LiteNode
