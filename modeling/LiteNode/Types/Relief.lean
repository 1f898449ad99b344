import LiteNode.Types.CountCap
import LiteNode.Types.RoundSync

/-!
# Validator relief

A set may be replaced by a smaller one when rounds do not end. The checks on the
smaller set make every two quorums of the old and of the new set share more
weight than the old set tolerates to be faulty.
-/

namespace LiteNode

open SortedSums

namespace Relief

def minRound : Int := 64

/-- Whether a member of the target is one of the current set, with the same key
and the same weight. -/
def sameMember (current target : ValidatorSet) (member : ValidatorInfo) : Bool :=
  match current.pubkeyOfAddr member.address,
      current.weightOfAddr member.address, target.weightOfAddr member.address with
  | some pubkey, some oldWeight, some newWeight => pubkey = member.pubkey && oldWeight = newWeight
  | _, _, _ => false

def lowestWeight (count : Int) (target : ValidatorSet) : Int :=
  (((target.weights.map Prod.snd).insertionSort fun left right =>
    left ≤ right).take count.toNat).foldl (· + ·) 0

def checkIntersection (current target : ValidatorSet) : Except String Unit :=
  let shared := current.quorum + target.quorum - current.n
  if shared ≤ current.f then .error "validator relief count intersection is unsafe"
  else
    let byCount := lowestWeight shared target
    let byWeight := current.quorumWeight + target.quorumWeight - current.totalWeight
    let faults := current.totalWeight - current.quorumWeight
    if max byCount byWeight ≤ faults then .error "validator relief weight intersection is unsafe"
    else .ok ()

def checkSet (current target : ValidatorSet) : Except String Unit :=
  if !current.weighted || !target.weighted then .error "validator relief requires weighted sets"
  else if current.n < 4 ∨ target.n < 4 then .error "validator relief set is too small"
  else if current.n ≤ target.n then .error "validator relief target must shrink"
  else if !target.validators.all (sameMember current target) then
    .error "validator relief target changes a retained member"
  else checkIntersection current target

def checkSyncs (verify : Bytes → RoundSync → Bool) (chainId : Bytes)
    (height round : Int) (current : ValidatorSet) :
    Option Bytes → List RoundSync → Except String Unit
  | _, [] => .ok ()
  | prior, sync :: rest =>
    if prior = some sync.validator then .error "validator relief proof repeats a signer"
    else if sync.chainId ≠ chainId then .error "validator relief proof chain differs"
    else if sync.epochId ≠ height then .error "validator relief proof height differs"
    else if sync.round ≠ round ∨ round < minRound then
      .error "validator relief proof round is invalid"
    else
      match current.pubkeyOfAddr sync.validator with
      | none => .error "validator relief proof signer is unknown"
      | some pubkey =>
        if !verify pubkey sync then .error "validator relief proof signature is invalid"
        else checkSyncs verify chainId height round current (some sync.validator) rest

def checkProof (verify : Bytes → RoundSync → Bool) (chainId : Bytes)
    (height : Int) (current : ValidatorSet) (proof : List RoundSync) :
    Except String (Int × List RoundSync) :=
  match proof with
  | [] => .error "validator relief proof is empty"
  | first :: _ =>
    let round := first.round
    let proof := sortByKey RoundSync.validator proof
    match checkSyncs verify chainId height round current none proof with
    | .error reason => .error reason
    | .ok () =>
      let signers := proof.map RoundSync.validator
      match current.signedWeight signers with
      | none => .error "validator relief proof weight is invalid"
      | some signedWeight =>
        if current.roundSkipReachedAt (QuorumPolicy.forChain chainId)
            height signers.length signedWeight then
          .ok (round, proof)
        else .error "validator relief proof is below threshold"

section Sets

variable {current target : ValidatorSet} {first second : List Bytes}

theorem lowestWeight_eq (count : Int) (target : ValidatorSet) :
    lowestWeight count target = smallestSum count.toNat (target.weights.map Prod.snd) := by
  have sum := ValidatorSet.foldl_add_eq_sum (((target.weights.map
    Prod.snd).insertionSort fun left right => left ≤ right).take count.toNat) id 0
  rw [List.map_id, zero_add] at sum
  exact sum

theorem checkIntersection_eq_ok (checked : checkIntersection current target = .ok ()) :
    current.f < current.quorum + target.quorum - current.n ∧
      (current.totalWeight - current.quorumWeight <
          lowestWeight (current.quorum + target.quorum - current.n) target ∨
        current.totalWeight - current.quorumWeight <
          current.quorumWeight + target.quorumWeight - current.totalWeight) := by
  unfold checkIntersection at checked
  dsimp only at checked
  split at checked
  · cases checked
  split at checked
  · cases checked
  next counts weights =>
  exact ⟨by omega, lt_max_iff.mp (not_le.mp weights)⟩

/-- Every member of the target is a member of the current set, and weighs what it
weighs there. -/
theorem checkSet_eq_ok (checked : checkSet current target = .ok ()) :
    (∀ member ∈ target.validators, ∃ weight, current.weightOfAddr member.address = some weight ∧
        target.weightOfAddr member.address = some weight) ∧
      checkIntersection current target = .ok () := by
  unfold checkSet at checked
  split at checked
  · cases checked
  split at checked
  · cases checked
  split at checked
  · cases checked
  split at checked
  · cases checked
  next same =>
  refine ⟨fun member listed => ?_, checked⟩
  have retained : sameMember current target member = true :=
    List.all_eq_true.mp (by simpa using same) member listed
  unfold sameMember at retained
  split at retained
  · next pubkey oldWeight newWeight _ old new =>
    obtain ⟨-, equal⟩ := Bool.and_eq_true_iff.mp retained
    refine ⟨oldWeight, old, ?_⟩
    rw [new, of_decide_eq_true equal]
  · cases retained

/-- A group of members weighs no less than as many of the lightest ones. -/
theorem lowestWeight_le (laid : target.Laid) {group : Finset Bytes} {count : Int}
    (subset : group ⊆ target.members) (many : count ≤ group.card) :
    lowestWeight count target ≤ ∑ addr ∈ group, target.weightOf addr := by
  have weights : target.weights.map Prod.snd =
      (target.validators.map ValidatorInfo.address).map target.weightOf := by
    rw [← laid.weightsOfSet_snd]
    simp [ValidatorSet.weightsOfSet, ValidatorSet.weightOf, Function.comp_def]
  rw [lowestWeight_eq, weights, ← Finset.sum_map_toList]
  apply smallestSum_le_sum
  · exact laid.subperm subset _
  · intro weight listed
    obtain ⟨addr, -, rfl⟩ := List.mem_map.mp listed
    exact laid.weightOf_nonneg addr
  · rw [List.length_map, Finset.length_toList]
    omega

/-- Any two quorums of a set and of a smaller set that relieves it share more
weight than the set tolerates to be faulty. -/
theorem checkSet_sound {entries entries' : List (ValidatorInfo × Int)}
    (built : makeWeightedValidatorSet entries = .ok current)
    (built' : makeWeightedValidatorSet entries' = .ok target)
    (checked : checkSet current target = .ok ()) (old : current.hasQuorum first = true)
    (new : target.hasQuorum second = true) :
    current.totalWeight - current.quorumWeight <
      ∑ addr ∈ ValidatorSet.commonSigners first second,
        current.weightOf addr := by
  have laid := ValidatorSet.laid_of_built built
  have laid' := ValidatorSet.laid_of_built built'
  obtain ⟨retained, intersect⟩ := checkSet_eq_ok checked
  obtain ⟨shared, overlap⟩ := checkIntersection_eq_ok intersect
  obtain ⟨count, weighs⟩ := ValidatorSet.hasQuorum_iff.mp old
  obtain ⟨count', weighs'⟩ := ValidatorSet.hasQuorum_iff.mp new
  obtain ⟨inside, weight⟩ := ValidatorSet.hasWeightQuorum_iff.mp weighs
  obtain ⟨inside', weight'⟩ := ValidatorSet.hasWeightQuorum_iff.mp weighs'
  -- members of the target keep their weights
  have kept : ∀ addr ∈ target.members, addr ∈ current.members ∧
      target.weightOf addr = current.weightOf addr := by
    intro addr member
    rw [laid'.members_eq, List.mem_toFinset] at member
    obtain ⟨validator, listed, rfl⟩ := List.mem_map.mp member
    obtain ⟨weight, old, new⟩ := retained validator listed
    refine ⟨ValidatorSet.mem_members_iff.mpr (by simp [old]), ?_⟩
    rw [ValidatorSet.weightOf, ValidatorSet.weightOf, old, new]
  have both : second.toFinset ⊆ current.members :=
    fun addr listed => (kept addr (inside' listed)).1
  have sum : ∑ addr ∈ second.toFinset, target.weightOf addr =
      ∑ addr ∈ second.toFinset, current.weightOf addr :=
    Finset.sum_congr rfl fun addr listed => (kept addr (inside' listed)).2
  rcases overlap with byCount | byWeight
  · have common : ValidatorSet.commonSigners first second ⊆ target.members :=
      fun addr listed => inside' (Finset.mem_inter.mp listed).2
    have sum' : ∑ addr ∈ ValidatorSet.commonSigners first second,
        current.weightOf addr =
          ∑ addr ∈ ValidatorSet.commonSigners first second,
            target.weightOf addr :=
      Finset.sum_congr rfl fun addr listed => (kept addr (common listed)).2.symm
    have many := WeightedQuorum.card_add_card_le inside both
    have few := laid.card_members_le
    rw [sum']
    refine lt_of_lt_of_le byCount (lowestWeight_le laid' common ?_)
    have same : ValidatorSet.commonSigners first second = first.toFinset ∩ second.toFinset := rfl
    rw [same]
    omega
  · have more := WeightedQuorum.sum_add_sum_le
      (fun addr _ => laid.weightOf_nonneg addr) inside both
    have bound := laid.sum_members_le
    rw [sum] at weight'
    unfold ValidatorSet.commonSigners
    omega

end Sets

section Proofs

variable {verify : Bytes → RoundSync → Bool} {chainId : Bytes}
  {height round : Int} {current : ValidatorSet} {proof : List RoundSync}

/-- A sync that the proof of a round may hold. -/
structure Passes (verify : Bytes → RoundSync → Bool) (chainId : Bytes)
    (height round : Int) (current : ValidatorSet) (sync : RoundSync) :
    Prop where
  chainId : sync.chainId = chainId
  height : sync.epochId = height
  round : sync.round = round
  signed : ∃ pubkey, current.pubkeyOfAddr sync.validator = some pubkey ∧ verify pubkey sync = true

/-- Syncs of different validators pass when each does. -/
theorem checkSyncs_of_passes (late : minRound ≤ round) {prior : Option Bytes}
    (distinct : (proof.map RoundSync.validator).Nodup)
    (fresh : ∀ sync ∈ proof, prior ≠ some sync.validator)
    (passes : ∀ sync ∈ proof, Passes verify chainId height round current sync) :
    checkSyncs verify chainId height round current prior proof = .ok () := by
  induction proof generalizing prior with
  | nil => rfl
  | cons sync rest ih =>
    rw [List.map_cons, List.nodup_cons] at distinct
    obtain ⟨pubkey, known, signed⟩ := (passes sync List.mem_cons_self).signed
    unfold checkSyncs
    rw [if_neg (fresh sync List.mem_cons_self),
      if_neg (not_not.mpr (passes sync List.mem_cons_self).chainId),
      if_neg (not_not.mpr (passes sync List.mem_cons_self).height), if_neg (by
        rw [(passes sync List.mem_cons_self).round]
        exact not_or.mpr ⟨not_not.mpr rfl, not_lt.mpr late⟩), known]
    dsimp only
    rw [signed, Bool.not_true, if_neg Bool.false_ne_true]
    apply ih distinct.2
    · intro other listed same
      exact distinct.1 (List.mem_map.mpr ⟨other, listed, (Option.some.inj same).symm⟩)
    · exact fun other listed => passes other (List.mem_cons_of_mem _ listed)

/-- A proof of one round by different members who justify a skip is accepted. -/
theorem checkProof_of_passes (late : minRound ≤ round) (nonempty : proof ≠ [])
    (distinct : (proof.map RoundSync.validator).Nodup)
    (passes : ∀ sync ∈ proof, Passes verify chainId height round current sync)
    (members : ∀ sync ∈ proof, sync.validator ∈ current.members)
    (reached : current.roundSkipReachedAt (QuorumPolicy.forChain chainId) height
      proof.length (proof.map fun sync => current.weightOf sync.validator).sum = true) :
    checkProof verify chainId height current proof =
      .ok (round, sortByKey RoundSync.validator proof) := by
  have perm := sortByKey_perm RoundSync.validator proof
  have unbounded : ∀ sync ∈ sortByKey RoundSync.validator proof, none ≠ some sync.validator :=
    fun _ _ => Option.some_ne_none _ |>.symm
  have sorted := checkSyncs_of_passes late
    ((perm.map RoundSync.validator).nodup_iff.mpr distinct)
    unbounded (fun sync listed => passes sync (mem_sortByKey.mp listed))
  have weighs : current.signedWeight
      ((sortByKey RoundSync.validator proof).map RoundSync.validator) =
        some (proof.map fun sync => current.weightOf sync.validator).sum := by
    rw [ValidatorSet.signedWeight_eq_some_iff,
      List.toFinset_eq_of_perm _ _ (perm.map RoundSync.validator)]
    constructor
    · intro addr listed
      obtain ⟨sync, present, rfl⟩ := List.mem_map.mp (List.mem_toFinset.mp listed)
      exact members sync present
    · rw [List.sum_toFinset _ distinct, List.map_map]
      rfl
  cases proof with
  | nil => exact absurd rfl nonempty
  | cons first rest =>
    have same := (passes first List.mem_cons_self).round
    unfold checkProof
    dsimp only
    rw [same, sorted, weighs]
    dsimp only
    rw [List.length_map, perm.length_eq, if_pos reached]

end Proofs

/-- Members of the same weight. -/
def reliefEntries (members : List UInt8) : List (ValidatorInfo × Int) :=
  members.map fun member => (⟨[member], List.replicate 32 member⟩, 10)

/-- Five members are relieved by four of them. -/
theorem checkSet_sound_five :
    16 < ∑ addr ∈ ValidatorSet.commonSigners [[1], [2], [3], [5]]
        [[2], [3], [4]],
      (buildValidatorSet true (reliefEntries [1, 2, 3, 4, 5])).weightOf addr := by
  have built : makeWeightedValidatorSet (reliefEntries [1, 2, 3, 4, 5]) =
      .ok (buildValidatorSet true (reliefEntries [1, 2, 3, 4, 5])) := by
    decide +kernel
  have built' : makeWeightedValidatorSet (reliefEntries [1, 2, 3, 4]) =
      .ok (buildValidatorSet true (reliefEntries [1, 2, 3, 4])) := by
    decide +kernel
  have faults : (buildValidatorSet true
      (reliefEntries [1, 2, 3, 4, 5])).totalWeight - (buildValidatorSet true
        (reliefEntries [1, 2, 3, 4, 5])).quorumWeight = 16 := by
    decide +kernel
  rw [← faults]
  exact checkSet_sound built built' (by decide +kernel) (by decide +kernel) (by decide +kernel)

end Relief
end LiteNode
