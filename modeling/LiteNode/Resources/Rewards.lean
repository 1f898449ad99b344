import LiteNode.Resources.Attestations

/-!
# Rewards for resources

A budget is shared among attestations by their weights. What the rounding down
leaves is dealt one unit at a time in the order of attestations, and the amounts
of one node are added up.
-/

namespace LiteNode
namespace Resources

abbrev NodeMap := List (Bytes × Int)

namespace NodeMap

def compareNode (left right : Bytes × Int) : Ordering := compareBytes left.1 right.1

def findOpt (node : Bytes) (rewards : NodeMap) : Option Int := rewards.lookup node

def add (node : Bytes) (amount : Int) (rewards : NodeMap) : NodeMap :=
  Ordered.bind compareNode (node, amount) rewards

end NodeMap

def addAmount (nodeId : Bytes) (amount : Int) (rewards : NodeMap) : NodeMap :=
  let previous := (NodeMap.findOpt nodeId rewards).getD 0
  NodeMap.add nodeId (previous + amount) rewards

def sumWeight (attestations : List Attestation) : Int :=
  attestations.foldl (fun total attestation => total + attestation.weight.toInt) 0

def proportionalAmount (budget totalWeight : Int) (weight : Int64) : Int :=
  (budget * weight.toInt).tdiv totalWeight

structure Payout where
  nodeId : Bytes
  amount : Int64
  deriving DecidableEq

/-- One more unit for the nodes of the first attestations. -/
def addRemainder (left : Int) (rewards : NodeMap) : List Attestation → NodeMap
  | [] => rewards
  | attestation :: rest =>
    if left ≤ 0 then rewards
    else addRemainder (left - 1) (addAmount attestation.nodeId 1 rewards) rest

/-- The source raises where an amount does not fit. -/
def toInt64 (n : Int) : Except String Int64 :=
  if -2 ^ 63 ≤ n ∧ n < 2 ^ 63 then .ok (Int64.ofInt n) else .error "Z.Overflow"

def payoutOf (binding : Bytes × Int) : Except String Payout :=
  (toInt64 binding.2).map fun amount => { nodeId := binding.1, amount }

def distributeResourceRewards (budget : Int64)
    (attestations : List Attestation) : Except String (List Payout) :=
  let attestations := attestations.filter isWellFormed
  let totalWeight := sumWeight attestations
  if budget ≤ 0 ∨ totalWeight ≤ 0 then .ok []
  else
    let budget := budget.toInt
    let rewards := attestations.foldl (fun rewards attestation =>
      addAmount attestation.nodeId
        (proportionalAmount budget totalWeight attestation.weight) rewards) []
    let spent := rewards.foldl (fun total binding => binding.2 + total) 0
    let remainder := budget - spent
    (addRemainder remainder rewards (Ordered.sort compareAttestation attestations)).mapM payoutOf

/-- Add up some amounts by node. -/
def tally (rewards : NodeMap) (credits : List (Bytes × Int)) : NodeMap :=
  credits.foldl (fun rewards credit => addAmount credit.1 credit.2 rewards) rewards

/-- What some credits give a node. -/
def creditOf (node : Bytes) (credits : List (Bytes × Int)) : Int :=
  ((credits.filter fun credit => credit.1 = node).map Prod.snd).sum

def NodeMap.Sorted (rewards : NodeMap) : Prop := Ordered.Increasing Prod.fst rewards

theorem byKey_compareNode : Ordered.ByKey NodeMap.compareNode Prod.fst :=
  Ordered.byKey_compareBytes Prod.fst

variable {rewards : NodeMap} {node other : Bytes} {amount : Int}

theorem findOpt_eq_some_iff (sorted : rewards.Sorted) :
    NodeMap.findOpt node rewards = some amount ↔ (node, amount) ∈ rewards := by
  induction rewards with
  | nil => simp [NodeMap.findOpt]
  | cons first rest ih =>
    obtain ⟨least, later⟩ := List.pairwise_cons.mp sorted
    obtain ⟨key, held⟩ := first
    rw [NodeMap.findOpt, List.lookup_cons, List.mem_cons, Prod.mk.injEq]
    by_cases same : node = key
    · subst same
      have notLater : (node, amount) ∉ rest := by
        intro listed
        exact absurd (least (node, amount) listed) (lt_irrefl node)
      simp [notLater, eq_comm]
    · rw [beq_eq_false_iff_ne.mpr same]
      simp only [same, false_and, false_or]
      exact ih later

theorem findOpt_eq_none (sorted : rewards.Sorted) (absent : ∀ amount, (node, amount) ∉ rewards) :
    NodeMap.findOpt node rewards = none := by
  cases found : NodeMap.findOpt node rewards with
  | none => rfl
  | some amount => exact absurd ((findOpt_eq_some_iff sorted).mp found) (absent _)

theorem sorted_addAmount (sorted : rewards.Sorted) : (addAmount node amount rewards).Sorted :=
  Ordered.increasing_bind byKey_compareNode sorted

theorem findOpt_addAmount (sorted : rewards.Sorted) :
    NodeMap.findOpt other (addAmount node amount rewards) =
      if other = node then some ((NodeMap.findOpt node rewards).getD 0 + amount)
      else NodeMap.findOpt other rewards := by
  apply Option.ext
  intro value
  rw [findOpt_eq_some_iff (sorted_addAmount sorted), addAmount, NodeMap.add,
    Ordered.mem_bind byKey_compareNode sorted]
  split
  · next same => simp [same, eq_comm]
  · next apart => simp [apart, findOpt_eq_some_iff sorted]

theorem sorted_tally (sorted : rewards.Sorted) (credits : List (Bytes × Int)) :
    (tally rewards credits).Sorted := by
  induction credits generalizing rewards with
  | nil => exact sorted
  | cons credit rest ih => exact ih (sorted_addAmount sorted)

theorem creditOf_cons (credit : Bytes × Int) (credits : List (Bytes × Int)) :
    creditOf node (credit :: credits) =
      (if credit.1 = node then credit.2 else 0) + creditOf node credits := by
  unfold creditOf
  by_cases same : credit.1 = node <;> simp [same]

theorem findOpt_tally (sorted : rewards.Sorted) (credits : List (Bytes × Int)) :
    NodeMap.findOpt node (tally rewards credits) =
      if node ∈ credits.map Prod.fst then
        some ((NodeMap.findOpt node rewards).getD 0 + creditOf node credits)
      else NodeMap.findOpt node rewards := by
  induction credits generalizing rewards with
  | nil => rfl
  | cons credit rest ih =>
    have later := ih (@sorted_addAmount _ credit.1 credit.2 sorted)
    rw [findOpt_addAmount sorted] at later
    simp only [creditOf_cons, List.map_cons, List.mem_cons]
    refine later.trans ?_
    by_cases same : node = credit.1
    · subst same
      by_cases listed : credit.1 ∈ rest.map Prod.fst
      · simp [listed, add_assoc]
      · have none_later : creditOf credit.1 rest = 0 := by
          rw [creditOf, List.filter_eq_nil_iff.mpr]
          · rfl
          · intro other kept
            have apart : other.1 ≠ credit.1 := fun equal =>
              listed (List.mem_map.mpr ⟨other, kept, equal⟩)
            simpa using apart
        simp [listed, none_later]
    · by_cases listed : node ∈ rest.map Prod.fst <;> simp [same, Ne.symm same, listed]

/-- A tally lists what its credits give each node, in the order of the nodes. -/
theorem mem_tally_nil (credits : List (Bytes × Int)) :
    (node, amount) ∈ tally [] credits ↔
      node ∈ credits.map Prod.fst ∧ amount = creditOf node credits := by
  have empty : NodeMap.Sorted [] := List.Pairwise.nil
  rw [← findOpt_eq_some_iff (sorted_tally empty credits), findOpt_tally empty credits]
  split
  · next listed => simp [listed, NodeMap.findOpt, eq_comm]
  · next absent => simp [absent, NodeMap.findOpt]

theorem creditOf_eq_of_perm {credits credits' : List (Bytes × Int)} (perm : credits.Perm credits') :
    creditOf node credits = creditOf node credits' :=
  ((perm.filter _).map _).sum_eq

theorem eq_of_sorted {left right : NodeMap} (sorted : left.Sorted)
    (sorted' : right.Sorted) (same : ∀ binding, binding ∈ left ↔ binding ∈ right) :
    left = right := by
  have perm : left.Perm right := by
    rw [List.perm_ext_iff_of_nodup]
    · exact same
    · exact sorted.imp fun below equal => below.ne (congrArg Prod.fst equal)
    · exact sorted'.imp fun below equal => below.ne (congrArg Prod.fst equal)
  apply List.Perm.eq_of_pairwise _ sorted sorted' perm
  intro _ _ _ _ below above
  exact absurd below above.asymm

theorem tally_eq_of_perm {credits credits' : List (Bytes × Int)}
    (perm : credits.Perm credits') : tally [] credits = tally [] credits' := by
  apply eq_of_sorted (sorted_tally List.Pairwise.nil _) (sorted_tally List.Pairwise.nil _)
  intro binding
  rw [mem_tally_nil, mem_tally_nil, creditOf_eq_of_perm perm, (perm.map Prod.fst).mem_iff]

/-- Sum of the amounts of all nodes. -/
def totalOf (rewards : NodeMap) : Int := (rewards.map Prod.snd).sum

theorem foldl_spent (rewards : NodeMap) (start : Int) :
    rewards.foldl (fun total binding => binding.2 + total) start = start + totalOf rewards := by
  induction rewards generalizing start with
  | nil => simp [totalOf]
  | cons first rest ih =>
    rw [List.foldl_cons, ih, totalOf, totalOf, List.map_cons, List.sum_cons]
    ring

theorem totalOf_add (sorted : rewards.Sorted) :
    totalOf (NodeMap.add node amount rewards) =
      totalOf rewards - (NodeMap.findOpt node rewards).getD 0 + amount := by
  induction rewards with
  | nil => simp [NodeMap.add, Ordered.bind, totalOf, NodeMap.findOpt]
  | cons first rest ih =>
    obtain ⟨least, later⟩ := List.pairwise_cons.mp sorted
    have others := ih later
    rw [NodeMap.add] at others ⊢
    rw [Ordered.bind]
    split
    · next below =>
        rw [byKey_compareNode.lt_iff] at below
        have absent : NodeMap.findOpt node (first :: rest) = none := by
          apply findOpt_eq_none sorted
          intro held listed
          rcases List.mem_cons.mp listed with rfl | listed
          · exact absurd below (lt_irrefl _)
          · exact absurd (below.trans (least _ listed)) (lt_irrefl _)
        rw [absent]
        simp [totalOf]
        ring
    · next same =>
        rw [byKey_compareNode.eq_iff] at same
        have found : NodeMap.findOpt node (first :: rest) = some first.2 := by
          apply (findOpt_eq_some_iff sorted).mpr
          rw [List.mem_cons]
          exact Or.inl (Prod.ext same rfl)
        rw [found]
        simp [totalOf, add_comm]
    · next above =>
        have apart : node ≠ first.1 := by
          intro same
          rw [(byKey_compareNode.eq_iff _ _).mpr same] at above
          cases above
        have skipped : NodeMap.findOpt node (first :: rest) = NodeMap.findOpt node rest := by
          rw [NodeMap.findOpt, List.lookup_cons, beq_eq_false_iff_ne.mpr apart]
          rfl
        rw [skipped]
        unfold totalOf at others ⊢
        rw [List.map_cons, List.sum_cons, List.map_cons, List.sum_cons, others]
        ring

theorem totalOf_tally (sorted : rewards.Sorted) (credits : List (Bytes × Int)) :
    totalOf (tally rewards credits) = totalOf rewards + (credits.map Prod.snd).sum := by
  induction credits generalizing rewards with
  | nil => simp [tally]
  | cons credit rest ih =>
    have later := ih (@sorted_addAmount _ credit.1 credit.2 sorted)
    rw [addAmount, totalOf_add sorted] at later
    rw [List.map_cons, List.sum_cons]
    refine later.trans ?_
    ring

section Shares

variable {budget total : Int}

theorem sumWeight_eq (attestations : List Attestation) :
    sumWeight attestations =
      (attestations.map fun attestation => attestation.weight.toInt).sum := by
  have summed : ∀ start, attestations.foldl
      (fun total attestation => total + attestation.weight.toInt) start =
      start + (attestations.map fun attestation => attestation.weight.toInt).sum := by
    induction attestations with
    | nil => simp
    | cons first rest ih =>
      intro start
      rw [List.foldl_cons, ih, List.map_cons, List.sum_cons]
      ring
  rw [sumWeight, summed, zero_add]

theorem proportionalAmount_bounds (nonneg : 0 ≤ budget) (positive : 0 < total)
    {weight : Int64} (weighs : 0 ≤ weight.toInt) :
    0 ≤ proportionalAmount budget total weight ∧
      total * proportionalAmount budget total weight ≤ budget * weight.toInt ∧
      budget * weight.toInt < total * (proportionalAmount budget total weight + 1) := by
  have product : 0 ≤ budget * weight.toInt := mul_nonneg nonneg weighs
  rw [proportionalAmount, Int.tdiv_eq_ediv_of_nonneg product]
  refine ⟨Int.ediv_nonneg product positive.le, Int.mul_ediv_self_le positive.ne', ?_⟩
  rw [mul_add, mul_one]
  exact Int.lt_mul_ediv_self_add positive

/-- What is rounded down of some shares. -/
theorem sum_proportionalAmount_bounds (nonneg : 0 ≤ budget)
    (positive : 0 < total) (attestations : List Attestation)
    (weigh : ∀ attestation ∈ attestations, 0 ≤ attestation.weight.toInt) :
    let shares := (attestations.map fun attestation =>
      proportionalAmount budget total attestation.weight).sum
    0 ≤ shares ∧ total * shares ≤ budget * sumWeight attestations ∧
      budget * sumWeight attestations ≤ total * (shares + attestations.length) := by
  rw [sumWeight_eq]
  induction attestations with
  | nil => simp
  | cons first rest ih =>
    obtain ⟨some_share, below, above⟩ := ih
      fun attestation listed => weigh attestation (List.mem_cons_of_mem _ listed)
    obtain ⟨least, low, high⟩ := proportionalAmount_bounds nonneg positive
      (weigh first List.mem_cons_self)
    simp only [List.map_cons, List.sum_cons, List.length_cons, Nat.cast_add,
      Nat.cast_one, mul_add, mul_one] at below above low high ⊢
    refine ⟨add_nonneg least some_share, ?_, ?_⟩
    · linarith
    · linarith

/-- Less is left than there are attestations. -/
theorem remainder_bounds (nonneg : 0 ≤ budget) {attestations : List Attestation}
    (weigh : ∀ attestation ∈ attestations, 0 < attestation.weight.toInt)
    (positive : 0 < sumWeight attestations) :
    let left := budget - (attestations.map fun attestation =>
      proportionalAmount budget (sumWeight attestations) attestation.weight).sum
    0 ≤ left ∧ left ≤ attestations.length := by
  obtain ⟨_, below, above⟩ := sum_proportionalAmount_bounds nonneg positive
    attestations fun attestation listed => (weigh attestation listed).le
  rw [mul_comm budget] at below above
  have low := le_of_mul_le_mul_left below positive
  have high := le_of_mul_le_mul_left above positive
  constructor <;> omega

/-- A node's part of the budget, without rounding. -/
def exactShare (budget total : Int) (attestations : List Attestation) : ℚ :=
  (attestations.map fun attestation => (budget * attestation.weight.toInt : ℚ) / total).sum

theorem exactShare_eq (budget total : Int) (attestations : List Attestation) :
    exactShare budget total attestations = (budget * sumWeight attestations : ℚ) / total := by
  rw [exactShare, sumWeight_eq]
  induction attestations with
  | nil => simp
  | cons first rest ih =>
    rw [List.map_cons, List.sum_cons, ih, List.map_cons, List.sum_cons]
    push_cast
    ring

theorem exactShare_bounds (nonneg : 0 ≤ budget) (positive : 0 < total)
    (attestations : List Attestation)
    (weigh : ∀ attestation ∈ attestations, 0 ≤ attestation.weight.toInt) :
    let shares := (attestations.map fun attestation =>
      proportionalAmount budget total attestation.weight).sum
    (shares : ℚ) ≤ exactShare budget total attestations ∧
      exactShare budget total attestations ≤ shares + attestations.length := by
  obtain ⟨_, below, above⟩ := sum_proportionalAmount_bounds nonneg positive attestations weigh
  have positive : (0 : ℚ) < total := by exact_mod_cast positive
  dsimp only at below above ⊢
  rw [exactShare_eq, le_div_iff₀ positive, div_le_iff₀ positive]
  rw [mul_comm _ (total : ℚ), mul_comm _ (total : ℚ)]
  exact ⟨by exact_mod_cast below, by exact_mod_cast above⟩

end Shares

/-! ## What is distributed -/

/-- Amounts that are dealt to attestations in some order. -/
def dealt (amount : Attestation → Int) (attestations : List Attestation) : List (Bytes × Int) :=
  attestations.map fun attestation => (attestation.nodeId, amount attestation)

theorem addRemainder_eq_tally (left : Int) (rewards : NodeMap) (attestations : List Attestation) :
    addRemainder left rewards attestations =
      tally rewards (dealt (fun _ => 1) (attestations.take left.toNat)) := by
  induction attestations generalizing left rewards with
  | nil => simp [addRemainder, dealt, tally]
  | cons first rest ih =>
    rw [addRemainder]
    split
    · next spent =>
        rw [Int.toNat_of_nonpos spent]
        rfl
    · next more =>
        obtain ⟨n, rfl⟩ := Int.eq_ofNat_of_zero_le (not_le.mp more).le
        cases n with
        | zero => exact absurd le_rfl more
        | succ n =>
          rw [ih]
          simp [dealt, tally]

/-- The credits of a distribution: the rounded shares, then the units that they
leave. -/
def creditsOf (budget : Int) (attestations : List Attestation) : List (Bytes × Int) :=
  let share := fun attestation : Attestation =>
    proportionalAmount budget (sumWeight attestations) attestation.weight
  dealt share attestations ++
    dealt (fun _ => 1)
      ((Ordered.sort compareAttestation attestations).take
        (budget - (attestations.map share).sum).toNat)

theorem distribute_eq {budget : Int64} {attestations : List Attestation}
    (positive : 0 < budget.toInt) (weighty : 0 < sumWeight (attestations.filter isWellFormed)) :
    distributeResourceRewards budget attestations =
      (tally [] (creditsOf budget.toInt (attestations.filter isWellFormed))).mapM payoutOf := by
  have open_budget : ¬ (budget ≤ 0 ∨ sumWeight (attestations.filter isWellFormed) ≤ 0) := by
    rw [Int64.le_iff_toInt_le, Int64.toInt_zero]
    omega
  have shared : ∀ share : Attestation → Int, ∀ listed : List Attestation,
      listed.foldl (fun rewards attestation =>
        addAmount attestation.nodeId (share attestation) rewards) [] =
      tally [] (dealt share listed) := by
    intro share listed
    rw [tally, dealt, List.foldl_map]
  unfold distributeResourceRewards
  dsimp only
  rw [if_neg open_budget, addRemainder_eq_tally, foldl_spent,
    shared fun attestation => proportionalAmount budget.toInt
      (sumWeight (attestations.filter isWellFormed)) attestation.weight,
    totalOf_tally List.Pairwise.nil]
  unfold creditsOf tally
  rw [List.foldl_append]
  simp [dealt, totalOf, Function.comp_def]

theorem weight_pos {attestation : Attestation}
    (formed : isWellFormed attestation) : 0 < attestation.weight.toInt := by
  simp only [isWellFormed, Bool.and_eq_true, decide_eq_true_eq] at formed
  have weighs := formed.1.1.1.2
  rwa [Int64.lt_iff_toInt_lt, Int64.toInt_zero] at weighs

theorem sumWeight_pos {attestations : List Attestation}
    (weigh : ∀ attestation ∈ attestations, 0 < attestation.weight.toInt)
    (occupied : attestations ≠ []) : 0 < sumWeight attestations := by
  rw [sumWeight_eq]
  apply List.sum_pos
  · intro weight listed
    obtain ⟨attestation, present, rfl⟩ := List.mem_map.mp listed
    exact weigh attestation present
  · simpa using occupied

theorem creditOf_append (first second : List (Bytes × Int)) :
    creditOf node (first ++ second) = creditOf node first + creditOf node second := by
  simp [creditOf]

def ofNode (node : Bytes) (attestations : List Attestation) : List Attestation :=
  attestations.filter fun attestation => attestation.nodeId = node

theorem creditOf_dealt (amount : Attestation → Int) (attestations : List Attestation) :
    creditOf node (dealt amount attestations) = ((ofNode node attestations).map amount).sum := by
  simp [creditOf, dealt, ofNode, List.filter_map, Function.comp_def]

variable {budget : Int} {attestations : List Attestation}

/-- A node gets its rounded shares and at most one more unit for each of its
attestations. -/
theorem creditOf_creditsOf :
    let shares := ((ofNode node attestations).map fun attestation =>
      proportionalAmount budget (sumWeight attestations) attestation.weight).sum
    shares ≤ creditOf node (creditsOf budget attestations) ∧
      creditOf node (creditsOf budget attestations) ≤
        shares + (ofNode node attestations).length := by
  rw [creditsOf, creditOf_append, creditOf_dealt, creditOf_dealt]
  have sublist :
      (ofNode node ((Ordered.sort compareAttestation attestations).take
        (budget - (attestations.map fun attestation =>
          proportionalAmount budget (sumWeight attestations)
            attestation.weight).sum).toNat)).length ≤
      (ofNode node attestations).length := by
    refine ((List.take_sublist _ _).filter _).length_le.trans ?_
    exact ((Ordered.sort_perm _ _).filter _).length_eq.le
  simp only [List.map_const', List.sum_replicate, nsmul_eq_mul, mul_one]
  omega

/-- The shares and the units that they leave are the whole budget. -/
theorem sum_creditsOf (nonneg : 0 ≤ budget)
    (weigh : ∀ attestation ∈ attestations, 0 < attestation.weight.toInt)
    (positive : 0 < sumWeight attestations) :
    ((creditsOf budget attestations).map Prod.snd).sum = budget := by
  obtain ⟨low, high⟩ := remainder_bounds nonneg weigh positive
  have count := (Ordered.sort_perm compareAttestation attestations).length_eq
  simp only [creditsOf, dealt, List.map_append, List.map_map,
    Function.comp_def, List.sum_append, List.map_const', List.sum_replicate,
    List.length_take, count, nsmul_eq_mul, mul_one]
  rw [Nat.min_eq_left (by omega), Int.toNat_of_nonneg low]
  ring

theorem mem_nodes_creditsOf :
    node ∈ (creditsOf budget attestations).map Prod.fst ↔
      ∃ attestation ∈ attestations, attestation.nodeId = node := by
  simp only [creditsOf, dealt, List.map_append, List.map_map,
    Function.comp_def, List.mem_append, List.mem_map]
  constructor
  · rintro (listed | ⟨attestation, taken, same⟩)
    · exact listed
    · exact ⟨attestation, Ordered.mem_sort.mp (List.mem_of_mem_take taken), same⟩
  · exact Or.inl

/-- The credits are the same whatever the order of the attestations. -/
theorem tally_creditsOf_eq_of_perm {others : List Attestation} (perm : attestations.Perm others) :
    tally [] (creditsOf budget attestations) = tally [] (creditsOf budget others) := by
  have weight : sumWeight attestations = sumWeight others := by
    rw [sumWeight_eq, sumWeight_eq, (perm.map _).sum_eq]
  have nodes := @map_sort_eq_of_perm _ _ _ perm Attestation.nodeId
    fun left _ right _ same => congrArg Rank.nodeId same
  have units : ∀ n, dealt (fun _ => 1) ((Ordered.sort compareAttestation attestations).take n) =
      dealt (fun _ => 1) ((Ordered.sort compareAttestation others).take n) := by
    intro n
    have taken := congrArg (List.map fun node => (node, (1 : Int))) (congrArg (List.take n) nodes)
    simpa [dealt, List.map_take, Function.comp_def] using taken
  apply tally_eq_of_perm
  unfold creditsOf
  dsimp only
  rw [weight, units, ((perm.map _).sum_eq)]
  exact (perm.map _).append_right _

theorem mapM_payoutOf {rewards : NodeMap}
    (fit : ∀ binding ∈ rewards, -2 ^ 63 ≤ binding.2 ∧ binding.2 < 2 ^ 63) :
    rewards.mapM payoutOf =
      .ok (rewards.map fun binding => ⟨binding.1, Int64.ofInt binding.2⟩) := by
  induction rewards with
  | nil => rfl
  | cons first rest ih =>
    have others := ih fun binding listed => fit binding (List.mem_cons_of_mem _ listed)
    rw [List.mapM_cons, others, payoutOf, toInt64, if_pos (fit first List.mem_cons_self)]
    rfl

theorem nodup_of_increasing {rewards : NodeMap} (sorted : rewards.Sorted) :
    (rewards.map Prod.fst).Pairwise (· < ·) :=
  List.pairwise_map.mpr sorted

/-- The whole budget is shared: each node of a well-formed attestation has one
entry, in the order of the nodes, that is its exact share up to one unit for each
of its attestations, whatever the order of the attestations. -/
theorem resource_rewards_shared
    (budget : Int64) (attestations : List Attestation)
    (positive : 0 < budget)
    (formed : ∃ attestation ∈ attestations, isWellFormed attestation) :
    ∃ payouts,
      distributeResourceRewards budget attestations = .ok payouts ∧
      (payouts.map Payout.nodeId).Pairwise (· < ·) ∧
      (∀ node, node ∈ payouts.map Payout.nodeId ↔
        ∃ attestation ∈ attestations,
          isWellFormed attestation ∧ attestation.nodeId = node) ∧
      (∀ payout ∈ payouts, 0 ≤ payout.amount.toInt) ∧
      (payouts.map fun payout => payout.amount.toInt).sum = budget.toInt ∧
      (∀ payout ∈ payouts,
        let own := ofNode payout.nodeId (attestations.filter isWellFormed)
        |(payout.amount.toInt : ℚ) -
            exactShare budget.toInt (sumWeight (attestations.filter isWellFormed)) own| ≤
          own.length) ∧
      ∀ others, attestations.Perm others →
        distributeResourceRewards budget others = .ok payouts := by
  have positive : 0 < budget.toInt := by rwa [Int64.lt_iff_toInt_lt, Int64.toInt_zero] at positive
  have weigh : ∀ attestation ∈ attestations.filter isWellFormed,
      0 < attestation.weight.toInt := fun attestation listed =>
    weight_pos (List.mem_filter.mp listed).2
  have weighty : 0 < sumWeight (attestations.filter isWellFormed) := by
    obtain ⟨attestation, listed, shaped⟩ := formed
    exact sumWeight_pos weigh (List.ne_nil_of_mem (List.mem_filter.mpr ⟨listed, shaped⟩))
  let rewards := tally [] (creditsOf budget.toInt (attestations.filter isWellFormed))
  have sorted : rewards.Sorted := sorted_tally List.Pairwise.nil _
  have whole : totalOf rewards = budget.toInt := by
    rw [totalOf_tally List.Pairwise.nil, sum_creditsOf positive.le weigh weighty]
    exact zero_add _
  have bounds : ∀ binding ∈ rewards,
      let own := ofNode binding.1 (attestations.filter isWellFormed)
      let shares := (own.map fun attestation => proportionalAmount budget.toInt
        (sumWeight (attestations.filter isWellFormed)) attestation.weight).sum
      0 ≤ shares ∧ shares ≤ binding.2 ∧ binding.2 ≤ shares + own.length := by
    intro binding listed
    obtain ⟨_, same⟩ := (mem_tally_nil _).mp listed
    obtain ⟨low, high⟩ := @creditOf_creditsOf binding.1
      budget.toInt (attestations.filter isWellFormed)
    obtain ⟨least, _⟩ := sum_proportionalAmount_bounds positive.le weighty
      (ofNode binding.1 (attestations.filter isWellFormed))
      fun attestation listed => (weigh attestation (List.mem_of_mem_filter listed)).le
    rw [← same] at low high
    exact ⟨least, low, high⟩
  have nonneg : ∀ binding ∈ rewards, 0 ≤ binding.2 := fun binding listed =>
    (bounds binding listed).1.trans (bounds binding listed).2.1
  have fit : ∀ binding ∈ rewards, -2 ^ 63 ≤ binding.2 ∧ binding.2 < 2 ^ 63 := by
    intro binding listed
    have below : binding.2 ≤ totalOf rewards := by
      apply List.single_le_sum
      · intro amount present
        obtain ⟨other, kept, rfl⟩ := List.mem_map.mp present
        exact nonneg other kept
      · exact List.mem_map_of_mem listed
    have least := nonneg binding listed
    have most := budget.toInt_lt
    rw [whole] at below
    constructor <;> omega
  have amounts : ∀ binding ∈ rewards,
      (Int64.ofInt binding.2).toInt = binding.2 := fun binding listed =>
    Int64.toInt_ofInt_of_le (fit binding listed).1 (fit binding listed).2
  refine ⟨rewards.map fun binding => ⟨binding.1, Int64.ofInt binding.2⟩,
    ?_, ?_, ?_, ?_, ?_, ?_, ?_⟩
  · rw [distribute_eq positive weighty, mapM_payoutOf fit]
  · rw [List.map_map]
    exact nodup_of_increasing sorted
  · intro node
    rw [List.map_map, List.mem_map]
    constructor
    · rintro ⟨binding, listed, rfl⟩
      obtain ⟨known, _⟩ := (mem_tally_nil _).mp listed
      obtain ⟨attestation, present, same⟩ := mem_nodes_creditsOf.mp known
      obtain ⟨present, shaped⟩ := List.mem_filter.mp present
      exact ⟨attestation, present, shaped, same⟩
    · rintro ⟨attestation, present, shaped, rfl⟩
      refine ⟨(attestation.nodeId, _), (mem_tally_nil _).mpr ⟨?_, rfl⟩, rfl⟩
      exact mem_nodes_creditsOf.mpr ⟨attestation, List.mem_filter.mpr ⟨present, shaped⟩, rfl⟩
  · intro payout listed
    obtain ⟨binding, present, rfl⟩ := List.mem_map.mp listed
    rw [amounts binding present]
    exact nonneg binding present
  · rw [List.map_map, ← whole, totalOf]
    exact congrArg List.sum (List.map_congr_left amounts)
  · intro payout listed
    obtain ⟨binding, present, rfl⟩ := List.mem_map.mp listed
    obtain ⟨_, low, high⟩ := bounds binding present
    obtain ⟨below, above⟩ := exactShare_bounds positive.le weighty
      (ofNode binding.1 (attestations.filter isWellFormed))
      fun attestation listed => (weigh attestation (List.mem_of_mem_filter listed)).le
    dsimp only at low high below above ⊢
    rw [amounts binding present, abs_le]
    have low : ((_ : Int) : ℚ) ≤ binding.2 := Int.cast_le.mpr low
    have high : (binding.2 : ℚ) ≤ ((_ : Int) : ℚ) := Int.cast_le.mpr high
    push_cast at low high below above
    constructor <;> linarith
  · intro others perm
    have weighty' : 0 < sumWeight (others.filter isWellFormed) := by
      rwa [sumWeight_eq, ← ((perm.filter _).map _).sum_eq, ← sumWeight_eq]
    rw [distribute_eq positive weighty',
      ← tally_creditsOf_eq_of_perm (perm.filter _), mapM_payoutOf fit]

theorem resource_rewards_shared_oneNode :
    ∃ payouts,
      distributeResourceRewards 10 [attestationOf 5 1, attestationOf 7 2] = .ok payouts ∧
        (payouts.map fun payout => payout.amount.toInt).sum = 10 := by
  obtain ⟨payouts, done, _, _, _, whole, _⟩ :=
    resource_rewards_shared 10 [attestationOf 5 1, attestationOf 7 2] (by decide)
      ⟨attestationOf 5 1, List.mem_cons_self, by decide⟩
  exact ⟨payouts, done, whole⟩

end Resources
end LiteNode
