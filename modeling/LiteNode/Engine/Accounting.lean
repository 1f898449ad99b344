import LiteNode.Engine.Agreement
import LiteNode.Engine.Tallies

/-!
# Accounts of reachable engines

In every engine that a run reaches the vote sets are consistent, hold votes of
their own round, height and type, and give one answer on which proposal id has
a quorum. The source votes are not counted again when the set changes, so this
asks for one source set in each height.
-/

namespace LiteNode

/-- Assumptions that admit every input but some validator sets. -/
def Inputs.following (ext : Externals) (source : SourceWeights) : Inputs where
  vote _ := True
  signed _ := True
  author _ _ := True
  restored _ := True
  polc _ _ := True
  finalize _ _ := True
  height _ _ := True
  replace c vs := vs.Sound ∧ c.Follows ext source vs
  reconfigure c vs := vs.Sound ∧ c.Follows ext source vs

namespace Engine

variable {ext : Externals} {source : SourceWeights} {t t' : Engine}

/-- Calls under which the accounts are kept: sets are sound and complete to the
source set of their height, a restored proposal has a round, and votes handed over for the
history are prevotes of the height. -/
def KeepsAccounts (ext : Externals) (source : SourceWeights) (t : Engine) : Operation → Prop
  | .replaceValidatorSet vs => vs.Sound ∧ t.view.Follows ext source vs
  | .reconfigureValidatorSet _ vs => vs.Sound ∧ t.view.Follows ext source vs
  | .restorePrecommitLock p => 0 ≤ p.round
  | .recordHistoricalPrevote vote => vote.epochId = t.state.height ∧ vote.voteType = .prevote
  | _ => True

theorem admits_of_keepsAccounts {operation : Operation}
    (keeps : KeepsAccounts ext source t operation) :
    (Inputs.following ext source).Admits ext t operation := by
  cases operation with
  | restorePrecommitLock p => exact ⟨trivial, trivial, trivial, keeps⟩
  | replaceValidatorSet vs => exact keeps
  | reconfigureValidatorSet round vs => exact keeps
  | recordHistoricalPrevote vote => exact ⟨trivial, keeps⟩
  | _ => simp [Inputs.Admits, Inputs.Signs, Inputs.following]

/-- The functions that read a quorum off a vote set agree. -/
structure Decided
    (policy : QuorumPolicy) (height : Int) (set : ValidatorSet)
    (votes : VoteSet) : Prop where
  quorumPid : ∀ pid, VoteSet.quorumPid policy height set votes = some pid ↔
    pid ≠ nilHash ∧ VoteSet.quorumResult policy votes height set = .quorumOf pid
  addVote : ∀ (vote : Vote) pid, vote.epochId = height →
    ((votes.addVote policy vote set).2 = .quorumOf pid ↔
      pid = vote.proposalId ∧ votes.votes.mem vote.validator = false ∧
        (set.weightOfAddr vote.validator).isSome ∧
        VoteSet.quorumResult policy (votes.addVote policy vote set).1 height set = .quorumOf pid)

/-- The vote sets of an engine are in order. -/
structure Accounts (source : SourceWeights) (t : Engine) : Prop where
  prevotes : t.prevotesByRound.find? t.state.round = some t.prevotes
  precommits : t.precommitsByRound.find? t.state.round = some t.precommits
  consistent : ∀ kind round ref (set : ValidatorSet), (t.table kind).find? round = some ref →
    set.weights = t.view.tableWeights source kind → (t.cells.read ref).Consistent set
  filed : ∀ kind round ref addr vote, (t.table kind).find? round = some ref →
    (t.cells.read ref).votes.find? addr = some vote →
    vote.round = round ∧ vote.epochId = t.state.height ∧ vote.voteType = kind.voteType
  decided : ∀ kind round ref set, (t.table kind).find? round = some ref →
    t.view.countingSet kind = some set → Decided t.policy t.state.height set (t.cells.read ref)

variable {set : ValidatorSet}

theorem decided_of_consistent {policy : QuorumPolicy} {height : Int}
    {votes : VoteSet} (consistent : votes.Consistent set) (sound : set.Sound) :
    Decided policy height set votes where
  quorumPid _ := consistent.quorumPid_iff sound
  addVote vote pid epoch := by
    rw [← epoch]
    exact consistent.addVote_iff sound

/-- The set that counts a table has the table's weights, and is sound. -/
theorem countingSet_spec {kind : TableKind} (sound : t.vs.Sound) (tallied : t.view.Tallied source)
    (counting : t.view.countingSet kind = some set) :
    set.Sound ∧ set.weights = t.view.tableWeights source kind := by
  cases kind with
  | prevote | precommit => cases counting; exact ⟨sound, rfl⟩
  | source =>
    refine ⟨?_, tallied.derives _ set counting⟩
    obtain ⟨valid, rfl⟩ := ValidatorSet.sourceSet_eq_some counting
    exact ValidatorSet.sound_build valid.weight_pos true

theorem accounts_of_tallied (fit : t.Fit) (sound : t.vs.Sound)
    (tallied : t.view.Tallied source) : t.Accounts source where
  prevotes := fit.prevotes
  precommits := fit.precommits
  consistent kind round ref set stored weights :=
    (tallied.tally kind round _ (EngineData.votesAt_eq stored)).consistent set weights
  filed kind round ref addr vote stored found :=
    (tallied.tally kind round _ (EngineData.votesAt_eq stored)).filed addr vote found
  decided kind round ref set stored counting := by
    obtain ⟨sound, weights⟩ := countingSet_spec sound tallied counting
    exact decided_of_consistent ((tallied.tally kind round _
      (EngineData.votesAt_eq stored)).consistent set weights) sound

/-- Every engine that a run reaches from a new one has its accounts in
order. -/
theorem accounts_of_reaches {policy : QuorumPolicy} {chainId myAddr : Bytes} {vs : ValidatorSet}
    {start : Int} {canVote : Bool} (sound : vs.Sound) (derives : vs.Derives source chainId)
    (reaches : Reaches ext (KeepsAccounts ext source)
      (createForPolicy policy chainId myAddr vs start canVote) t) :
    t.Accounts source := by
  have fit := fit_createForPolicy policy chainId myAddr vs start canVote
  have evolves : Evolves ext (.following ext source) _ t :=
    evolves_of_reaches (fun _ _ _ => admits_of_keepsAccounts) fit reaches
  obtain ⟨sound', tallied⟩ := moves_invariant
    (fun c => c.vs.Sound ∧ c.toView.Tallied source)
    evolves.moves ⟨sound, tallied_createForPolicy derives⟩
    fun _ _ kept move =>
      ⟨Core.set_move (fun _ _ given => given.elim And.left And.left) kept.1 move,
        Core.tallied_move (fun _ given => given.elim And.right And.right) kept.2 move⟩
  exact accounts_of_tallied evolves.fit sound' tallied

/-- Height at which votes are weighed by stake. -/
def stakeHeight : Int := 1737333

/-- Set whose extra author is member three. -/
def extended (vs : ValidatorSet) : ValidatorSet :=
  { vs with authors := some (stakeHeight, [(ValidatorInfo.plain 3, 1)]) }

/-- A vote, a set with an extra author, a second vote, and another set. -/
def extendedRun (last : ValidatorSet) : List Operation :=
  [.onVote (.plain QuorumPolicy.devnetChainId stakeHeight 0 .prevote [7] 1) id,
    .replaceValidatorSet (extended (.plain [(1, 3), (2, 3)])),
    .onVote (.plain QuorumPolicy.devnetChainId stakeHeight 0 .prevote [7] 2) id,
    .replaceValidatorSet last]

/-- Member nine's engine in a set of members one and two. -/
def extendedStart : Engine :=
  create QuorumPolicy.devnetChainId [9] (.plain [(1, 3), (2, 3)]) stakeHeight true

theorem sound_plain {entries : List (UInt8 × Int)} (positive : ∀ entry ∈ entries, 0 < entry.2) :
    (ValidatorSet.plain entries).Sound := by
  refine ValidatorSet.sound_build ?_ true
  intro entry present
  obtain ⟨source, listed, rfl⟩ := List.mem_map.mp present
  exact positive source listed

/-- Source votes of one height may be weighed by one set only. -/
theorem derives_extended {vs : ValidatorSet}
    (found : (extended vs).sourceSet QuorumPolicy.devnetChainId stakeHeight =
      some set) (weights : set.weights = source stakeHeight) :
    (extended vs).Derives source QuorumPolicy.devnetChainId := by
  intro height other found'
  by_cases same : stakeHeight = height
  · subst same
    rw [found] at found'
    cases found'
    exact weights
  · simp [ValidatorSet.sourceSet, extended, same] at found'

/-- Accounts of an engine whose set gives up a member and takes it back. -/
theorem accounts_extendedRun :
    (extendedStart.run .plain
      (extendedRun (.plain [(1, 3), (2, 3)]))).Accounts
        fun _ => [([1], 3), ([2], 3), ([3], 1)] := by
  have sound : (ValidatorSet.plain [(1, 3), (2, 3)]).Sound := sound_plain (by decide)
  have derives : (ValidatorSet.plain [(1, 3), (2, 3)]).Derives
      (fun _ => [([1], 3), ([2], 3), ([3], 1)])
      QuorumPolicy.devnetChainId := by
    intro height set found
    cases found
  have found : (extended (.plain [(1, 3), (2, 3)])).sourceSet
      QuorumPolicy.devnetChainId stakeHeight =
      some (.plain [(1, 3), (2, 3), (3, 1)]) := rfl
  have reaches : Reaches .plain (KeepsAccounts .plain
      fun _ => [([1], 3), ([2], 3), ([3], 1)]) extendedStart
      (extendedStart.run .plain (extendedRun (.plain [(1, 3), (2, 3)]))) :=
    reaches_run ⟨trivial,
      ⟨{ sound with }, derives_extended found rfl, fun _ => rfl⟩, trivial,
      ⟨sound, derives, fun _ => rfl⟩, trivial⟩
  exact accounts_of_reaches sound derives reaches

/-- With another weight the source votes count by neither set: the first vote
keeps its weight, the second is counted with the new one. -/
theorem not_consistent_extendedRun :
    ∃ t round ref, Reaches .plain (fun _ _ => True) extendedStart t ∧
      t.sourcePrevotes.find? round = some ref ∧
      ∀ vs ∈ [ValidatorSet.plain [(1, 3), (2, 3)],
          extended (.plain [(1, 3), (2, 3)]),
          extended (.plain [(1, 5), (2, 5)])],
        ∀ set, vs.sourceSet QuorumPolicy.devnetChainId stakeHeight =
          some set → ¬ (t.cells.read ref).Consistent set := by
  refine ⟨extendedStart.run .plain
    (extendedRun (extended (.plain [(1, 5), (2, 5)]))), 0, 4,
    reaches_run ⟨trivial, trivial, trivial, trivial, trivial⟩,
    by decide +kernel, ?_⟩
  have weight : ((extendedStart.run .plain (extendedRun
      (extended (.plain [(1, 5), (2, 5)])))).cells.read 4).weightTotal = 8 := by
    decide +kernel
  intro vs given set found consistent
  have total := consistent.weight_total
  rw [weight] at total
  simp only [List.mem_cons, List.not_mem_nil, or_false] at given
  rcases given with rfl | rfl | rfl <;> cases found <;>
    exact absurd total (by decide +kernel)

end Engine
end LiteNode
