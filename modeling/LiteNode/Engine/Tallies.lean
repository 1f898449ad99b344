import LiteNode.Engine.Refinement

/-!
# Vote tables stay consistent

Every vote set of the engine counts its own votes. Current prevotes and
precommits are weighed by the engine's set, source prevotes by the set that
includes the extra authors of the height. The latter are never counted again,
so this needs the extra authors of a height to stay the same.
-/

namespace LiteNode

abbrev SourceWeights := Int → List (Bytes × Int)

/-- The extra authors of a set, if it has any, complete it to the source set of
their height. -/
def ValidatorSet.Derives (source : SourceWeights) (chainId : Bytes) (vs : ValidatorSet) : Prop :=
  ∀ height set, vs.sourceSet chainId height = some set → set.weights = source height

namespace View

def tableWeights (source : SourceWeights) (c : View) : TableKind → List (Bytes × Int)
  | .prevote | .precommit => c.vs.weights
  | .source => source c.state.height

/-- A vote set of a table counts votes of one round, height and type. -/
structure Tally
    (weights : List (Bytes × Int)) (kind : TableKind) (round height : Int)
    (votes : VoteSet) : Prop where
  consistent : ∀ set : ValidatorSet, set.weights = weights → votes.Consistent set
  filed : ∀ addr vote, votes.votes.find? addr = some vote →
    vote.round = round ∧ vote.epochId = height ∧ vote.voteType = kind.voteType

/-- Every vote set of the engine is a tally of its table. -/
structure Tallied (source : SourceWeights) (c : View) : Prop where
  derives : c.vs.Derives source c.chainId
  tally : ∀ kind round votes, c.votes kind round = some votes →
    Tally (c.tableWeights source kind) kind round c.state.height votes

/-- A set may be given: its extra authors are those of their height, and it has
the weights of the present set when it has its hash. -/
structure Follows
    (ext : Externals) (source : SourceWeights) (c : View) (vs : ValidatorSet) :
    Prop where
  derives : vs.Derives source c.chainId
  weights : ext.validatorSetHash c.vs = ext.validatorSetHash vs → vs.weights = c.vs.weights

variable {source : SourceWeights} {weights : List (Bytes × Int)}
variable {kind : TableKind} {round height : Int} {votes : VoteSet}
variable {policy : QuorumPolicy} {set : ValidatorSet}

theorem tally_createVoteSet : Tally weights kind round height createVoteSet where
  consistent set _ := VoteSet.consistent_createVoteSet set
  filed _ _ stored := by simp [createVoteSet] at stored

/-- Counting a vote of the round, height and type keeps a tally. -/
theorem Tally.addVote (tally : Tally weights kind round height votes)
    (counting : set.weights = weights) {vote : Vote}
    (voteRound : vote.round = round) (epoch : vote.epochId = height)
    (type : vote.voteType = kind.voteType) :
    Tally weights kind round height (votes.addVote policy vote set).1 where
  consistent other same :=
    ((tally.consistent set counting).addVote policy vote).congr (counting.trans same.symm)
  filed addr stored found := by
    rcases VoteSet.find?_addVote_origin found with before | ⟨rfl, -⟩
    · exact tally.filed addr stored before
    · exact ⟨voteRound, epoch, type⟩

theorem Tally.addVotes (tally : Tally weights kind round height votes)
    (counting : set.weights = weights) {list : List Vote}
    (filed : ∀ vote ∈ list, vote.round = round ∧ vote.epochId = height ∧
      vote.voteType = kind.voteType) :
    Tally weights kind round height (votes.addVotes policy set list) := by
  induction list generalizing votes with
  | nil => exact tally
  | cons vote rest ih =>
    obtain ⟨voteRound, epoch, type⟩ := filed vote List.mem_cons_self
    exact ih (tally.addVote counting voteRound epoch type)
      fun other present => filed other (List.mem_cons_of_mem _ present)

theorem Tally.values (tally : Tally weights kind round height votes) {vote : Vote}
    (present : vote ∈ votes.votes.values) :
    vote.round = round ∧ vote.epochId = height ∧ vote.voteType = kind.voteType := by
  obtain ⟨addr, stored⟩ := Table.mem_values.mp present
  exact tally.filed addr vote stored

variable {c c' : View}

/-- Only votes, height, set and chain matter. -/
theorem Tallied.of_same (tallied : c.Tallied source)
    (votes : c'.votes = c.votes) (height : c'.state.height = c.state.height)
    (vs : c'.vs = c.vs) (chainId : c'.chainId = c.chainId) :
    c'.Tallied source where
  derives := by
    rw [vs, chainId]
    exact tallied.derives
  tally kind round set stored := by
    have weights_eq : c'.tableWeights source kind = c.tableWeights source kind := by
      cases kind <;> simp [tableWeights, vs, height]
    rw [weights_eq, height]
    rw [votes] at stored
    exact tallied.tally kind round set stored

end View

namespace Core

open View

variable {ext : Externals} {inputs : Inputs} {source : SourceWeights}
variable {c c' : Core}

theorem tallied_setVotes {kind : TableKind} {round : Int} {votes : VoteSet}
    (tallied : c.Tallied source)
    (tally : Tally (c.tableWeights source kind) kind round c.state.height votes) :
    (c.setVotes kind round votes).Tallied source where
  derives := tallied.derives
  tally k r found stored := by
    have stored' : (if k = kind ∧ r = round then some votes
      else c.votes k r) = some found := stored
    split at stored'
    · next same =>
      obtain ⟨rfl, rfl⟩ := same
      cases stored'
      cases k <;> exact tally
    · cases k <;> exact tallied.tally _ r found stored'

theorem tallied_openRound (tallied : c.Tallied source) (round : Int)
    (keep : Int → Bool) : (c.openRound round keep).Tallied source where
  derives := tallied.derives
  tally kind r votes stored := by
    have stored' : (if keep r then
        if kind ≠ .source ∧ r = round then some createVoteSet
        else c.votes kind r
      else none) = some votes := stored
    split at stored'
    · split at stored'
      · cases stored'
        exact tally_createVoteSet
      · cases kind <;> exact tallied.tally _ r votes stored'
    · cases stored'

theorem tallied_startHeight (tallied : c.Tallied source) (height : Int) :
    (c.startHeight height).Tallied source where
  derives := tallied.derives
  tally kind r votes stored := by
    have stored' : (if kind ≠ .source ∧ r = 0 then some createVoteSet
      else none) = some votes := stored
    split at stored'
    · cases stored'
      exact tally_createVoteSet
    · cases stored'

/-- Counting again for a set that follows gives tallies for it. -/
theorem tallied_install {vs : ValidatorSet} (tallied : c.Tallied source)
    (follows : c.Follows ext source vs) (polc : Int → Option Bytes)
    (validRound : Int) (validValue : Option EpochHeader) :
    (c.install vs polc validRound validValue).Tallied source where
  derives := follows.derives
  tally kind round votes stored := by
    have stored' : c.installedVotes vs kind round = some votes := stored
    cases kind with
    | prevote =>
      obtain ⟨old, found, rfl⟩ := Option.map_eq_some_iff.mp stored'
      exact tally_createVoteSet.addVotes rfl fun vote present =>
        (tallied.tally .prevote round old found).values present
    | precommit =>
      obtain ⟨old, found, rfl⟩ := Option.map_eq_some_iff.mp stored'
      exact tally_createVoteSet.addVotes rfl fun vote present =>
        (tallied.tally .precommit round old found).values present
    | source =>
      have kept := tallied.tally .source round
      rcases installedVotes_source stored' with
        same | ⟨set, old, counting, found, rfl⟩
      · exact kept votes same
      · refine Tally.addVotes ?_ (follows.derives _ set counting)
          fun vote present => (tallied.tally .prevote round old found).values present
        cases saved : c.votes .source round with
        | none => exact tally_createVoteSet
        | some votes => exact kept votes saved

theorem tallied_finalizeOpt (tallied : c.Tallied source)
    (finalized : Option Finalize) : (c.finalizeOpt finalized).Tallied source := by
  cases finalized with
  | none => exact tallied
  | some f => exact tallied.of_same rfl rfl rfl rfl

/-- Every move keeps the set within a family that the given sets belong to. -/
theorem set_move {family : ValidatorSet → Prop}
    (sets : ∀ c vs, inputs.replace c vs ∨ inputs.reconfigure c vs → family vs)
    (present : family c.vs) (move : Move ext inputs c c') : family c'.vs := by
  cases move with
  | rename vs same allowed => exact sets _ _ (Or.inl allowed)
  | install vs polc validRound validValue different allowed => exact sets _ _ (Or.inl allowed)
  | reconfigure vs polc validRound validValue finalized round keep allowed =>
    have given := sets _ _ (Or.inr allowed)
    cases finalized <;> exact given
  | _ => exact present

/-- Every move keeps all vote sets tallies of their tables. -/
theorem tallied_move (sets : ∀ vs, inputs.replace c.toView vs ∨ inputs.reconfigure c.toView vs →
      c.Follows ext source vs) (tallied : c.Tallied source) (move : Move ext inputs c c') :
    c'.Tallied source := by
  cases move with
  | openTable kind round absent => exact tallied_setVotes tallied tally_createVoteSet
  | count kind vote votes set stored counting trusted epoch type =>
    refine tallied_setVotes tallied ((tallied.tally kind vote.round votes
      stored).addVote ?_ rfl epoch type)
    cases kind with
    | prevote => cases counting; rfl
    | precommit => cases counting; rfl
    | source => exact tallied.derives _ set counting
  | openRound round keep nonneg kept mayOpen => exact tallied_openRound tallied round keep
  | startHeight height different allowed => exact tallied_startHeight tallied height
  | restoreLock proposal round keep =>
    have locked : (c.lock proposal.round proposal.header).Tallied source :=
      tallied.of_same rfl rfl rfl rfl
    exact tallied_openRound locked round keep
  | cast voteType pid vote proposal votes member own trusted stored =>
    have counted : (c.setVotes vote.voteType.table c.state.round
        (votes.addVote c.policy vote c.vs).1).Tallied source := by
      refine tallied_setVotes tallied (Tally.addVote ?_ ?_ own.round
        own.epochId (VoteType.voteType_table vote.voteType).symm)
      · rw [own.voteType]
        exact tallied.tally _ c.state.round votes stored
      · cases vote.voteType <;> rfl
    exact counted.of_same rfl rfl rfl rfl
  | rename vs same allowed =>
    have follows := sets _ (Or.inl allowed)
    have weights := follows.weights same
    refine ⟨follows.derives, fun kind round votes stored => ?_⟩
    have tally := tallied.tally kind round votes stored
    cases kind with
    | prevote | precommit =>
      change Tally vs.weights _ _ _ _
      rw [weights]
      exact tally
    | source => exact tally
  | install vs polc validRound validValue different allowed mayInstall =>
    exact tallied_install tallied (sets _ (Or.inl allowed)) polc validRound validValue
  | reconfigure vs polc validRound validValue finalized round keep allowed =>
    exact tallied_openRound (tallied_finalizeOpt (tallied_install tallied
      (sets _ (Or.inr allowed)) polc validRound validValue) finalized)
      round keep
  | _ => exact tallied.of_same rfl rfl rfl rfl

end Core

namespace Engine

variable {source : SourceWeights}

def sourceWeights (chainId : Bytes) (vs : ValidatorSet) : SourceWeights :=
  fun height => match vs.sourceSet chainId height with
    | some set => set.weights
    | none => []

theorem derives_sourceWeights (chainId : Bytes) (vs : ValidatorSet) :
    vs.Derives (sourceWeights chainId vs) chainId := by
  intro height set found
  rw [sourceWeights, found]

/-- A new engine has empty vote sets. -/
theorem tallied_createForPolicy
    {policy : QuorumPolicy} {chainId myAddr : Bytes} {vs : ValidatorSet}
    {start : Int} {canVote : Bool} (derives : vs.Derives source chainId) :
    (createForPolicy policy chainId myAddr vs start canVote).view.Tallied source where
  derives := derives
  tally kind round votes stored := by
    have empty := votesAt_createForPolicy stored
    subst empty
    exact View.tally_createVoteSet

end Engine
end LiteNode
