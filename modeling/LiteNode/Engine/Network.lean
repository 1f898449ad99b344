import LiteNode.Data.LockedVotes
import LiteNode.Engine.Certified
import LiteNode.Engine.LockRules
import LiteNode.Engine.OwnVotes

/-!
# Agreement of several engines

Some members of a set run engines for one height, and the others send what they
like. Votes of honest members reach an engine only if they were sent, and a
finalize only if it passes the checks. What the engines send is then voting
under locks, so that all finalizes of the height are for one proposal.
-/

namespace LiteNode

/-- Members of a set at a height, of which the honest ones run engines. The
set counts at the height as it is, and a quorum does not need the others. -/
structure Network where
  ext : Externals
  policy : QuorumPolicy
  chainId : Bytes
  vs : ValidatorSet
  height : Int
  honest : Finset Bytes
  verifyVote : Vote → Bool
  sound : vs.Sound
  positive : 0 < vs.totalWeight
  authors : vs.authors = none
  counts : validatorSetForEpoch policy height vs = vs
  faulty : ∑ addr ∈ vs.members \ honest, vs.weightOf addr ≤ vs.totalWeight - vs.quorumWeight
  proper : ∀ header, isNil (ext.proposalId header) = false

def Phase.voteType : Phase → VoteType
  | .first => .prevote
  | .second => .precommit

namespace Core

variable {ext : Externals} {inputs : Inputs} {c c' : Core}

/-- The engine sent a vote for a proposal of its height. -/
def Voted (c : Core) (phase : Phase) (round : Int) (pid : Bytes) : Prop :=
  isNil pid = false ∧ ∃ vote, c.Sent vote ∧ vote.epochId = c.state.height ∧
    vote.voteType = phase.voteType ∧ vote.round = round ∧ vote.proposalId = pid

/-- Votes for proposals are sent only when the engine may vote for them. -/
theorem voted_move (move : Move ext inputs c c') (height : c'.state.height = c.state.height)
    {phase : Phase} {round : Int} {pid : Bytes} (voted : c'.Voted phase round pid) :
    c.Voted phase round pid ∨
      round = c.state.round ∧ isNil pid = false ∧ c.MayVote ext phase.voteType pid := by
  obtain ⟨proper, vote, ⟨view, proposal, listed⟩, epoch, type, rfl, rfl⟩ := voted
  rcases log_move move listed with
    before | ⟨voteType, pid, _, _, _, equal, -, own, mayVote⟩ | ⟨_, _, equal, -⟩
  · exact Or.inl ⟨proper, vote, ⟨view, proposal, before⟩, epoch.trans height, type, rfl, rfl⟩
  · cases equal
    refine Or.inr ⟨own.round, proper, ?_⟩
    rw [← type, own.voteType, own.proposalId]
    exact mayVote
  · cases equal

end Core

namespace Network

variable (N : Network)

/-- Groups of members that weigh a quorum. -/
def system : QuorumSystem Bytes where
  honest := N.honest
  Quorum A := A ⊆ N.vs.members ∧ N.vs.quorumWeight ≤ ∑ addr ∈ A, N.vs.weightOf addr
  meet A B first second := by
    have common := N.sound.inter_nonempty N.positive first.1 second.1 first.2 second.2
    by_contra none
    have outside : A ∩ B ⊆ N.vs.members \ N.honest := by
      intro addr member
      obtain ⟨left, right⟩ := Finset.mem_inter.mp member
      exact Finset.mem_sdiff.mpr ⟨first.1 left, fun honest => none ⟨addr, honest, left, right⟩⟩
    have bound := Finset.sum_le_sum_of_subset_of_nonneg outside
      fun addr _ _ => N.sound.weightOf_nonneg addr
    exact absurd (bound.trans N.faulty) (not_le.mpr common)

/-- A vote for a proposal of the height was given, if its voter is honest. -/
def Cast (s : Ballots Bytes Int Bytes) (vote : Vote) : Prop :=
  vote.validator ∈ N.honest → isNil vote.proposalId = false → vote.epochId = N.height →
    ∀ phase : Phase, vote.voteType = phase.voteType →
      s vote.validator phase vote.round vote.proposalId

/-- The finalize is for a proposal that was decided. -/
def Decided (s : Ballots Bytes Int Bytes) (f : Finalize) : Prop :=
  s.Backed N.system .second f.commitRound f.proposalId

/-- What an engine may be given once these votes were given. -/
abbrev inputs (s : Ballots Bytes Int Bytes) : Inputs where
  vote := N.Cast s
  signed _ := True
  author _ _ := True
  restored _ := False
  polc _ _ := False
  finalize _ f := f.epochId = N.height → N.Decided s f
  height _ _ := False
  replace _ _ := False
  reconfigure _ _ := False

/-- Locks, proofs of lock and finalizes had their quorums. -/
structure Backing (s : Ballots Bytes Int Bytes) (c : Core) : Prop where
  locked : c.state.lockedRound < 0 ∨
    s.Backed N.system .first c.state.lockedRound (c.state.lockedPid N.ext)
  proofs : ∀ round pid, c.polc round = some pid → s.Backed N.system .first round pid
  finalized : ∀ f, c.pendingFinalized = some f → N.Decided s f

/-- What is known of the engine of a member, once these votes were given. -/
structure Member (s : Ballots Bytes Int Bytes) (a : Bytes) (c : Core) : Prop extends
    N.Backing s c where
  voted : s a = c.Voted
  myAddr : c.myAddr = a
  vs : c.vs = N.vs
  height : c.state.height = N.height
  nonneg : 0 ≤ c.state.round
  tallied : c.Tallied (Engine.sourceWeights N.chainId N.vs)
  orderly : c.Orderly N.ext
  named : ∀ pid entry, c.cache pid = some entry → N.ext.proposalId entry.header = pid
  keyed : c.Keyed
  votesOnce : c.VotesOnce
  stored : ∀ vote, c.Stores vote → N.Cast s vote
  locks : ∀ round pid, c.Voted .second round pid →
    0 ≤ round ∧ round ≤ c.state.lockedRound ∧ round ≤ c.state.round

variable {N} {s s' s₀ : Ballots Bytes Int Bytes} {a : Bytes} {c c' : Core}
variable {phase : Phase} {round : Int} {pid : Bytes} {f : Finalize} {vote : Vote}

theorem Cast.mono (known : s ≤ s') (cast : N.Cast s vote) : N.Cast s' vote :=
  fun honest proper epoch phase type => known _ _ _ _ (cast honest proper epoch phase type)

theorem Backing.mono (known : s ≤ s') (backing : N.Backing s c) : N.Backing s' c where
  locked := backing.locked.imp_right fun backed => backed.mono known
  proofs round pid proof := (backing.proofs round pid proof).mono known
  finalized f held := (backing.finalized f held).mono known

theorem Member.mono (member : N.Member s a c) (known : s ≤ s') (same : s' a = s a) :
    N.Member s' a c :=
  { member with
    toBacking := member.toBacking.mono known
    voted := same.trans member.voted
    stored := fun vote stored => (member.stored vote stored).mono known }

/-- A quorum in a table was given by its members. -/
theorem Member.backed_of_shows (member : N.Member s a c) (phase : Phase) {votes : VoteSet}
    (stored : c.votes phase.voteType.table round = some votes) (proper : isNil pid = false)
    (shows : votes.ShowsQuorum c.policy c.state.height c.vs pid) :
    s.Backed N.system phase round pid := by
  have tally := member.tallied.tally _ round votes stored
  have consistent := tally.consistent c.vs (by cases phase <;> rfl)
  have weight := consistent.quorumWeight_le (member.vs ▸ N.sound) shows
  have subset := consistent.voters_subset pid
  rw [member.vs] at weight subset
  refine ⟨votes.voters pid, ⟨subset, weight⟩, fun addr voter honest => ?_⟩
  obtain ⟨vote, found, rfl⟩ := consistent.mem_voters.mp voter
  obtain ⟨rfl, epoch, type⟩ := tally.filed addr vote found
  obtain rfl := consistent.keyed addr vote found
  exact member.stored vote ⟨_, _, votes, _, stored, found⟩ honest proper
    (epoch.trans member.height) phase (type.trans (VoteType.voteType_table _))

/-- A finalize that is taken over was decided. -/
theorem Member.decided_of_mayTake (member : N.Member s a c) (known : s₀ ≤ s)
    (take : c.MayTake N.ext (N.inputs s₀) f) : N.Decided s f :=
  (take.trusted (take.epochId.trans member.height)).mono known

theorem Member.decided_of_mayFinalize (member : N.Member s a c) (may : c.MayFinalize N.ext f) :
    N.Decided s f := by
  have named : N.ext.proposalId f.header = f.proposalId := by
    rcases may.header with ⟨entry, stored, same⟩ | ⟨same, -⟩
    · exact same ▸ member.named _ entry stored
    · exact same
  obtain ⟨votes, stored, shows⟩ := may.quorum
  exact member.backed_of_shows .second stored (named ▸ N.proper f.header) shows

/-- A prevote after a precommit of the engine has a proof of lock. -/
theorem Member.exists_proof (member : N.Member s a c) {validRound : Option Int} {locked : Int}
    {q : Bytes} (allows : c.LockAllows N.ext pid validRound) (voted : c.Voted .second locked q) :
    ∃ proof, locked ≤ proof ∧ s.Backed N.system .first proof pid := by
  obtain ⟨nonneg, above, -⟩ := member.locks locked q voted
  rcases allows with unlocked | rfl | ⟨proof, -, later, -, proven⟩
  · omega
  · rcases member.locked with unlocked | backed
    · omega
    · exact ⟨_, above, backed⟩
  · exact ⟨proof, above.trans later.le, member.proofs proof pid proven⟩

section Moves

variable (member : N.Member s a c) (safe : s.Safe N.system) (known : s₀ ≤ s)
  (move : Move N.ext (N.inputs s₀) c c')

include member move in
theorem state_move : c'.state.height = c.state.height ∧ 0 ≤ c'.state.round := by
  cases move with
  | openRound round keep nonneg => exact ⟨rfl, nonneg⟩
  | startHeight | restoreLock | reconfigure => contradiction
  | _ => exact ⟨rfl, member.nonneg⟩

include member move in
theorem locks_move (voted : c'.Voted .second round pid) :
    0 ≤ round ∧ round ≤ c'.state.lockedRound ∧ round ≤ c'.state.round := by
  have locks : 0 ≤ round ∧ round ≤ c.state.lockedRound ∧ round ≤ c.state.round := by
    rcases Core.voted_move move (state_move member move).1 voted with
      before | ⟨rfl, proper, nil | may⟩
    · exact member.locks round pid before
    · exact absurd nil (by simp [proper])
    · exact ⟨member.nonneg, may.1.ge, le_refl _⟩
  exact ⟨locks.1, Core.lockedRound_move (fun _ _ => id) locks.2 move⟩

include member safe known move in
/-- What a move locks on, proves or finalizes had its quorum. -/
theorem backing_move : N.Backing s c' := by
  cases move with
  | startHeight | restoreLock | install | reconfigure => contradiction
  | lock pid proposal stored shown =>
    obtain ⟨votes, table, shows⟩ := shown
    obtain rfl := member.orderly.named _ _ _ stored
    exact { member.toBacking with
      locked := Or.inr (member.backed_of_shows .first table (N.proper _) shows) }
  | takeLock f take =>
    have backed := safe.backed_of_decided (member.decided_of_mayTake known take)
    rw [take.proposalId] at backed
    refine { member.toBacking with locked := ?_ }
    change max c.state.lockedRound f.commitRound < 0 ∨
      s.Backed N.system .first (max c.state.lockedRound f.commitRound) _
    rcases le_total c.state.lockedRound f.commitRound with before | after
    · rw [max_eq_right before]
      exact Or.inr backed
    rw [max_eq_left after]
    -- The lock is already of the round of the finalize or a later one.
    cases value : c.state.lockedValue with
    | none => exact Or.inl (member.orderly.valued value)
    | some header =>
      have same := (take.lock header value).resolve_right (not_lt.mpr after)
      have named : c.state.lockedPid N.ext =
          (c.lock c.state.lockedRound f.header).state.lockedPid N.ext := by
        rw [EngineState.lockedPid, value]
        exact same.trans take.proposalId
      exact named ▸ member.locked
  | recordPolc round pid proper origin =>
    refine { member.toBacking with proofs := fun r q found => ?_ }
    have found' : (if r = round then some pid else c.polc r) = some q := found
    split at found'
    · next same =>
      subst same
      cases found'
      rcases origin with ⟨kind, set, votes, proper', table, counting, shows⟩ | given |
        ⟨f, take, rfl, rfl⟩
      · cases kind with
        | prevote =>
          cases counting
          exact member.backed_of_shows .first table proper shows
        | source => simp [View.countingSet, ValidatorSet.sourceSet, member.vs, N.authors] at counting
        | precommit => exact absurd rfl proper'
      · exact given.elim
      · exact safe.backed_of_decided (member.decided_of_mayTake known take)
    · exact member.proofs r q found'
  | finalize f may =>
    refine { member.toBacking with finalized := ?_ }
    rintro _ ⟨⟩
    exact member.decided_of_mayFinalize may
  | takeFinalize f trusted epoch =>
    refine { member.toBacking with finalized := ?_ }
    rintro _ ⟨⟩
    exact (trusted (epoch.trans member.height)).mono known
  | acknowledge => exact { member.toBacking with finalized := fun _ held => by cases held }
  | _ => exact ⟨member.locked, member.proofs, member.finalized⟩

include member move in
/-- A move of an engine gives votes by the rules. -/
theorem step_move : Ballots.Step N.system a s c'.Voted := by
  have height := (state_move member move).1
  have voted := @Core.voted_move _ _ _ _ move height
  have kept : ∀ entry ∈ c.log, entry ∈ c'.log := by
    intro entry listed
    cases move with
    | cast | finalize => exact List.mem_cons_of_mem _ listed
    | reconfigure => contradiction
    | _ => exact listed
  have votesOnce : c'.VotesOnce := Core.votesOnce_move (fun _ _ => False.elim)
    (fun _ _ => False.elim) member.keyed member.votesOnce move
  constructor <;> try rw [member.voted]
  case kept =>
    rintro phase round pid ⟨proper, vote, ⟨view, proposal, listed⟩, epoch, fields⟩
    exact ⟨proper, vote, ⟨view, proposal, kept _ listed⟩, epoch.trans height.symm, fields⟩
  case once =>
    rintro phase round p q ⟨-, vote, sent, epoch, type, rfl, rfl⟩
      ⟨-, vote', sent', epoch', type', same, rfl⟩
    exact votesOnce.once vote vote' sent sent' (epoch.trans epoch'.symm) same.symm
      (type.trans type'.symm)
  case onward =>
    refine fun phase round p vote => (voted vote).imp_right ?_
    rintro ⟨rfl, -⟩ phase' earlier q ⟨-, vote, sent, epoch, -, rfl, -⟩
    rcases member.votesOnce.earlier vote sent with before | ⟨-, below | ⟨current, -⟩⟩
    · exact absurd epoch before.ne
    · exact below.le
    · exact current.le
  case second =>
    refine fun round p vote => (voted vote).imp_right ?_
    rintro ⟨rfl, proper, nil | ⟨-, ⟨votes, stored, shows⟩, -⟩⟩
    · exact absurd nil (by simp [proper])
    · exact member.backed_of_shows .first stored proper shows
  case first =>
    refine fun round p locked q vote lock earlier => (voted vote).imp_right ?_
    rintro ⟨rfl, proper, nil | allows⟩
    · exact absurd nil (by simp [proper])
    rcases voted lock with before | ⟨current, -⟩
    · exact member.exists_proof allows before
    · exact absurd current earlier.ne

include member safe known move in
/-- What is known of an engine still holds after a move. -/
theorem member_move : N.Member (Function.update s a c'.Voted) a c' := by
  have step := step_move member move
  obtain ⟨-, -, myAddr, vs⟩ := Core.constants_move (by rintro _ (given | given) <;> exact given.elim) move
  obtain ⟨height, nonneg⟩ := state_move member move
  exact
    { voted := Function.update_self ..
      myAddr := myAddr.trans member.myAddr
      vs := vs.trans member.vs
      height := height.trans member.height
      nonneg
      tallied := Core.tallied_move (by rintro _ (given | given) <;> exact given.elim) member.tallied move
      orderly := Core.orderly_move member.orderly move
      named := Core.named_move member.named move
      keyed := Core.keyed_move member.keyed move
      votesOnce := Core.votesOnce_move (fun _ _ => False.elim) (fun _ _ => False.elim)
        member.keyed member.votesOnce move
      stored := fun vote stored => by
        rcases Core.stores_move move stored with before | given | ⟨_, _, -, own, sent⟩
        · exact (member.stored vote before).mono step.le
        · exact given.mono (known.trans step.le)
        · intro honest proper epoch phase type
          rw [own.validator, member.myAddr, Function.update_self]
          exact ⟨proper, vote, sent, own.epochId.trans height.symm, type, rfl, rfl⟩
      locks := fun _ _ => locks_move member move
      toBacking := (backing_move member safe known move).mono step.le }

end Moves

/-- Moves of an engine keep decisions unique and lose no vote. -/
theorem holds_moves (member : N.Member s a c) (safe : s.Safe N.system)
    (moves : Moves N.ext (N.inputs s) c c') :
    ∃ s', s ≤ s' ∧ (∀ b, b ≠ a → s' b = s b) ∧ s'.Safe N.system ∧ N.Member s' a c' := by
  induction moves with
  | refl => exact ⟨s, le_refl _, fun _ _ => rfl, safe, member⟩
  | tail _ move ih =>
    obtain ⟨s', known, others, safe', member'⟩ := ih
    have step := step_move member' move
    exact ⟨_, known.trans step.le, fun b other => (Function.update_of_ne other ..).trans
      (others b other), step.safe safe', member_move member' safe' known move⟩

/-! ## Runs of several engines -/

variable (N)

/-- An honest voter sent the vote, perhaps with another signature. -/
def Authentic (engines : Bytes → Engine) (vote : Vote) : Prop :=
  vote.validator ∈ N.honest → ∃ sent ∈ (engines vote.validator).sentVotes,
    { sent with signature := vote.signature } = vote

/-- Calls that an honest engine may receive. -/
def Admits (engines : Bytes → Engine) : Operation → Prop
  | .onVote vote _ => N.Authentic engines vote
  | .restoreLocalVotes votes => ∀ vote ∈ votes, N.Authentic engines vote
  | .recordHistoricalPrevote vote =>
    N.Authentic engines vote ∧ vote.epochId = N.height ∧ vote.voteType = .prevote
  | .acceptFinalizeBatch f =>
    validateFinalize N.ext N.policy N.chainId N.vs N.verifyVote f = .valid ∧
      ∀ vote ∈ f.precommits, N.Authentic engines vote
  | .startHeight height => height = N.height
  | .restorePrecommitLock _ | .replaceValidatorSet _ | .reconfigureValidatorSet _ _
  | .recordPolc _ _ => False
  | _ => True

/-- An honest engine receives a call. -/
def Calls (engines engines' : Bytes → Engine) : Prop :=
  ∃ a ∈ N.honest, ∃ operation, N.Admits engines operation ∧
    engines' = Function.update engines a (operation.apply N.ext (engines a))

/-- Any number of calls, to any of the honest engines. -/
abbrev Reaches : (Bytes → Engine) → (Bytes → Engine) → Prop := Relation.ReflTransGen N.Calls

/-- The honest members have new engines. -/
def Starts (engines : Bytes → Engine) : Prop :=
  ∀ a ∈ N.honest, ∃ canVote,
    engines a = Engine.createForPolicy N.policy N.chainId a N.vs N.height canVote

/-- What holds once these votes were given. -/
structure Holds (s : Ballots Bytes Int Bytes) (engines : Bytes → Engine) : Prop where
  safe : s.Safe N.system
  engine : ∀ a ∈ N.honest, (engines a).Fit ∧ N.Member s a (engines a).core

variable {N} {engines engines' : Bytes → Engine}

theorem Holds.cast (holds : N.Holds s engines) (authentic : N.Authentic engines vote) :
    N.Cast s vote := by
  intro honest proper epoch phase type
  obtain ⟨sent, listed, same⟩ := authentic honest
  have member := (holds.engine _ honest).2
  rw [member.voted]
  refine ⟨proper, sent, Engine.sent_of_mem_sentVotes listed, ?_⟩
  have fields := congrArg (fun vote => (vote.epochId, vote.voteType, vote.round, vote.proposalId)) same
  simp only [Prod.mk.injEq] at fields
  exact ⟨fields.1.trans (epoch.trans member.height.symm), fields.2.1.trans type, fields.2.2⟩

/-- A finalize that passes the checks was decided. -/
theorem Holds.decided (holds : N.Holds s engines)
    (valid : validateFinalize N.ext N.policy N.chainId N.vs N.verifyVote f = .valid)
    (authentic : ∀ vote ∈ f.precommits, N.Authentic engines vote) (epoch : f.epochId = N.height) :
    N.Decided s f := by
  have certified := (validateFinalize_eq_valid_iff.mp valid).certificate
  have rule : validatorSetForRule (N.policy.select N.height) N.vs = N.vs := by
    simpa [validatorSetForEpoch, N.authors] using N.counts
  have quorum : ValidatorSet.hasQuorumForRule (N.policy.select f.epochId) N.vs
    (f.precommits.map Vote.validator) = true := certified.quorum
  have weighs := ValidatorSet.hasWeightQuorum_of_hasQuorumForRule quorum
  rw [epoch, rule] at weighs
  refine ⟨_, ValidatorSet.hasWeightQuorum_iff.mp weighs, fun addr listed honest => ?_⟩
  obtain ⟨vote, present, rfl⟩ := List.mem_map.mp (List.mem_toFinset.mp listed)
  obtain ⟨-, height, round, type, pid⟩ := voteOk_iff.mp (certified.votes vote present)
  have cast := holds.cast (authentic vote present) honest
  rw [round, pid] at cast
  exact cast certified.proper (height.trans epoch) .second type

theorem Holds.admits (holds : N.Holds s engines) (honest : a ∈ N.honest) {operation : Operation}
    (admits : N.Admits engines operation) :
    (N.inputs s).Admits N.ext (engines a) operation := by
  have height : (engines a).state.height = N.height := (holds.engine a honest).2.height
  cases operation with
  | onVote vote sign => exact ⟨holds.cast admits, fun _ => trivial⟩
  | restoreLocalVotes votes => exact fun vote listed => holds.cast (admits vote listed)
  | recordHistoricalPrevote vote =>
    exact ⟨holds.cast admits.1, admits.2.1.trans height.symm, admits.2.2⟩
  | acceptFinalizeBatch f => exact holds.decided admits.1 admits.2
  | startHeight given => exact fun different => different (admits.trans height.symm)
  | restorePrecommitLock | replaceValidatorSet | reconfigureValidatorSet | recordPolc =>
    exact admits.elim
  | _ => simp [Inputs.Admits, Inputs.Signs]

/-- What holds of the members holds after a call, and no vote is lost. -/
theorem Holds.call (holds : N.Holds s engines) (call : N.Calls engines engines') :
    ∃ s', s ≤ s' ∧ N.Holds s' engines' := by
  obtain ⟨a, honest, operation, admits, rfl⟩ := call
  obtain ⟨fit, member⟩ := holds.engine a honest
  have evolves := Engine.evolves_apply fit (holds.admits honest admits)
  obtain ⟨s', kept, others, safe, member'⟩ := holds_moves member holds.safe evolves.moves
  refine ⟨s', kept, safe, fun b honest' => ?_⟩
  by_cases same : b = a
  · subst same
    rw [Function.update_self]
    exact ⟨evolves.fit, member'⟩
  · rw [Function.update_of_ne same]
    obtain ⟨fit', other⟩ := holds.engine b honest'
    exact ⟨fit', other.mono kept (others b same)⟩

theorem Holds.reaches (holds : N.Holds s engines) (reaches : N.Reaches engines engines') :
    ∃ s', s ≤ s' ∧ N.Holds s' engines' := by
  induction reaches with
  | refl => exact ⟨s, le_refl _, holds⟩
  | tail _ call ih =>
    obtain ⟨s', kept, holds'⟩ := ih
    obtain ⟨s'', kept', holds''⟩ := holds'.call call
    exact ⟨s'', kept.trans kept', holds''⟩

/-- New engines have sent nothing and hold nothing. -/
theorem holds_of_starts (starts : N.Starts engines) : N.Holds (fun _ _ _ _ => False) engines := by
  refine ⟨fun _ _ => ⟨nofun, nofun, nofun⟩, fun a honest => ?_⟩
  obtain ⟨canVote, created⟩ := starts a honest
  rw [created]
  have unsent : ∀ vote, ¬ (Engine.createForPolicy N.policy N.chainId a N.vs N.height
      canVote).core.Sent vote := by
    rintro vote ⟨view, proposal, listed⟩
    cases listed
  exact ⟨Engine.fit_createForPolicy .., {
    voted := by
      funext phase round pid
      exact (eq_false fun ⟨_, vote, sent, _⟩ => unsent vote sent).symm
    myAddr := rfl
    vs := rfl
    height := rfl
    nonneg := le_refl _
    tallied := Engine.tallied_createForPolicy (Engine.derives_sourceWeights _ _)
    orderly := ⟨fun _ _ _ stored => (by cases stored), fun _ => Int.negSucc_lt_zero 0⟩
    named := fun _ _ stored => by cases stored
    keyed := fun _ _ _ stored =>
      Engine.votesAt_createForPolicy stored ▸ VoteSet.keyed_createVoteSet
    votesOnce := ⟨fun vote sent => absurd sent (unsent vote),
      fun vote _ sent => absurd sent (unsent vote)⟩
    stored := by
      rintro vote ⟨kind, round, votes, addr, stored, present⟩
      rw [Engine.votesAt_createForPolicy stored] at present
      exact absurd present Core.not_stored_createVoteSet
    locks := fun _ _ ⟨_, vote, sent, _⟩ => absurd sent (unsent vote)
    locked := Or.inl (Int.negSucc_lt_zero 0)
    proofs := fun _ _ found => by cases found
    finalized := fun _ held => by cases held }⟩

/-- The finalizes that honest engines hold, at any times of a run, are for one
proposal. -/
theorem proposalId_eq_of_reaches {start : Bytes → Engine} (starts : N.Starts start)
    (reaches : N.Reaches start engines) (later : N.Reaches engines engines')
    {a b : Bytes} (honest : a ∈ N.honest) (honest' : b ∈ N.honest) {f g : Finalize}
    (held : (engines a).pendingFinalized = some f)
    (held' : (engines' b).pendingFinalized = some g) : f.proposalId = g.proposalId := by
  obtain ⟨s, -, holds⟩ := (holds_of_starts starts).reaches reaches
  obtain ⟨s', kept, holds'⟩ := holds.reaches later
  have decided := ((holds.engine a honest).2.finalized f held).mono kept
  exact holds'.safe.eq_of_decided decided ((holds'.engine b honest').2.finalized g held')

/-- Once an honest engine holds a finalize, the locks and proofs of lock that
honest engines have from its round on are for its proposal. -/
theorem lockedPid_eq_of_reaches {start : Bytes → Engine} (starts : N.Starts start)
    (reaches : N.Reaches start engines) (later : N.Reaches engines engines')
    {a b : Bytes} (honest : a ∈ N.honest) (honest' : b ∈ N.honest)
    (held : (engines a).pendingFinalized = some f) :
    (f.commitRound ≤ (engines' b).state.lockedRound →
      (engines' b).state.lockedPid N.ext = f.proposalId) ∧
    ∀ round pid, f.commitRound ≤ round → (engines' b).core.polc round = some pid →
      pid = f.proposalId := by
  obtain ⟨s, -, holds⟩ := (holds_of_starts starts).reaches reaches
  obtain ⟨s', kept, holds'⟩ := holds.reaches later
  have member := (holds'.engine b honest').2
  have decided := ((holds.engine a honest).2.finalized f held).mono kept
  have only : ∀ {round pid}, f.commitRound ≤ round → s'.Backed N.system .first round pid →
      pid = f.proposalId := fun notBefore backed =>
    (holds'.safe.eq_of_decided_of_backed decided backed notBefore).symm
  refine ⟨fun notBefore => ?_, fun round pid notBefore proof =>
    only notBefore (member.proofs round pid proof)⟩
  rcases member.locked with unlocked | backed
  · obtain ⟨A, quorum, votes⟩ := decided
    obtain ⟨d, given, listed, -⟩ := N.system.meet A A quorum quorum
    have voter := (holds'.engine d given).2
    have nonneg := (voter.locks _ _ (voter.voted ▸ votes d listed given)).1
    exact absurd unlocked (not_lt.mpr (nonneg.trans notBefore))
  · exact only notBefore backed

open QuorumPolicy (devnetChainId)

/-- Four members, of whom the first weighs a quorum and the last two are
faulty. -/
def heavyFirst : Network where
  ext := .tagged
  policy := .forChain devnetChainId
  chainId := devnetChainId
  vs := .plain [(1, 7), (2, 1), (3, 1), (4, 1)]
  height := 1
  honest := {[1], [2]}
  verifyVote := plainVerify
  sound := ValidatorSet.sound_build (by decide) true
  positive := by decide
  authors := rfl
  counts := rfl
  faulty := by decide +kernel
  proper header := by simp [isNil, nilHash, Externals.tagged]

def heavyStart (a : Bytes) : Engine :=
  .createForPolicy heavyFirst.policy devnetChainId a heavyFirst.vs 1 true

/-- The proposal of the first member, given to a member. -/
def heavyPropose (name : UInt8) : Operation :=
  .onPropose (.plain devnetChainId 1 0 [7] 1) (fun _ _ _ => true) (fun _ => true) (plainSign name)

/-- A vote of the first member for it, given to the second one. -/
def heavyVote (voteType : VoteType) : Operation :=
  .onVote (.plain devnetChainId 1 0 voteType [1, 7] 1) (plainSign 2)

def heavyFinalize (names : List UInt8) : Finalize where
  chainId := devnetChainId
  epochId := 1
  commitRound := 0
  header := .plain devnetChainId 1 [7] 1
  proposalId := [1, 7]
  precommits := names.map (Vote.plain devnetChainId 1 0 .precommit [1, 7])
  parentCommit := none

def heavyCall (engines : Bytes → Engine) (name : UInt8) (operation : Operation) : Bytes → Engine :=
  Function.update engines [name] (operation.apply .tagged (engines [name]))

/-- The first member has received its proposal. -/
def heavyProposed : Bytes → Engine := heavyCall heavyStart 1 (heavyPropose 1)

/-- The second one has as well, and the votes of the first one. -/
def heavyVoted : Bytes → Engine :=
  heavyCall (heavyCall (heavyCall heavyProposed 2 (heavyPropose 2)) 2 (heavyVote .prevote))
    2 (heavyVote .precommit)

theorem calls_heavyCall {engines : Bytes → Engine} {name : UInt8} {operation : Operation}
    (honest : [name] ∈ heavyFirst.honest) (admits : heavyFirst.Admits engines operation) :
    heavyFirst.Calls engines (heavyCall engines name operation) :=
  ⟨[name], honest, operation, admits, rfl⟩

theorem reaches_heavyProposed : heavyFirst.Reaches heavyStart heavyProposed :=
  .single (calls_heavyCall (by decide) trivial)

theorem reaches_heavyVoted : heavyFirst.Reaches heavyProposed heavyVoted := by
  have propose := @calls_heavyCall heavyProposed 2 (heavyPropose 2) (by decide) trivial
  refine ((Relation.ReflTransGen.single propose).tail (calls_heavyCall (by decide) ?_)).tail
    (calls_heavyCall (by decide) ?_)
  · exact fun _ => ⟨.plain devnetChainId 1 0 .prevote [1, 7] 1, by decide +kernel, rfl⟩
  · exact fun _ => ⟨.plain devnetChainId 1 0 .precommit [1, 7] 1, by decide +kernel, rfl⟩

/-- The first member finalizes alone, and the second one with its votes. -/
theorem proposalId_eq_heavyFirst :
    (heavyProposed [1]).pendingFinalized = some (heavyFinalize [1]) ∧
      (heavyVoted [2]).pendingFinalized = some (heavyFinalize [1, 2]) ∧
      (heavyFinalize [1]).proposalId = (heavyFinalize [1, 2]).proposalId :=
  ⟨by decide +kernel, by decide +kernel,
    proposalId_eq_of_reaches (fun _ _ => ⟨true, rfl⟩) reaches_heavyProposed reaches_heavyVoted
      (a := [1]) (b := [2]) (by decide) (by decide) (by decide +kernel) (by decide +kernel)⟩

/-- The second member locks on what the first one has finalized. -/
theorem lockedPid_eq_heavyFirst :
    (heavyVoted [2]).state.lockedRound = 0 ∧
      (heavyVoted [2]).state.lockedPid heavyFirst.ext = (heavyFinalize [1]).proposalId := by
  have locked := (lockedPid_eq_of_reaches (f := heavyFinalize [1]) (fun _ _ => ⟨true, rfl⟩)
    reaches_heavyProposed reaches_heavyVoted (a := [1]) (b := [2]) (by decide) (by decide)
    (by decide +kernel)).1
  exact ⟨by decide +kernel, locked (by decide +kernel)⟩

end Network
end LiteNode
