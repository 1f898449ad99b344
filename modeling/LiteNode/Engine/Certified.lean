import LiteNode.Engine.Agreement
import LiteNode.Engine.Provenance
import LiteNode.Engine.Tallies
import LiteNode.Types.Certificates

/-!
# Finalizes that verifiers accept

A finalize that the engine sends passes the checks of another node: the engine
holds headers that fit its height only, and its precommits are signed votes of
one round whose distinct voters reach the quorum that the checks count again.
-/

namespace LiteNode
/-- Assumptions under which a verifier accepts what the engine finalizes. -/
def Inputs.verified (ext : Externals) (verifyVote : Vote → Bool) (chainId myAddr : Bytes) :
    Inputs where
  vote vote := vote.chainId = chainId ∧ verifyVote vote = true
  signed vote := vote.validator = myAddr → verifyVote vote = true
  author setting header := setting.vs.isAuthor setting.chainId setting.height
    header.creatorAddr = true
  restored _ := True
  polc _ _ := True
  finalize setting f := HeaderFits ext setting.chainId setting.vs setting.height f.header
  height _ _ := True
  replace c vs := vs = c.vs
  reconfigure c vs := vs = c.vs

namespace Core

open View

variable {ext : Externals} {inputs : Inputs} {source : SourceWeights}
variable {verifyVote : Vote → Bool} {c c' : Core}

/-- Chain, policy and address never change, and the set does not when only the
present one is given. -/
theorem constants_move
    (sets : ∀ vs, inputs.replace c.toView vs ∨ inputs.reconfigure c.toView vs →
      vs = c.vs) (move : Move ext inputs c c') :
    c'.chainId = c.chainId ∧ c'.policy = c.policy ∧ c'.myAddr = c.myAddr ∧ c'.vs = c.vs := by
  cases move with
  | rename vs same allowed => exact ⟨rfl, rfl, rfl, sets vs (Or.inl allowed)⟩
  | install vs polc validRound validValue different allowed =>
    exact ⟨rfl, rfl, rfl, sets vs (Or.inl allowed)⟩
  | reconfigure vs polc validRound validValue finalized round keep allowed =>
    have same := sets vs (Or.inr allowed)
    cases finalized <;> exact ⟨rfl, rfl, rfl, same⟩
  | _ => exact ⟨rfl, rfl, rfl, rfl⟩

/-- At a new height no header is held. -/
theorem height_move (move : Move ext inputs c c') :
    c'.state.height = c.state.height ∨ ∀ header, ¬ c'.Carries header := by
  cases move with
  | startHeight height =>
    right
    rintro header (⟨id, entry, stored⟩ | ⟨id, round, proposal, stored⟩ |
      ⟨proposal, held⟩ | held | held)
    · cases stored
    · cases stored
    · cases held
    · cases held
    · cases held
  | reconfigure vs polc validRound validValue finalized => cases finalized <;> exact Or.inl rfl
  | _ => exact Or.inl rfl

/-! ## What a verifier checks -/

/-- Headers fit the height, are cached under their ids, and stored votes are of
the chain and verify. -/
structure Verifiable (ext : Externals) (verifyVote : Vote → Bool) (c : Core) : Prop where
  fits : ∀ header, c.Carries header → HeaderFits ext c.chainId c.vs c.state.height header
  named : ∀ pid entry, c.cache pid = some entry → ext.proposalId entry.header = pid
  votes : ∀ vote, c.Stores vote → vote.chainId = c.chainId ∧ verifyVote vote = true

theorem named_move (named : ∀ pid entry, c.cache pid = some entry →
      ext.proposalId entry.header = pid) (move : Move ext inputs c c') :
    ∀ pid entry, c'.cache pid = some entry → ext.proposalId entry.header = pid := by
  have set : ∀ {value : ProposalCacheEntry} {id : Bytes},
      ext.proposalId value.header = id → ∀ pid entry, (c.setCache id value).cache pid = some entry →
        ext.proposalId entry.header = pid := by
    intro value id same pid entry stored
    have stored' : (if pid = id then some value else c.cache pid) = some entry := stored
    split at stored'
    · next equal =>
      cases stored'
      exact same.trans equal.symm
    · exact named pid entry stored'
  cases move with
  | startHeight height => exact fun pid entry stored => by cases stored
  | cacheBundle header => exact set rfl
  | cacheMessage proposal => exact set rfl
  | cacheHeader f take => exact set take.proposalId.symm
  | reconfigure vs polc validRound validValue finalized => cases finalized <;> exact named
  | _ => exact named

/-- A known header is held, and has the proposal id that it is known by. -/
theorem Verifiable.of_knows (verifiable : c.Verifiable ext verifyVote)
    {pid : Bytes} {header : EpochHeader} (knows : c.Knows ext pid header) :
    c.Carries header ∧ ext.proposalId header = pid := by
  rcases knows with ⟨entry, stored, rfl⟩ | ⟨same, held⟩
  · exact ⟨.cache pid entry stored rfl, verifiable.named pid entry stored⟩
  · refine ⟨?_, same⟩
    rcases held with current | locked | valid
    · obtain ⟨proposal, held, rfl⟩ := Option.map_eq_some_iff.mp current
      exact .current proposal held rfl
    · exact .locked locked
    · exact .valid valid

theorem verifiable_move {chainId myAddr : Bytes}
    (verifiable : c.Verifiable ext verifyVote) (chain : c.chainId = chainId)
    (addr : c.myAddr = myAddr) (move : Move ext (.verified ext verifyVote chainId myAddr) c c') :
    c'.Verifiable ext verifyVote := by
  obtain ⟨sameChain, -, -, sameSet⟩ := constants_move (fun _ given => given.elim id id) move
  refine ⟨fun header carried => ?_, named_move verifiable.named move, fun vote stored => ?_⟩
  · rcases height_move move with sameHeight | empty
    · rw [sameChain, sameSet, sameHeight]
      rcases carries_move move carried with before | proposable | ⟨f, take, rfl⟩
      · exact verifiable.fits header before
      · rcases proposable with ⟨epoch, chain, version, author⟩ | valid
        · exact ⟨author.elim id id, version, chain, epoch⟩
        · exact verifiable.fits header (.valid valid)
      · exact take.trusted
    · exact absurd carried (empty header)
  · rw [sameChain]
    rcases stores_move move stored with before | given | ⟨_, _, signed, own, -⟩
    · exact verifiable.votes vote before
    · exact ⟨given.1.trans chain.symm, given.2⟩
    · exact ⟨own.chainId, signed (own.validator.trans addr)⟩

/-- Changing the set for itself changes no standing of headers and votes. -/
theorem verifiable_install {polc : Int → Option Bytes} {validRound : Int}
    {validValue : Option EpochHeader} (verifiable : c.Verifiable ext verifyVote)
    (mayInstall : c.MayInstall c.vs polc validRound validValue) :
    (c.install c.vs polc validRound validValue).Verifiable ext verifyVote where
  fits header carried := verifiable.fits header (carries_install mayInstall carried)
  named := verifiable.named
  votes vote stored := verifiable.votes vote (stores_install stored)

/-- The precommits of a finalize are the stored votes for its proposal. -/
theorem precommitsForPid_perm {round : Int} {pid : Bytes} {votes : VoteSet}
    (tallied : c.Tallied source) (stored : c.votes .precommit round = some votes) :
    (c.precommitsForPid round pid).Perm (votes.votesFor pid) := by
  have tally := tallied.tally .precommit round votes stored
  have filter_eq : (votes.votes.values.filter fun vote =>
      vote.voteType = .precommit && vote.proposalId = pid) = votes.votesFor pid := by
    apply List.filter_congr
    intro vote present
    have type : vote.voteType = .precommit := (tally.values present).2.2
    simp [type]
  unfold View.precommitsForPid
  rw [stored]
  simp only [filter_eq]
  exact sortByKey_perm _ _

/-- What the engine may finalize passes the checks of a verifier whose set
counts as the engine's does. -/
theorem finalizeHolds_of_mayFinalize {W : ValidatorSet} {f : Finalize}
    (proper : ∀ header, ext.proposalId header ≠ nilHash) (sound : W.Sound)
    (counts : c.vs = validatorSetForEpoch c.policy c.state.height W)
    (verifiable : c.Verifiable ext verifyVote) (tallied : c.Tallied source)
    (may : c.MayFinalize ext f) : FinalizeHolds ext c.policy c.chainId W verifyVote f := by
  obtain ⟨votes, stored, shows⟩ := may.quorum
  obtain ⟨carried, named⟩ := verifiable.of_knows may.header
  have fits := verifiable.fits f.header carried
  have proper' : isNil f.proposalId = false := by simpa [isNil, ← named] using proper f.header
  have tally := tallied.tally .precommit f.commitRound votes stored
  have consistent := tally.consistent c.vs rfl
  have perm : f.precommits.Perm (votes.votesFor f.proposalId) := by
    rw [may.precommits]
    exact precommitsForPid_perm tallied stored
  obtain ⟨distinct, weighs, signers⟩ := consistent.signers perm
  have reached := consistent.reached_of_shows proper' shows
  rw [← signers, counts] at reached
  rw [counts] at weighs
  have filed : ∀ vote ∈ f.precommits,
      vote ∈ votes.votes.values ∧ vote.proposalId = f.proposalId := by
    intro vote present
    have listed := List.mem_filter.mp (perm.mem_iff.mp present)
    exact ⟨listed.1, of_decide_eq_true listed.2⟩
  have kept : ∀ vote ∈ f.precommits, c.Stores vote := by
    intro vote present
    obtain ⟨key, found⟩ := Table.mem_values.mp (filed vote present).1
    exact ⟨.precommit, f.commitRound, votes, key, stored, found⟩
  refine ⟨?_, may.parent, ?_⟩
  · rw [may.epochId]
    exact fits.protoVersion
  · exact
      { sameChain := may.chainId
        headerChain := fits.sameChain.trans may.chainId.symm
        headerEpoch := fits.sameEpoch.trans may.epochId.symm
        version := by
          change supportedVersion f.header.protoVersion = true
          rw [fits.protoVersion]
          exact supportedVersion_versionForEpoch ext _
        author := by
          change (validatorSetForEpoch c.policy f.epochId W).isAuthor c.chainId
            f.epochId f.header.creatorAddr = true
          rw [may.epochId, ← counts]
          exact fits.author
        proper := proper'
        named := named.symm
        distinct := distinct
        quorum := by
          change W.hasQuorumAt c.policy f.epochId (f.precommits.map Vote.validator) = true
          rw [may.epochId]
          exact ValidatorSet.hasQuorumAt_of_reached weighs reached
        votes := fun vote present => by
          obtain ⟨listed, same⟩ := filed vote present
          obtain ⟨round, epoch, type⟩ := tally.values listed
          have chain := (verifiable.votes vote (kept vote present)).1
          exact voteOk_iff.mpr ⟨chain.trans may.chainId.symm,
            epoch.trans may.epochId.symm, round, type, same⟩
        members := fun vote present => by
          change (validatorSetForEpoch c.policy f.epochId W).isValidator vote.validator = true
          rw [may.epochId, (sound.validatorSetForEpoch _ _).isValidator_iff,
            ← counts, ValidatorSet.mem_members_iff]
          exact consistent.weighed vote (filed vote present).1
        signed := fun vote present => (verifiable.votes vote (kept vote present)).2 }

/-- Every finalize that was sent passes the checks of verifiers whose set
counts as the engine's does. -/
def Certifies (ext : Externals) (verifyVote : Vote → Bool) (policy : QuorumPolicy)
    (chainId : Bytes) (vs : ValidatorSet) (c : Core) : Prop :=
  ∀ view f, (view, Output.sendFinalize f) ∈ c.log → ∀ W : ValidatorSet,
    W.Sound → vs = validatorSetForEpoch policy f.epochId W →
      validateFinalize ext policy chainId W verifyVote f = .valid

theorem certifies_move {chainId myAddr : Bytes} (proper : ∀ header, ext.proposalId header ≠ nilHash)
    (verifiable : c.Verifiable ext verifyVote) (tallied : c.Tallied source)
    (certifies : c.Certifies ext verifyVote c.policy c.chainId c.vs)
    (move : Move ext (.verified ext verifyVote chainId myAddr) c c') :
    c'.Certifies ext verifyVote c.policy c.chainId c.vs := by
  intro view f listed W sound counts
  rcases log_move move listed with
    before | ⟨_, _, _, _, _, equal, -⟩ | ⟨before, g, equal, may, origin⟩
  · exact certifies view f before W sound counts
  · cases equal
  · cases equal
    rw [may.epochId] at counts
    refine validateFinalize_eq_valid_iff.mpr ?_
    rcases origin with rfl | ⟨vs, polc, validRound, validValue, allowed, mayInstall, rfl⟩
    · exact finalizeHolds_of_mayFinalize proper sound counts verifiable tallied may
    · obtain rfl : vs = c.vs := allowed
      have follows : c.Follows ext source c.vs := ⟨tallied.derives, fun _ => rfl⟩
      exact finalizeHolds_of_mayFinalize
        (c := c.install c.vs polc validRound validValue) proper sound counts
        (verifiable_install verifiable mayInstall)
        (tallied_install tallied follows polc validRound validValue) may

end Core

namespace Engine

variable {ext : Externals} {verifyVote : Vote → Bool} {t : Engine}

/-- Calls whose votes are of the chain and verify, as do the votes signed by
the engine, and whose headers fit where the engine does not check them. The set
stays the same. -/
def FeedsVerifier (ext : Externals) (verifyVote : Vote → Bool) (chainId myAddr : Bytes)
    (t : Engine) : Operation → Prop :=
  let inputs := Inputs.verified ext verifyVote chainId myAddr
  let authored (header : EpochHeader) : Prop :=
    t.vs.isAuthor t.chainId t.state.height header.creatorAddr = true
  fun
  | .doPropose _ header _ sign => authored header ∧ inputs.Signs ext sign
  | .onPropose _ _ _ sign => inputs.Signs ext sign
  | .onVote vote sign => inputs.vote vote ∧ inputs.Signs ext sign
  | .onTimeout _ _ _ sign => inputs.Signs ext sign
  | .resumeVoting sign => inputs.Signs ext sign
  | .onReady sign => inputs.Signs ext sign
  | .restoreLocalVotes votes => ∀ vote ∈ votes, inputs.vote vote
  | .restorePrecommitLock p => authored p.header ∧ 0 ≤ p.round
  | .replaceValidatorSet vs => vs = t.vs
  | .reconfigureValidatorSet _ vs => vs = t.vs
  | .acceptFinalizeBatch f => HeaderFits ext t.chainId t.vs t.state.height f.header
  | .recordHistoricalPrevote vote =>
    inputs.vote vote ∧ vote.epochId = t.state.height ∧ vote.voteType = .prevote
  | _ => True

theorem admits_of_feedsVerifier {chainId myAddr : Bytes} {operation : Operation}
    (feeds : FeedsVerifier ext verifyVote chainId myAddr t operation) :
    (Inputs.verified ext verifyVote chainId myAddr).Admits ext t operation := by
  cases operation with
  | restorePrecommitLock p => exact ⟨trivial, feeds.1, trivial, feeds.2⟩
  | startHeight height => exact fun _ => trivial
  | recordPolc round pid => exact trivial
  | _ => exact feeds

/-- A new engine holds no headers and no votes. -/
theorem verifiable_createForPolicy
    {policy : QuorumPolicy} {chainId myAddr : Bytes} {vs : ValidatorSet}
    {start : Int} {canVote : Bool} :
    (createForPolicy policy chainId myAddr vs start canVote).core.Verifiable ext verifyVote where
  fits := by
    rintro header (⟨id, entry, stored⟩ | ⟨id, round, proposal, stored⟩ |
      ⟨proposal, held⟩ | held | held)
    · cases stored
    · cases stored
    · cases held
    · cases held
    · cases held
  named := fun pid entry stored => by cases stored
  votes := by
    rintro vote ⟨kind, round, votes, addr, stored, present⟩
    rw [votesAt_createForPolicy stored] at present
    exact absurd present Core.not_stored_createVoteSet

/-- Every finalize that the engine sends passes the checks of a verifier whose
set counts as the engine's does at the height of the finalize. -/
theorem validateFinalize_of_reaches
    {policy : QuorumPolicy} {chainId myAddr : Bytes} {vs : ValidatorSet}
    {start : Int} {canVote : Bool} (proper : ∀ header, ext.proposalId header ≠ nilHash)
    (reaches : Reaches ext (FeedsVerifier ext verifyVote chainId myAddr)
      (createForPolicy policy chainId myAddr vs start canVote) t)
    {data : EngineData} {f : Finalize} (sent : (data, Output.sendFinalize f) ∈ t.history)
    {W : ValidatorSet} (sound : W.Sound)
    (counts : vs = validatorSetForEpoch policy f.epochId W) :
    validateFinalize ext policy chainId W verifyVote f = .valid := by
  have fit := fit_createForPolicy policy chainId myAddr vs start canVote
  have evolves : Evolves ext (.verified ext verifyVote chainId myAddr) _ t :=
    evolves_of_reaches (fun _ _ _ => admits_of_feedsVerifier) fit reaches
  obtain ⟨-, -, -, -, -, -, certifies⟩ := moves_invariant
    (fun c => c.chainId = chainId ∧ c.policy = policy ∧
      c.myAddr = myAddr ∧ c.vs = vs ∧ c.Verifiable ext verifyVote ∧
      c.Tallied (sourceWeights chainId vs) ∧
      c.Certifies ext verifyVote policy chainId vs)
    evolves.moves
    ⟨rfl, rfl, rfl, rfl, verifiable_createForPolicy,
      tallied_createForPolicy (derives_sourceWeights chainId vs),
      fun _ _ listed => by cases listed⟩
    (by
      rintro c c' ⟨chain, policy_eq, addr, set, verifiable, tallied, certifies⟩ move
      obtain ⟨chain', policy', addr', set'⟩ :=
        Core.constants_move (fun _ given => given.elim id id) move
      subst chain policy_eq addr set
      refine ⟨chain', policy', addr', set',
        Core.verifiable_move verifiable rfl rfl move,
        Core.tallied_move (fun vs given => ?_) tallied move,
        Core.certifies_move proper verifiable tallied certifies move⟩
      rcases given with rfl | rfl <;> exact ⟨tallied.derives, fun _ => rfl⟩)
  exact certifies data.view f (List.mem_filterMap.mpr ⟨_, sent, rfl⟩) W sound counts

/-- Member one's engine in a set of four. -/
def certifiedStart : Engine := create [0] [1] (.plainCount [1, 2, 3, 4]) 1 true

/-- A proposal, its votes by two others, and the last of them under some chain
id. -/
def certifiedRun (chainId : Bytes) : List Operation :=
  [.onPropose (.plain [0] 1 0 [7] 2) (fun _ _ _ => true) (fun _ => true)
      (plainSign 1),
    .onVote (.plain [0] 1 0 .prevote [1, 7] 2) (plainSign 1),
    .onVote (.plain [0] 1 0 .prevote [1, 7] 3) (plainSign 1),
    .onVote (.plain [0] 1 0 .precommit [1, 7] 2) (plainSign 1),
    .onVote (.plain chainId 1 0 .precommit [1, 7] 3) (plainSign 1)]

/-- The finalize of a run. -/
def certifiedFinalize (chainId : Bytes) : Finalize where
  chainId := [0]
  epochId := 1
  commitRound := 0
  header := .plain [0] 1 [7] 2
  proposalId := [1, 7]
  precommits :=
    [.plain [0] 1 0 .precommit [1, 7] 1, .plain [0] 1 0 .precommit [1, 7] 2,
      .plain chainId 1 0 .precommit [1, 7] 3]
  parentCommit := none

def sentFinalizes (t : Engine) : List Finalize :=
  t.history.filterMap fun entry =>
    match entry.2 with
    | .sendFinalize f => some f
    | _ => none

theorem sent_of_mem_sentFinalizes {f : Finalize} (sent : f ∈ t.sentFinalizes) :
    ∃ data, (data, Output.sendFinalize f) ∈ t.history := by
  obtain ⟨⟨data, output⟩, emitted, same⟩ := List.mem_filterMap.mp sent
  cases output with
  | sendFinalize carried => cases same; exact ⟨data, emitted⟩
  | _ => cases same

theorem signs_plainSign (ext : Externals) (chainId : Bytes) :
    (Inputs.verified ext plainVerify chainId [1]).Signs ext (plainSign 1) := by
  intro vote own
  have own' : vote.validator = [1] := own
  simp [plainVerify, plainSign, own']

theorem validateFinalize_certifiedRun :
    validateFinalize .tagged (.forChain [0]) [0] (.plainCount [1, 2, 3, 4])
      plainVerify (certifiedFinalize [0]) = .valid := by
  have signs := signs_plainSign .tagged [0]
  have sent : certifiedFinalize [0] ∈
      (certifiedStart.run .tagged (certifiedRun [0])).sentFinalizes := by
    decide +kernel
  obtain ⟨data, emitted⟩ := sent_of_mem_sentFinalizes sent
  have reaches : Reaches .tagged (FeedsVerifier .tagged plainVerify [0] [1])
      certifiedStart (certifiedStart.run .tagged (certifiedRun [0])) :=
    reaches_run ⟨signs, ⟨⟨rfl, rfl⟩, signs⟩, ⟨⟨rfl, rfl⟩, signs⟩,
      ⟨⟨rfl, rfl⟩, signs⟩, ⟨⟨rfl, rfl⟩, signs⟩, trivial⟩
  have proper : ∀ header, Externals.tagged.proposalId header ≠ nilHash := by
    intro header nil
    have first := congrArg List.head? nil
    cases first
  exact validateFinalize_of_reaches proper reaches emitted
    (ValidatorSet.sound_makeValidatorSet _) rfl

/-- A signed vote of another chain spoils the finalize. -/
theorem validateFinalize_foreignRun :
    (∀ operation ∈ certifiedRun [9], match operation with
      | .onVote vote _ => plainVerify vote = true
      | _ => True) ∧
    certifiedFinalize [9] ∈ (certifiedStart.run .tagged (certifiedRun [9])).sentFinalizes ∧
    certifiedStart.vs = validatorSetForEpoch (.forChain [0]) 1 (.plainCount [1, 2, 3, 4]) ∧
    validateFinalize .tagged (.forChain [0]) [0] (.plainCount [1, 2, 3, 4])
      plainVerify (certifiedFinalize [9]) = .invalid "vote_fields" := by
  refine ⟨?_, by decide +kernel, rfl, by decide +kernel⟩
  simp [certifiedRun, Vote.plain, plainVerify]

end Engine
end LiteNode
