import LiteNode.Engine.Core

/-!
# Where votes and headers come from

A vote that the engine stores was handed to it, or is its own and was sent. A
header that it holds was checked or taken over from a finalize. What it sends is
its own vote, or a finalize that it checked.
-/

namespace LiteNode
namespace View

/-- The vote is stored in some table. -/
def Stores (c : View) (vote : Vote) : Prop :=
  ∃ kind round votes addr, c.votes kind round = some votes ∧ votes.votes.find? addr = some vote

/-- The header is held in some place. -/
inductive Carries (c : View) (header : EpochHeader) : Prop
  | cache (pid : Bytes) (entry : ProposalCacheEntry)
      (stored : c.cache pid = some entry) (same : entry.header = header)
  | message (pid : Bytes) (round : Int) (proposal : Propose)
      (stored : c.messages pid round = some proposal) (same : proposal.header = header)
  | current (proposal : Propose) (held : c.currentProposal = some proposal)
      (same : proposal.header = header)
  | locked (held : c.state.lockedValue = some header)
  | valid (held : c.state.validValue = some header)

/-- Only the places where headers are held matter. -/
theorem Carries.of_same {c c' : View} {header : EpochHeader}
    (carried : c'.Carries header) (cache : c'.cache = c.cache) (messages : c'.messages = c.messages)
    (currentProposal : c'.currentProposal = c.currentProposal)
    (lockedValue : c'.state.lockedValue = c.state.lockedValue)
    (validValue : c'.state.validValue = c.state.validValue) : c.Carries header := by
  cases carried with
  | cache id entry stored same => exact .cache id entry (cache ▸ stored) same
  | message id round proposal stored same =>
    exact .message id round proposal (messages ▸ stored) same
  | current proposal held same => exact .current proposal (currentProposal ▸ held) same
  | locked held => exact .locked (lockedValue ▸ held)
  | valid held => exact .valid (validValue ▸ held)

end View

namespace Core

variable {ext : Externals} {inputs : Inputs} {c c' : Core} {vote : Vote}
variable {header : EpochHeader}

def Sent (c : Core) (vote : Vote) : Prop :=
  ∃ view proposal, (view, Output.sendVote vote proposal) ∈ c.log

variable {round : Int} {vs : ValidatorSet}

theorem stores_setVotes {kind : TableKind} {votes : VoteSet}
    (stored : (c.setVotes kind round votes).Stores vote) :
    c.Stores vote ∨ ∃ addr, votes.votes.find? addr = some vote := by
  obtain ⟨k, r, found, addr, table, present⟩ := stored
  have table' : (if k = kind ∧ r = round then some votes else c.votes k r) = some found := table
  split at table'
  · cases table'
    exact Or.inr ⟨addr, present⟩
  · exact Or.inl ⟨k, r, found, addr, table', present⟩

theorem not_stored_createVoteSet {addr : Bytes} : createVoteSet.votes.find? addr ≠ some vote := by
  simp [createVoteSet]

theorem stores_openRound {keep : Int → Bool}
    (stored : (c.openRound round keep).Stores vote) : c.Stores vote := by
  obtain ⟨kind, r, votes, addr, table, present⟩ := stored
  have table' : (if keep r then
      if kind ≠ .source ∧ r = round then some createVoteSet
      else c.votes kind r
    else none) = some votes := table
  split at table'
  · split at table'
    · cases table'
      exact absurd present not_stored_createVoteSet
    · exact ⟨kind, r, votes, addr, table', present⟩
  · cases table'

theorem stores_projectVotes {policy : QuorumPolicy}
    {kind : TableKind} {votes : VoteSet} {addr : Bytes} (table : c.votes kind round = some votes)
    (present : (votes.projectVotes policy vs).votes.find? addr = some vote) : c.Stores vote := by
  rcases VoteSet.find?_addVotes_origin present with before | ⟨listed, -⟩
  · exact absurd before not_stored_createVoteSet
  · obtain ⟨key, found⟩ := Table.mem_values.mp listed
    exact ⟨kind, round, votes, key, table, found⟩

theorem stores_install {polc : Int → Option Bytes}
    {validRound : Int} {validValue : Option EpochHeader}
    (stored : (c.install vs polc validRound validValue).Stores vote) : c.Stores vote := by
  obtain ⟨kind, round, votes, addr, table, present⟩ := stored
  have table' : c.installedVotes vs kind round = some votes := table
  cases kind with
  | prevote | precommit =>
    obtain ⟨old, found, rfl⟩ := Option.map_eq_some_iff.mp table'
    exact stores_projectVotes found present
  | source =>
    rcases installedVotes_source table' with
      kept | ⟨members, prevotes, -, found, rfl⟩
    · exact ⟨.source, round, votes, addr, kept, present⟩
    · rcases VoteSet.find?_addVotes_origin present with before | ⟨listed, -⟩
      · cases kept : c.votes .source round with
        | none =>
          rw [kept] at before
          exact absurd before not_stored_createVoteSet
        | some sources =>
          rw [kept] at before
          exact ⟨.source, round, sources, addr, kept, before⟩
      · obtain ⟨key, listed⟩ := Table.mem_values.mp listed
        exact ⟨.prevote, round, prevotes, key, found, listed⟩

theorem stores_finalizeOpt {finalized : Option Finalize}
    (stored : (c.finalizeOpt finalized).Stores vote) : c.Stores vote := by
  cases finalized <;> exact stored

/-- A stored vote was stored before, or was given, or is the engine's own and
was sent. -/
theorem stores_move (move : Move ext inputs c c') (stored : c'.Stores vote) :
    c.Stores vote ∨ inputs.vote vote ∨
      ∃ voteType pid, inputs.signed vote ∧ c.OwnVote voteType pid vote ∧ c'.Sent vote := by
  cases move with
  | openTable kind round absent =>
    rcases stores_setVotes stored with before | ⟨addr, present⟩
    · exact Or.inl before
    · exact absurd present not_stored_createVoteSet
  | count kind given votes set table counting trusted =>
    rcases stores_setVotes stored with before | ⟨addr, present⟩
    · exact Or.inl before
    · rcases VoteSet.find?_addVote_origin present with old | ⟨rfl, -⟩
      · exact Or.inl ⟨kind, given.round, votes, addr, table, old⟩
      · exact Or.inr (Or.inl trusted)
  | openRound | restoreLock => exact Or.inl (stores_openRound stored)
  | startHeight height =>
    obtain ⟨kind, r, votes, addr, table, present⟩ := stored
    have table' : (if kind ≠ .source ∧ r = 0 then some createVoteSet
      else none) = some votes := table
    split at table'
    · cases table'
      exact absurd present not_stored_createVoteSet
    · cases table'
  | cast voteType pid own proposal votes member isOwn trusted table =>
    rcases stores_setVotes (c := c) stored with before | ⟨addr, present⟩
    · exact Or.inl before
    · rcases VoteSet.find?_addVote_origin present with old | ⟨rfl, -⟩
      · exact Or.inl ⟨_, c.state.round, votes, addr, table, old⟩
      · exact Or.inr (Or.inr ⟨voteType, pid, trusted, isOwn, _, proposal, List.mem_cons_self⟩)
  | install => exact Or.inl (stores_install stored)
  | reconfigure => exact Or.inl (stores_install (stores_finalizeOpt (stores_openRound stored)))
  | _ => exact Or.inl stored

theorem carries_setCache {pid : Bytes} {entry : ProposalCacheEntry}
    (carried : (c.setCache pid entry).Carries header) :
    c.Carries header ∨ entry.header = header := by
  cases carried with
  | cache id stored found same =>
    have found' : (if id = pid then some entry else c.cache id) = some stored := found
    split at found'
    · cases found'
      exact Or.inr same
    · exact Or.inl (.cache id stored found' same)
  | message id round proposal stored same => exact Or.inl (.message id round proposal stored same)
  | current proposal held same => exact Or.inl (.current proposal held same)
  | locked held => exact Or.inl (.locked held)
  | valid held => exact Or.inl (.valid held)

theorem carries_cacheMessage {proposal : Propose}
    (carried : (c.cacheMessage ext proposal).Carries header) :
    c.Carries header ∨ proposal.header = header := by
  cases carried with
  | cache id stored found same => exact carries_setCache (.cache id stored found same)
  | message id round stored found same =>
    have found' : (if id = ext.proposalId proposal.header ∧
        round = proposal.round then some proposal
      else c.messages id round) = some stored := found
    split at found'
    · cases found'
      exact Or.inr same
    · exact Or.inl (.message id round stored found' same)
  | current proposal held same => exact Or.inl (.current proposal held same)
  | locked held => exact Or.inl (.locked held)
  | valid held => exact Or.inl (.valid held)

theorem carries_lock {value : EpochHeader} (carried : (c.lock round value).Carries header) :
    c.Carries header ∨ value = header := by
  cases carried with
  | cache id stored found same => exact Or.inl (.cache id stored found same)
  | message id round proposal stored same => exact Or.inl (.message id round proposal stored same)
  | current proposal held same => exact Or.inl (.current proposal held same)
  | locked held | valid held => exact Or.inr (Option.some.inj held)

theorem carries_openRound {keep : Int → Bool}
    (carried : (c.openRound round keep).Carries header) : c.Carries header := by
  cases carried with
  | cache id stored found same => exact .cache id stored found same
  | message id round proposal stored same => exact .message id round proposal stored same
  | current proposal held same => cases held
  | locked held => exact .locked held
  | valid held => exact .valid held

theorem carries_setValid {value : EpochHeader}
    (carried : (c.setValid round (some value)).Carries header) :
    c.Carries header ∨ value = header := by
  cases carried with
  | cache id stored found same => exact Or.inl (.cache id stored found same)
  | message id round proposal stored same => exact Or.inl (.message id round proposal stored same)
  | current proposal held same => exact Or.inl (.current proposal held same)
  | locked held => exact Or.inl (.locked held)
  | valid held => exact Or.inr (Option.some.inj held)

theorem carries_setCurrent {proposal : Propose}
    (carried : View.Carries { c with currentProposal := some proposal } header) :
    c.Carries header ∨ proposal.header = header := by
  cases carried with
  | cache id stored found same => exact Or.inl (.cache id stored found same)
  | message id round proposal stored same => exact Or.inl (.message id round proposal stored same)
  | current _ held same => cases held; exact Or.inr same
  | locked held => exact Or.inl (.locked held)
  | valid held => exact Or.inl (.valid held)

/-- Changing the set leaves a valid value that was held before. -/
theorem carries_install {polc : Int → Option Bytes}
    {validRound : Int} {validValue : Option EpochHeader}
    (mayInstall : c.MayInstall vs polc validRound validValue)
    (carried : (c.install vs polc validRound validValue).Carries header) : c.Carries header := by
  cases carried with
  | cache id stored found same => exact .cache id stored found same
  | message id round proposal stored same => exact .message id round proposal stored same
  | current proposal held same => exact .current proposal held same
  | locked held => exact .locked held
  | valid held =>
    rcases mayInstall.valid header held with locked | valid
    · exact .locked locked
    · exact .valid valid

theorem carries_finalizeOpt {finalized : Option Finalize}
    (carried : (c.finalizeOpt finalized).Carries header) : c.Carries header := by
  cases finalized with
  | none => exact carried
  | some f => exact carried.of_same rfl rfl rfl rfl rfl

/-- A header is held only if it was before, might be proposed, or is that of a
finalize that was taken over. -/
theorem carries_move (move : Move ext inputs c c') (carried : c'.Carries header) :
    c.Carries header ∨ c.Proposable ext inputs header ∨
      ∃ f, c.MayTake ext inputs f ∧ f.header = header := by
  cases move with
  | openRound round keep => exact Or.inl (carries_openRound carried)
  | startHeight height =>
    cases carried with
    | cache id stored found same => cases found
    | message id round proposal stored same => cases stored
    | current proposal held same => cases held
    | locked held => cases held
    | valid held => cases held
  | cacheBundle value txHashes parentCommit proposable =>
    rcases carries_setCache carried with before | rfl
    · exact Or.inl before
    · exact Or.inr (Or.inl proposable)
  | cacheMessage proposal proposable =>
    rcases carries_cacheMessage carried with before | rfl
    · exact Or.inl before
    · exact Or.inr (Or.inl proposable)
  | cacheHeader f take =>
    rcases carries_setCache carried with before | rfl
    · exact Or.inl before
    · exact Or.inr (Or.inr ⟨f, take, rfl⟩)
  | setValid round pid entry known =>
    rcases carries_setValid carried with before | rfl
    · exact Or.inl before
    · exact Or.inl (.cache pid entry known rfl)
  | setCurrent pid proposal entry known value =>
    rcases carries_setCurrent carried with before | rfl
    · exact Or.inl before
    · exact Or.inl (.cache pid entry known value.symm)
  | lock pid proposal known =>
    rcases carries_lock carried with before | rfl
    · exact Or.inl before
    · exact Or.inl (.message pid c.state.round proposal known rfl)
  | restoreLock proposal round keep trusted proposable =>
    rcases carries_lock (carries_openRound carried) with before | rfl
    · exact Or.inl before
    · exact Or.inr (Or.inl proposable)
  | takeLock f take =>
    rcases carries_lock carried with before | rfl
    · exact Or.inl before
    · exact Or.inr (Or.inr ⟨f, take, rfl⟩)
  | install vs polc validRound validValue different allowed mayInstall =>
    exact Or.inl (carries_install mayInstall carried)
  | reconfigure vs polc validRound validValue finalized round keep allowed
      mayInstall =>
      exact Or.inl (carries_install mayInstall (carries_finalizeOpt (carries_openRound carried)))
  | _ => exact Or.inl (carried.of_same rfl rfl rfl rfl rfl)

/-- The log grows by votes of the engine and finalizes that it checked. -/
theorem log_move (move : Move ext inputs c c') {entry : View × Output} (listed : entry ∈ c'.log) :
    entry ∈ c.log ∨
      (∃ voteType pid vote proposal votes,
        entry = ((c.setVotes vote.voteType.table c.state.round votes).toView,
          .sendVote vote proposal) ∧
        inputs.signed vote ∧ c.OwnVote voteType pid vote ∧ c.MayVote ext voteType pid) ∨
      ∃ before f, entry = ((before.hold f).toView, .sendFinalize f) ∧
        before.MayFinalize ext f ∧ (before = c ∨ ∃ vs polc validRound
          validValue, inputs.reconfigure c.toView vs ∧ c.MayInstall vs polc validRound validValue ∧
          before = c.install vs polc validRound validValue) := by
  cases move with
  | cast voteType pid vote proposal votes member own trusted stored fresh
      mayVote =>
      rcases List.mem_cons.mp listed with rfl | before
      · exact Or.inr (Or.inl ⟨voteType, pid, vote, proposal, _, rfl, trusted, own, mayVote⟩)
      · exact Or.inl before
  | finalize f mayFinalize =>
    rcases List.mem_cons.mp listed with rfl | before
    · exact Or.inr (Or.inr ⟨c, f, rfl, mayFinalize, Or.inl rfl⟩)
    · exact Or.inl before
  | reconfigure vs polc validRound validValue finalized round keep allowed
      mayInstall mayFinalize =>
      cases finalized with
      | none => exact Or.inl listed
      | some f =>
        rcases List.mem_cons.mp listed with rfl | before
        · exact Or.inr (Or.inr ⟨_, f, rfl, mayFinalize f rfl,
            Or.inr ⟨vs, polc, validRound, validValue, allowed, mayInstall, rfl⟩⟩)
        · exact Or.inl before
  | _ => exact Or.inl listed

end Core
end LiteNode
