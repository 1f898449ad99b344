import LiteNode.Engine.Placement

/-!
# Moves of the small operations

Counting votes, learning of proposals and proofs of lock, and opening a round,
as moves. Each operation also leaves most of the engine's data alone; a frame
equation says which fields it may change.
-/

namespace LiteNode
namespace EngineData

/-- Data with the same references and cells. -/
structure SamePlaces (t t' : EngineData) : Prop where
  cells : t'.cells = t.cells
  table : ∀ kind, t'.table kind = t.table kind
  prevotes : t'.prevotes = t.prevotes
  precommits : t'.precommits = t.precommits
  round : t'.state.round = t.state.round

theorem SamePlaces.separated {t t' : EngineData} (same : SamePlaces t t')
    (separated : t.Separated) : t'.Separated := by
  have place_eq : t'.place = t.place := by
    funext name
    rw [EngineData.place, EngineData.place, same.table]
  unfold EngineData.Separated
  rw [place_eq, same.cells]
  exact separated

theorem Fit.of_same {t t' : EngineData} (fit : t.Fit) (same : SamePlaces t t') : t'.Fit where
  prevotes := by
    rw [same.round, same.prevotes, show t'.prevotesByRound =
      t.prevotesByRound from same.table .prevote]
    exact fit.prevotes
  precommits := by
    rw [same.round, same.precommits, show t'.precommitsByRound =
      t.precommitsByRound from same.table .precommit]
    exact fit.precommits
  round_nonneg := by
    rw [same.round]
    exact fit.round_nonneg
  separated := same.separated fit.separated

theorem SamePlaces.votesAt {t t' : EngineData} (same : SamePlaces t t') :
    t'.votesAt = t.votesAt := by
  funext kind round
  rw [EngineData.votesAt, EngineData.votesAt, same.table, same.cells]

end EngineData

namespace Engine

/-- The first engine's data with what the second knows of proposals. -/
def informed (t t' : Engine) : EngineData :=
  { t.toEngineData with
    state := { t.state with
      validRound := t'.state.validRound
      validValue := t'.state.validValue }
    proposalCache := t'.proposalCache
    proposalMessages := t'.proposalMessages
    polcByRound := t'.polcByRound }

/-- Nothing changed but the known proposals, the proofs of lock and the valid
value. -/
def Learns (t t' : Engine) : Prop := t'.toEngineData = informed t t'

namespace Learns

variable {t t' t'' : Engine}

theorem refl (t : Engine) : Learns t t := rfl

/-- Any field that the equation leaves alone is the same. -/
theorem field (learns : Learns t t') (get : EngineData → α) :
    get t'.toEngineData = get (informed t t') :=
  congrArg get learns

theorem trans (first : Learns t t') (second : Learns t' t'') : Learns t t'' := by
  have middle : t'.toEngineData = informed t t' := first
  refine Eq.trans second ?_
  unfold informed at *
  rw [middle]

theorem samePlaces (learns : Learns t t') : t.SamePlaces t'.toEngineData where
  cells := learns.field EngineData.cells
  table kind := by
    cases kind
    · exact learns.field EngineData.prevotesByRound
    · exact learns.field EngineData.sourcePrevotes
    · exact learns.field EngineData.precommitsByRound
  prevotes := learns.field EngineData.prevotes
  precommits := learns.field EngineData.precommits
  round := learns.field fun data => data.state.round

theorem policy (learns : Learns t t') : t'.policy = t.policy := learns.field EngineData.policy

theorem vs (learns : Learns t t') : t'.vs = t.vs := learns.field EngineData.vs

theorem myAddr (learns : Learns t t') : t'.myAddr = t.myAddr := learns.field EngineData.myAddr

theorem round (learns : Learns t t') : t'.state.round = t.state.round := learns.samePlaces.round

theorem height (learns : Learns t t') : t'.state.height = t.state.height :=
  learns.field fun data => data.state.height

theorem setting (learns : Learns t t') : t'.core.setting = t.core.setting :=
  learns.field fun data => data.view.setting

theorem prevotesShow (learns : Learns t t') {pid : Bytes}
    (shown : t.core.PrevotesShow pid) : t'.core.PrevotesShow pid := by
  obtain ⟨votes, stored, shows⟩ := shown
  refine ⟨votes, ?_, ?_⟩
  · have places := learns.samePlaces
    have stored' : t.votesAt .prevote t.state.round = some votes := stored
    change t'.votesAt .prevote t'.state.round = some votes
    rw [places.votesAt, places.round]
    exact stored'
  · change VoteSet.ShowsQuorum t'.policy votes t'.state.height t'.vs pid
    rw [learns.policy, learns.vs, learns.height]
    exact shows

end Learns

variable {ext : Externals} {inputs : Inputs} {t : Engine}

variable {round : Int}

theorem core_write (separated : t.Separated) {kind : TableKind} {ref : Ref}
    (stored : (t.table kind).find? round = some ref) (votes : VoteSet) :
    ({ t with cells := t.cells.write ref votes } : Engine).core =
      t.core.setVotes kind round votes := by
  have votes_eq : ({ t with cells := t.cells.write ref votes } :
      EngineData).votesAt = (t.core.setVotes kind round votes).votes := by
    funext other r
    exact EngineData.votesAt_write separated stored votes other r
  unfold core EngineData.view Core.setVotes
  simp only
  exact congrArg (fun table => ({ t.core with votes := table } : Core)) votes_eq

theorem fit_write (fit : t.Fit) (ref : Ref) (votes : VoteSet) :
    ({ t with cells := t.cells.write ref votes } : Engine).Fit :=
  EngineData.Fit.write fit ref votes

/-- Counting a vote in the cell of its round is a move. -/
theorem evolves_addVoteAt (fit : t.Fit) {kind : TableKind} {ref : Ref} {vote : Vote}
    {set : ValidatorSet} (stored : (t.table kind).find? vote.round = some ref)
    (counting : t.core.countingSet kind = some set)
    (trusted : inputs.vote vote) (epoch : vote.epochId = t.state.height)
    (type : vote.voteType = kind.voteType) : Evolves ext inputs t (t.addVoteAt ref vote set).1 := by
  refine Evolves.of_move (fit_write fit ref _) ?_
  have move : Move ext inputs t.core _ := Move.count kind vote
    (t.cells.read ref) set (EngineData.votesAt_eq stored) counting trusted
    epoch type
  rw [show (t.addVoteAt ref vote set).1.core = _ from core_write fit.separated stored _]
  exact move

theorem core_allocTable (separated : t.Separated) (kind : TableKind) (round : Int) :
    ({ t with toEngineData := t.allocTable kind round } : Engine).core =
      t.core.setVotes kind round createVoteSet := by
  have votes_eq : (t.allocTable kind round).votesAt =
      (t.core.setVotes kind round createVoteSet).votes := by
    funext other r
    exact EngineData.votesAt_allocTable separated kind other round r
  have view_eq : (t.allocTable kind round).view =
      { t.view with votes := (t.allocTable kind round).votesAt } := by
    cases kind <;> rfl
  change ({ (t.allocTable kind round).view with log := _ } : Core) = _
  rw [view_eq, votes_eq]
  rfl

/-- Creating the vote set of a round is a move. -/
theorem evolves_allocTable (fit : t.Fit) (kind : TableKind)
    (absent : (t.table kind).find? round = none) :
    Evolves ext inputs t { t with toEngineData := t.allocTable kind round } := by
  refine Evolves.of_move (fit.allocTable absent) ?_
  rw [core_allocTable fit.separated]
  refine Move.openTable kind round ?_
  change t.votesAt kind round = none
  simp [EngineData.votesAt, absent]

theorem evolves_sourceVotesAt (fit : t.Fit) (round : Int) :
    Evolves ext inputs t (t.sourceVotesAt round).1 := by
  unfold sourceVotesAt
  split
  · exact Evolves.refl fit
  · next absent => exact evolves_allocTable fit .source absent

theorem evolves_prevotesAt (fit : t.Fit) (round : Int) :
    Evolves ext inputs t (t.prevotesAt round).1 := by
  unfold prevotesAt
  split
  · exact Evolves.refl fit
  · next absent => exact evolves_allocTable fit .prevote absent

theorem evolves_precommitsAt (fit : t.Fit) (round : Int) :
    Evolves ext inputs t (t.precommitsAt round).1 := by
  unfold precommitsAt
  split
  · exact Evolves.refl fit
  · next absent => exact evolves_allocTable fit .precommit absent

theorem find?_sourceVotesAt (t : Engine) (round : Int) :
    ((t.sourceVotesAt round).1.table .source).find? round = some (t.sourceVotesAt round).2 := by
  unfold sourceVotesAt
  split
  · next saved found => exact found
  · exact Table.find?_replace _ _ _

theorem find?_prevotesAt (t : Engine) (round : Int) :
    ((t.prevotesAt round).1.table .prevote).find? round = some (t.prevotesAt round).2 := by
  unfold prevotesAt
  split
  · next saved found => exact found
  · exact Table.find?_replace _ _ _

theorem find?_precommitsAt (t : Engine) (round : Int) :
    ((t.precommitsAt round).1.table .precommit).find? round = some (t.precommitsAt round).2 := by
  unfold precommitsAt
  split
  · next saved found => exact found
  · exact Table.find?_replace _ _ _

theorem learns_promoteKnownHeader (t : Engine) (round : Int) (pid : Bytes) :
    Learns t (t.promoteKnownHeader round pid) := by
  unfold promoteKnownHeader
  split
  · split
    · exact Learns.refl t
    · rfl
  · exact Learns.refl t

theorem learns_recordPolc (t : Engine) (round : Int) (pid : Bytes) :
    Learns t (t.recordPolc round pid) := by
  unfold recordPolc
  split
  · exact Learns.refl t
  · have recorded : Learns t { t with
      polcByRound := t.polcByRound.replace round pid
      polcRequests := t.polcRequests.remove round } := rfl
    exact recorded.trans (learns_promoteKnownHeader _ _ _)

theorem evolves_promoteKnownHeader (fit : t.Fit) (round : Int) (pid : Bytes) :
    Evolves ext inputs t (t.promoteKnownHeader round pid) := by
  have fit' := fit.of_same (learns_promoteKnownHeader t round pid).samePlaces
  unfold promoteKnownHeader at fit' ⊢
  split
  · next above =>
    rw [if_pos above] at fit'
    unfold EngineData.findHeader at fit' ⊢
    cases known : t.proposalCache.find? pid with
    | none => exact Evolves.refl fit
    | some entry =>
      simp only [known, Option.map_some] at fit' ⊢
      exact Evolves.of_move fit' (Move.setValid round pid entry known)
  · exact Evolves.refl fit

/-- Recording a proof of lock that is backed is a move. -/
theorem evolves_recordPolc (fit : t.Fit) {pid : Bytes} (origin : isNil pid = false →
      t.core.Supports round pid ∨ inputs.polc round pid ∨
        ∃ f, t.core.MayTake ext inputs f ∧ round = f.commitRound ∧ pid = f.proposalId) :
    Evolves ext inputs t (t.recordPolc round pid) := by
  unfold recordPolc
  split
  · exact Evolves.refl fit
  · next proper =>
    have proper' : isNil pid = false := by simpa using proper
    let recorded : Engine := { t with
      polcByRound := t.polcByRound.replace round pid
      polcRequests := t.polcRequests.remove round }
    have fit' : recorded.Fit := fit.of_same ⟨rfl, fun _ => rfl, rfl, rfl, rfl⟩
    have core_eq : recorded.core = t.core.recordPolc round pid := by
      have polc_eq : recorded.polcByRound.find? = (t.core.recordPolc round pid).polc := by
        funext r
        exact Table.find?_replace_eq_ite _ _ _ _
      exact congrArg (fun table => ({ t.core with polc := table } : Core)) polc_eq
    have first : Evolves ext inputs t recorded := by
      refine Evolves.of_move fit' ?_
      rw [core_eq]
      exact Move.recordPolc round pid proper' (origin proper')
    exact first.trans (evolves_promoteKnownHeader fit' round pid)

theorem learns_promoteCachedPolc (t : Engine) (pid : Bytes) :
    Learns t (t.promoteCachedPolc pid) := by
  unfold promoteCachedPolc
  generalize t.polcByRound.toList = entries
  induction entries generalizing t with
  | nil => exact Learns.refl t
  | cons entry rest ih =>
    rw [List.foldl_cons]
    refine Learns.trans ?_ (ih _)
    split
    · exact learns_promoteKnownHeader _ _ _
    · exact Learns.refl t

theorem evolves_promoteCachedPolc (fit : t.Fit) (pid : Bytes) :
    Evolves ext inputs t (t.promoteCachedPolc pid) := by
  unfold promoteCachedPolc
  generalize t.polcByRound.toList = entries
  induction entries generalizing t with
  | nil => exact Evolves.refl fit
  | cons entry rest ih =>
    rw [List.foldl_cons]
    have first : Evolves ext inputs t
        (if entry.2 = pid then t.promoteKnownHeader entry.1 pid else t) := by
      split
      · exact evolves_promoteKnownHeader fit _ _
      · exact Evolves.refl fit
    exact first.trans (ih first.fit)

theorem core_setCache (t : Engine) (pid : Bytes) (entry : ProposalCacheEntry) :
    ({ t with proposalCache := t.proposalCache.replace pid entry } :
      Engine).core = t.core.setCache pid entry := by
  have cache_eq : (t.proposalCache.replace pid entry).find? =
      (t.core.setCache pid entry).cache := by
    funext id
    exact Table.find?_replace_eq_ite _ _ _ _
  exact congrArg (fun table => ({ t.core with cache := table } : Core)) cache_eq

/-- The engine once a proposal is stored, before any promotion. -/
def storeMessage (ext : Externals) (t : Engine) (proposal : Propose) : Engine :=
  let pid := ext.proposalId proposal.header
  { t.cacheProposalBundle pid proposal.header proposal.txHashes
      proposal.parentCommit with
    proposalMessages := t.proposalMessages.replace (pid, proposal.round) proposal }

theorem cacheProposalMessage_eq (t : Engine) (proposal : Propose) :
    t.cacheProposalMessage ext proposal =
      (storeMessage ext t proposal).promoteCachedPolc (ext.proposalId proposal.header) := rfl

theorem core_storeMessage (t : Engine) (proposal : Propose) :
    (storeMessage ext t proposal).core = t.core.cacheMessage ext proposal := by
  have messages_eq : (fun pid round =>
      (storeMessage ext t proposal).proposalMessages.find? (pid, round)) =
        (t.core.cacheMessage ext proposal).messages := by
    funext id round
    refine (Table.find?_replace_eq_ite _ _ _ _).trans ?_
    simp only [Prod.mk.injEq]
    rfl
  have cache_eq := congrArg Core.toView (core_setCache t
    (ext.proposalId proposal.header)
    ⟨proposal.header, some proposal.txHashes, proposal.parentCommit⟩)
  have cache_eq' := congrArg View.cache cache_eq
  change ({ t.core with
    cache := _
    messages := fun pid round =>
      (storeMessage ext t proposal).proposalMessages.find? (pid, round) } :
      Core) = _
  rw [messages_eq]
  exact congrArg (fun table => ({ t.core with
    cache := table
    messages := (t.core.cacheMessage ext proposal).messages } : Core))
    cache_eq'

theorem learns_cacheProposalMessage (ext : Externals) (t : Engine) (proposal : Propose) :
    Learns t (t.cacheProposalMessage ext proposal) := by
  rw [cacheProposalMessage_eq]
  have stored : Learns t (storeMessage ext t proposal) := rfl
  exact stored.trans (learns_promoteCachedPolc _ _)

theorem evolves_cacheProposalMessage (fit : t.Fit) {proposal : Propose}
    (proposable : t.core.Proposable ext inputs proposal.header) :
    Evolves ext inputs t (t.cacheProposalMessage ext proposal) := by
  rw [cacheProposalMessage_eq]
  have fit' : (storeMessage ext t proposal).Fit := fit.of_same ⟨rfl, fun _ => rfl, rfl, rfl, rfl⟩
  have first : Evolves ext inputs t (storeMessage ext t proposal) := by
    refine Evolves.of_move fit' ?_
    rw [core_storeMessage]
    exact Move.cacheMessage proposal proposable
  exact first.trans (evolves_promoteCachedPolc fit' _)

end Engine
end LiteNode
