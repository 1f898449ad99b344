import LiteNode.Duty.Keeping
import LiteNode.Duty.Reload

/-!
# Reachable states can be stored

A call whose addresses, hashes and epochs can be stored leaves a state that can
be stored. A call that is refused changes nothing.
-/

namespace LiteNode
namespace SetFold

def StorableAddresses (addresses : List Bytes) : Prop := ∀ address ∈ addresses, address ≠ []

/-- Hashes of 32 bytes, addresses that are not empty and a round in range. -/
structure StorableCommit (ext : Externals) (commit : ParentCommit) : Prop where
  proposalId : commit.certificate.proposalId.length = 32
  setHash : (ext.validatorSetHash commit.validatorSet).length = 32
  round : 0 ≤ commit.certificate.commitRound ∧ commit.certificate.commitRound ≤ maxRound
  signers : StorableAddresses (commit.certificate.precommits.map Vote.validator)
  active : StorableAddresses (commit.validatorSet.validators.map ValidatorInfo.address)

/-- What a call brings can be stored; its epoch is an integer of 64 bits. -/
def Call.Storable (ext : Externals) : Call → Prop
  | .noteSet epoch active => FitsBits int64Bits epoch ∧ StorableAddresses active
  | .noteFinal _ epoch active final signers =>
    FitsBits int64Bits epoch ∧ StorableAddresses active ∧
      StorableAddresses signers ∧ final.proposalId.length = 32 ∧ final.setHash.length = 32 ∧
      ∀ round, final.round = some round → 0 ≤ round ∧ round ≤ maxRound
  | .notePulse _ _ epoch _ _ => FitsBits int64Bits epoch
  | .applyProof _ _ _ _ address _ => address ≠ []
  | .applyMarkClaims _ _ _ _ address _ _ => address ≠ []
  | .delay _ => True
  | .lock _ => True
  | .advance _ _ _ _ epoch parent =>
    FitsBits int64Bits epoch ∧ ∀ commit, parent = some commit → StorableCommit ext commit

variable {cfg : Cfg} {marks : Marks}

theorem storedMarks_emptyMarks (cfg : Cfg) : StoredMarks cfg emptyMarks := by
  have none : emptyMarks.epochs = [] := rfl
  constructor
  · exact le_refl _
  · intro epoch marked
    rw [none] at marked
    cases marked
  · intro epoch marked
    rw [none] at marked
    cases marked

theorem StoredMarks.prune (stored : StoredMarks cfg marks) (epoch : Int) :
    StoredMarks cfg (pruneMarks cfg epoch marks) := by
  have floor := floor_pruneMarks cfg epoch marks
  have nonneg := stored.floor
  constructor
  · omega
  · intro marked present
    exact stored.fits marked ((mem_epochs_pruneMarks cfg epoch marked).mp present).1
  · intro marked present
    have near := stored.near marked ((mem_epochs_pruneMarks cfg epoch marked).mp present).1
    omega

variable {epoch : Int} {capMode : CapMode} {address chainId : Bytes} {state' : State}
  {active : List Bytes} {final : Final} {ext : Externals} {claims : List MarkClaim}

theorem mem_epochs_of_addMark {marked : Int} (present : marked ∈ (addMark cfg epoch marks).epochs) :
    marked = epoch ∨ marked ∈ marks.epochs := by
  by_cases above : marks.floor ≤ epoch ∧ floorEpoch cfg epoch ≤ epoch
  · exact ((mem_epochs_addMark cfg above.1 above.2 marked).mp present).imp id And.left
  · have skipped : addMark cfg epoch marks = pruneMarks cfg epoch marks := by
      have floor := floor_pruneMarks cfg epoch marks
      unfold addMark
      dsimp only
      rw [if_pos (by omega)]
    rw [skipped] at present
    exact Or.inr ((mem_epochs_pruneMarks cfg epoch marked).mp present).1

theorem StoredMarks.add (stored : StoredMarks cfg marks) (fits : epoch < 2 ^ 63)
    (valid : validateCfg cfg = .ok ()) : StoredMarks cfg (addMark cfg epoch marks) := by
  have floor := floor_addMark cfg epoch marks
  have nonneg := stored.floor
  have span := span_of_validateCfg valid
  have close : epoch - floorEpoch cfg epoch ≤ markSpan cfg := by
    unfold floorEpoch markSpan
    dsimp only
    split <;> omega
  constructor
  · omega
  · intro marked present
    rcases mem_epochs_of_addMark present with rfl | former
    · exact fits
    · exact stored.fits marked former
  · intro marked present
    rcases mem_epochs_of_addMark present with rfl | former
    · omega
    · have near := stored.near marked former
      omega

theorem maxMembers_of_validateCfg (valid : validateCfg cfg = .ok ()) : cfg.maxMembers ≤ 200 := by
  unfold validateCfg at valid
  repeat
    split at valid
    · cases valid
  omega

/-- Every member can be stored and is kept under its address. -/
def StoredTable (cfg : Cfg) (table : StringMap Member) : Prop :=
  table.All fun key member => StoredMember cfg member ∧ member.address = key

variable {table : StringMap Member} {members : List Member}

def StoredMembers (cfg : Cfg) (members : List Member) : Prop :=
  members.Pairwise (fun left right => left.address < right.address) ∧
    ∀ member ∈ members, StoredMember cfg member

theorem storedTable_tableOfMembers (stored : ∀ member ∈ members, StoredMember cfg member) :
    StoredTable cfg (tableOfMembers members) :=
  StringMap.all_ofList fun member listed => ⟨stored member listed, rfl⟩

theorem StoredTable.values (stored : StoredTable cfg table) : StoredMembers cfg table.values := by
  constructor
  · exact ordered_values fun entry bound => (stored entry bound).2
  · intro member listed
    obtain ⟨key, here, -⟩ := exists_key_of_mem_values stored listed
    exact here

theorem StoredMember.prune {member : Member} (stored : StoredMember cfg member) (epoch : Int) :
    StoredMember cfg (pruneMember cfg epoch member) :=
  ⟨stored.address, stored.phase, stored.marks.prune epoch⟩

theorem StoredTable.limit (stored : StoredTable cfg table) {table' : StringMap Member}
    (limited : limitTable cfg capMode epoch table = .ok table') : StoredTable cfg table' :=
  all_limitTable stored (fun _ _ here => ⟨here.1.prune epoch, here.2⟩) limited

theorem storedMember_shadowMember (nonempty : address ≠ []) :
    StoredMember cfg (shadowMember address) :=
  ⟨nonempty, trivial, storedMarks_emptyMarks cfg⟩

theorem storedMember_liveMember (nonempty : address ≠ []) (fits : FitsBits int64Bits epoch) :
    StoredMember cfg (liveMember epoch address) :=
  ⟨nonempty, fits, storedMarks_emptyMarks cfg⟩

variable {state : State}

theorem Stored.withMembers (stored : Stored cfg state) (members : StoredMembers cfg members') :
    Stored cfg { state with members := members' } :=
  ⟨members.1, members.2, stored.epochs, stored.finals, stored.safeAfter,
    stored.applied, stored.seats⟩

theorem Stored.limited (stored : Stored cfg state) (storedTable : StoredTable cfg table)
    (done : limited cfg capMode epoch state table = .ok state') : Stored cfg state' := by
  unfold SetFold.limited at done
  cases kept : limitTable cfg capMode epoch table with
  | error reason =>
    rw [kept] at done
    cases done
  | ok table' =>
    rw [kept] at done
    cases done
    exact stored.withMembers (storedTable.limit kept).values

theorem StoredMember.sync {member : Member} (stored : StoredMember cfg member)
    (fits : FitsBits int64Bits epoch) (active : List Bytes) :
    StoredMember cfg (syncMember cfg epoch active member) := by
  refine ⟨stored.address, ?_, stored.marks.prune epoch⟩
  have phase := stored.phase
  unfold syncMember
  dsimp only
  split
  · next since same =>
    rw [same] at phase
    exact phase
  · exact fits
  · trivial
  · next pulse same =>
    rw [same] at phase
    exact phase

theorem StoredTable.addActive (stored : StoredTable cfg table) (fits : FitsBits int64Bits epoch)
    (storable : StorableAddresses active) :
    StoredTable cfg (active.foldl (addActive epoch) table) :=
  all_addActive stored fun address listed =>
    ⟨storedMember_liveMember (storable address listed) fits, rfl⟩

theorem StorableAddresses.sortUniq
    {addresses : List Bytes} (storable : StorableAddresses addresses) :
    StorableAddresses (sortUniq addresses) := by
  intro address listed
  rw [LiteNode.sortUniq, List.mem_dedup, mem_sortByKey] at listed
  exact storable address listed

theorem Stored.sync (stored : Stored cfg state) (fits : FitsBits int64Bits epoch)
    (storable : StorableAddresses active) (synced : sync cfg epoch active state = .ok state') :
    Stored cfg state' := by
  unfold SetFold.sync at synced
  dsimp only at synced
  split at synced
  · cases synced
  · cases synced
    have table : StoredTable cfg (tableOfMembers
        (state.members.map (syncMember cfg epoch (LiteNode.sortUniq active)))) := by
      apply storedTable_tableOfMembers
      intro member listed
      obtain ⟨former, present, rfl⟩ := List.mem_map.mp listed
      exact (stored.members former present).sync fits _
    have members := (table.addActive fits storable.sortUniq).values
    exact stored.withMembers ⟨members.1.filter _, fun member listed =>
      members.2 member (List.mem_of_mem_filter listed)⟩

theorem Stored.delay (stored : Stored cfg state)
    (delayed : delay cfg epoch state = .ok state') : Stored cfg state' := by
  unfold SetFold.delay at delayed
  split at delayed
  · cases delayed
  split at delayed
  · cases delayed
  cases delayed
  refine ⟨stored.ordered, stored.members, stored.epochs, stored.finals, ?_,
    stored.applied, stored.seats⟩
  have wraps : ∀ left right, FitsBits int64Bits (int64Add left right) := by
    intro left right
    have low := Int.le_bmod (x := left + right) (m := 2 ^ 64) (by decide)
    have high := Int.bmod_lt (x := left + right) (m := 2 ^ 64) (by decide)
    unfold FitsBits int64Bits int64Add
    constructor
    · simpa using low
    · simpa using high
  dsimp only
  rcases max_choice state.safeAfter
    (int64Add epoch (int64Add cfg.window cfg.challenge)) with same | same
  · rw [same]
    exact stored.safeAfter
  · rw [same]
    exact wraps _ _

theorem Stored.lock (stored : Stored cfg state)
    {locked : State × Bool} (done : lock cfg active state = .ok locked) : Stored cfg locked.1 := by
  unfold SetFold.lock at done
  split at done
  · cases done
  next valid =>
  have limits := maxMembers_of_validateCfg valid
  split at done
  · split at done
    · cases done
    · cases done
      exact stored
  · dsimp only at done
    split at done
    · cases done
    · cases done
      refine ⟨stored.ordered, stored.members, stored.epochs, stored.finals,
        stored.safeAfter, stored.applied, fun seats here => ?_⟩
      cases here
      omega

theorem StoredTable.addSigners
    (stored : StoredTable cfg table) (valid : validateCfg cfg = .ok ()) (fits : epoch < 2 ^ 63) {signers : List Bytes}
    (storable : StorableAddresses signers) :
    StoredTable cfg (signers.foldl (addSigner cfg epoch) table) := by
  apply all_addSigners stored
  · exact fun signer listed => ⟨storedMember_shadowMember (storable signer listed), rfl⟩
  · rintro signer member ⟨here, own⟩
    exact ⟨⟨here.address, here.phase, here.marks.add fits valid⟩, own⟩

def StoredFinals (finals : List Final) : Prop :=
  finals.Pairwise (fun left right => left.epoch < right.epoch) ∧ ∀ final ∈ finals, StoredFinal final

theorem pairwise_sortFinals (finals : List Final) :
    (sortFinals finals).Pairwise fun left right => left.epoch ≤ right.epoch := by
  have total : Std.Total fun left right : Final => left.epoch ≤ right.epoch :=
    ⟨fun left right => le_total left.epoch right.epoch⟩
  have transitive : IsTrans Final fun left right => left.epoch ≤ right.epoch :=
    ⟨fun _ _ _ => le_trans⟩
  exact List.pairwise_insertionSort _ finals

theorem StoredFinals.retain {finals : List Final} (stored : StoredFinals finals) (epoch : Int) :
    StoredFinals (retainFinals cfg epoch finals) :=
  ⟨stored.1.filter _, fun final listed => stored.2 final (List.mem_of_mem_filter listed)⟩

theorem StoredFinals.put
    {finals finals' : List Final} (stored : StoredFinals finals) (storedFinal : StoredFinal final)
    (put : putFinal cfg epoch final finals = .ok finals') : StoredFinals finals' := by
  unfold putFinal at put
  split at put
  · split at put
    · cases put
      exact stored.retain epoch
    · cases put
  · next missing =>
    cases put
    have differ : ∀ other ∈ finals, other.epoch ≠ final.epoch := by
      intro other listed same
      have absent := List.find?_eq_none.mp missing other listed
      exact absent (decide_eq_true same)
    have distinct : (final :: finals).Pairwise
        fun left right => left.epoch ≠ right.epoch :=
      List.pairwise_cons.mpr ⟨fun other listed => (differ other listed).symm, stored.1.imp ne_of_lt⟩
    have kept : (retainFinals cfg epoch (final :: finals)).Pairwise
        fun left right => left.epoch ≠ right.epoch := by
      unfold retainFinals
      exact distinct.filter _
    have sorted := List.perm_insertionSort (fun left right : Final =>
      left.epoch ≤ right.epoch) (retainFinals cfg epoch (final :: finals))
    constructor
    · have unequal : (sortFinals (retainFinals cfg epoch
          (final :: finals))).Pairwise
          fun left right => left.epoch ≠ right.epoch :=
        (sorted.pairwise_iff fun unequal => unequal.symm).mpr kept
      exact ((pairwise_sortFinals _).and unequal).imp fun both => lt_of_le_of_ne both.1 both.2
    · intro other listed
      have present := List.mem_of_mem_filter (sorted.mem_iff.mp listed)
      rcases List.mem_cons.mp present with rfl | former
      · exact storedFinal
      · exact stored.2 other former

theorem Stored.noteFinalStep (stored : Stored cfg state) (capMode : CapMode)
    (fits : FitsBits int64Bits epoch) {signers : List Bytes}
    (storableActive : StorableAddresses active) (storableSigners : StorableAddresses signers)
    (proposalId : final.proposalId.length = 32) (setHash : final.setHash.length = 32)
    (round : ∀ round, final.round = some round → 0 ≤ round ∧ round ≤ maxRound) :
    Stored cfg (noteFinalStep capMode cfg epoch active final signers state).reached := by
  unfold SetFold.noteFinalStep
  split
  · exact stored
  next valid =>
  split
  · exact stored
  next positive =>
  split
  · exact stored
  next parent =>
  have below : epoch < 2 ^ 63 := fits.2
  have storedFinal : StoredFinal final := ⟨by omega, by omega, proposalId, setHash, round⟩
  split
  · exact stored
  next synced moved =>
  have stored' := stored.sync fits storableActive moved
  have table := (storedTable_tableOfMembers stored'.members).addSigners valid
    storedFinal.fits storableSigners.sortUniq
  dsimp only
  split
  · exact stored'
  next kept limited =>
  have listed := stored'.withMembers (table.limit limited).values
  split
  · exact listed
  · next finals put =>
    have storedFinals := StoredFinals.put ⟨stored'.epochs, stored'.finals⟩ storedFinal put
    exact ⟨listed.ordered, listed.members, storedFinals.1, storedFinals.2,
      listed.safeAfter, listed.applied, listed.seats⟩

/-! ## Pulses and claims -/

theorem storedPulse_advancePulse {credit : Int} (nonneg : 0 ≤ epoch) (fits : epoch < 2 ^ 63)
    (past : credit ≤ epoch) {prior : Option Pulse}
    (stored : ∀ pulse, prior = some pulse → StoredPulse pulse) {pulse : Pulse}
    (advanced : advancePulse cfg epoch credit prior = .ok pulse) : StoredPulse pulse := by
  have fresh : StoredPulse ⟨epoch, epoch, 1⟩ := ⟨nonneg, le_refl _, fits, le_refl _⟩
  unfold advancePulse at advanced
  split at advanced
  · cases advanced
    exact fresh
  next former =>
  have storedFormer := stored former rfl
  split at advanced
  · cases advanced
  split at advanced
  · cases advanced
    exact storedFormer
  split at advanced
  · split at advanced
    · cases advanced
      exact storedFormer
    · next later =>
      cases advanced
      obtain ⟨first, ordered, -, count⟩ := storedFormer
      refine ⟨first, ?_, ?_, ?_⟩ <;> dsimp only <;> omega
  · cases advanced
    exact fresh

theorem Stored.notePulse
    (stored : Stored cfg state) {credit : Option Int} (fits : FitsBits int64Bits epoch) {active : Bool}
    (noted : notePulse capMode credit cfg epoch active address state = .ok state') :
    Stored cfg state' := by
  unfold SetFold.notePulse at noted
  dsimp only at noted
  split at noted
  · cases noted
  split at noted
  · cases noted
  next nonempty =>
  split at noted
  · cases noted
  next nonneg =>
  split at noted
  · cases noted
  next past =>
  split at noted
  · cases noted
    exact stored
  split at noted
  · cases noted
  next pulse advanced =>
  obtain ⟨member, own⟩ := @all_getD _ _ (storedTable_tableOfMembers stored.members)
    address (shadowMember address) ⟨storedMember_shadowMember nonempty, rfl⟩
  have prior : ∀ former, priorPulse
      (((tableOfMembers state.members).find? address).getD
        (shadowMember address)) = some former → StoredPulse former := by
    intro former same
    have phase := member.phase
    unfold priorPulse at same
    split at same
    · cases same
    · next pulse shadow =>
      rw [shadow, same] at phase
      exact phase
  have below : epoch < 2 ^ 63 := fits.2
  have storedPulse := storedPulse_advancePulse (by omega) below (by omega) prior advanced
  refine stored.limited ?_ noted
  exact StringMap.All.add (storedTable_tableOfMembers stored.members)
    ⟨⟨member.address, storedPulse, member.marks.prune epoch⟩, own⟩

theorem Stored.storedFinal (stored : Stored cfg state)
    (found : findFinal epoch state = some final) : StoredFinal final ∧ final.epoch = epoch := by
  unfold findFinal findFinalIn at found
  have same := List.find?_some found
  exact ⟨stored.finals final (List.mem_of_find?_eq_some found), of_decide_eq_true same⟩

theorem storedMember_markedMember (stored : Stored cfg state) (nonempty : address ≠ [])
    (active : Bool) (fits : FitsBits int64Bits epoch) :
    StoredMember cfg (markedMember (tableOfMembers state.members) active epoch
        address) ∧
      (markedMember (tableOfMembers state.members) active epoch address).address = address := by
  apply all_getD (storedTable_tableOfMembers stored.members)
  cases active with
  | true => exact ⟨storedMember_liveMember nonempty fits, rfl⟩
  | false => exact ⟨storedMember_shadowMember nonempty, rfl⟩

theorem Stored.applyProof (stored : Stored cfg state) (valid : validateCfg cfg = .ok ())
    {active : Bool} (nonempty : address ≠ []) {proof : Proof}
    (applied : applyProof ext capMode cfg chainId epoch active address proof state = .ok state') :
    Stored cfg state' := by
  unfold SetFold.applyProof at applied
  split at applied
  · cases applied
  next verified =>
  have final : ∃ final, findFinal proof.vote.epochId state = some final := by
    unfold verifyProof at verified
    dsimp only at verified
    split at verified
    · cases verified
    split at verified
    · cases verified
    split at verified
    · cases verified
    · next final found => exact ⟨final, found⟩
  obtain ⟨final, found⟩ := final
  obtain ⟨storedFinal, same⟩ := stored.storedFinal found
  have nonneg := storedFinal.nonneg
  have fits := storedFinal.fits
  rw [same] at nonneg fits
  obtain ⟨member, own⟩ := storedMember_markedMember stored nonempty active
    (fits_of_nonneg nonneg fits)
  refine stored.limited ?_ applied
  exact StringMap.All.add (storedTable_tableOfMembers stored.members)
    ⟨⟨member.address, member.phase, member.marks.add fits valid⟩, own⟩

theorem StoredMarks.addAll
    (stored : StoredMarks cfg marks) (valid : validateCfg cfg = .ok ()) (fits : ∀ claim ∈ claims, claim.epoch < 2 ^ 63) :
    StoredMarks cfg
      (claims.foldl (fun marks claim => addMark cfg claim.epoch marks) marks) := by
  induction claims generalizing marks with
  | nil => exact stored
  | cons claim rest ih =>
    rw [List.foldl_cons]
    exact ih
      (stored.add (fits claim List.mem_cons_self) valid)
      fun other later => fits other (List.mem_cons_of_mem _ later)

theorem findFinal_of_verifyMarkClaims {previous : Int} {sets : List (Int × Bytes × ValidatorSet)}
    (verified : verifyMarkClaims ext cfg chainId epoch address sets state
      previous claims = .ok ()) :
    ∀ claim ∈ claims, ∃ final, findFinal claim.epoch state = some final := by
  induction claims generalizing previous with
  | nil => exact fun _ listed => by cases listed
  | cons claim rest ih =>
    unfold verifyMarkClaims at verified
    split at verified
    · cases verified
    split at verified
    · cases verified
    next here =>
    intro other listed
    rcases List.mem_cons.mp listed with rfl | later
    · unfold verifyMarkClaim checkMarkClaim at here
      cases found : findFinal other.epoch state with
      | some final => exact ⟨final, rfl⟩
      | none =>
        rw [found] at here
        dsimp only at here
        split at here
        · cases here
        · next final checked =>
          split at checked
          · cases checked
          split at checked
          · cases checked
          · cases checked
    · exact ih verified other later

theorem Stored.applyMarkClaims (stored : Stored cfg state) (valid : validateCfg cfg = .ok ())
    {active : Bool} (nonempty : address ≠ []) {sets : List (Int × Bytes × ValidatorSet)}
    (applied : applyMarkClaims ext capMode cfg chainId epoch active address sets
      claims state = .ok state') :
    Stored cfg state' := by
  unfold SetFold.applyMarkClaims at applied
  split at applied
  · cases applied
  next first rest =>
  split at applied
  · cases applied
  split at applied
  · cases applied
  next verified =>
  have range : ∀ claim ∈ first :: rest, 0 ≤ claim.epoch ∧ claim.epoch < 2 ^ 63 := by
    intro claim listed
    obtain ⟨final, found⟩ := findFinal_of_verifyMarkClaims verified claim listed
    obtain ⟨storedFinal, same⟩ := stored.storedFinal found
    exact same ▸ ⟨storedFinal.nonneg, storedFinal.fits⟩
  obtain ⟨nonneg, fits⟩ := range first List.mem_cons_self
  obtain ⟨member, own⟩ := storedMember_markedMember stored nonempty active
    (fits_of_nonneg nonneg fits)
  refine stored.limited ?_ applied
  exact StringMap.All.add (storedTable_tableOfMembers stored.members)
    ⟨⟨member.address, member.phase, member.marks.addAll valid
      fun claim listed => (range claim listed).2⟩, own⟩

theorem Stored.hold (stored : Stored cfg state) {reason : String} {held : State × Option String}
    (done : hold cfg epoch state reason = .ok held) : Stored cfg held.1 := by
  unfold SetFold.hold at done
  split at done
  · cases done
  · next state' delayed =>
    cases done
    exact stored.delay delayed

theorem Stored.takeParent (stored : Stored cfg state) {marks : Bool}
    (fits : FitsBits int64Bits epoch) {parent : Option ParentCommit}
    (storable : ∀ commit, parent = some commit → StorableCommit ext commit)
    {taken : State × Option String}
    (done : takeParent ext capMode marks cfg chainId epoch parent state = .ok taken) :
    Stored cfg taken.1 := by
  unfold SetFold.takeParent at done
  split at done
  · cases done
  next commit =>
  have storableCommit := storable commit rfl
  split at done
  · cases done
  next final signers active read =>
  have stepped : Stored cfg (SetFold.noteFinalStep capMode cfg epoch active
      final signers state).reached := by
    unfold readParent at read
    split at read
    · cases read
    cases read
    apply stored.noteFinalStep capMode fits
      storableCommit.active.sortUniq storableCommit.signers.sortUniq
    · exact storableCommit.proposalId
    · exact storableCommit.setHash
    · intro round here
      dsimp only at here
      split at here
      · cases here
        exact storableCommit.round
      · cases here
  split at done
  · next state' step =>
    rw [step] at stepped
    cases done
    exact stepped
  · next state' reason step =>
    rw [step] at stepped
    exact Stored.hold stepped done

theorem Stored.advance (stored : Stored cfg state) {marks : Bool} {start : Int}
    (fits : FitsBits int64Bits epoch) {parent : Option ParentCommit}
    (storable : ∀ commit, parent = some commit → StorableCommit ext commit)
    {moved : State × Option String × Bool}
    (done : advance ext capMode marks cfg chainId start epoch parent state = .ok moved) :
    Stored cfg moved.1 := by
  unfold SetFold.advance at done
  split at done
  · cases done
    exact stored
  split at done
  · cases done
  split at done
  · cases done
  next taken reason took =>
  have storedTaken := stored.takeParent fits storable took
  obtain ⟨held, before, rfl⟩ := map_eq_ok done
  have storedHeld : Stored cfg held.1 := by
    split at before
    · exact storedTaken.hold before
    · cases before
      exact storedTaken
  refine { storedHeld with applied := fun other here => ?_ }
  cases here
  exact fits

end SetFold
end LiteNode
