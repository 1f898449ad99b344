import LiteNode.Data.Results
import LiteNode.Duty.Alike

/-!
# What the marks of every member keep

A property of marks that pruning and marking keep holds of every member of every
state that calls lead to. The members of such a state have distinct addresses.
-/

namespace LiteNode
namespace SetFold

section Tables

variable {cfg : Cfg} {P : Bytes → Member → Prop} {table : StringMap Member}

theorem all_removeOldest (all : table.All P) {count : Int} {entries : List (Bytes × Member)}
    {table' : StringMap Member} (removed : removeOldest count table entries = .ok table') :
    table'.All P := by
  induction entries generalizing count table with
  | nil =>
    unfold removeOldest at removed
    split at removed
    · cases removed
      exact all
    · cases removed
  | cons entry rest ih =>
    unfold removeOldest at removed
    split at removed
    · cases removed
      exact all
    · exact ih (all.remove entry.1) removed

variable {epoch : Int}

/-- A limited table has what pruning keeps. -/
theorem all_limitTable (all : table.All P)
    (keeps : ∀ key member, P key member → P key (pruneMember cfg epoch member))
    {capMode : CapMode} {table' : StringMap Member}
    (limited : limitTable cfg capMode epoch table = .ok table') : table'.All P := by
  cases capMode with
  | reject =>
    unfold limitTable at limited
    dsimp only at limited
    split at limited
    · cases limited
    · cases limited
      exact all
  | prune =>
    have kept : ((table.map (pruneMember cfg epoch)).filter
        fun _ member => retainMember cfg epoch member).All P :=
      StringMap.All.filter (all.map keeps) _
    unfold limitTable pruneTable at limited
    dsimp only at limited
    split at limited
    · cases limited
      exact kept
    · exact all_removeOldest kept limited

theorem all_addActive (all : table.All P) {active : List Bytes}
    (fresh : ∀ address ∈ active, P address (liveMember epoch address)) :
    (active.foldl (addActive epoch) table).All P := by
  induction active generalizing table with
  | nil => exact all
  | cons address rest ih =>
    rw [List.foldl_cons]
    apply ih
    · unfold addActive
      split
      · exact all
      · exact all.add (fresh address List.mem_cons_self)
    · exact fun other later => fresh other (List.mem_cons_of_mem _ later)

theorem all_getD (all : table.All P) {address : Bytes} {fresh : Member} (holds : P address fresh) :
    P address ((table.find? address).getD fresh) := by
  cases found : table.find? address with
  | none => exact holds
  | some member => exact all.find? found

theorem all_addSigners (all : table.All P) {signers : List Bytes}
    (fresh : ∀ signer ∈ signers, P signer (shadowMember signer))
    (marked : ∀ signer member, P signer member →
      P signer { member with marks := addMark cfg epoch member.marks }) :
    (signers.foldl (addSigner cfg epoch) table).All P := by
  induction signers generalizing table with
  | nil => exact all
  | cons signer rest ih =>
    rw [List.foldl_cons]
    apply ih
    · exact all.add (marked signer _ (all_getD all (fresh signer List.mem_cons_self)))
    · exact fun other later => fresh other (List.mem_cons_of_mem _ later)

/-- The values of a table whose members are kept under their addresses. -/
theorem ordered_values (keyed : table.All fun key member => member.address = key) :
    table.values.Pairwise fun left right => left.address < right.address := by
  refine List.pairwise_map.mpr (table.ordered.imp_of_mem ?_)
  intro left right listed listed' below
  rw [keyed left listed, keyed right listed']
  exact below

theorem exists_key_of_mem_values
    (all : table.All P) {member : Member} (listed : member ∈ table.values) :
    ∃ key, P key member := by
  obtain ⟨entry, bound, rfl⟩ := List.mem_map.mp listed
  exact ⟨entry.1, all entry bound⟩

end Tables

/-- Pruning and marking at past epochs keep a property of marks. -/
structure KeepsMarks (cfg : Cfg) (past : Int → Prop) (holds : Marks → Prop) : Prop where
  empty : holds emptyMarks
  prune : ∀ epoch marks, past epoch → holds marks → holds (pruneMarks cfg epoch marks)
  add : ∀ epoch marks, past epoch → holds marks → holds (addMark cfg epoch marks)
  earlier : ∀ epoch later, epoch ≤ later → past later → past epoch

/-- Members in order whose marks have a property, and finals of epochs that are
not negative. -/
structure Kept (holds : Marks → Prop) (state : State) : Prop where
  ordered : state.members.Pairwise fun left right => left.address < right.address
  members : ∀ member ∈ state.members, holds member.marks
  finals : ∀ final ∈ state.finals, 0 ≤ final.epoch

/-- The same of a table. -/
def KeptTable (holds : Marks → Prop) (table : StringMap Member) : Prop :=
  table.All fun key member => member.address = key ∧ holds member.marks

section Kept

variable {cfg : Cfg} {past : Int → Prop} {holds : Marks → Prop}
  {table : StringMap Member} {state : State}

theorem keptTable_tableOfMembers
    {members : List Member} (kept : ∀ member ∈ members, holds member.marks) :
    KeptTable holds (tableOfMembers members) :=
  StringMap.all_ofList fun member listed => ⟨rfl, kept member listed⟩

theorem Kept.withTable (kept : Kept holds state) (keptTable : KeptTable holds table) :
    Kept holds { state with members := table.values } where
  ordered := ordered_values fun entry bound => (keptTable entry bound).1
  members := fun member listed => by
    obtain ⟨key, -, marks⟩ := exists_key_of_mem_values keptTable listed
    exact marks
  finals := kept.finals

variable {epoch : Int} {capMode : CapMode} {state' : State} {active : Bool}
  {address chainId : Bytes} {ext : Externals} {claims : List MarkClaim}

theorem KeptTable.limit
    (keeps : KeepsMarks cfg past holds) (kept : KeptTable holds table) (now : past epoch)
    {table' : StringMap Member} (limited : limitTable cfg capMode epoch table = .ok table') :
    KeptTable holds table' := by
  apply all_limitTable kept _ limited
  rintro key member ⟨own, marks⟩
  exact ⟨own, keeps.prune epoch _ now marks⟩

theorem Kept.limited (keeps : KeepsMarks cfg past holds) (kept : Kept holds state)
    (keptTable : KeptTable holds table) (now : past epoch)
    (done : limited cfg capMode epoch state table = .ok state') : Kept holds state' := by
  obtain ⟨table', limited, rfl⟩ := map_eq_ok done
  exact kept.withTable (keptTable.limit keeps now limited)

theorem Kept.sync
    (keeps : KeepsMarks cfg past holds) (kept : Kept holds state) (now : past epoch) {active : List Bytes}
    (synced : sync cfg epoch active state = .ok state') : Kept holds state' := by
  unfold SetFold.sync at synced
  dsimp only at synced
  split at synced
  · cases synced
  cases synced
  have synced : KeptTable holds (tableOfMembers
      (state.members.map (syncMember cfg epoch (sortUniq active)))) := by
    apply keptTable_tableOfMembers
    intro member listed
    obtain ⟨former, present, rfl⟩ := List.mem_map.mp listed
    exact keeps.prune epoch _ now (kept.members former present)
  have whole := kept.withTable (@all_addActive _ _ epoch synced (sortUniq active)
    fun address _ => ⟨rfl, keeps.empty⟩)
  exact ⟨whole.ordered.filter _, fun member listed =>
    whole.members member (List.mem_of_mem_filter listed), whole.finals⟩

theorem nonneg_putFinal {final : Final} (nonneg : 0 ≤ final.epoch)
    {finals finals' : List Final} (former : ∀ final ∈ finals, 0 ≤ final.epoch)
    (put : putFinal cfg epoch final finals = .ok finals') : ∀ final ∈ finals', 0 ≤ final.epoch := by
  unfold putFinal at put
  split at put
  · split at put
    · cases put
      exact fun other listed => former other (List.mem_of_mem_filter listed)
    · cases put
  · cases put
    intro other listed
    rw [sortFinals, List.mem_insertionSort, retainFinals] at listed
    rcases List.mem_cons.mp (List.mem_of_mem_filter listed) with rfl | earlier
    · exact nonneg
    · exact former other earlier

/-- The state of a step, whether it was applied or held. -/
def FinalStep.reached : FinalStep → State
  | .applied reached => reached
  | .held reached _ => reached

theorem Kept.noteFinalStep (keeps : KeepsMarks cfg past holds) (kept : Kept holds state)
    (capMode : CapMode) (now : past epoch) (active signers : List Bytes) (final : Final) :
    Kept holds (noteFinalStep capMode cfg epoch active final signers state).reached := by
  unfold SetFold.noteFinalStep
  split
  · exact kept
  split
  · exact kept
  next positive =>
  split
  · exact kept
  next parent =>
  have before : final.epoch ≤ epoch := by omega
  split
  · exact kept
  next synced moved =>
  have kept' := kept.sync keeps now moved
  have signed : KeptTable holds ((sortUniq signers).foldl
      (addSigner cfg final.epoch) (tableOfMembers synced.members)) := by
    apply all_addSigners (keptTable_tableOfMembers kept'.members)
    · exact fun signer _ => ⟨rfl, keeps.empty⟩
    · rintro signer member ⟨own, marks⟩
      exact ⟨own, keeps.add _ _ (keeps.earlier _ _ before now) marks⟩
  dsimp only
  split
  · exact kept'
  next table limited =>
  have listed := kept'.withTable (signed.limit keeps now limited)
  split
  · exact listed
  next finals put =>
  exact ⟨listed.ordered, listed.members, nonneg_putFinal (by omega) kept'.finals put⟩

theorem Kept.notePulse
    (keeps : KeepsMarks cfg past holds) (kept : Kept holds state) {credit : Option Int} (now : past epoch)
    (noted : notePulse capMode credit cfg epoch active address state = .ok state') :
    Kept holds state' := by
  unfold SetFold.notePulse at noted
  dsimp only at noted
  split at noted
  · cases noted
  split at noted
  · cases noted
  split at noted
  · cases noted
  split at noted
  · cases noted
  split at noted
  · cases noted
    exact kept
  split at noted
  · cases noted
  have former := keptTable_tableOfMembers kept.members
  have member := @all_getD _ _ former address (shadowMember address) ⟨rfl, keeps.empty⟩
  refine kept.limited keeps ?_ now noted
  exact former.add ⟨member.1, keeps.prune epoch _ now member.2⟩

/-- A proof that passes is of a final of the last epochs. -/
theorem recent_of_verifyProof {proof : Proof}
    (verified : verifyProof ext cfg chainId epoch address proof state = .ok ()) :
    proof.vote.epochId ≤ epoch ∧ int64Sub epoch proof.vote.epochId ≤ cfg.challenge ∧
      ∃ final ∈ state.finals, final.epoch = proof.vote.epochId := by
  unfold verifyProof at verified
  dsimp only at verified
  split at verified
  · cases verified
  next past =>
  split at verified
  · cases verified
  next recent =>
  split at verified
  · cases verified
  next final found =>
  have same := List.find?_some found
  exact ⟨not_lt.mp past, not_lt.mp recent, final,
    List.mem_of_find?_eq_some found, of_decide_eq_true same⟩

/-- Claims that pass are of the last epochs. -/
theorem recent_of_verifyMarkClaims {previous : Int} {sets : List (Int × Bytes × ValidatorSet)}
    (verified : verifyMarkClaims ext cfg chainId epoch address sets state
      previous claims = .ok ()) :
    ∀ claim ∈ claims, 0 ≤ claim.epoch ∧ claim.epoch ≤ epoch ∧
      epoch - claim.epoch ≤ cfg.challenge := by
  induction claims generalizing previous with
  | nil => exact fun _ listed => by cases listed
  | cons claim rest ih =>
    unfold verifyMarkClaims at verified
    split at verified
    · cases verified
    split at verified
    · cases verified
    next here =>
    intro other listed
    rcases List.mem_cons.mp listed with rfl | later
    · unfold verifyMarkClaim checkMarkClaim at here
      by_cases final : other.epoch < 0 ∨ epoch < other.epoch ∨ epoch - other.epoch < 2
      · rw [if_pos final] at here
        cases here
      by_cases expired : cfg.challenge < epoch - other.epoch
      · rw [if_neg final, if_pos expired] at here
        cases here
      omega
    · exact ih verified other later

theorem keptTable_markedMember
    (keeps : KeepsMarks cfg past holds) (kept : KeptTable holds table)
    (active : Bool) (epoch : Int) (address : Bytes) :
    (markedMember table active epoch address).address = address ∧
      holds (markedMember table active epoch address).marks := by
  apply all_getD kept
  cases active with
  | true => exact ⟨rfl, keeps.empty⟩
  | false => exact ⟨rfl, keeps.empty⟩

theorem Kept.applyProof (keeps : KeepsMarks cfg past holds) (kept : Kept holds state)
    (now : past epoch) {proof : Proof}
    (applied : applyProof ext capMode cfg chainId epoch active address proof state = .ok state') :
    Kept holds state' := by
  unfold SetFold.applyProof at applied
  split at applied
  · cases applied
  next verified =>
  have before := (recent_of_verifyProof verified).1
  have former := keptTable_tableOfMembers kept.members
  have member := keptTable_markedMember keeps former active proof.vote.epochId address
  refine kept.limited keeps ?_ now applied
  exact former.add ⟨member.1, keeps.add _ _ (keeps.earlier _ _ before now) member.2⟩

theorem KeepsMarks.addAll
    (keeps : KeepsMarks cfg past holds) {marks : Marks} (former : holds marks) (passed : ∀ claim ∈ claims, past claim.epoch) :
    holds (claims.foldl (fun marks claim => addMark cfg claim.epoch marks) marks) := by
  induction claims generalizing marks with
  | nil => exact former
  | cons claim rest ih =>
    rw [List.foldl_cons]
    exact ih
      (keeps.add _ _ (passed claim List.mem_cons_self) former)
      fun other later => passed other (List.mem_cons_of_mem _ later)

theorem Kept.applyMarkClaims (keeps : KeepsMarks cfg past holds) (kept : Kept holds state)
    (now : past epoch) {sets : List (Int × Bytes × ValidatorSet)}
    (applied : applyMarkClaims ext capMode cfg chainId epoch active address sets
      claims state = .ok state') :
    Kept holds state' := by
  unfold SetFold.applyMarkClaims at applied
  split at applied
  · cases applied
  next first rest =>
  split at applied
  · cases applied
  split at applied
  · cases applied
  next verified =>
  have former := keptTable_tableOfMembers kept.members
  have member := keptTable_markedMember keeps former active first.epoch address
  have passed : ∀ claim ∈ first :: rest, past claim.epoch := by
    intro claim listed
    obtain ⟨-, before, -⟩ := recent_of_verifyMarkClaims verified claim listed
    exact keeps.earlier _ _ before now
  refine kept.limited keeps ?_ now applied
  exact former.add ⟨member.1, keeps.addAll member.2 passed⟩

theorem Kept.delay (kept : Kept holds state)
    (delayed : delay cfg epoch state = .ok state') : Kept holds state' := by
  unfold SetFold.delay at delayed
  split at delayed
  · cases delayed
  split at delayed
  · cases delayed
  cases delayed
  exact ⟨kept.ordered, kept.members, kept.finals⟩

theorem Kept.lock (kept : Kept holds state) {active : List Bytes} {locked : State × Bool}
    (done : lock cfg active state = .ok locked) : Kept holds locked.1 := by
  unfold SetFold.lock at done
  split at done
  · cases done
  split at done
  · split at done
    · cases done
    · cases done
      exact kept
  · dsimp only at done
    split at done
    · cases done
    · cases done
      exact ⟨kept.ordered, kept.members, kept.finals⟩

theorem Kept.hold (kept : Kept holds state) {reason : String} {held : State × Option String}
    (done : hold cfg epoch state reason = .ok held) : Kept holds held.1 := by
  unfold SetFold.hold at done
  split at done
  · cases done
  · next state' delayed =>
    cases done
    exact kept.delay delayed

theorem Kept.takeParent
    (keeps : KeepsMarks cfg past holds) (kept : Kept holds state) {marks : Bool} (now : past epoch) {parent : Option ParentCommit}
    {taken : State × Option String}
    (done : takeParent ext capMode marks cfg chainId epoch parent state = .ok taken) :
    Kept holds taken.1 := by
  unfold SetFold.takeParent at done
  split at done
  · cases done
  split at done
  · cases done
  next final signers active read =>
  have stepped := kept.noteFinalStep keeps capMode now active signers final
  split at done
  · next state' step =>
    rw [step] at stepped
    cases done
    exact stepped
  · next state' reason step =>
    rw [step] at stepped
    exact Kept.hold stepped done

theorem Kept.advance (keeps : KeepsMarks cfg past holds) (kept : Kept holds state) {marks : Bool}
    {start : Int} (now : past epoch) {parent : Option ParentCommit}
    {moved : State × Option String × Bool}
    (done : advance ext capMode marks cfg chainId start epoch parent state = .ok moved) :
    Kept holds moved.1 := by
  unfold SetFold.advance at done
  split at done
  · cases done
    exact kept
  split at done
  · cases done
  split at done
  · cases done
  next taken reason took =>
  have keptTaken := kept.takeParent keeps now took
  obtain ⟨held, before, rfl⟩ := map_eq_ok done
  have keptHeld : Kept holds held.1 := by
    split at before
    · exact Kept.hold keptTaken before
    · cases before
      exact keptTaken
  exact ⟨keptHeld.ordered, keptHeld.members, keptHeld.finals⟩

def Call.epoch? : Call → Option Int
  | .noteSet epoch _ => some epoch
  | .noteFinal _ epoch _ _ _ => some epoch
  | .notePulse _ _ epoch _ _ => some epoch
  | .applyProof _ _ epoch _ _ _ => some epoch
  | .applyMarkClaims _ _ epoch _ _ _ _ => some epoch
  | .delay epoch => some epoch
  | .lock _ => none
  | .advance _ _ _ _ epoch _ => some epoch

theorem of_map_silent {holds : State → Prop} {result : Except String State}
    {answered : State × Reply} (keeps : ∀ state', result = .ok state' → holds state')
    (done : result.map silent = .ok answered) : holds answered.1 := by
  obtain ⟨state', ended, rfl⟩ := map_eq_ok done
  exact keeps state' ended

/-- A call leaves a state that was answered, or the one before. -/
theorem next_of_answer {holds : State → Prop} {ext : Externals} {call : Call} (start : holds state)
    (answers : ∀ answered, answer ext cfg state call = .ok answered → holds answered.1) :
    holds (next ext cfg state call) := by
  unfold next
  split
  · next state' reply done => exact answers _ done
  · exact start

/-- A call at a past epoch keeps what pruning and marking keep. -/
theorem kept_next (ext : Externals) (keeps : KeepsMarks cfg past holds)
    (kept : Kept holds state) {call : Call} (now : ∀ epoch, call.epoch? = some epoch → past epoch) :
    Kept holds (next ext cfg state call) := by
  refine next_of_answer kept fun answered done => ?_
  cases call with
  | noteSet epoch active =>
    refine of_map_silent (fun state' noted => ?_) done
    unfold noteSet at noted
    split at noted
    · cases noted
    split at noted
    · cases noted
    · exact kept.sync keeps (now _ rfl) noted
  | noteFinal capMode epoch active final signers =>
    have stepped := kept.noteFinalStep keeps capMode (now _ rfl) active signers final
    refine of_map_silent (fun state' noted => ?_) done
    unfold noteFinal at noted
    split at noted
    · next reached step =>
      rw [step] at stepped
      cases noted
      exact stepped
    · cases noted
  | notePulse capMode credit epoch active address =>
    exact of_map_silent (fun state' noted => kept.notePulse keeps (now _ rfl) noted) done
  | applyProof capMode chainId epoch active address proof =>
    exact of_map_silent
      (fun state' applied => kept.applyProof keeps (now _ rfl) applied) done
  | applyMarkClaims capMode chainId epoch active address sets claims =>
    exact of_map_silent
      (fun state' applied => kept.applyMarkClaims keeps (now _ rfl) applied) done
  | delay epoch => exact of_map_silent (fun state' delayed => kept.delay delayed) done
  | lock active =>
    obtain ⟨locked, ended, rfl⟩ := map_eq_ok done
    exact kept.lock ended
  | advance capMode marks chainId start epoch parent => exact kept.advance keeps (now _ rfl) done

theorem kept_empty (holds : Marks → Prop) : Kept holds empty where
  ordered := List.Pairwise.nil
  members := fun _ listed => by cases listed
  finals := fun _ listed => by cases listed

theorem kept_run (ext : Externals) (keeps : KeepsMarks cfg past holds) (calls : List Call)
    (kept : Kept holds state)
    (now : ∀ call ∈ calls, ∀ epoch, call.epoch? = some epoch → past epoch) :
    Kept holds (run ext cfg state calls) := by
  induction calls generalizing state with
  | nil => exact kept
  | cons call calls ih =>
    apply ih
    · exact kept_next ext keeps kept (now call List.mem_cons_self)
    · exact fun other later => now other (List.mem_cons_of_mem _ later)

end Kept
end SetFold
end LiteNode
