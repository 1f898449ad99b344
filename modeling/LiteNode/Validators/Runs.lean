import LiteNode.Validators.Evidence
import LiteNode.Validators.Soundness

/-!
# Runs of the validator registry

The operations on a registry, with accounts of what was bonded, returned and
slashed. Over every run at epochs that do not decrease the bonds in the
registry are what was bonded less what was returned, and no evidence is applied
twice as long as its window does not grow.
-/

namespace LiteNode
namespace ValidatorRegistry

/-- Operations; a slash names the address its evidence is checked against. -/
inductive Operation
  | bond (parameters : ValidatorEntry.Parameters) (epoch : Int)
      (address senderPubkeyB64 : Bytes) (amount nonce : Int) (payload : BondPayload)
  | ready (epoch : Int) (address consensusPubkeyB64 : Bytes)
  | exit (epoch : Int) (address : Bytes)
  | withdraw (parameters : ValidatorEntry.Parameters) (currentEpoch : Int)
      (activeAddresses : List Bytes) (address : Bytes)
  | slash (currentEpoch evidenceEpochs : Int) (address : Bytes) (conflict : VoteConflict)

namespace Operation

def epoch : Operation → Int
  | .bond _ epoch .. => epoch
  | .ready epoch .. => epoch
  | .exit epoch _ => epoch
  | .withdraw _ currentEpoch .. => currentEpoch
  | .slash currentEpoch .. => currentEpoch

/-- Number of epochs for which evidence counts. -/
def window : Operation → Option Int
  | .slash _ evidenceEpochs .. => some evidenceEpochs
  | _ => none

/-- Epochs do not decrease and windows do not grow. -/
def Before (earlier later : Operation) : Prop :=
  earlier.epoch ≤ later.epoch ∧
    ∀ wide narrow, earlier.window = some wide → later.window = some narrow → narrow ≤ wide

end Operation

/-- What an operation did. -/
inductive Change
  | bonded (amount : Int)
  | marked
  | withdrawn (amount : Int)
  | slashed (evidence : VerifiedEvidence) (amount : Int)

/-- What a change adds to the bonds. -/
def Change.flow : Change → Int
  | .bonded amount => amount
  | .marked => 0
  | .withdrawn amount => -amount
  | .slashed _ amount => -amount

section Runs

variable (ctx : EvidenceContext)

/-- Evidence is checked against the entry of its address and applied. -/
def slashBy (currentEpoch evidenceEpochs : Int) (address : Bytes)
    (conflict : VoteConflict) (registry : ValidatorRegistry) :
    Except String (ValidatorRegistry × Change) :=
  match find address registry with
  | none => .error "validator bond not found"
  | some entry =>
    match verifyEvidence ctx currentEpoch evidenceEpochs entry.bondedEpoch
      address entry.pubkey conflict with
    | .error reason => .error reason
    | .ok evidence =>
      (applySlash ctx.texts currentEpoch evidenceEpochs evidence
        registry).map fun (next, amount) => (next, .slashed evidence amount)

def perform (registry : ValidatorRegistry) : Operation → Except String (ValidatorRegistry × Change)
  | .bond parameters epoch address senderPubkeyB64 amount nonce payload =>
    (applyBond ctx.texts ctx.ext.verifyEd25519 parameters ctx.chainId epoch
      address senderPubkeyB64 amount nonce payload registry).map
      fun next => (next, .bonded amount)
  | .ready epoch address consensusPubkeyB64 =>
    (markReady ctx.texts epoch address consensusPubkeyB64 registry).map fun next => (next, .marked)
  | .exit epoch address => (requestExit epoch address registry).map fun next => (next, .marked)
  | .withdraw parameters currentEpoch activeAddresses address =>
    (withdraw parameters currentEpoch activeAddresses address registry).map
      fun (next, amount) => (next, .withdrawn amount)
  | .slash currentEpoch evidenceEpochs address conflict =>
    slashBy ctx currentEpoch evidenceEpochs address conflict registry

/-- A registry with what went into it and out of it. -/
structure Accounts where
  registry : ValidatorRegistry
  bonded : Int
  withdrawn : Int
  slashed : Int
  applied : List VerifiedEvidence

namespace Accounts

def start : Accounts where
  registry := empty
  bonded := 0
  withdrawn := 0
  slashed := 0
  applied := []

def record (accounts : Accounts) (next : ValidatorRegistry) : Change → Accounts
  | .bonded amount => { accounts with registry := next, bonded := accounts.bonded + amount }
  | .marked => { accounts with registry := next }
  | .withdrawn amount =>
    { accounts with
      registry := next, withdrawn := accounts.withdrawn + amount }
  | .slashed evidence amount =>
    { accounts with
      registry := next
      slashed := accounts.slashed + amount
      applied := evidence :: accounts.applied }

/-- An operation that fails changes nothing. -/
def step (accounts : Accounts) (operation : Operation) : Accounts :=
  match perform ctx accounts.registry operation with
  | .error _ => accounts
  | .ok (next, change) => accounts.record next change

def run (operations : List Operation) : Accounts := operations.foldl (step ctx) start

end Accounts
end Runs

section Perform

variable {ctx : EvidenceContext} {epoch : Int} {registry next : ValidatorRegistry}
  {operation : Operation} {change : Change}

variable {address : Bytes}

/-- A slash that succeeds applies evidence that holds for its entry. -/
theorem slashBy_cases {currentEpoch evidenceEpochs : Int} {conflict : VoteConflict}
    (slashed : slashBy ctx currentEpoch evidenceEpochs address conflict
      registry = .ok (next, change)) :
    ∃ entry evidence amount, find address registry = some entry ∧
      EvidenceHolds ctx currentEpoch evidenceEpochs entry.bondedEpoch address conflict evidence ∧
      applySlash ctx.texts currentEpoch evidenceEpochs evidence registry = .ok (next, amount) ∧
      change = .slashed evidence amount := by
  unfold slashBy at slashed
  split at slashed
  · cases slashed
  · next entry found =>
    split at slashed
    · cases slashed
    · next evidence verified =>
      obtain ⟨⟨after, amount⟩, applied, done⟩ := map_eq_ok slashed
      cases done
      exact ⟨entry, evidence, amount, found, evidenceHolds_of_verifyEvidence verified, applied, rfl⟩

/-- Evidence that holds is about an epoch between its bond and now. -/
theorem int64Sub_of_evidenceHolds {currentEpoch evidenceEpochs bondedEpoch : Int}
    {conflict : VoteConflict} {evidence : VerifiedEvidence}
    (holds : EvidenceHolds ctx currentEpoch evidenceEpochs bondedEpoch address
      conflict evidence) (bonded : 0 ≤ bondedEpoch) (fits : FitsBits int64Bits currentEpoch) :
    currentEpoch - evidence.evidenceEpoch < evidenceEpochs := by
  have recent := holds.recent
  have past := holds.past
  have after := holds.bonded
  obtain ⟨least, most⟩ := fits
  unfold int64Bits at least most
  rw [int64Sub_eq ⟨by unfold int64Bits; omega, by unfold int64Bits; omega⟩] at recent
  exact recent

theorem Sound.perform (sound : Sound ctx.texts epoch registry)
    (performed : perform ctx registry operation = .ok (next, change))
    (later : epoch ≤ operation.epoch) : Sound ctx.texts operation.epoch next := by
  have sound := sound.later later
  cases operation with
  | bond parameters epoch address senderPubkeyB64 amount nonce payload =>
    obtain ⟨after, bonded, done⟩ := map_eq_ok performed
    cases done
    obtain ⟨entry, rfl, named, passed, entered⟩ := applyBond_cases bonded
    obtain ⟨entries, addresses, pubkeys, -, -⟩ := validate_iff.mp passed
    refine ⟨entries, ?_, pubkeys, sound.slashes, sound.slashesOrdered, ?_, sound.applied⟩
    · refine pairwise_lt_sortByKey ?_
      exact ((sortByKey_perm _ _).map _).nodup_iff.mp addresses
    · intro other listed
      rcases mem_replace.mp listed with rfl | present
      · rcases entered with ⟨-, -, now, unready, staying⟩ |
          ⟨current, found, -, rfl⟩
        · exact ⟨now.le, by simp [unready], by simp [staying]⟩
        · obtain ⟨first, ready, exit⟩ := sound.started current (mem_of_find found).1
          exact ⟨first, ready, exit⟩
      · exact sound.started other (mem_others.mp present).1
  | ready epoch address consensusPubkeyB64 =>
    obtain ⟨after, marked, done⟩ := map_eq_ok performed
    cases done
    obtain ⟨entry, readyEpoch, found, -, -, readied, rfl⟩ := markReady_cases marked
    obtain ⟨present, -⟩ := mem_of_find found
    obtain ⟨valid, checked⟩ := sound.entries entry present
    have started := sound.started entry present
    have own := sound.own_key present
    refine sound.replace valid ?_ ?_ ?_
    · refine { checked with ready := ?_ }
      rintro _ ⟨⟩
      rcases readied with rfl | ⟨current, before, rfl⟩
      · exact started.bonded
      · exact le_min (checked.ready current before) started.bonded
    · exact own
    · refine { started with ready := ?_ }
      rintro _ ⟨⟩
      rcases readied with rfl | ⟨current, before, rfl⟩
      · exact le_rfl
      · exact min_le_right current epoch
  | exit epoch address =>
    obtain ⟨after, requested, done⟩ := map_eq_ok performed
    cases done
    obtain ⟨entry, found, -, -, rfl⟩ := requestExit_cases requested
    obtain ⟨present, -⟩ := mem_of_find found
    obtain ⟨valid, checked⟩ := sound.entries entry present
    have started := sound.started entry present
    have own := sound.own_key present
    refine sound.replace valid ?_ ?_ ?_
    · refine { checked with exit := ?_ }
      rintro _ ⟨⟩
      exact started.bonded
    · exact own
    · refine { started with exit := ?_ }
      rintro _ ⟨⟩
      exact le_rfl
  | withdraw parameters currentEpoch activeAddresses address =>
    obtain ⟨⟨after, amount⟩, withdrawn, done⟩ := map_eq_ok performed
    cases done
    obtain ⟨entry, -, -, rfl⟩ := withdraw_cases withdrawn
    exact sound.others address
  | slash currentEpoch evidenceEpochs address conflict =>
    obtain ⟨entry, evidence, amount, -, -, applied, -⟩ := slashBy_cases performed
    obtain ⟨entry, -, -, -, rfl, passed⟩ := applySlash_cases applied
    obtain ⟨-, -, -, records, ids⟩ := validate_iff.mp passed
    have rest := sound.others evidence.offender
    refine { rest with
      slashes := records, slashesOrdered := ?_, applied := ?_ }
    · refine pairwise_lt_sortByKey ?_
      exact ((sortByKey_perm _ _).map _).nodup_iff.mp ids
    · intro record listed
      rcases List.mem_cons.mp (mem_sortByKey.mp listed) with rfl | former
      · exact le_rfl
      · exact sound.applied record (List.mem_filter.mp former).1

/-- An operation changes the sum of the bonds by what it takes or returns. -/
theorem bonds_perform (sound : Sound ctx.texts epoch registry)
    (performed : perform ctx registry operation = .ok (next, change)) :
    bonds next.entries = bonds registry.entries + change.flow := by
  cases operation with
  | bond parameters epoch address senderPubkeyB64 amount nonce payload =>
    obtain ⟨after, bonded, done⟩ := map_eq_ok performed
    cases done
    obtain ⟨entry, rfl, named, -, entered⟩ := applyBond_cases bonded
    rw [bonds_replace, named]
    rcases entered with ⟨absent, amount, -⟩ | ⟨current, found, -, rfl⟩
    · rw [others_of_find_eq_none absent, amount, Change.flow]
      omega
    · rw [bonds_others sound.addresses found]
      dsimp only [Change.flow]
      omega
  | ready epoch address consensusPubkeyB64 =>
    obtain ⟨after, marked, done⟩ := map_eq_ok performed
    cases done
    obtain ⟨entry, readyEpoch, found, -, -, -, rfl⟩ := markReady_cases marked
    have named := (mem_of_find found).2
    rw [bonds_replace]
    dsimp only
    rw [named, bonds_others sound.addresses found, Change.flow]
    omega
  | exit epoch address =>
    obtain ⟨after, requested, done⟩ := map_eq_ok performed
    cases done
    obtain ⟨entry, found, -, -, rfl⟩ := requestExit_cases requested
    have named := (mem_of_find found).2
    rw [bonds_replace]
    dsimp only
    rw [named, bonds_others sound.addresses found, Change.flow]
    omega
  | withdraw parameters currentEpoch activeAddresses address =>
    obtain ⟨⟨after, amount⟩, withdrawn, done⟩ := map_eq_ok performed
    cases done
    obtain ⟨entry, found, rfl, rfl⟩ := withdraw_cases withdrawn
    rw [bonds_others sound.addresses found, Change.flow]
    omega
  | slash currentEpoch evidenceEpochs address conflict =>
    obtain ⟨_, evidence, amount, -, -, applied, rfl⟩ := slashBy_cases performed
    obtain ⟨entry, found, rfl, -, rfl, -⟩ := applySlash_cases applied
    rw [bonds_others sound.addresses found, Change.flow]
    omega

/-- An exiting entry is not bonded, readied or exited again. -/
theorem perform_exiting {entry : ValidatorEntry} (found : find address registry = some entry)
    (exiting : entry.exitEpoch ≠ none) :
    (∀ parameters epoch senderPubkeyB64 amount nonce payload, ∃ reason,
      perform ctx registry (.bond parameters epoch address senderPubkeyB64
        amount nonce payload) = .error reason) ∧
    (∀ epoch consensusPubkeyB64, ∃ reason,
      perform ctx registry (.ready epoch address consensusPubkeyB64) = .error reason) ∧
    ∀ epoch, ∃ reason, perform ctx registry (.exit epoch address) = .error reason := by
  have refused : ∀ operation : Operation,
      (∀ outcome, perform ctx registry operation ≠ .ok outcome) →
        ∃ reason, perform ctx registry operation = .error reason := by
    intro operation failed
    cases outcome : perform ctx registry operation with
    | error reason => exact ⟨reason, rfl⟩
    | ok value => exact absurd outcome (failed value)
  refine ⟨?_, ?_, ?_⟩
  · intro parameters epoch senderPubkeyB64 amount nonce payload
    apply refused
    intro outcome performed
    obtain ⟨after, bonded, -⟩ := map_eq_ok performed
    obtain ⟨_, -, -, -, entered⟩ := applyBond_cases bonded
    rcases entered with ⟨absent, -⟩ | ⟨current, found', staying, -⟩
    · rw [found] at absent
      cases absent
    · rw [found] at found'
      cases found'
      exact exiting staying
  · intro epoch consensusPubkeyB64
    apply refused
    intro outcome performed
    obtain ⟨after, marked, -⟩ := map_eq_ok performed
    obtain ⟨_, _, found', staying, -⟩ := markReady_cases marked
    rw [found] at found'
    cases found'
    exact exiting staying
  · intro epoch
    apply refused
    intro outcome performed
    obtain ⟨after, requested, -⟩ := map_eq_ok performed
    obtain ⟨_, found', staying, -⟩ := requestExit_cases requested
    rw [found] at found'
    cases found'
    exact exiting staying

end Perform

section Applied

variable {ctx : EvidenceContext}

/-- Evidence that an operation applied. -/
structure Applied (ctx : EvidenceContext) (evidence : VerifiedEvidence) : Prop where
  holds : ∃ currentEpoch evidenceEpochs bondedEpoch address conflict,
    EvidenceHolds ctx currentEpoch evidenceEpochs bondedEpoch address conflict evidence
  fits : FitsBits int64Bits evidence.evidenceEpoch

/-- Applied evidence is remembered until it is too old to be applied. -/
def Remembered (past : List Operation) (registry : ValidatorRegistry)
    (evidence : VerifiedEvidence) : Prop :=
  (∃ record ∈ registry.slashes, record.id = evidence.id ∧
      record.evidenceEpoch = evidence.evidenceEpoch ∧
      ∃ operation ∈ past, record.evidenceEpoch ≤ operation.epoch) ∨
    ∃ operation ∈ past, ∃ window, operation.window = some window ∧
      window ≤ operation.epoch - evidence.evidenceEpoch

/-- Accounts that agree with their registry. -/
structure Balanced
    (ctx : EvidenceContext) (past : List Operation) (accounts : Accounts) :
    Prop where
  sound : ∀ epoch, (∀ operation ∈ past, operation.epoch ≤ epoch) →
    Sound ctx.texts epoch accounts.registry
  balance : bonds accounts.registry.entries =
    accounts.bonded - accounts.withdrawn - accounts.slashed
  applied : ∀ evidence ∈ accounts.applied, Applied ctx evidence
  remembered : ∀ evidence ∈ accounts.applied, Remembered past accounts.registry evidence
  distinct : (accounts.applied.map VerifiedEvidence.id).Nodup

theorem balanced_start (ctx : EvidenceContext) : Balanced ctx [] Accounts.start where
  sound epoch _ := sound_empty ctx.texts epoch
  balance := rfl
  applied := by simp [Accounts.start]
  remembered := by simp [Accounts.start]
  distinct := List.nodup_nil

variable {past : List Operation} {evidence : VerifiedEvidence}

theorem Remembered.weaken {registry : ValidatorRegistry}
    (remembered : Remembered past registry evidence) (operation : Operation)
    {next : ValidatorRegistry} (same : next.slashes = registry.slashes) :
    Remembered (past ++ [operation]) next evidence := by
  rcases remembered with ⟨record, listed, id, about, made, present, begun⟩ |
    ⟨made, present, old⟩
  · exact .inl ⟨record, same ▸ listed, id, about, made, List.mem_append_left _ present, begun⟩
  · exact .inr ⟨made, List.mem_append_left _ present, old⟩

/-- Evidence that a slash does not find fresh is too old from then on. -/
theorem remembered_applySlash {registry next : ValidatorRegistry}
    {currentEpoch evidenceEpochs amount : Int} {address : Bytes}
    {conflict : VoteConflict} {former : VerifiedEvidence}
    (sound : Sound ctx.texts currentEpoch registry) (fits : FitsBits int64Bits currentEpoch)
    (before : ∀ operation ∈ past, operation.epoch ≤ currentEpoch)
    (applied : applySlash ctx.texts currentEpoch evidenceEpochs evidence
      registry = .ok (next, amount)) (remembered : Remembered past registry former) :
    Remembered (past ++ [.slash currentEpoch evidenceEpochs address conflict]) next former := by
  obtain ⟨_, -, -, -, rfl, -⟩ := applySlash_cases applied
  rcases remembered with ⟨record, listed, id, about, made, present, begun⟩ |
    ⟨made, present, old⟩
  · by_cases fresh : evidenceFresh currentEpoch evidenceEpochs record = true
    · refine .inl ⟨record, ?_, id, about, made, List.mem_append_left _ present, begun⟩
      exact mem_sortByKey.mpr (List.mem_cons_of_mem _ (List.mem_filter.mpr ⟨listed, fresh⟩))
    · have nonneg := (sound.slashes record listed).evidenceEpoch
      have now := begun.trans (before made present)
      have span : int64Sub currentEpoch record.evidenceEpoch =
          currentEpoch - record.evidenceEpoch := by
        obtain ⟨least, most⟩ := fits
        unfold int64Bits at least most
        exact int64Sub_eq ⟨by unfold int64Bits; omega, by unfold int64Bits; omega⟩
      unfold evidenceFresh at fresh
      rw [span] at fresh
      simp only [now, decide_true, Bool.true_and, decide_eq_true_eq, not_lt] at fresh
      refine .inr ⟨_, List.mem_append_right _ List.mem_cons_self, evidenceEpochs, rfl, ?_⟩
      rw [← about]
      exact fresh
  · exact .inr ⟨made, List.mem_append_left _ present, old⟩

/-- What a slash applies was not applied before. -/
theorem notMem_applied
    (ideal : IdealHash ctx.sha256) (faithful : ctx.texts.Faithful) {accounts : Accounts}
    (balanced : Balanced ctx past accounts)
    {currentEpoch evidenceEpochs bondedEpoch amount : Int} {address : Bytes}
    {conflict : VoteConflict} {next : ValidatorRegistry}
    (before : ∀ operation ∈ past, operation.Before
      (.slash currentEpoch evidenceEpochs address conflict))
    (fits : FitsBits int64Bits currentEpoch) (bonded : 0 ≤ bondedEpoch)
    (holds : EvidenceHolds ctx currentEpoch evidenceEpochs bondedEpoch address
      conflict evidence) (applied : applySlash ctx.texts currentEpoch evidenceEpochs evidence
      accounts.registry = .ok (next, amount)) :
    evidence.id ∉ accounts.applied.map VerifiedEvidence.id := by
  intro listed
  obtain ⟨former, present, same⟩ := List.mem_map.mp listed
  obtain ⟨⟨_, _, _, _, _, holds'⟩, fits'⟩ := balanced.applied former present
  have epochs := evidenceEpoch_of_id ideal faithful holds' holds same
  have recent := int64Sub_of_evidenceHolds holds bonded fits
  have from0 := holds.bonded
  have past' := holds.past
  have equal : former.evidenceEpoch = evidence.evidenceEpoch := by
    obtain ⟨least, most⟩ := fits
    obtain ⟨least', most'⟩ := fits'
    unfold int64Bits at least most least' most'
    omega
  obtain ⟨_, -, -, unapplied, -, -⟩ := applySlash_cases applied
  rcases balanced.remembered former present with
    ⟨record, recorded, id, about, -⟩ | ⟨made, listed, window, wide, old⟩
  · refine unapplied record recorded ?_ (id.trans same)
    unfold evidenceFresh
    rw [about, equal]
    simp [holds.past, holds.recent]
  · obtain ⟨epoch, shrinks⟩ := before made listed
    have narrow := shrinks window evidenceEpochs wide rfl
    change made.epoch ≤ currentEpoch at epoch
    omega

theorem balanced_step
    (ideal : IdealHash ctx.sha256) (faithful : ctx.texts.Faithful) {accounts : Accounts}
    (balanced : Balanced ctx past accounts) {operation : Operation}
    (before : ∀ earlier ∈ past, earlier.Before operation)
    (fits : FitsBits int64Bits operation.epoch) :
    Balanced ctx (past ++ [operation]) (accounts.step ctx operation) := by
  have sound := balanced.sound operation.epoch fun earlier present => (before earlier present).1
  unfold Accounts.step
  split
  · exact {
      sound := fun epoch later => balanced.sound epoch
        fun earlier present => later earlier (List.mem_append_left _ present)
      balance := balanced.balance
      applied := balanced.applied
      remembered := fun evidence present =>
        (balanced.remembered evidence present).weaken operation rfl
      distinct := balanced.distinct }
  · next after change performed =>
    have total := bonds_perform sound performed
    have kept := sound.perform performed le_rfl
    have soundAfter : ∀ epoch, (∀ earlier ∈ past ++ [operation], earlier.epoch ≤ epoch) →
          Sound ctx.texts epoch after := by
      intro epoch later
      exact kept.later (later operation (List.mem_append_right _ List.mem_cons_self))
    have balance := balanced.balance
    cases operation with
    | bond parameters epoch address senderPubkeyB64 amount nonce payload =>
      obtain ⟨_, bonded, done⟩ := map_eq_ok performed
      cases done
      obtain ⟨_, rfl, -⟩ := applyBond_cases bonded
      refine ⟨soundAfter, ?_, balanced.applied, ?_, balanced.distinct⟩
      · simp only [Accounts.record, Change.flow] at total ⊢
        omega
      · intro evidence present
        exact (balanced.remembered evidence present).weaken _ rfl
    | ready epoch address consensusPubkeyB64 =>
      obtain ⟨_, marked, done⟩ := map_eq_ok performed
      cases done
      obtain ⟨_, _, -, -, -, -, rfl⟩ := markReady_cases marked
      refine ⟨soundAfter, ?_, balanced.applied, ?_, balanced.distinct⟩
      · simp only [Accounts.record, Change.flow] at total ⊢
        omega
      · intro evidence present
        exact (balanced.remembered evidence present).weaken _ rfl
    | exit epoch address =>
      obtain ⟨_, requested, done⟩ := map_eq_ok performed
      cases done
      obtain ⟨_, -, -, -, rfl⟩ := requestExit_cases requested
      refine ⟨soundAfter, ?_, balanced.applied, ?_, balanced.distinct⟩
      · simp only [Accounts.record, Change.flow] at total ⊢
        omega
      · intro evidence present
        exact (balanced.remembered evidence present).weaken _ rfl
    | withdraw parameters currentEpoch activeAddresses address =>
      obtain ⟨⟨_, amount⟩, withdrawn, done⟩ := map_eq_ok performed
      cases done
      obtain ⟨_, -, -, rfl⟩ := withdraw_cases withdrawn
      refine ⟨soundAfter, ?_, balanced.applied, ?_, balanced.distinct⟩
      · simp only [Accounts.record, Change.flow] at total ⊢
        omega
      · intro evidence present
        exact (balanced.remembered evidence present).weaken _ rfl
    | slash currentEpoch evidenceEpochs address conflict =>
      obtain ⟨entry, evidence, amount, found, holds, applied, rfl⟩ := slashBy_cases performed
      obtain ⟨present, -⟩ := mem_of_find found
      have bonded := (sound.entries entry present).2.bondedEpoch
      have new := notMem_applied ideal faithful balanced before fits bonded holds applied
      refine ⟨soundAfter, ?_, ?_, ?_, List.nodup_cons.mpr
        ⟨new, balanced.distinct⟩⟩
      · simp only [Accounts.record, Change.flow] at total ⊢
        omega
      · intro other listed
        rcases List.mem_cons.mp listed with rfl | former
        · refine ⟨⟨_, _, _, _, _, holds⟩, ?_⟩
          have started := holds.bonded
          have past' := holds.past
          obtain ⟨least, most⟩ := fits
          change currentEpoch < _ at most
          exact ⟨by unfold int64Bits; omega, past'.trans_lt most⟩
        · exact balanced.applied other former
      · intro other listed
        rcases List.mem_cons.mp listed with rfl | former
        · obtain ⟨_, -, -, -, rfl, -⟩ := applySlash_cases applied
          refine .inl ⟨_, mem_sortByKey.mpr List.mem_cons_self, rfl, rfl, _,
            List.mem_append_right _ List.mem_cons_self, holds.past⟩
        · exact remembered_applySlash sound fits
            (fun earlier listed => (before earlier listed).1) applied
            (balanced.remembered other former)

theorem balanced_run (ideal : IdealHash ctx.sha256) (faithful : ctx.texts.Faithful)
    {operations : List Operation} (ordered : operations.Pairwise
      Operation.Before) (fits : ∀ operation ∈ operations, FitsBits int64Bits operation.epoch) :
    Balanced ctx operations (Accounts.run ctx operations) := by
  unfold Accounts.run
  induction operations using List.reverseRecOn with
  | nil => exact balanced_start ctx
  | append_singleton earlier operation ih =>
    obtain ⟨former, -, before⟩ := List.pairwise_append.mp ordered
    rw [List.foldl_append]
    refine balanced_step ideal faithful (ih former ?_) ?_ ?_
    · intro other present
      exact fits other (List.mem_append_left _ present)
    · intro other present
      exact before other present operation List.mem_cons_self
    · exact fits operation (List.mem_append_right _ List.mem_cons_self)

end Applied
end ValidatorRegistry
end LiteNode
