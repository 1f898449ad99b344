import LiteNode.Validators.EscrowSteps

/-!
# The escrow covers the bonds

Over every run of transactions the escrow address holds the sum of the bonds in
the stored registry, and besides only what it held before and what was
transferred to it.
-/

namespace LiteNode
namespace ValidatorTx

open ValidatorRegistry Tx

/-- A transaction and the epoch it is executed in. -/
structure Move where
  env : TxEnv
  tx : Transaction
  kind : Kind

section Run

variable (ctx : ValidatorTxContext)

def step (s : ExecState Metadata) (move : Move) : Except TxFailure Int × ExecState Metadata :=
  execute ctx move.env move.tx move.kind s

def run (s : ExecState Metadata) : List Move → ExecState Metadata
  | [] => s
  | move :: moves => run (step ctx s move).2 moves

/-- What a transaction transferred to the escrow address. -/
def transferred (s : ExecState Metadata) (move : Move) : Int :=
  match (step ctx s move).1 with
  | .ok _ => received ctx move.tx move.kind
  | .error _ => 0

def transfers (s : ExecState Metadata) : List Move → Int
  | [] => 0
  | move :: moves => transferred ctx s move + transfers (step ctx s move).2 moves

end Run

variable {ctx : ValidatorTxContext} {env : TxEnv} {tx : Transaction}
  {s t : ExecState Metadata} {kind : Kind} {epoch surplus : Int}

/-- The escrow address holds the bonds of the stored registry and a surplus. -/
structure Solvent (ctx : ValidatorTxContext) (epoch surplus : Int)
    (registry : ValidatorRegistry) (s : ExecState Metadata) : Prop where
  loaded : loaded ctx s = .ok registry
  sound : Sound ctx.evidence.texts epoch registry
  covered : s.balance ctx.escrowAddress = surplus + bonds registry.entries

theorem balance_registerPublicKey (s : ExecState Metadata) (addr key : Bytes) :
    ({ s with ledger := (s.ledger.perform
        (.account (.registerPublicKey addr key))).1 } :
      ExecState Metadata).balance = s.balance := by
  funext other
  unfold ExecState.balance
  have books := Ledger.books_update s.ledger addr
    fun account => { account with publicKey := some key }
  change (s.ledger.registerPublicKey addr key).books.balanceAt other = _
  unfold Ledger.registerPublicKey
  rw [books]
  unfold Books.balanceAt Books.post Books.change
  cases found : s.ledger.books.account addr with
  | none => rfl
  | some account =>
    dsimp only [Option.map_some, Option.toList, List.foldl_cons, List.foldl_nil, Books.put]
    rw [Function.update_apply]
    split
    · next same =>
      rw [same, found]
      rfl
    · rfl

theorem run_registerConfirmedSenderKey_ok {result : Unit}
    (done : (registerConfirmedSenderKey ctx env tx).run s = (.ok result, t)) :
    t.balance = s.balance ∧ t.batch = s.batch := by
  obtain ⟨account, s1, ran, done⟩ := Chained.run_bind_ok done
  obtain ⟨-, books, batch⟩ := run_findOpt_ok ran
  have same := ExecState.balance_of_books books
  dsimp only at done
  split at done
  · split at done
    · obtain ⟨answer, s2, ran, done⟩ := Chained.run_bind_ok done
      cases ran
      cases done
      exact ⟨(balance_registerPublicKey _ _ _).trans same, batch⟩
    · cases done
      exact ⟨same, batch⟩
  · cases done
    exact ⟨same, batch⟩

/-- A confirmed transaction was processed, and its key kept. -/
theorem execute_ok {fee : Int} (done : execute ctx env tx kind s = (.ok fee, t)) :
    ∃ before after, (processTx ctx env tx kind).run before = (.ok fee, after) ∧
      before.balance = s.balance ∧ before.batch = s.batch ∧
      t.balance = after.balance ∧ t.batch = after.batch := by
  obtain ⟨last, processed, batch, books⟩ := TxSavepoint.run_ok done
  obtain ⟨fee', after, processed, rest⟩ := Chained.run_bind_ok processed
  obtain ⟨_, last', kept, rest⟩ := Chained.run_bind_ok rest
  obtain ⟨balance', batch'⟩ := run_registerConfirmedSenderKey_ok kept
  cases rest
  refine ⟨_, after, processed, ExecState.balance_of_books ?_, rfl,
    (ExecState.balance_of_books books).trans balance', batch.trans batch'⟩
  exact TxSavepoint.books_beginJournal s.ledger

theorem done_execute {fee : Int} (foreign : tx.sender ≠ ctx.escrowAddress)
    (done : execute ctx env tx kind s = (.ok fee, t)) :
    Done ctx env (received ctx tx kind) s t := by
  obtain ⟨before, after, processed, balance, batch, balance', batch'⟩ := execute_ok done
  have same : loaded ctx before = loaded ctx s := by
    unfold loaded
    rw [batch]
  cases done_processTx foreign processed with
  | performed registry next operation change loaded epoch nothing performed
      stored escrow =>
      exact .performed registry next operation change (same.symm.trans loaded)
        epoch nothing performed (by rw [batch', stored])
        (by rw [balance', escrow, balance])
  | unmarked registry loaded nothing stored escrow =>
    exact .unmarked registry (same.symm.trans loaded) nothing
      (by rw [batch', stored]) (by rw [balance', escrow, balance])
  | left nonneg stored escrow =>
    exact .left nonneg (by rw [batch', stored, batch]) (by rw [balance', escrow, balance])

section Solvency

variable {registry : ValidatorRegistry} {received : Int}
  (reads : ∀ n, ctx.zOfString (intToString n) = some n) (faithful : ctx.evidence.texts.Faithful)
  (fits : FitsBits int64Bits env.epochId)

include reads faithful fits

theorem loaded_of_stored (sound : Sound ctx.evidence.texts env.epochId registry)
    (stored : t.batch.find? registryKey = some (registry.toString ctx.evidence.texts)) :
    loaded ctx t = .ok registry := by
  unfold loaded
  rw [stored]
  exact ofString_toString faithful reads sound fits

/-- What one transaction does to the escrow and the registry. -/
theorem Solvent.done (solvent : Solvent ctx epoch surplus registry s)
    (later : epoch ≤ env.epochId) (ended : Done ctx env received s t) :
    0 ≤ received ∧ ∃ next, Solvent ctx env.epochId (surplus + received) next t := by
  have covered := solvent.covered
  cases ended with
  | performed former next operation change found epoch nothing performed stored
      escrow =>
      rw [solvent.loaded] at found
      cases found
      subst nothing
      have sound := solvent.sound.perform performed (epoch ▸ later)
      rw [epoch] at sound
      have total := bonds_perform solvent.sound performed
      refine ⟨le_rfl, next, ?_, sound, ?_⟩
      · exact loaded_of_stored reads faithful fits sound stored
      · rw [escrow, covered, total]
        omega
  | unmarked former found nothing stored escrow =>
    rw [solvent.loaded] at found
    cases found
    subst nothing
    have sound := solvent.sound.later later
    refine ⟨le_rfl, registry, ?_, sound, ?_⟩
    · exact loaded_of_stored reads faithful fits sound stored
    · rw [escrow, covered]
      omega
  | left nonneg stored escrow =>
    refine ⟨nonneg, registry, ?_, solvent.sound.later later, ?_⟩
    · unfold ValidatorTx.loaded
      rw [stored]
      exact solvent.loaded
    · rw [escrow, covered]
      omega

end Solvency

theorem bond_le_bonds {registry : ValidatorRegistry} {entry : ValidatorEntry} {address : Bytes}
    (sound : Sound ctx.evidence.texts epoch registry) (found : find address registry = some entry) :
    0 < entry.bond ∧ entry.bond ≤ bonds registry.entries := by
  have positive : ∀ other ∈ registry.entries, 0 < other.bond :=
    fun other listed => (sound.entries other listed).2.bond
  have present := (mem_of_find found).1
  refine ⟨positive entry present, ?_⟩
  refine List.single_le_sum ?_ _ (List.mem_map_of_mem present)
  intro amount listed
  obtain ⟨other, present, rfl⟩ := List.mem_map.mp listed
  exact (positive other present).le

section Funds

variable {registry : ValidatorRegistry} {reason : String}

theorem avoids_loadRegistry : Avoids "validator_escrow_rejected" (loadRegistry ctx) :=
  avoids_bind (avoids_load _) fun _ => avoids_need (by decide) _

theorem avoids_setMeta (key value : Bytes) :
    Avoids "validator_escrow_rejected" (setMeta key value) :=
  avoids_store _

theorem avoids_saveRegistry : Avoids "validator_escrow_rejected" (saveRegistry ctx registry) :=
  avoids_setMeta _ _

theorem avoids_loadSlashSupply : Avoids "validator_escrow_rejected" (loadSlashSupply ctx) := by
  apply avoids_bind (avoids_load _)
  intro total
  apply avoids_bind (avoids_load _)
  intro remaining
  apply avoids_bind (avoids_load _)
  intro retired
  exact avoids_need (by decide) _

theorem avoids_registerConfirmedSenderKey :
    Avoids "validator_escrow_rejected"
      (registerConfirmedSenderKey ctx env tx) := by
  apply avoids_bind (avoids_findOpt _)
  intro account
  dsimp only
  split
  · split
    · exact avoids_bind (avoids_perform _) fun _ => avoids_pure ()
    · exact avoids_pure ()
  · exact avoids_pure ()

/-- The escrow never lacks the bond of an entry. -/
theorem Solvent.funded (solvent : Solvent ctx epoch surplus registry s) (surplus0 : 0 ≤ surplus)
    {entry : ValidatorEntry} {address : Bytes} (found : find address registry = some entry)
    (same : t.balance ctx.escrowAddress = s.balance ctx.escrowAddress) :
    ∃ after, (debitAmountOnly "validator_escrow_rejected" ctx.escrowAddress
      entry.bond).run t = (.ok (), after) := by
  obtain ⟨positive, bounded⟩ := bond_le_bonds solvent.sound found
  apply run_debitAmountOnly_of_le positive
  rw [same, solvent.covered]
  omega

theorem Solvent.withdraw_funded
    (solvent : Solvent ctx epoch surplus registry s) (surplus0 : 0 ≤ surplus)
    (foreign : tx.sender ≠ ctx.escrowAddress) :
    (processWithdraw ctx env tx).run s ≠
      (.error (.refused "validator_escrow_rejected" reason), t) := by
  intro ended
  unfold processWithdraw at ended
  split at ended
  · exact avoids_refuse (by decide) _ _ _ ended
  obtain ⟨_, -, ended⟩ := Avoids.bind_same (avoids_check (by decide) _) ended run_check_ok
  obtain ⟨_, -, ended⟩ := Avoids.bind_same (avoids_check (by decide) _) ended run_check_ok
  obtain ⟨fold, -, ended⟩ := Avoids.bind_same (avoids_force _) ended run_force_ok
  obtain ⟨former, s4, ran, ended⟩ := Avoids.bind_error avoids_loadRegistry ended
  obtain ⟨found, same4, batch4⟩ := run_loadRegistry_ok ran
  rw [solvent.loaded] at found
  cases found
  obtain ⟨⟨next, amount⟩, withdrawn, ended⟩ :=
    Avoids.bind_same (avoids_need (by decide) _) ended run_need_ok
  obtain ⟨entry, found, rfl, -⟩ := withdraw_cases withdrawn
  obtain ⟨_, s6, ran, ended⟩ := Avoids.bind_error (avoids_post (by decide) _) ended
  obtain ⟨escrow6, -⟩ := balance_debit_ne foreign ran
  rcases Chained.run_bind_error ended with failed | ⟨_, s7, ran, ended⟩
  · obtain ⟨after, funded⟩ := solvent.funded surplus0 found
      (escrow6.trans (congrFun (balance_of_account same4) _))
    cases funded.symm.trans failed
  obtain ⟨_, s8, ran, ended⟩ := Avoids.bind_error (avoids_post (by decide) _) ended
  obtain ⟨_, s9, ran, ended⟩ := Avoids.bind_error avoids_saveRegistry ended
  cases ended

theorem Solvent.evidence_funded
    (solvent : Solvent ctx epoch surplus registry s) (surplus0 : 0 ≤ surplus)
    (foreign : tx.sender ≠ ctx.escrowAddress) :
    (processEvidence ctx env tx).run s ≠
      (.error (.refused "validator_escrow_rejected" reason), t) := by
  intro ended
  unfold processEvidence at ended
  split at ended
  · exact avoids_refuse (by decide) _ _ _ ended
  obtain ⟨fold, -, ended⟩ := Avoids.bind_same (avoids_force _) ended run_force_ok
  obtain ⟨_, -, ended⟩ := Avoids.bind_same (avoids_check (by decide) _) ended run_check_ok
  obtain ⟨_, -, ended⟩ := Avoids.bind_same (avoids_check (by decide) _) ended run_check_ok
  obtain ⟨proof, -, ended⟩ := Avoids.bind_same (avoids_need (by decide) _) ended run_need_ok
  obtain ⟨former, s5, ran, ended⟩ := Avoids.bind_error avoids_loadRegistry ended
  obtain ⟨found, same5, batch5⟩ := run_loadRegistry_ok ran
  rw [solvent.loaded] at found
  cases found
  obtain ⟨⟨next, change⟩, slashed, ended⟩ :=
    Avoids.bind_same (avoids_need (by decide) _) ended run_need_ok
  obtain ⟨entry, found, flow⟩ := slashBy_flow slashed
  obtain ⟨⟨total, retired⟩, s7, ran, ended⟩ := Avoids.bind_error avoids_loadSlashSupply ended
  obtain ⟨same7, batch7⟩ := run_loadSlashSupply_ok ran
  obtain ⟨_, -, ended⟩ := Avoids.bind_same (avoids_check (by decide) _) ended run_check_ok
  obtain ⟨_, s9, ran, ended⟩ := Avoids.bind_error (avoids_post (by decide) _) ended
  obtain ⟨escrow9, -⟩ := balance_debit_ne foreign ran
  rcases Chained.run_bind_error ended with failed | ⟨_, s10, ran, ended⟩
  · obtain ⟨after, funded⟩ := solvent.funded surplus0 found
      (escrow9.trans (congrFun (balance_of_account (same7.trans same5)) _))
    have amount : -change.flow = entry.bond := by rw [flow, neg_neg]
    rw [amount] at failed
    cases funded.symm.trans failed
  obtain ⟨_, s11, ran, ended⟩ := Avoids.bind_error avoids_saveRegistry ended
  obtain ⟨_, s12, ran, ended⟩ := Avoids.bind_error (avoids_setMeta _ _) ended
  obtain ⟨_, s13, ran, ended⟩ := Avoids.bind_error (avoids_setMeta _ _) ended
  cases ended

end Funds

section Runs

variable {registry : ValidatorRegistry}

/-- A withdrawal or slash does not fail for lack of funds. -/
theorem Solvent.execute_funded
    (solvent : Solvent ctx epoch surplus registry s) (surplus0 : 0 ≤ surplus)
    (foreign : tx.sender ≠ ctx.escrowAddress)
    (pays : kind = .withdraw ∨ kind = .evidence) (reason : String) :
    (execute ctx env tx kind s).1 ≠
      .error (.refused "validator_escrow_rejected" reason) := by
  intro refused
  obtain ⟨after, ended⟩ := TxSavepoint.run_refused
    (Prod.ext refused rfl : execute ctx env tx kind s = (_, _))
  have opened : Solvent ctx epoch surplus registry
      { s with ledger := s.ledger.beginJournal.1 } := by
    refine ⟨solvent.loaded, solvent.sound, ?_⟩
    have same : ({ s with ledger := s.ledger.beginJournal.1 } :
        ExecState Metadata).balance = s.balance :=
      ExecState.balance_of_books (TxSavepoint.books_beginJournal s.ledger)
    rw [same]
    exact solvent.covered
  rcases Chained.run_bind_error ended with failed | ⟨fee, s1, -, ended⟩
  · rcases pays with rfl | rfl
    · exact opened.withdraw_funded surplus0 foreign failed
    · exact opened.evidence_funded surplus0 foreign failed
  rcases Chained.run_bind_error ended with failed | ⟨_, s2, -, ended⟩
  · exact avoids_registerConfirmedSenderKey _ _ _ failed
  cases ended

/-- A withdrawal credits the bond that it takes from the registry. -/
theorem Solvent.execute_withdraw (solvent : Solvent ctx epoch surplus registry s) {fee : Int}
    (foreign : tx.sender ≠ ctx.escrowAddress)
    (done : execute ctx env tx .withdraw s = (.ok fee, t)) :
    ∃ entry, find tx.sender registry = some entry ∧
      t.batch.find? registryKey = some (ValidatorRegistry.toString
        ctx.evidence.texts
        { registry with entries := others tx.sender registry.entries }) ∧
      t.balance tx.sender = s.balance tx.sender - fee + entry.bond ∧
      t.balance ctx.escrowAddress = s.balance ctx.escrowAddress - entry.bond := by
  obtain ⟨before, after, processed, balance, batch, balance', batch'⟩ := execute_ok done
  obtain ⟨-, former, entry, found, here, stored, rfl, sender, escrow⟩ :=
    done_withdraw foreign processed
  have same : ValidatorTx.loaded ctx before = ValidatorTx.loaded ctx s := by
    unfold ValidatorTx.loaded
    rw [batch]
  rw [same, solvent.loaded] at found
  cases found
  rw [balance', batch']
  rw [balance] at sender escrow
  exact ⟨entry, here, stored, sender, escrow⟩

variable
  (reads : ∀ n, ctx.zOfString (intToString n) = some n) (faithful : ctx.evidence.texts.Faithful)

include reads faithful

theorem Solvent.step {move : Move} (solvent : Solvent ctx epoch surplus registry s)
    (later : epoch ≤ move.env.epochId) (fits : FitsBits int64Bits move.env.epochId)
    (foreign : move.tx.sender ≠ ctx.escrowAddress) :
    0 ≤ transferred ctx s move ∧
      ∃ next, Solvent ctx move.env.epochId
        (surplus + transferred ctx s move) next (step ctx s move).2 := by
  unfold transferred
  cases outcome : ValidatorTx.step ctx s move with
  | mk result after =>
    cases result with
    | ok fee => exact solvent.done reads faithful fits later (done_execute foreign outcome)
    | error failure =>
      obtain ⟨batch, books⟩ := TxSavepoint.run_error outcome
      refine ⟨le_rfl, registry, ?_, solvent.sound.later later, ?_⟩
      · unfold ValidatorTx.loaded
        rw [batch]
        exact solvent.loaded
      · rw [ExecState.balance_of_books books, solvent.covered]
        rw [add_zero]

theorem Solvent.run {moves : List Move} (solvent : Solvent ctx epoch surplus registry s)
    (ordered : (epoch :: moves.map (·.env.epochId)).Pairwise (· ≤ ·))
    (fits : ∀ move ∈ moves, FitsBits int64Bits move.env.epochId)
    (foreign : ∀ move ∈ moves, move.tx.sender ≠ ctx.escrowAddress) :
    0 ≤ transfers ctx s moves ∧
      ∃ last next, Solvent ctx last (surplus + transfers ctx s moves) next (run ctx s moves) := by
  induction moves generalizing epoch surplus registry s with
  | nil =>
    refine ⟨le_rfl, epoch, registry, ?_⟩
    rw [transfers, add_zero]
    exact solvent
  | cons move moves ih =>
    obtain ⟨later, ordered⟩ := List.pairwise_cons.mp ordered
    obtain ⟨nonneg, next, stepped⟩ := solvent.step reads faithful
      (later _ List.mem_cons_self) (fits _ List.mem_cons_self)
      (foreign _ List.mem_cons_self)
    obtain ⟨nonneg', last, registry', ran⟩ := ih stepped
      ordered (fun other listed => fits other (List.mem_cons_of_mem _ listed))
      (fun other listed => foreign other (List.mem_cons_of_mem _ listed))
    refine ⟨add_nonneg nonneg nonneg', last, registry', ?_⟩
    rw [transfers, ← add_assoc]
    exact ran

/-- After every run of transactions of other senders the escrow address holds
the bonds of the registry, what it held before, and what was transferred to it;
a withdrawal or slash that follows has its funds, and a withdrawal credits the
bond that it takes from the registry. -/
theorem escrow_of_run (start : ExecState Metadata) (moves : List Move)
    (empty : loaded ctx start = .ok .empty) (nonneg : 0 ≤ start.balance ctx.escrowAddress)
    (ordered : (moves.map (·.env.epochId)).Pairwise (· ≤ ·))
    (fits : ∀ move ∈ moves, FitsBits int64Bits move.env.epochId)
    (foreign : ∀ move ∈ moves, move.tx.sender ≠ ctx.escrowAddress) :
    ∃ registry, loaded ctx (run ctx start moves) = .ok registry ∧
      bonds registry.entries ≤ (run ctx start moves).balance ctx.escrowAddress ∧
      (run ctx start moves).balance ctx.escrowAddress - bonds registry.entries =
        start.balance ctx.escrowAddress + transfers ctx start moves ∧
      ∀ move : Move, move.tx.sender ≠ ctx.escrowAddress →
        (move.kind = .withdraw ∨ move.kind = .evidence →
          ∀ reason, (step ctx (run ctx start moves) move).1 ≠
            .error (.refused "validator_escrow_rejected" reason)) ∧
        (move.kind = .withdraw → ∀ fee after,
          step ctx (run ctx start moves) move = (.ok fee, after) →
          ∃ entry, find move.tx.sender registry = some entry ∧
            after.batch.find? registryKey = some (ValidatorRegistry.toString
              ctx.evidence.texts { registry with
                entries := others move.tx.sender registry.entries }) ∧
            after.balance move.tx.sender =
              (run ctx start moves).balance move.tx.sender - fee + entry.bond ∧
            after.balance ctx.escrowAddress =
              (run ctx start moves).balance ctx.escrowAddress -
                entry.bond) := by
  have started : ∃ epoch, (epoch :: moves.map (·.env.epochId)).Pairwise (· ≤ ·) := by
    cases moves with
    | nil => exact ⟨0, List.pairwise_singleton _ _⟩
    | cons move moves =>
      refine ⟨move.env.epochId, List.pairwise_cons.mpr ⟨?_, ordered⟩⟩
      intro other listed
      rcases List.mem_cons.mp listed with rfl | present
      · exact le_rfl
      · exact (List.pairwise_cons.mp ordered).1 other present
  obtain ⟨epoch, ordered⟩ := started
  have solvent : Solvent ctx epoch (start.balance ctx.escrowAddress) .empty start := by
    refine ⟨empty, sound_empty _ _, ?_⟩
    exact (add_zero _).symm
  obtain ⟨transferred, last, registry, ran⟩ := solvent.run reads faithful ordered fits foreign
  have surplus := add_nonneg nonneg transferred
  have covered := ran.covered
  refine ⟨registry, ran.loaded, by omega, by omega, ?_⟩
  intro move foreign
  refine ⟨ran.execute_funded surplus foreign, ?_⟩
  intro withdraws fee after stepped
  unfold ValidatorTx.step at stepped
  rw [withdraws] at stepped
  exact ran.execute_withdraw foreign stepped

end Runs

namespace EscrowedBond

open TwoSlashes

/-- One policy, one bond that is read from every message. -/
def context : ValidatorTxContext where
  evidence := TwoSlashes.ctx
  zOfString := readDecimal
  verifyAddressPubkey _ _ := true
  addressFromPubkey _ := [69]
  policy := .bonded ⟨0, parameters, 1, 10⟩
  bondPayloadOfMessage _ := .ok ⟨Base64.encode (pubkey 65), []⟩
  proofOfMessage _ := .error "no votes"
  ready := {
    payloadOfMessage := fun _ => .error "no reference"
    admitted := fun _ _ _ _ _ => .ok ()
    updateReadyFold := fun _ _ _ _ _ => .ok none
    legacy := fun _ _ _ => .error ("validator_ready_rejected", "no set") }
  senderKeyActivationEpoch := none

def envAt (epoch : Int) : TxEnv where
  epochId := epoch
  validatorAddrs := []
  fold := .ok {
    mode := .prior, liveMode := .prior, seatMode := .prior, openMode := .prior
    standardMode := .prior, planMode := .prior, start := 0, profileStart := 0
    readyMode := .prior, readyRefMode := .prior, exitMode := .prior
    members := [] }

/-- A transaction of the validator. -/
def sent (recipient : Bytes) (amount nonce : Int) : Transaction where
  sender := address 65
  recipient := recipient
  amount := amount
  nonce := nonce
  ou := 1
  timestamp := 0
  signature := []
  publicKey := some (Base64.encode (pubkey 65))
  message := none
  opType := .standard
  encryptedData := none

def start : ExecState Metadata where
  ledger := {
    store := { accounts := Table.replace ∅ (address 65) ⟨100, 0, none, none, 0⟩ }
    totalSupply := 100
    activeAccounts := 1 }
  batch := ∅
  faults := []

def moves : List Move := [⟨envAt 5, sent [69] 10 1, .bond⟩, ⟨envAt 6, sent [69] 4 2, .standard⟩]

def withdrawal : Move := ⟨envAt 40, sent (address 65) 0 3, .withdraw⟩

end EscrowedBond

open EscrowedBond in
/-- The bond of ten is covered, with the four transferred. -/
theorem escrow_of_run_escrowedBond :
    ∃ registry, loaded context (run context start moves) = .ok registry ∧
      bonds registry.entries = 10 ∧
      (run context start moves).balance context.escrowAddress = 14 ∧
      ∀ reason, (step context (run context start moves) withdrawal).1 ≠
        .error (.refused "validator_escrow_rejected" reason) := by
  have ordered : (moves.map (·.env.epochId)).Pairwise (· ≤ ·) := by decide
  have fits : ∀ move ∈ moves, FitsBits int64Bits move.env.epochId := by decide
  have foreign : ∀ move ∈ moves, move.tx.sender ≠ context.escrowAddress := by
    decide
  obtain ⟨registry, stored, -, difference, further⟩ :=
    @escrow_of_run context readDecimal_intToString
      SetFold.faithful_plainTexts start moves rfl (by decide +kernel) ordered
      fits foreign
  have before : start.balance context.escrowAddress = 0 := by decide +kernel
  have brought : transfers context start moves = 4 := by decide +kernel
  have holds : (run context start moves).balance context.escrowAddress = 14 := by
    decide +kernel
  refine ⟨registry, stored, by omega, holds, ?_⟩
  exact (further withdrawal (by decide)).1 (.inl rfl)

end ValidatorTx
end LiteNode
