import LiteNode.Validators.Escrow

/-!
# What transactions of validators do

A transaction that succeeds performs one operation on the stored registry and
moves at the escrow address what the operation adds to the bonds. A transfer
leaves the registry.
-/

namespace LiteNode
namespace ValidatorTx

open ValidatorRegistry Tx

variable {ctx : ValidatorTxContext} {env : TxEnv} {tx : Transaction} {s t : ExecState Metadata}

/-- The stored registry. -/
def loaded (ctx : ValidatorTxContext) (s : ExecState Metadata) : Except String ValidatorRegistry :=
  loadValidatorRegistry ctx.update (s.batch.find? registryKey)

/-- What a transfer brings to the escrow address. -/
def received (ctx : ValidatorTxContext) (tx : Transaction) (kind : Kind) : Int :=
  if kind = .standard ∧ tx.recipient = ctx.escrowAddress then tx.amount else 0

/-- What a transaction that succeeds leaves behind. -/
inductive Done (ctx : ValidatorTxContext) (env : TxEnv) (received : Int)
    (s t : ExecState Metadata) : Prop
  | performed (registry next : ValidatorRegistry)
      (operation : ValidatorRegistry.Operation) (change : Change)
      (loaded : loaded ctx s = .ok registry) (epoch : operation.epoch = env.epochId)
      (nothing : received = 0)
      (performed : ValidatorRegistry.perform ctx.evidence registry operation = .ok (next, change))
      (stored : t.batch.find? registryKey = some (next.toString ctx.evidence.texts))
      (escrow : t.balance ctx.escrowAddress = s.balance ctx.escrowAddress + change.flow)
  | unmarked (registry : ValidatorRegistry) (loaded : ValidatorTx.loaded ctx s = .ok registry)
      (nothing : received = 0)
      (stored : t.batch.find? registryKey = some (registry.toString ctx.evidence.texts))
      (escrow : t.balance ctx.escrowAddress = s.balance ctx.escrowAddress)
  | left (nonneg : 0 ≤ received) (stored : t.batch.find? registryKey = s.batch.find? registryKey)
      (escrow : t.balance ctx.escrowAddress = s.balance ctx.escrowAddress + received)

theorem run_loadRegistry_ok {registry : ValidatorRegistry}
    (done : (loadRegistry ctx).run s = (.ok registry, t)) :
    loaded ctx s = .ok registry ∧ t.account = s.account ∧ t.batch = s.batch := by
  obtain ⟨stored, _, ran, done⟩ := Chained.run_bind_ok done
  obtain ⟨rfl, rfl⟩ := run_load_ok ran
  obtain ⟨found, rfl⟩ := run_need_ok done
  exact ⟨found, rfl, rfl⟩

variable {result : Unit} {addr : Bytes}

theorem run_setMeta_ok {key value : Bytes} (done : (setMeta key value).run s = (.ok result, t)) :
    t.account = s.account ∧ t.batch = s.batch.replace key value := by
  cases run_store_ok done
  exact ⟨rfl, rfl⟩

theorem run_saveRegistry_ok {registry : ValidatorRegistry}
    (done : (saveRegistry ctx registry).run s = (.ok result, t)) :
    t.account = s.account ∧
      t.batch.find? registryKey = some (registry.toString ctx.evidence.texts) := by
  obtain ⟨same, written⟩ := run_setMeta_ok done
  exact ⟨same, by rw [written, Table.find?_replace]⟩

theorem run_mem_ok {present : Bool} (done : (mem addr).run s = (.ok present, t)) :
    present = (s.account addr).isSome ∧ t.account = s.account ∧ t.batch = s.batch := by
  obtain ⟨account, after, found, done⟩ := Chained.run_bind_ok done
  obtain ⟨rfl, books, batch⟩ := run_findOpt_ok found
  cases done
  exact ⟨rfl, ExecState.account_of_books books, batch⟩

theorem balance_of_account (same : t.account = s.account) : t.balance = s.balance := by
  funext addr
  rw [ExecState.balance_eq, ExecState.balance_eq, same]

theorem balance_open {before : ExecState Metadata} (same : before.account = s.account)
    (absent : ¬ (s.account addr).isSome = true)
    (replaced : t.account = Function.update before.account addr
      (some { emptyAccount with balance := 0 })) :
    t.balance = s.balance := by
  rw [ExecState.balance_replace replaced, balance_of_account same]
  refine Function.update_eq_self_iff.mpr ?_
  rw [ExecState.balance_eq]
  cases found : s.account addr with
  | none => rfl
  | some account => simp [found] at absent

/-- Opening the escrow account changes no balance. -/
theorem run_ensureEscrow_ok (done : (ensureEscrow ctx).run s = (.ok result, t)) :
    t.balance = s.balance ∧ t.batch = s.batch := by
  obtain ⟨present, after, found, done⟩ := Chained.run_bind_ok done
  obtain ⟨rfl, same, batch⟩ := run_mem_ok found
  split at done
  · cases done
    exact ⟨balance_of_account same, batch⟩
  · next absent =>
    obtain ⟨replaced, batch'⟩ := run_addAccount_ok done
    exact ⟨balance_open same absent replaced, batch'.trans batch⟩

/-- Opening an account changes no balance, whether or not it succeeds. -/
theorem run_openAccount_ok (done : (openAccount addr).run s = (.ok result, t)) :
    t.balance = s.balance ∧ t.batch = s.batch := by
  obtain ⟨present, after, ran, done⟩ := Chained.run_bind_ok done
  obtain ⟨rfl, same, batch⟩ := run_mem_ok ran
  split at done
  · cases done
    exact ⟨balance_of_account same, batch⟩
  · next absent =>
    cases answer : (after.ledger.perform (.account (.addAccount addr 0))).2 with
    | error error =>
      cases done
      exact ⟨(ExecState.balance_of_books
        (Ledger.books_of_refused answer)).trans (balance_of_account same), batch⟩
    | ok =>
      cases done
      exact ⟨balance_open same absent (account_addAccount answer), batch⟩

theorem balance_debit_ne {kind : String} {sender : Bytes}
    {amount nonce : Int} (apart : sender ≠ addr)
    (done : (debit kind sender amount nonce).run s = (.ok result, t)) :
    t.balance addr = s.balance addr ∧ t.batch = s.batch := by
  obtain ⟨moved, batch⟩ := balance_debit done
  exact ⟨by rw [moved, Function.update_of_ne apart.symm], batch⟩

theorem readyMark_cases (mode : RuleMode) (prior marked : ValidatorRegistry)
    (duty : Option (Bytes × Bool)) :
    readyMark mode prior marked duty = prior ∨ readyMark mode prior marked duty = marked := by
  unfold readyMark
  split
  · exact Or.inr rfl
  · split
    · exact Or.inr rfl
    · split
      · exact Or.inr rfl
      · exact Or.inl rfl

theorem registryKey_ne_readyMetaKey (fingerprint address : Bytes) :
    registryKey ≠ readyMetaKey fingerprint address := by
  intro same
  have start := congrArg (List.take 15) same
  unfold readyMetaKey at start
  rw [List.append_assoc, List.append_assoc, List.take_append_of_le_length (by decide)] at start
  exact absurd start (by decide)

/-! ## Handlers -/

section Handlers

variable {fee : Int}

theorem done_bond (foreign : tx.sender ≠ ctx.escrowAddress)
    (processed : (processBond ctx env tx).run s = (.ok fee, t)) : Done ctx env 0 s t := by
  unfold processBond at processed
  split at processed
  · cases processed
  next policy bonded =>
  obtain ⟨_, -, processed⟩ := Chained.run_bind_same processed run_check_ok
  obtain ⟨payload, -, processed⟩ := Chained.run_bind_same processed run_need_ok
  obtain ⟨registry, s3, ran, processed⟩ := Chained.run_bind_ok processed
  obtain ⟨found, same3, batch3⟩ := run_loadRegistry_ok ran
  obtain ⟨next, applied, processed⟩ := Chained.run_bind_same processed run_need_ok
  obtain ⟨_, s5, ran, processed⟩ := Chained.run_bind_ok processed
  obtain ⟨escrow5, batch5⟩ := balance_debit_ne foreign ran
  obtain ⟨_, s6, ran, processed⟩ := Chained.run_bind_ok processed
  obtain ⟨escrow6, batch6⟩ := run_ensureEscrow_ok ran
  obtain ⟨_, s7, ran, processed⟩ := Chained.run_bind_ok processed
  obtain ⟨-, escrow7, batch7⟩ := balance_credit ran
  obtain ⟨_, s8, ran, processed⟩ := Chained.run_bind_ok processed
  obtain ⟨same8, stored⟩ := run_saveRegistry_ok ran
  cases processed
  refine .performed registry next
    (.bond policy.parameters env.epochId tx.sender (tx.publicKey.getD [])
      tx.amount tx.nonce payload) (.bonded tx.amount) found rfl rfl ?_ stored ?_
  · rw [ValidatorRegistry.perform, applied]
    rfl
  · rw [balance_of_account same8, escrow7, Function.update_self, escrow6,
      escrow5, balance_of_account same3]
    rfl

theorem done_exit (foreign : tx.sender ≠ ctx.escrowAddress)
    (processed : (processExit ctx env tx).run s = (.ok fee, t)) : Done ctx env 0 s t := by
  unfold processExit at processed
  split at processed
  · cases processed
  next policy bonded =>
  obtain ⟨_, -, processed⟩ := Chained.run_bind_same processed run_check_ok
  obtain ⟨_, -, processed⟩ := Chained.run_bind_same processed run_check_ok
  obtain ⟨registry, s3, ran, processed⟩ := Chained.run_bind_ok processed
  obtain ⟨found, same3, batch3⟩ := run_loadRegistry_ok ran
  obtain ⟨next, requested, processed⟩ := Chained.run_bind_same processed run_need_ok
  obtain ⟨_, s5, ran, processed⟩ := Chained.run_bind_ok processed
  obtain ⟨escrow5, batch5⟩ := balance_debit_ne foreign ran
  obtain ⟨_, s6, ran, processed⟩ := Chained.run_bind_ok processed
  obtain ⟨same6, stored⟩ := run_saveRegistry_ok ran
  cases processed
  refine .performed registry next (.exit env.epochId tx.sender) .marked found
    rfl rfl ?_ stored ?_
  · rw [ValidatorRegistry.perform, requested]
    rfl
  · rw [balance_of_account same6, escrow5, balance_of_account same3]
    exact (add_zero _).symm

/-- What a withdrawal does, with what it takes and gives. -/
theorem done_withdraw (foreign : tx.sender ≠ ctx.escrowAddress)
    (processed : (processWithdraw ctx env tx).run s = (.ok fee, t)) :
    Done ctx env 0 s t ∧
      ∃ registry entry, loaded ctx s = .ok registry ∧ find tx.sender registry = some entry ∧
        t.batch.find? registryKey = some (ValidatorRegistry.toString
          ctx.evidence.texts
          { registry with entries := others tx.sender registry.entries }) ∧
        fee = tx.ou ∧ t.balance tx.sender = s.balance tx.sender - tx.ou + entry.bond ∧
        t.balance ctx.escrowAddress = s.balance ctx.escrowAddress - entry.bond := by
  unfold processWithdraw at processed
  split at processed
  · cases processed
  next policy bonded =>
  obtain ⟨_, -, processed⟩ := Chained.run_bind_same processed run_check_ok
  obtain ⟨_, -, processed⟩ := Chained.run_bind_same processed run_check_ok
  obtain ⟨fold, -, processed⟩ := Chained.run_bind_same processed run_force_ok
  obtain ⟨registry, s4, ran, processed⟩ := Chained.run_bind_ok processed
  obtain ⟨found, same4, batch4⟩ := run_loadRegistry_ok ran
  obtain ⟨⟨next, amount⟩, withdrawn, processed⟩ := Chained.run_bind_same processed run_need_ok
  obtain ⟨_, s6, ran, processed⟩ := Chained.run_bind_ok processed
  obtain ⟨moved6, batch6⟩ := balance_debit ran
  obtain ⟨_, s7, ran, processed⟩ := Chained.run_bind_ok processed
  obtain ⟨moved7, batch7⟩ := balance_debitAmountOnly ran
  obtain ⟨_, s8, ran, processed⟩ := Chained.run_bind_ok processed
  obtain ⟨-, moved8, batch8⟩ := balance_credit ran
  obtain ⟨_, s9, ran, processed⟩ := Chained.run_bind_ok processed
  obtain ⟨same9, stored⟩ := run_saveRegistry_ok ran
  cases processed
  obtain ⟨entry, here, rfl, rfl⟩ := withdraw_cases withdrawn
  have escrow : t.balance ctx.escrowAddress = s.balance ctx.escrowAddress - entry.bond := by
    rw [balance_of_account same9, moved8, Function.update_of_ne foreign.symm,
      moved7, Function.update_self, moved6, Function.update_of_ne foreign.symm,
      balance_of_account same4]
  have sender : t.balance tx.sender = s.balance tx.sender - tx.ou + entry.bond := by
    rw [balance_of_account same9, moved8, Function.update_self, moved7,
      Function.update_of_ne foreign, moved6, Function.update_self, balance_of_account same4]
  refine ⟨.performed registry _ (.withdraw
      (ValidatorPolicy.exitParameters fold.exitMode policy.parameters)
      env.epochId (fold.stdValue env.validatorAddrs fold.members) tx.sender)
      (.withdrawn entry.bond) found rfl rfl ?_ stored ?_, registry, entry, found,
    here, stored, rfl, sender, escrow⟩
  · rw [ValidatorRegistry.perform, withdrawn]
    rfl
  · rw [escrow]
    exact sub_eq_add_neg _ _

theorem slashBy_flow {currentEpoch evidenceEpochs : Int} {address : Bytes}
    {conflict : VoteConflict} {registry next : ValidatorRegistry} {change : Change}
    (slashed : slashBy ctx.evidence currentEpoch evidenceEpochs address conflict
      registry = .ok (next, change)) :
    ∃ entry, find address registry = some entry ∧ change.flow = -entry.bond := by
  obtain ⟨entry, evidence, amount, found, holds, applied, rfl⟩ := slashBy_cases slashed
  obtain ⟨entry', found', rfl, -⟩ := applySlash_cases applied
  rw [holds.offender] at found'
  rw [found] at found'
  cases found'
  exact ⟨entry, found, rfl⟩

theorem run_loadSlashSupply_ok {supply : Int × Int}
    (done : (loadSlashSupply ctx).run s = (.ok supply, t)) :
    t.account = s.account ∧ t.batch = s.batch := by
  obtain ⟨total, _, ran, done⟩ := Chained.run_bind_ok done
  obtain ⟨-, rfl⟩ := run_load_ok ran
  obtain ⟨remaining, _, ran, done⟩ := Chained.run_bind_ok done
  obtain ⟨-, rfl⟩ := run_load_ok ran
  obtain ⟨retired, _, ran, done⟩ := Chained.run_bind_ok done
  obtain ⟨-, rfl⟩ := run_load_ok ran
  obtain ⟨-, rfl⟩ := run_need_ok done
  exact ⟨rfl, rfl⟩

theorem done_evidence (foreign : tx.sender ≠ ctx.escrowAddress)
    (processed : (processEvidence ctx env tx).run s = (.ok fee, t)) : Done ctx env 0 s t := by
  unfold processEvidence at processed
  split at processed
  · cases processed
  next policy bonded =>
  obtain ⟨fold, -, processed⟩ := Chained.run_bind_same processed run_force_ok
  obtain ⟨_, -, processed⟩ := Chained.run_bind_same processed run_check_ok
  obtain ⟨_, -, processed⟩ := Chained.run_bind_same processed run_check_ok
  obtain ⟨proof, -, processed⟩ := Chained.run_bind_same processed run_need_ok
  obtain ⟨registry, s5, ran, processed⟩ := Chained.run_bind_ok processed
  obtain ⟨found, same5, batch5⟩ := run_loadRegistry_ok ran
  obtain ⟨⟨next, change⟩, slashed, processed⟩ := Chained.run_bind_same processed run_need_ok
  obtain ⟨⟨total, retired⟩, s7, ran, processed⟩ := Chained.run_bind_ok processed
  obtain ⟨same7, batch7⟩ := run_loadSlashSupply_ok ran
  obtain ⟨_, -, processed⟩ := Chained.run_bind_same processed run_check_ok
  obtain ⟨_, s9, ran, processed⟩ := Chained.run_bind_ok processed
  obtain ⟨escrow9, batch9⟩ := balance_debit_ne foreign ran
  obtain ⟨_, s10, ran, processed⟩ := Chained.run_bind_ok processed
  obtain ⟨escrow10, batch10⟩ := balance_debitAmountOnly ran
  obtain ⟨_, s11, ran, processed⟩ := Chained.run_bind_ok processed
  obtain ⟨same11, stored⟩ := run_saveRegistry_ok ran
  obtain ⟨_, s12, ran, processed⟩ := Chained.run_bind_ok processed
  obtain ⟨same12, batch12⟩ := run_setMeta_ok ran
  obtain ⟨_, s13, ran, processed⟩ := Chained.run_bind_ok processed
  obtain ⟨same13, batch13⟩ := run_setMeta_ok ran
  cases processed
  refine .performed registry next (.slash env.epochId
      (ValidatorPolicy.evidenceAge fold.exitMode policy.evidenceEpochs)
      tx.recipient proof) change found rfl rfl slashed ?_ ?_
  · rw [batch13, Table.find?_replace_ne (by decide), batch12,
      Table.find?_replace_ne (by decide), stored]
  · rw [balance_of_account same13, balance_of_account same12,
      balance_of_account same11, escrow10, Function.update_self, escrow9,
      balance_of_account same7, balance_of_account same5]
    exact sub_neg_eq_add _ _

theorem done_bondedReady {fold : TxFold} {ready : ReadyPayload}
    (foreign : tx.sender ≠ ctx.escrowAddress)
    (processed : (processBondedReady ctx env tx fold ready).run s = (.ok fee, t)) :
    Done ctx env 0 s t := by
  obtain ⟨_, -, processed⟩ := Chained.run_bind_same processed run_check_ok
  obtain ⟨admitted, _, ran, processed⟩ := Chained.run_bind_ok processed
  obtain ⟨-, rfl⟩ := run_load_ok ran
  obtain ⟨_, -, processed⟩ := Chained.run_bind_same processed run_need_ok
  obtain ⟨registry, s4, ran, processed⟩ := Chained.run_bind_ok processed
  obtain ⟨found, same4, batch4⟩ := run_loadRegistry_ok ran
  obtain ⟨marked, mark, processed⟩ := Chained.run_bind_same processed run_need_ok
  obtain ⟨updated, _, ran, processed⟩ := Chained.run_bind_ok processed
  obtain ⟨-, rfl⟩ := run_load_ok ran
  obtain ⟨duty, -, processed⟩ := Chained.run_bind_same processed run_need_ok
  obtain ⟨_, s8, ran, processed⟩ := Chained.run_bind_ok processed
  obtain ⟨escrow8, batch8⟩ := balance_debit_ne foreign ran
  obtain ⟨_, s9, ran, processed⟩ := Chained.run_bind_ok processed
  obtain ⟨same9, stored⟩ := run_saveRegistry_ok ran
  have kept : t.account = s9.account ∧ t.batch.find? registryKey = s9.batch.find? registryKey := by
    cases duty with
    | none =>
      cases processed
      exact ⟨rfl, rfl⟩
    | some duty =>
      obtain ⟨_, s10, ran, processed⟩ := Chained.run_bind_ok processed
      obtain ⟨same10, batch10⟩ := run_setMeta_ok ran
      cases processed
      exact ⟨same10, by rw [batch10, Table.find?_replace_ne (by decide)]⟩
  have escrow : t.balance ctx.escrowAddress = s.balance ctx.escrowAddress := by
    rw [balance_of_account kept.1, balance_of_account same9, escrow8]
    exact congrFun (balance_of_account same4) _
  have marks : ValidatorRegistry.perform ctx.evidence registry
      (.ready env.epochId tx.sender ready.consensusPubkeyB64) = .ok (marked, .marked) := by
    rw [ValidatorRegistry.perform, mark]
    rfl
  rcases readyMark_cases (fold.stdValue fold.readyRefMode fold.liveMode)
      registry marked duty with left | taken
  · rw [left] at stored
    exact .unmarked registry found rfl (kept.2.trans stored) escrow
  · rw [taken] at stored
    exact .performed registry marked _ _ found rfl rfl marks (kept.2.trans stored)
      (escrow.trans (add_zero _).symm)

theorem done_legacyReady (foreign : tx.sender ≠ ctx.escrowAddress)
    (processed : (processLegacyReady ctx env tx).run s = (.ok fee, t)) : Done ctx env 0 s t := by
  obtain ⟨checked, _, ran, processed⟩ := Chained.run_bind_ok processed
  obtain ⟨-, rfl⟩ := run_load_ok ran
  split at processed
  · cases processed
  next fingerprint text admitted =>
  obtain ⟨_, s2, ran, processed⟩ := Chained.run_bind_ok processed
  obtain ⟨escrow2, batch2⟩ := balance_debit_ne foreign ran
  obtain ⟨_, s3, ran, processed⟩ := Chained.run_bind_ok processed
  obtain ⟨same3, batch3⟩ := run_setMeta_ok ran
  cases processed
  refine .left le_rfl ?_ ?_
  · rw [batch3, Table.find?_replace_ne (registryKey_ne_readyMetaKey _ _), batch2]
  · rw [balance_of_account same3, escrow2, add_zero]
    rfl

theorem done_ready (foreign : tx.sender ≠ ctx.escrowAddress)
    (processed : (processReady ctx env tx).run s = (.ok fee, t)) : Done ctx env 0 s t := by
  obtain ⟨_, -, processed⟩ := Chained.run_bind_same processed run_check_ok
  split at processed
  · exact done_legacyReady foreign processed
  obtain ⟨fold, -, processed⟩ := Chained.run_bind_same processed run_force_ok
  split at processed
  · exact done_bondedReady foreign processed
  split at processed
  · exact done_legacyReady foreign processed
  · cases processed

theorem done_standard (foreign : tx.sender ≠ ctx.escrowAddress)
    (processed : (processStandard tx).run s = (.ok fee, t)) :
    Done ctx env (received ctx tx .standard) s t := by
  obtain ⟨_, s1, ran, processed⟩ := Chained.run_bind_ok processed
  obtain ⟨escrow1, batch1⟩ := balance_debit_ne foreign ran
  obtain ⟨_, s2, ran, processed⟩ := Chained.run_bind_ok processed
  obtain ⟨same2, batch2⟩ := run_openAccount_ok ran
  obtain ⟨_, s3, ran, processed⟩ := Chained.run_bind_ok processed
  obtain ⟨nonneg, moved, batch3⟩ := balance_credit ran
  cases processed
  refine .left ?_ (by rw [batch3, batch2, batch1]) ?_
  · unfold received
    split
    · exact nonneg
    · exact le_rfl
  · rw [moved, same2]
    by_cases towards : tx.recipient = ctx.escrowAddress
    · rw [towards, Function.update_self, escrow1, received, if_pos ⟨rfl, towards⟩]
    · rw [Function.update_of_ne (Ne.symm towards), escrow1, received,
        if_neg (fun both => towards both.2), add_zero]

/-- What a transaction that succeeds leaves of the escrow and the registry. -/
theorem done_processTx (foreign : tx.sender ≠ ctx.escrowAddress) {kind : Kind}
    (processed : (processTx ctx env tx kind).run s = (.ok fee, t)) :
    Done ctx env (received ctx tx kind) s t := by
  cases kind with
  | bond => exact done_bond foreign processed
  | ready => exact done_ready foreign processed
  | exit => exact done_exit foreign processed
  | withdraw => exact (done_withdraw foreign processed).1
  | evidence => exact done_evidence foreign processed
  | standard => exact done_standard foreign processed

end Handlers
end ValidatorTx
end LiteNode
