import LiteNode.Circles.KeyCells

/-!
# Runs of key transactions

A key that is erased stays erased and a key that is revoked is not live again
without a grant, as long as the owner does not put another policy in the place
of the stored one. What is granted or extended is live at some epoch to come.
-/

/-! ## What the transactions on the outbox do -/

namespace LiteNode
namespace Circles

variable {context : TxContext} {currentEpoch : Int64}
  {policy : TransportPolicy} {circle circle' : Circle}

theorem outboxIntent_eq_ok {intentId : Bytes} {intent : OutboxIntent}
    (found : outboxIntent circle intentId = .ok intent) :
    (circle.outbox intentId).intent = some intent := by
  unfold outboxIntent at found
  split at found
  · cases found
  · next known =>
    cases found
    exact known

/-- An intent is opened once, before it expires. -/
theorem processOutboxOpen_spec {payload : OutboxOpenPayload}
    (done : processOutboxOpen context currentEpoch policy payload circle = .ok circle') :
    ∃ intent : OutboxIntent, intent.intentId ≠ [] ∧ (circle.outbox intent.intentId).intent = none ∧
      currentEpoch < intent.expiryEpoch ∧ circle' = saveOutboxIntent circle intent := by
  obtain ⟨info, -, done⟩ := bind_eq_ok done
  split at done
  · cases done
  obtain ⟨_, enveloped, done⟩ := bind_eq_ok done
  obtain ⟨intent, opened, done⟩ := bind_eq_ok done
  obtain ⟨_, -, done⟩ := bind_eq_ok done
  cases done
  obtain ⟨_, -, opened⟩ := bind_eq_ok opened
  have checked : payload.intentId ≠ [] ∧ currentEpoch < payload.expiryEpoch := by
    unfold openEnvelope at enveloped
    split at enveloped
    · cases enveloped
    next named =>
    split at enveloped
    · cases enveloped
    split at enveloped
    · cases enveloped
    split at enveloped
    · cases enveloped
    next future => exact ⟨named, Int64.not_le.mp future⟩
  split at opened
  · cases opened
  split at opened
  · cases opened
  split at opened
  · cases opened
  next absent =>
  cases opened
  exact ⟨_, checked.1, by simpa using absent, checked.2, rfl⟩

theorem processRelayClaim_spec {claim : RelayClaim}
    (done : processRelayClaim context currentEpoch policy claim circle = .ok circle') :
    ∃ intent, (circle.outbox claim.intentId).intent = some intent ∧
      claim.claimEpoch = currentEpoch ∧
      claimAdmissible currentEpoch policy intent
        (circle.outbox claim.intentId).storedStatus
        (deliverableForDeadline circle.stable currentEpoch
          claim.claimExpiryEpoch intent.deliveryKeyId)
        (circle.outbox claim.intentId).outboxClaims
        ((circle.outbox claim.intentId).activeOutboxClaims currentEpoch)
        claim = .ok () ∧
      circle' = saveOutboxClaim circle claim := by
  obtain ⟨info, -, done⟩ := bind_eq_ok done
  obtain ⟨_, enveloped, done⟩ := bind_eq_ok done
  split at done
  · cases done
  split at done
  · cases done
  obtain ⟨_, -, done⟩ := bind_eq_ok done
  obtain ⟨intent, found, done⟩ := bind_eq_ok done
  obtain ⟨_, admitted, done⟩ := bind_eq_ok done
  obtain ⟨_, -, done⟩ := bind_eq_ok done
  cases done
  refine ⟨intent, outboxIntent_eq_ok found, ?_, admitted, rfl⟩
  unfold relayClaimEnvelope at enveloped
  split at enveloped
  · cases enveloped
  split at enveloped
  · cases enveloped
  split at enveloped
  · cases enveloped
  next same => exact not_not.mp same

theorem processRelayCancel_spec {cancel : RelayCancel}
    (done : processRelayCancel context currentEpoch cancel circle = .ok circle') :
    ∃ intent, (circle.outbox cancel.intentId).intent = some intent ∧
      relayCancelAdmissible currentEpoch intent
        (circle.outbox cancel.intentId).storedStatus
        (deliveryKeyStatus circle.stable currentEpoch intent).state
        (circle.outbox cancel.intentId).outboxClaims
        ((circle.outbox cancel.intentId).activeOutboxClaims currentEpoch)
        cancel = .ok () ∧
      circle' = saveRelayCancel currentEpoch
        (deliveryKeyStatus circle.stable currentEpoch intent) cancel
        circle := by
  obtain ⟨info, -, done⟩ := bind_eq_ok done
  obtain ⟨_, -, done⟩ := bind_eq_ok done
  obtain ⟨_, -, done⟩ := bind_eq_ok done
  obtain ⟨intent, found, done⟩ := bind_eq_ok done
  obtain ⟨_, admitted, done⟩ := bind_eq_ok done
  obtain ⟨_, -, done⟩ := bind_eq_ok done
  cases done
  exact ⟨intent, outboxIntent_eq_ok found, admitted, rfl⟩

theorem processIngressCommit_spec {payload : IngressCommitPayload}
    (done : processIngressCommit context currentEpoch policy payload circle = .ok circle') :
    ∃ intent, (circle.outbox payload.intentId).intent = some intent ∧
      ingressCommit currentEpoch policy intent
        (circle.outbox payload.intentId).storedStatus
        (deliveryKeyStatus circle.stable currentEpoch intent)
        ((circle.outbox payload.intentId).activeOutboxClaims currentEpoch)
        (circle.packets payload.intentId).isSome payload = .ok () ∧
      circle' = saveIngress currentEpoch
        (deliveryKeyStatus circle.stable currentEpoch intent) payload
        circle := by
  obtain ⟨info, -, done⟩ := bind_eq_ok done
  obtain ⟨_, -, done⟩ := bind_eq_ok done
  obtain ⟨_, -, done⟩ := bind_eq_ok done
  obtain ⟨intent, found, done⟩ := bind_eq_ok done
  obtain ⟨_, admitted, done⟩ := bind_eq_ok done
  obtain ⟨_, -, done⟩ := bind_eq_ok done
  cases done
  exact ⟨intent, outboxIntent_eq_ok found, admitted, rfl⟩

/-- Transactions on the outbox write no cell. -/
theorem stable_of_outbox {tx : CircleTx}
    (done : process context currentEpoch policy circle tx = .ok circle')
    (about : tx.keyId = none) : circle'.stable = circle.stable := by
  cases tx with
  | outboxOpen payload =>
    obtain ⟨intent, -, -, -, rfl⟩ := processOutboxOpen_spec done
    unfold saveOutboxIntent
    split <;> rfl
  | relayClaim claim =>
    obtain ⟨intent, -, -, -, rfl⟩ := processRelayClaim_spec done
    rfl
  | relayCancel cancel =>
    obtain ⟨intent, -, -, rfl⟩ := processRelayCancel_spec done
    rfl
  | ingressCommit payload =>
    obtain ⟨intent, -, -, rfl⟩ := processIngressCommit_spec done
    rfl
  | keyPolicyPut payload => cases about
  | keyGrant payload => cases about
  | keyExtend payload => cases about
  | keyRevoke keyId => cases about
  | keyErase keyId => cases about

/-- An accepted transaction changes what its own key says, and no other
key. -/
theorem keyPolicy_of_process {tx : CircleTx}
    (done : process context currentEpoch policy circle tx = .ok circle') (keyId : Bytes) :
    loadKeyPolicy circle'.stable keyId = loadKeyPolicy circle.stable keyId ∨
      KeyChange currentEpoch (loadKeyPolicy circle.stable keyId) tx keyId
        (loadKeyPolicy circle'.stable keyId) := by
  cases about : tx.keyId with
  | none => exact Or.inl (by rw [stable_of_outbox done about])
  | some changed =>
    obtain ⟨next, stable, change, rfl, read⟩ := process_key done about
    rw [stable_materializeShutdown, read keyId]
    split
    · next same =>
      subst same
      exact Or.inr change
    · exact Or.inl rfl

end Circles

namespace Circles

/-- What a key says in a circle. -/
abbrev Circle.keyPolicy (circle : Circle) (keyId : Bytes) : KeyPolicy :=
  loadKeyPolicy circle.stable keyId

/-- The owner puts no policy that takes an erasure back, or a revocation. -/
def Careful (circle : Circle) (move : Move) : Prop :=
  ∀ payload, move.tx = .keyPolicyPut payload →
    circle.info.map CircleInfo.owner = some move.context.sender →
    ((circle.keyPolicy payload.keyId).erased = true → payload.erased = true) ∧
    ((circle.keyPolicy payload.keyId).revoked = true →
      payload.revoked = true ∨ payload.erased = true)

/-- Every move of a run is careful when it is made. -/
def CarefulRun (policy : TransportPolicy) (circle : Circle) : List Move → Prop
  | [] => True
  | move :: rest => Careful circle move ∧ CarefulRun policy (step policy circle move) rest

/-- Some move of a run grants a key. -/
def Grants (policy : TransportPolicy) (keyId : Bytes) (circle : Circle) : List Move → Prop
  | [] => False
  | move :: rest =>
    (∃ payload circle', move.tx = .keyGrant payload ∧ payload.keyId = keyId ∧
      process move.context move.epoch policy circle move.tx = .ok circle') ∨
    Grants policy keyId (step policy circle move) rest

variable {policy : TransportPolicy} {circle : Circle}

theorem step_spec (policy : TransportPolicy) (circle : Circle) (move : Move) :
    step policy circle move = circle ∨
      process move.context move.epoch policy circle move.tx = .ok (step policy circle move) := by
  unfold step
  split
  · next done => exact Or.inr done
  · exact Or.inl rfl

/-- Only a policy that is put takes an erasure back. -/
theorem KeyChange.erased {currentEpoch : Int64} {stored next : KeyPolicy} {tx : CircleTx}
    {keyId : Bytes} (change : KeyChange currentEpoch stored tx keyId next)
    (erased : stored.erased = true)
    (put : ∀ payload, tx = .keyPolicyPut payload → payload.keyId = keyId → payload.erased = true) :
    next.erased = true := by
  cases change with
  | put payload is named same =>
    rw [same]
    exact put payload is named
  | grant payload is named granted =>
    rw [KeyPolicy.grant, if_pos erased] at granted
    cases granted
  | extend payload is named extended =>
    rw [KeyPolicy.extend, if_pos erased] at extended
    cases extended
  | revoke is revoked =>
    rw [KeyPolicy.revoke, if_pos erased] at revoked
    cases revoked
  | erase is erased =>
    cases erased
    rfl

/-- A revocation is only lifted by a grant, or by a policy that is put. -/
theorem KeyChange.revoked {currentEpoch : Int64} {stored next : KeyPolicy} {tx : CircleTx}
    {keyId : Bytes} (change : KeyChange currentEpoch stored tx keyId next)
    (revoked : stored.revoked = true)
    (put : ∀ payload, tx = .keyPolicyPut payload → payload.keyId = keyId →
      payload.revoked = true ∨ payload.erased = true)
    (grant : ∀ payload, tx = .keyGrant payload → payload.keyId ≠ keyId) :
    next.revoked = true ∨ next.erased = true := by
  cases change with
  | put payload is named same =>
    rw [same]
    exact put payload is named
  | grant payload is named granted => exact absurd named (grant payload is)
  | extend payload is named extended =>
    unfold KeyPolicy.extend at extended
    split at extended
    · cases extended
    · cases extended
  | revoke is done =>
    unfold KeyPolicy.revoke at done
    split at done
    · cases done
    · cases done
      exact Or.inl rfl
  | erase is done =>
    cases done
    exact Or.inr rfl

theorem owner_of_put {move : Move} {circle' : Circle} {payload : KeyPolicyPutPayload}
    (done : process move.context move.epoch policy circle move.tx =
      .ok circle') (is : move.tx = .keyPolicyPut payload) :
    circle.info.map CircleInfo.owner = some move.context.sender := by
  rw [is] at done
  obtain ⟨info, -, known, owner, -, -⟩ := processKeyPolicyPut_spec done
  rw [known, ← owner]
  rfl

theorem erased_step {move : Move} (careful : Careful circle move) {keyId : Bytes}
    (erased : (circle.keyPolicy keyId).erased = true) :
    ((step policy circle move).keyPolicy keyId).erased = true := by
  rcases step_spec policy circle move with same | done
  · rw [same]
    exact erased
  · rcases keyPolicy_of_process done keyId with same | change
    · rw [Circle.keyPolicy, same]
      exact erased
    · apply change.erased erased
      rintro payload is rfl
      exact (careful payload is (owner_of_put done is)).1 erased

theorem erased_run {moves : List Move} (careful : CarefulRun policy circle moves)
    {keyId : Bytes} (erased : (circle.keyPolicy keyId).erased = true) :
    ((run policy circle moves).keyPolicy keyId).erased = true := by
  induction moves generalizing circle with
  | nil => exact erased
  | cons move rest ih => exact ih careful.2 (erased_step careful.1 erased)

theorem revoked_run {moves : List Move} (careful : CarefulRun policy circle moves)
    {keyId : Bytes} (ungranted : ¬ Grants policy keyId circle moves)
    (revoked : (circle.keyPolicy keyId).revoked = true) :
    ((run policy circle moves).keyPolicy keyId).revoked = true ∨
      ((run policy circle moves).keyPolicy keyId).erased = true := by
  induction moves generalizing circle with
  | nil => exact Or.inl revoked
  | cons move rest ih =>
    rw [Grants, not_or] at ungranted
    have next : ((step policy circle move).keyPolicy keyId).revoked = true ∨
        ((step policy circle move).keyPolicy keyId).erased = true := by
      rcases step_spec policy circle move with same | done
      · rw [same]
        exact Or.inl revoked
      · rcases keyPolicy_of_process done keyId with same | change
        · rw [Circle.keyPolicy, same]
          exact Or.inl revoked
        · apply change.revoked revoked
          · rintro payload is rfl
            exact (careful.1 payload is (owner_of_put done is)).2 revoked
          · intro payload is named
            exact ungranted.1 ⟨payload, _, is, named, done⟩
    rcases next with revoked | erased
    · exact ih careful.2 ungranted.2 revoked
    · exact Or.inr (erased_run careful.2 erased)

/-- A key is live from its activation until it expires. -/
theorem live_iff {stored : KeyPolicy} {epoch : Int64} :
    stored.live epoch = true ↔
      stored.revoked = false ∧ stored.erased = false ∧
        (∀ value ∈ stored.activateAfterEpoch, value ≤ epoch) ∧
        ∀ value ∈ stored.expireAfterEpoch, epoch < value := by
  simp [KeyPolicy.live, Option.all_eq_true, and_assoc]

/-- A key that survives its activation is live at some epoch to come. -/
theorem live_of_survives {policy : KeyPolicy} {currentEpoch : Int64}
    (notRevoked : policy.revoked = false) (notErased : policy.erased = false)
    (survives : policy.survives currentEpoch = true) :
    ∃ epoch, currentEpoch ≤ epoch ∧ policy.live epoch = true := by
  simp only [KeyPolicy.survives, Option.all_eq_true, Bool.and_eq_true,
    decide_eq_true_iff] at survives
  by_cases future : currentEpoch ≤ policy.activationEpoch currentEpoch
  · refine ⟨_, future, live_iff.mpr ⟨notRevoked, notErased, ?_, ?_⟩⟩
    · intro value known
      rw [KeyPolicy.activationEpoch, known]
      exact Int64.le_refl value
    · exact fun value known => (survives value known).2
  · refine ⟨currentEpoch, Int64.le_refl _, live_iff.mpr ⟨notRevoked, notErased, ?_, ?_⟩⟩
    · intro value known
      rw [KeyPolicy.activationEpoch, known] at future
      exact Int64.le_of_lt (Int64.not_le.mp future)
    · exact fun value known => (survives value known).1

theorem grant_survives {stored next : KeyPolicy} {currentEpoch : Int64}
    {payload : KeyGrantPayload} (granted : stored.grant currentEpoch payload = .ok next) :
    next.revoked = false ∧ next.erased = false ∧ next.survives currentEpoch = true := by
  unfold KeyPolicy.grant at granted
  split at granted
  · cases granted
  obtain ⟨_, window, granted⟩ := bind_eq_ok granted
  cases granted
  refine ⟨rfl, rfl, ?_⟩
  unfold KeyPolicy.validateWindow at window
  split at window
  · next activate expire starts ends =>
    split at window
    · cases window
    split at window
    · cases window
    next after future =>
    simp only [KeyPolicy.survives, KeyPolicy.activationEpoch, starts, ends,
      Option.all_some, Option.getD_some, Bool.and_eq_true, decide_eq_true_iff]
    simp only [Int64.le_iff_toInt_le, Int64.lt_iff_toInt_lt] at *
    omega
  · next expire starts ends =>
    split at window
    · cases window
    next future =>
    simp [KeyPolicy.survives, KeyPolicy.activationEpoch, starts, ends, Int64.not_le.mp future]
  · next starts ends =>
    simp [KeyPolicy.survives, ends]

theorem extend_survives {stored next : KeyPolicy} {currentEpoch : Int64}
    {payload : KeyExtendPayload} (extended : stored.extend currentEpoch payload = .ok next) :
    next.revoked = false ∧ next.erased = false ∧ next.survives currentEpoch = true := by
  unfold KeyPolicy.extend at extended
  split at extended
  · cases extended
  next notErased =>
  split at extended
  · cases extended
  next notRevoked =>
  split at extended
  · cases extended
  next activated =>
  split at extended
  · cases extended
  next future =>
  cases extended
  refine ⟨Bool.eq_false_of_not_eq_true notRevoked, Bool.eq_false_of_not_eq_true notErased, ?_⟩
  simp only [KeyPolicy.survives, Option.all_some, Bool.and_eq_true, decide_eq_true_iff]
  exact ⟨Int64.not_le.mp future, Int64.not_le.mp activated⟩

/-- A key that survives is neither expired nor shut down. -/
theorem classify_of_survives {policy : KeyPolicy} {currentEpoch : Int64}
    (notRevoked : policy.revoked = false) (notErased : policy.erased = false)
    (survives : policy.survives currentEpoch = true) :
    (policy.classify currentEpoch).terminalForDelivery = false := by
  have current : policy.expiredAt currentEpoch = false := by
    simp only [KeyPolicy.survives, Option.all_eq_true, Bool.and_eq_true,
      decide_eq_true_iff] at survives
    rw [KeyPolicy.expiredAt, Option.any_eq_false]
    intro value known
    exact decide_eq_false (Int64.not_le.mpr (survives value known).1)
  rw [KeyPolicy.classify, notErased, notRevoked, current]
  cases policy.pendingAt currentEpoch <;> rfl

/-- What is granted or extended survives. -/
theorem KeyChange.survives {currentEpoch : Int64} {stored next : KeyPolicy} {tx : CircleTx}
    {keyId : Bytes} (change : KeyChange currentEpoch stored tx keyId next)
    (opens : (∃ payload, tx = .keyGrant payload) ∨ ∃ payload, tx = .keyExtend payload) :
    next.revoked = false ∧ next.erased = false ∧ next.survives currentEpoch = true := by
  cases change with
  | put payload is named same => simp [is] at opens
  | grant payload is named granted => exact grant_survives granted
  | extend payload is named extended => exact extend_survives extended
  | revoke is revoked => simp [is] at opens
  | erase is erased => simp [is] at opens

theorem run_append (policy : TransportPolicy) (circle : Circle) (before after : List Move) :
    run policy circle (before ++ after) = run policy (run policy circle before) after :=
  List.foldl_append

theorem CarefulRun.later {before after : List Move}
    (careful : CarefulRun policy circle (before ++ after)) :
    CarefulRun policy (run policy circle before) after := by
  induction before generalizing circle with
  | nil => exact careful
  | cons move rest ih => exact ih careful.2

theorem classify_eq_erased_iff {stored : KeyPolicy} {epoch : Int64} :
    stored.classify epoch = .erased ↔ stored.erased = true := by
  unfold KeyPolicy.classify
  split
  · next erased => simp [erased]
  · next kept =>
    split
    · simp [kept]
    · split
      · simp [kept]
      · split <;> simp [kept]

theorem revoked_of_classify {stored : KeyPolicy} {epoch : Int64}
    (revoked : stored.classify epoch = .revoked) : stored.revoked = true := by
  unfold KeyPolicy.classify at revoked
  split at revoked
  · cases revoked
  split at revoked
  · next is => exact is
  split at revoked
  · cases revoked
  split at revoked <;> cases revoked

/-- In a run in which no put takes an erasure or a revocation back, a key that
is erased stays erased and is never delivered nor live again, and a key that is
revoked is live again only after a grant. A key that is granted or extended is
not over, and live at some epoch to come. -/
theorem keys_of_careful_run {before after : List Move}
    (careful : CarefulRun policy circle (before ++ after)) (keyId : Bytes) :
    let earlier := run policy circle before
    let later := run policy circle (before ++ after)
    (∀ epoch, (earlier.keyPolicy keyId).classify epoch = .erased →
      ∀ epoch', (later.keyPolicy keyId).classify epoch' = .erased ∧
        (∀ deadline, (later.keyPolicy keyId).deliverableByDeadline epoch' deadline = false) ∧
        (later.keyPolicy keyId).live epoch' = false) ∧
    (∀ epoch epoch', (earlier.keyPolicy keyId).classify epoch = .revoked →
      (later.keyPolicy keyId).live epoch' = true →
      Grants policy keyId earlier after) ∧
    ∀ (move : Move) (next : Circle),
      process move.context move.epoch policy later move.tx = .ok next →
      ((∃ payload, move.tx = .keyGrant payload ∧ payload.keyId = keyId) ∨
        ∃ payload, move.tx = .keyExtend payload ∧ payload.keyId = keyId) →
      ((next.keyPolicy keyId).classify move.epoch).terminalForDelivery = false ∧
        ∃ epoch, move.epoch ≤ epoch ∧
          (next.keyPolicy keyId).live epoch = true := by
  intro earlier later
  have later_eq : later = run policy earlier after := run_append ..
  refine ⟨?_, ?_, ?_⟩
  · intro epoch erased epoch'
    have erased : (later.keyPolicy keyId).erased = true := by
      rw [later_eq]
      exact erased_run careful.later (classify_eq_erased_iff.mp erased)
    have ended : (later.keyPolicy keyId).classify epoch' = .erased :=
      classify_eq_erased_iff.mpr erased
    refine ⟨ended, ?_, ?_⟩
    · intro deadline
      rw [KeyPolicy.deliverableByDeadline, ended]
    · simp [KeyPolicy.live, erased]
  · intro epoch epoch' revoked live
    by_contra ungranted
    have kept := revoked_run careful.later ungranted (revoked_of_classify revoked)
    rw [← later_eq] at kept
    obtain ⟨notRevoked, notErased, -, -⟩ := live_iff.mp live
    rcases kept with revoked | erased
    · rw [notRevoked] at revoked
      cases revoked
    · rw [notErased] at erased
      cases erased
  · intro move next done opens
    have about : move.tx.keyId = some keyId := by
      rcases opens with ⟨payload, is, rfl⟩ | ⟨payload, is, rfl⟩ <;> rw [is] <;> rfl
    obtain ⟨policy', stable, change, rfl, read⟩ := process_key done about
    obtain ⟨notRevoked, notErased, survives⟩ := change.survives <| by
      rcases opens with ⟨payload, is, -⟩ | ⟨payload, is, -⟩
      · exact Or.inl ⟨payload, is⟩
      · exact Or.inr ⟨payload, is⟩
    rw [Circle.keyPolicy, stable_materializeShutdown, read keyId, if_pos rfl]
    exact ⟨classify_of_survives notRevoked notErased survives,
      live_of_survives notRevoked notErased survives⟩

namespace PutBack

def context : TxContext where
  sender := [65]
  debit := .ok ()
  verifyClaim _ := .ok ()
  verifyCancel _ := .ok ()
  verifyIngress _ := .ok ()

def owned : Circle where
  info := some ⟨[65], 33554432, 65536⟩
  stable := ⟨∅, []⟩
  outbox _ := .empty
  byDeliveryKey _ := []
  packets _ := none

def erase : Move := ⟨1, context, .keyErase [107]⟩

/-- A policy in which the key is neither revoked nor erased. -/
def put : Move := ⟨2, context, .keyPolicyPut ⟨[107], none, none, false, false⟩⟩

def grant : Move := ⟨2, context, .keyGrant ⟨[107], none, some 9⟩⟩

end PutBack

open PutBack in
/-- A key that was erased is live once its owner has put a policy for it. -/
theorem not_erased :
    ((run .default PutBack.owned [erase]).keyPolicy [107]).classify 1 = .erased ∧
      ((run .default PutBack.owned ([erase] ++ [put])).keyPolicy [107]).classify 2 = .live ∧
      ((run .default PutBack.owned ([erase] ++ [put])).keyPolicy [107]).live 2 = true := by
  decide +kernel

open PutBack in
theorem keys_of_careful_run_erase :
    ((run .default PutBack.owned ([erase] ++ [grant])).keyPolicy [107]).classify 7 = .erased := by
  have careful : CarefulRun .default PutBack.owned ([erase] ++ [grant]) := by
    refine ⟨?_, ?_, trivial⟩
    · intro payload is
      cases is
    · intro payload is
      cases is
  have erased : ((run .default PutBack.owned [erase]).keyPolicy
      [107]).classify 1 = .erased := by decide +kernel
  exact ((keys_of_careful_run careful [107]).1 1 erased 7).1

end Circles
end LiteNode
