import LiteNode.Engine.Operation
import LiteNode.Types.Certificates
import LiteNode.Types.Hashing

/-!
# Catch-up is bound to the committed chain

The certificate of an epoch names one proposal id, the id is a hash of a header,
and the checks of a record compare its fields with that header. So any two lists
of records that pass the checks say the same of each epoch.
-/

/-!
## Catch-up records

A peer answers a query for epochs with records of them. A record says what was
executed in its own fields, and again in the header of a finalize; each check
compares some of the two.
-/

namespace LiteNode

structure CatchupFinality where
  finalize : Finalize
  validatorSet : ValidatorSet
  deriving DecidableEq

structure CatchupRecord where
  epochId : Int
  prevStateRoot : Bytes
  stateRoot : Bytes
  txListHash : Bytes
  txHashes : List Bytes
  txsJson : List Bytes
  receiptRoot : Bytes
  receiptsJson : List Bytes
  epochTs : UInt64
  creatorAddr : Bytes
  commitRound : Int
  finality : Option CatchupFinality
  deriving DecidableEq

namespace Catchup

def int64Pred (v : Int) : Int := (v - 1).bmod (2 ^ 64)

def int64Succ (v : Int) : Int := (v + 1).bmod (2 ^ 64)

/-- Bytes as characters of a message. -/
def asText (bytes : Bytes) : String := String.ofList (bytes.map fun byte => Char.ofNat byte.toNat)

def isValidChunkFirstEpoch (status : String) (records : List CatchupRecord) (fromEpoch : Int) :
    Bool :=
  if status ≠ "ok" then false
  else
    match records with
    | [] => false
    | first :: _ => first.epochId = fromEpoch

def lowercaseAscii (byte : UInt8) : UInt8 := if 65 ≤ byte ∧ byte ≤ 90 then byte + 32 else byte

def hexDigit (value : Nat) : UInt8 :=
  if value < 10 then UInt8.ofNat (48 + value) else UInt8.ofNat (87 + value)

def hexByte (byte : UInt8) : Bytes := [hexDigit (byte.toNat / 16), hexDigit (byte.toNat % 16)]

/-- A hash in digits: text of that length is taken to be in digits. -/
def hash32ToHex (h : Bytes) : Bytes :=
  if h.length = 64 then h.map lowercaseAscii else h.flatMap hexByte

def firstMismatch : List Bytes → List Bytes → Option (Bytes × Bytes)
  | expected :: expecteds, got :: gots =>
    if expected = got then firstMismatch expecteds gots
    else some (expected, got)
  | _, _ => none

def verifyRecordHashes (sha256 : Bytes → Bytes) (record : CatchupRecord)
    (parsedTxHashes : List Bytes) : Except String Unit :=
  let recordTxHashesHex := record.txHashes.map hash32ToHex
  let parsedTxHashesHex := parsedTxHashes.map hash32ToHex
  let computed := tagged sha256 "octra:tx_list:v1" recordTxHashesHex.flatten
  if computed ≠ record.txListHash then
    .error ("tx_list_hash mismatch at epoch = " ++ toString record.epochId)
  else if recordTxHashesHex.length ≠ parsedTxHashesHex.length then
    .error ("tx_hash count mismatch at epoch = " ++ toString record.epochId ++
      ": expected = " ++ toString recordTxHashesHex.length ++ " got = " ++
      toString parsedTxHashesHex.length)
  else
    match firstMismatch recordTxHashesHex parsedTxHashesHex with
    | none => .ok ()
    | some (expected, got) =>
      .error ("tx hash mismatch at epoch = " ++ toString record.epochId ++
        ": expected = " ++ asText (expected.take 16) ++ " got = " ++ asText (got.take 16))

def verifyRecordReceipts (sha256 : Bytes → Bytes) (record : CatchupRecord) : Except String Unit :=
  if receiptRoot sha256 record.receiptsJson = record.receiptRoot then .ok ()
  else .error ("receipt_root mismatch at epoch = " ++ toString record.epochId)

/-- Whether the signature of a vote is that of its voter in a set. -/
def verifyVoteIn (ext : Externals) (vs : ValidatorSet) (vote : Vote) : Bool :=
  match vs.pubkeyOfAddr vote.validator with
  | some pubkey => ext.verifyVote pubkey vote
  | none => false

/-- A finalize that is accepted for a set: it passes the checks and its header
has an id. Where it has none, the source raises. -/
def acceptsFinalize (ext : Externals) (sha256 : Bytes → Bytes) (chainId : Bytes)
    (vs : ValidatorSet) (finalize : Finalize) : Except String Unit :=
  match validatePersistedFinalize (ext.hashing sha256)
      (QuorumPolicy.forChain chainId) chainId vs (verifyVoteIn ext vs)
      finalize with
  | .invalid reason => .error reason
  | .valid => (proposalIdOf sha256 finalize.header).map fun _ => ()

def verifyRecordFinality (ext : Externals) (sha256 : Bytes → Bytes)
    (chainId expectedValidatorSetHash : Bytes) (expectedTxid : Int)
    (record : CatchupRecord) : Except String CatchupFinality :=
  let epoch := toString record.epochId
  match record.finality with
  | none => .error ("finality is missing at epoch = " ++ epoch)
  | some finality =>
    let finalize := finality.finalize
    let header := finalize.header
    if ext.validatorSetHash finality.validatorSet ≠ expectedValidatorSetHash then
      .error ("finality validator set mismatch at epoch = " ++ epoch)
    else
      match acceptsFinalize ext sha256 chainId finality.validatorSet finalize with
      | .error reason =>
        .error ("finality qc is invalid at epoch = " ++ epoch ++ " reason = " ++ reason)
      | .ok () =>
        if finalize.epochId ≠ record.epochId then .error "finality epoch mismatch"
        else if header.prevStateRoot ≠ record.prevStateRoot then
          .error "finality previous root mismatch"
        else if header.proposedStateRoot ≠ record.stateRoot then
          .error "finality state root mismatch"
        else if header.txListHash ≠ record.txListHash then
          .error "finality transaction root mismatch"
        else if header.receiptRoot ≠ record.receiptRoot then
          .error "finality receipt root mismatch"
        else if header.txidHi ≠ int64Pred expectedTxid then
          .error "finality transaction high-water mismatch"
        else if header.ts ≠ record.epochTs then .error "finality timestamp mismatch"
        else if header.creatorAddr ≠ record.creatorAddr then .error "finality proposer mismatch"
        else if finalize.commitRound ≠ record.commitRound then .error "finality round mismatch"
        else .ok finality

def walk (expectedEpoch : Int) (expectedPrev : Bytes) : List CatchupRecord → Except String Unit
  | [] => .ok ()
  | r :: rest =>
    if r.epochId ≠ expectedEpoch then
      .error ("epoch_id chain break at " ++ toString r.epochId ++
        ": expected = " ++ toString expectedEpoch ++ " got = " ++ toString r.epochId)
    else if r.prevStateRoot ≠ expectedPrev then
      .error ("prev_state_root chain break at epoch = " ++ toString r.epochId)
    else walk (int64Succ r.epochId) r.stateRoot rest

def verifyChainContinuity (records : List CatchupRecord) (fromEpoch : Int) (prevRoot : Bytes) :
    Except String Unit :=
  let initialPrev :=
    match records with
    | first :: _ => if fromEpoch = 0 then first.prevStateRoot else prevRoot
    | [] => prevRoot
  walk fromEpoch initialPrev records

/-- All finalizes accepted for an epoch name one proposal. The sets of an epoch
are those with its hash. -/
def Agreement (ext : Externals) (sha256 : Bytes → Bytes) (chainId : Bytes)
    (setHash : Int → Bytes) : Prop :=
  ∀ (vs vs' : ValidatorSet) (finalize finalize' : Finalize), finalize.epochId = finalize'.epochId →
    ext.validatorSetHash vs = setHash finalize.epochId →
    ext.validatorSetHash vs' = setHash finalize'.epochId →
    acceptsFinalize ext sha256 chainId vs finalize = .ok () →
    acceptsFinalize ext sha256 chainId vs' finalize' = .ok () →
    finalize.proposalId = finalize'.proposalId

/-- Hashes of the transactions that a record lists as texts. -/
def parsedTxHashes (txHash : Bytes → Except String Bytes) (record : CatchupRecord) :
    Except String (List Bytes) :=
  record.txsJson.mapM txHash

/-- A record passes the checks with the hashes of its own transactions. -/
structure RecordPasses
    (ext : Externals) (sha256 : Bytes → Bytes)
    (txHash : Bytes → Except String Bytes) (chainId setHash : Bytes)
    (expectedTxid : Int) (record : CatchupRecord) : Prop where
  hashes : ∃ parsed, parsedTxHashes txHash record = .ok parsed ∧
    verifyRecordHashes sha256 record parsed = .ok ()
  receipts : verifyRecordReceipts sha256 record = .ok ()
  finality : ∃ finality, verifyRecordFinality ext sha256 chainId setHash
    expectedTxid record = .ok finality

/-- A list of records passes the checks; the transaction id that is expected
after each record is counted by the caller. -/
structure ChunkPasses
    (ext : Externals) (sha256 : Bytes → Bytes)
    (txHash : Bytes → Except String Bytes) (chainId : Bytes)
    (setHash : Int → Bytes) (fromEpoch : Int) (prevRoot : Bytes)
    (expectedTxid : Nat → Int) (status : String)
    (records : List CatchupRecord) : Prop where
  first : isValidChunkFirstEpoch status records fromEpoch = true
  chained : verifyChainContinuity records fromEpoch prevRoot = .ok ()
  each : ∀ i record, records[i]? = some record →
    RecordPasses ext sha256 txHash chainId (setHash record.epochId) (expectedTxid i) record

/-- Records that say the same of an epoch. A root may be spelled in bytes or in
digits, and so may a transaction hash. -/
structure SameRecord
    (txHash : Bytes → Except String Bytes) (left right : CatchupRecord) :
    Prop where
  epochId : left.epochId = right.epochId
  prevStateRoot : SameHash left.prevStateRoot right.prevStateRoot
  stateRoot : SameHash left.stateRoot right.stateRoot
  txHashes : left.txHashes.map hash32ToHex = right.txHashes.map hash32ToHex
  transactions : ∀ parsed parsed', parsedTxHashes txHash left = .ok parsed →
    parsedTxHashes txHash right = .ok parsed' → parsed.map hash32ToHex = parsed'.map hash32ToHex
  receipts : ShortReceipts left.receiptsJson →
    ShortReceipts right.receiptsJson → left.receiptsJson = right.receiptsJson
  epochTs : left.epochTs = right.epochTs
  creatorAddr : left.creatorAddr = right.creatorAddr

section Record

variable {ext : Externals} {sha256 : Bytes → Bytes}
variable {txHash : Bytes → Except String Bytes} {chainId setHash : Bytes}
variable {expectedTxid : Int} {record : CatchupRecord}

/-- The header that binds a record. -/
structure BoundBy
    (ext : Externals) (sha256 : Bytes → Bytes) (chainId setHash : Bytes)
    (expectedTxid : Int) (record : CatchupRecord)
    (finality : CatchupFinality) : Prop where
  set : ext.validatorSetHash finality.validatorSet = setHash
  accepted : acceptsFinalize ext sha256 chainId finality.validatorSet finality.finalize = .ok ()
  epochId : finality.finalize.epochId = record.epochId
  prevStateRoot : finality.finalize.header.prevStateRoot = record.prevStateRoot
  stateRoot : finality.finalize.header.proposedStateRoot = record.stateRoot
  txListHash : finality.finalize.header.txListHash = record.txListHash
  receiptRoot : finality.finalize.header.receiptRoot = record.receiptRoot
  txidHi : finality.finalize.header.txidHi = int64Pred expectedTxid
  ts : finality.finalize.header.ts = record.epochTs
  creatorAddr : finality.finalize.header.creatorAddr = record.creatorAddr

theorem boundBy_of_verifyRecordFinality {finality : CatchupFinality}
    (verified : verifyRecordFinality ext sha256 chainId setHash expectedTxid
      record = .ok finality) :
    BoundBy ext sha256 chainId setHash expectedTxid record finality := by
  unfold verifyRecordFinality at verified
  split at verified
  · cases verified
  next finality' _ =>
  rw [ite_error_eq_ok_iff] at verified
  obtain ⟨set, verified⟩ := verified
  split at verified
  · cases verified
  next accepted =>
  iterate 9 rw [ite_error_eq_ok_iff] at verified
  obtain ⟨epochId, prevStateRoot, stateRoot, txListHash, receiptRoot, txidHi,
    ts, creatorAddr, -, same⟩ := verified
  cases same
  exact
    { set := not_not.mp set
      accepted := accepted
      epochId := not_not.mp epochId
      prevStateRoot := not_not.mp prevStateRoot
      stateRoot := not_not.mp stateRoot
      txListHash := not_not.mp txListHash
      receiptRoot := not_not.mp receiptRoot
      txidHi := not_not.mp txidHi
      ts := not_not.mp ts
      creatorAddr := not_not.mp creatorAddr }

/-- An accepted finalize is on the chain, and its proposal id is that of its
header. -/
theorem named_of_acceptsFinalize {vs : ValidatorSet} {finalize : Finalize}
    (accepted : acceptsFinalize ext sha256 chainId vs finalize = .ok ()) :
    finalize.header.chainId = chainId ∧
      proposalIdOf sha256 finalize.header = .ok finalize.proposalId := by
  unfold acceptsFinalize at accepted
  split at accepted
  · cases accepted
  next valid =>
  obtain ⟨id, named, -⟩ := map_eq_ok accepted
  have holds := certificateHolds_of_validatePersistedFinalize valid
  refine ⟨holds.headerChain.trans holds.sameChain, ?_⟩
  have same : finalize.proposalId =
      (proposalIdOf sha256 finalize.header).toOption.getD [] := holds.named
  rw [named] at same ⊢
  rw [same]
  rfl

end Record

theorem length_hash32ToHex {h : Bytes} (size : h.length = 64) : (hash32ToHex h).length = 64 := by
  unfold hash32ToHex
  rw [if_pos size, List.length_map, size]

theorem eq_of_firstMismatch
    {expecteds gots : List Bytes} (count : expecteds.length = gots.length)
    (none : firstMismatch expecteds gots = none) : expecteds = gots := by
  induction expecteds generalizing gots with
  | nil => exact (List.length_eq_zero_iff.mp count.symm).symm
  | cons expected expecteds ih =>
    cases gots with
    | nil => cases count
    | cons got gots =>
      unfold firstMismatch at none
      split at none
      · next same =>
        rw [same, ih (Nat.succ.inj count) none]
      · cases none

/-- The hashes of a record that passes are those of its transactions, and they
are hashed as its list. -/
theorem hashes_of_verifyRecordHashes
    {sha256 : Bytes → Bytes} {record : CatchupRecord} {parsed : List Bytes}
    (verified : verifyRecordHashes sha256 record parsed = .ok ()) :
    record.txHashes.map hash32ToHex = parsed.map hash32ToHex ∧
      tagged sha256 "octra:tx_list:v1"
        (record.txHashes.map hash32ToHex).flatten = record.txListHash := by
  unfold verifyRecordHashes at verified
  iterate 2 rw [ite_error_eq_ok_iff] at verified
  obtain ⟨listed, count, verified⟩ := verified
  split at verified
  · next none => exact ⟨eq_of_firstMismatch (not_not.mp count) none, not_not.mp listed⟩
  · cases verified

/-- Parts of one length are determined by what they are joined to. -/
theorem flatten_inj_of_length {n : Nat} (positive : 0 < n) {parts parts' : List Bytes}
    (sizes : ∀ part ∈ parts, part.length = n) (sizes' : ∀ part ∈ parts', part.length = n)
    (same : parts.flatten = parts'.flatten) : parts = parts' := by
  induction parts generalizing parts' with
  | nil =>
    cases parts' with
    | nil => rfl
    | cons part' rest' =>
      have size := sizes' part' List.mem_cons_self
      rw [List.flatten_nil, List.flatten_cons] at same
      rw [(List.append_eq_nil_iff.mp same.symm).1] at size
      exact absurd size positive.ne
  | cons part rest ih =>
    have size := sizes part List.mem_cons_self
    cases parts' with
    | nil =>
      rw [List.flatten_nil, List.flatten_cons] at same
      rw [(List.append_eq_nil_iff.mp same).1] at size
      exact absurd size positive.ne
    | cons part' rest' =>
      rw [List.flatten_cons, List.flatten_cons] at same
      obtain ⟨first, others⟩ := Oce1.append_inj_of_length size
        (sizes' part' List.mem_cons_self) same
      rw [first, ih
        (fun other later => sizes other (List.mem_cons_of_mem _ later))
        (fun other later => sizes' other (List.mem_cons_of_mem _ later))
        others]

theorem length_of_parsedTxHashes {txHash : Bytes → Except String Bytes}
    (sized : ∀ json hash, txHash json = .ok hash → hash.length = 64)
    {txsJson parsed : List Bytes} (read : txsJson.mapM txHash = .ok parsed) :
    ∀ hash ∈ parsed, hash.length = 64 := by
  induction txsJson generalizing parsed with
  | nil =>
    cases read
    exact fun _ listed => by cases listed
  | cons json rest ih =>
    rw [List.mapM_cons] at read
    obtain ⟨hash, here, read⟩ := bind_eq_ok read
    obtain ⟨hashes, later, read⟩ := bind_eq_ok read
    cases read
    intro other listed
    rcases List.mem_cons.mp listed with rfl | further
    · exact sized json other here
    · exact ih later other further

theorem length_of_mem_map_hash32ToHex
    {hashes : List Bytes} (sizes : ∀ hash ∈ hashes, hash.length = 64) :
    ∀ hash ∈ hashes.map hash32ToHex, hash.length = 64 := by
  intro hash listed
  obtain ⟨source, present, rfl⟩ := List.mem_map.mp listed
  exact length_hash32ToHex (sizes source present)

theorem root_of_verifyRecordReceipts {sha256 : Bytes → Bytes} {record : CatchupRecord}
    (verified : verifyRecordReceipts sha256 record = .ok ()) :
    tagged sha256 "octra:preverify_receipt_root:v1"
      (receiptPayload record.receiptsJson) = record.receiptRoot := by
  unfold verifyRecordReceipts at verified
  split at verified
  · next same => exact same
  · cases verified

theorem sameRecord_of_passes {ext : Externals} {sha256 : Bytes → Bytes}
    {txHash : Bytes → Except String Bytes} {chainId : Bytes}
    {setHash : Int → Bytes} (ideal : IdealHash sha256)
    (sized : ∀ json hash, txHash json = .ok hash → hash.length = 64)
    (agreement : Agreement ext sha256 chainId setHash)
    {txid txid' : Int} {record record' : CatchupRecord}
    (sameEpoch : record.epochId = record'.epochId)
    (passes : RecordPasses ext sha256 txHash chainId (setHash record.epochId)
      txid record) (passes' : RecordPasses ext sha256 txHash chainId
      (setHash record'.epochId) txid' record') :
    SameRecord txHash record record' ∧ int64Pred txid = int64Pred txid' := by
  obtain ⟨finality, verified⟩ := passes.finality
  obtain ⟨finality', verified'⟩ := passes'.finality
  have bound := boundBy_of_verifyRecordFinality verified
  have bound' := boundBy_of_verifyRecordFinality verified'
  have sameFinal : finality.finalize.epochId = finality'.finalize.epochId := by
    rw [bound.epochId, bound'.epochId, sameEpoch]
  have sameId := agreement finality.validatorSet finality'.validatorSet
    finality.finalize finality'.finalize sameFinal
    (bound.epochId ▸ bound.set) (bound'.epochId ▸ bound'.set) bound.accepted
    bound'.accepted
  obtain ⟨chain, named⟩ := named_of_acceptsFinalize bound.accepted
  obtain ⟨chain', named'⟩ := named_of_acceptsFinalize bound'.accepted
  have same := sameHeader_of_proposalIdOf ideal (chain.trans chain'.symm) named (sameId ▸ named')
  obtain ⟨parsed, read, checked⟩ := passes.hashes
  obtain ⟨parsed', read', checked'⟩ := passes'.hashes
  obtain ⟨own, listed⟩ := hashes_of_verifyRecordHashes checked
  obtain ⟨own', listed'⟩ := hashes_of_verifyRecordHashes checked'
  have root := root_of_verifyRecordReceipts passes.receipts
  have root' := root_of_verifyRecordReceipts passes'.receipts
  have txids : finality.finalize.header.txidHi % 2 ^ 64 =
      finality'.finalize.header.txidHi % 2 ^ 64 := same.txidHi
  rw [bound.txidHi, bound'.txidHi] at txids
  have txHashes : record.txHashes.map hash32ToHex = record'.txHashes.map hash32ToHex := by
    have flat := same.txListHash
    rw [bound.txListHash, bound'.txListHash, ← listed, ← listed'] at flat
    apply flatten_inj_of_length (show 0 < 64 by decide) _ _
      (eq_of_sameHash_tagged ideal flat)
    · rw [own]
      exact length_of_mem_map_hash32ToHex (length_of_parsedTxHashes sized read)
    · rw [own']
      exact length_of_mem_map_hash32ToHex (length_of_parsedTxHashes sized read')
  refine ⟨⟨sameEpoch, ?_, ?_, txHashes, ?_, ?_, ?_, ?_⟩, ?_⟩
  · rw [← bound.prevStateRoot, ← bound'.prevStateRoot]
    exact same.prevStateRoot
  · rw [← bound.stateRoot, ← bound'.stateRoot]
    exact same.proposedStateRoot
  · intro other other' found found'
    rw [read] at found
    rw [read'] at found'
    cases found
    cases found'
    rw [← own, ← own', txHashes]
  · intro short short'
    have roots := same.receiptRoot
    rw [bound.receiptRoot, bound'.receiptRoot, ← root, ← root'] at roots
    exact receiptPayload_inj short short' (eq_of_sameHash_tagged ideal roots)
  · rw [← bound.ts, ← bound'.ts]
    exact same.ts
  · rw [← bound.creatorAddr, ← bound'.creatorAddr]
    exact same.creatorAddr
  · have whole : ∀ v : Int, (v.bmod (2 ^ 64) % 2 ^ 64).bmod (2 ^ 64) = v.bmod (2 ^ 64) := by
      intro v
      have cast : (2 ^ 64 : Int) = ((2 ^ 64 : Nat) : Int) := rfl
      rw [cast, Int.emod_bmod, Int.bmod_bmod]
    unfold int64Pred at txids ⊢
    rw [← whole, txids, whole]

/-- Records that follow one another have the epochs that follow one another. -/
theorem epochId_of_walk {epoch : Int} {prev : Bytes} {records : List CatchupRecord}
    (walked : walk epoch prev records = .ok ()) {i : Nat}
    {record : CatchupRecord} (listed : records[i]? = some record) :
    record.epochId = int64Succ^[i] epoch := by
  induction records generalizing epoch prev i with
  | nil => cases listed
  | cons first rest ih =>
    unfold walk at walked
    iterate 2 rw [ite_error_eq_ok_iff] at walked
    obtain ⟨here, -, later⟩ := walked
    cases i with
    | zero =>
      cases listed
      exact not_not.mp here
    | succ i =>
      rw [List.getElem?_cons_succ] at listed
      rw [ih later listed, not_not.mp here, Function.iterate_succ_apply]

theorem ChunkPasses.epochId {ext : Externals} {sha256 : Bytes → Bytes}
    {txHash : Bytes → Except String Bytes} {chainId : Bytes}
    {setHash : Int → Bytes} {fromEpoch : Int} {prevRoot : Bytes}
    {expectedTxid : Nat → Int} {status : String} {records : List CatchupRecord}
    (passes : ChunkPasses ext sha256 txHash chainId setHash fromEpoch prevRoot
      expectedTxid status records) {i : Nat} {record : CatchupRecord}
    (listed : records[i]? = some record) : record.epochId = int64Succ^[i] fromEpoch :=
  epochId_of_walk passes.chained listed

/-- Two lists of records that pass say the same of every epoch that both
cover, and expect the same transaction id after it. -/
theorem sameRecords_of_passes
    (ext : Externals) {sha256 : Bytes → Bytes} (ideal : IdealHash sha256)
    {txHash : Bytes → Except String Bytes}
    (sized : ∀ json hash, txHash json = .ok hash → hash.length = 64)
    (chainId : Bytes) (setHash : Int → Bytes) (agreement : Agreement ext sha256 chainId setHash)
    (fromEpoch : Int) (prevRoot : Bytes)
    {expectedTxid expectedTxid' : Nat → Int} {status status' : String}
    {records records' : List CatchupRecord}
    (passes : ChunkPasses ext sha256 txHash chainId setHash fromEpoch prevRoot
      expectedTxid status records)
    (passes' : ChunkPasses ext sha256 txHash chainId setHash fromEpoch prevRoot
      expectedTxid' status' records') :
    ∀ i record record', records[i]? = some record →
      records'[i]? = some record' →
      SameRecord txHash record record' ∧
        int64Pred (expectedTxid i) = int64Pred (expectedTxid' i) := by
  intro i record record' listed listed'
  apply sameRecord_of_passes ideal sized agreement
  · rw [passes.epochId listed, passes'.epochId listed']
  · exact passes.each i record listed
  · exact passes'.each i record' listed'

namespace EmptyEpoch

def chainId : Bytes := Bytes.ofAscii "net"

def txListHash : Bytes :=
  [21, 23, 221, 81, 11, 185, 186, 32, 179, 84, 208, 122, 104, 105, 127, 18,
    107, 1, 10, 145, 39, 184, 157, 75, 1, 14, 239, 202, 177, 211, 55, 118]

def receiptsHash : Bytes :=
  [43, 61, 95, 44, 183, 230, 13, 1, 135, 48, 112, 115, 136, 53, 84, 254,
    20, 124, 38, 113, 138, 123, 53, 15, 73, 143, 168, 187, 114, 182, 225, 52]

def proposalId : Bytes :=
  [153, 250, 101, 219, 13, 181, 41, 213, 71, 181, 208, 214, 230, 74, 170, 247,
    141, 200, 12, 143, 133, 130, 239, 21, 234, 183, 242, 230, 216, 158, 37, 91]

/-- Header of an epoch without transactions, with the root it leads to. -/
def header (stateRoot : Bytes) : EpochHeader where
  protoVersion := 4
  chainId
  epochId := 5
  prevStateRoot := List.replicate 32 1
  txListHash
  receiptRoot := receiptsHash
  proposedStateRoot := stateRoot
  parentCommitHash := nilHash
  creatorAddr := [65]
  txidHi := 6
  ts := 0

/-- What is hashed for the header: the root is in bytes. -/
def headerPayload : Bytes :=
  [0, 4, 0, 0, 0, 3, 110, 101, 116, 0, 0, 0, 0, 0, 0, 0, 5] ++
    (List.replicate 32 1 ++ (txListHash ++ (receiptsHash ++
      (List.replicate 32 2 ++ (nilHash ++
        [0, 0, 0, 1, 65, 0, 0, 0, 0, 0, 0, 0, 6, 0, 0, 0, 0, 0, 0, 0, 0])))))

/-- SHA-256 at the inputs that are hashed for the epoch. -/
def sha256 : Bytes → Bytes :=
  tableHash [
    (Bytes.ofAscii "octra:tx_list:v1" ++ [0], txListHash),
    (Bytes.ofAscii "octra:preverify_receipt_root:v1" ++ [0, 0, 0, 0, 0], receiptsHash),
    (Bytes.ofAscii "octra:epoch_proposal_id:v4" ++ 0 :: headerPayload, proposalId)]

theorem ideal_sha256 : IdealHash sha256 := ideal_tableHash (by decide) (by decide)

def validatorSet : ValidatorSet := makeValidatorSet [⟨[65], List.replicate 32 1⟩]

/-- Only this proposal is signed, and only this set has a hash. -/
def ext : Externals :=
  { Externals.plain with
    validatorSetHash := fun vs => if vs = validatorSet then [1] else []
    verifyEd25519 := fun _ message _ => decide (message = proposalId) }

def txHash (_ : Bytes) : Except String Bytes := .error "no transactions"

def record (stateRoot : Bytes) (round : Int) : CatchupRecord where
  epochId := 5
  prevStateRoot := List.replicate 32 1
  stateRoot
  txListHash
  txHashes := []
  txsJson := []
  receiptRoot := receiptsHash
  receiptsJson := []
  epochTs := 0
  creatorAddr := [65]
  commitRound := round
  finality := some {
    finalize := {
      chainId
      epochId := 5
      commitRound := round
      header := header stateRoot
      proposalId
      precommits := [⟨chainId, 5, round, .precommit, proposalId, [65], []⟩]
      parentCommit := none }
    validatorSet }

theorem passes_record {stateRoot : Bytes} {round : Int}
    (finality : (verifyRecordFinality ext sha256 chainId [1] 7
      (record stateRoot round)).toOption.isSome = true) :
    ChunkPasses ext sha256 txHash chainId (fun _ => [1]) 5
      (List.replicate 32 1) (fun _ => 7) "ok" [record stateRoot round] where
  first := rfl
  chained := rfl
  each := by
    intro i other listed
    have same : other = record stateRoot round :=
      (List.mem_singleton.mp (List.mem_of_getElem? listed))
    rw [same]
    -- neither check reads the root or the round
    have hashes : verifyRecordHashes sha256 (record [] 0) [] = .ok () := by decide +kernel
    have receipts : verifyRecordReceipts sha256 (record [] 0) = .ok () := by decide +kernel
    refine ⟨⟨[], rfl, hashes⟩, receipts, ?_⟩
    cases verified : verifyRecordFinality ext sha256 chainId [1] 7 (record stateRoot round) with
    | error reason =>
      rw [verified] at finality
      cases finality
    | ok found => exact ⟨found, rfl⟩

/-- Whoever is accepted is signed for, and only one proposal is. -/
theorem agreement : Agreement ext sha256 chainId fun _ => [1] := by
  have signed : ∀ (vs : ValidatorSet) (finalize : Finalize), ext.validatorSetHash vs = [1] →
      acceptsFinalize ext sha256 chainId vs finalize = .ok () →
      finalize.proposalId = proposalId := by
    intro vs finalize hashed accepted
    have own : vs = validatorSet := by
      by_contra other
      have none : ext.validatorSetHash vs = [] := if_neg other
      rw [none] at hashed
      cases hashed
    unfold acceptsFinalize at accepted
    split at accepted
    · cases accepted
    next valid =>
    have holds := certificateHolds_of_validatePersistedFinalize valid
    have quorum := holds.quorum
    cases votes : finalize.precommits with
    | nil =>
      have empty : (certificateOfFinalize finalize).precommits = [] := votes
      rw [empty, own, List.map_nil] at quorum
      unfold ValidatorSet.hasQuorumAt at quorum
      generalize (QuorumPolicy.forChain chainId).select _ = rule at quorum
      cases rule <;> exact absurd quorum (by decide)
    | cons vote rest =>
      have listed : vote ∈ (certificateOfFinalize finalize).precommits := by
        change vote ∈ finalize.precommits
        rw [votes]
        exact List.mem_cons_self
      have same := (voteOk_iff.mp (holds.votes vote listed)).2.2.2.2
      have verified := holds.signed vote listed
      unfold verifyVoteIn at verified
      split at verified
      · exact same.symm.trans (of_decide_eq_true verified)
      · cases verified
  intro vs vs' finalize finalize' _ hashed hashed' accepted accepted'
  exact (signed vs finalize hashed accepted).trans (signed vs' finalize' hashed' accepted').symm

end EmptyEpoch

open EmptyEpoch in
/-- Certificates of two rounds bind the same epoch. -/
theorem sameRecords_of_rounds :
    SameRecord txHash (record (List.replicate 32 2) 0)
        (record (List.replicate 32 2) 1) ∧
      int64Pred 7 = int64Pred 7 :=
  sameRecords_of_passes ext ideal_sha256 (fun _ _ read => by cases read) chainId
    (fun _ => [1]) agreement 5 (List.replicate 32 1)
    (passes_record (by decide +kernel)) (passes_record (by decide +kernel))
    0 _ _ rfl rfl

open EmptyEpoch in
/-- A root may be spelled in digits, so roots that agree need not be equal. -/
theorem root_in_digits :
    (IdealHash sha256 ∧ Agreement ext sha256 chainId fun _ => [1]) ∧
    ChunkPasses ext sha256 txHash chainId (fun _ => [1]) 5
      (List.replicate 32 1) (fun _ => 7) "ok"
      [record (List.replicate 32 2) 0] ∧
    ChunkPasses ext sha256 txHash chainId (fun _ => [1]) 5
      (List.replicate 32 1) (fun _ => 7) "ok"
      [record (List.replicate 32 [48, 50]).flatten 0] ∧
    (record (List.replicate 32 2) 0).stateRoot ≠
      (record (List.replicate 32 [48, 50]).flatten 0).stateRoot :=
  ⟨⟨ideal_sha256, agreement⟩, passes_record (by decide +kernel),
    passes_record (by decide +kernel), by decide⟩

end Catchup
end LiteNode
