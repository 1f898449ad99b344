import LiteNode.Types.Messages
import LiteNode.Wire.Oce1

/-!
# Hashes

What is hashed, and under which tag. Hashes that are equal are hashes of the
same bytes, as far as no two inputs of the hash function collide.
-/

namespace LiteNode

section Hashes

open Oce1

variable (sha256 : Bytes → Bytes)

/-- Hash of a payload under a tag. -/
def tagged (tag : String) (payload : Bytes) : Bytes := sha256 (Bytes.ofAscii tag ++ 0 :: payload)

/-- Id of a proposal under a tag, with what is written of its parent. -/
def proposalIdWith (tag : String) (parent : EpochHeader → Except String Bytes)
    (h : EpochHeader) : Except String Bytes := do
  let prevStateRoot ← putHash32 h.prevStateRoot
  let txListHash ← putHash32 h.txListHash
  let receiptRoot ← putHash32 h.receiptRoot
  let proposedStateRoot ← putHash32 h.proposedStateRoot
  let parentCommitHash ← parent h
  .ok (tagged sha256 tag
    (putU16 h.protoVersion ++ (putString h.chainId ++ (putU64 h.epochId ++
      (prevStateRoot ++ (txListHash ++ (receiptRoot ++ (proposedStateRoot ++
        (parentCommitHash ++ (putString h.creatorAddr ++
          (putU64 h.txidHi ++ putU64 h.ts.toNat)))))))))))

def proposalIdV3 : EpochHeader → Except String Bytes :=
  proposalIdWith sha256 "octra:epoch_proposal_id:v3" fun _ => .ok []

def proposalIdV4 : EpochHeader → Except String Bytes :=
  proposalIdWith sha256 "octra:epoch_proposal_id:v4" fun h => putHash32 h.parentCommitHash

/-- Id of a proposal; the source raises where there is none. -/
def proposalIdOf (h : EpochHeader) : Except String Bytes :=
  if h.protoVersion = protoVersionParentLegacy then proposalIdV3 sha256 h
  else if h.protoVersion = protoVersionCurrent then proposalIdV4 sha256 h
  else .error "unsupported epoch header protocol"

def receiptPayload (receiptsJson : List Bytes) : Bytes :=
  putU32Int receiptsJson.length ++ receiptsJson.flatMap putString

def receiptRoot (receiptsJson : List Bytes) : Bytes :=
  tagged sha256 "octra:preverify_receipt_root:v1" (receiptPayload receiptsJson)

/-- Externals that hash headers as the source does. -/
def Externals.hashing (ext : Externals) : Externals :=
  { ext with proposalId := fun h => (proposalIdOf sha256 h).toOption.getD [] }

end Hashes

/-- No two inputs collide, and no output has the length of a hash in digits. -/
structure IdealHash (sha256 : Bytes → Bytes) : Prop where
  injective : ∀ input input', sha256 input = sha256 input' → input = input'
  binary : ∀ input, (sha256 input).length ≠ 64

/-- A hash function that is known at some inputs. -/
def tableHash (table : List (Bytes × Bytes)) (input : Bytes) : Bytes :=
  (table.lookup input).getD (List.replicate 65 0 ++ input)

/-- Known values of 32 bytes that differ make an ideal hash function. -/
theorem ideal_tableHash {table : List (Bytes × Bytes)} (distinct : (table.map Prod.snd).Nodup)
    (sizes : ∀ entry ∈ table, entry.2.length = 32) : IdealHash (tableHash table) := by
  have known : ∀ input output, table.lookup input = some output → (input, output) ∈ table := by
    intro input output found
    obtain ⟨before, after, split, -⟩ := List.lookup_eq_some_iff.mp found
    simp [split]
  constructor
  · intro input input' same
    unfold tableHash at same
    cases found : table.lookup input with
    | none =>
      cases found' : table.lookup input' with
      | none =>
        rw [found, found'] at same
        exact List.append_cancel_left same
      | some output' =>
        have size := sizes _ (known _ _ found')
        rw [found, found'] at same
        have long := congrArg List.length same
        simp [size] at long
    | some output =>
      have size := sizes _ (known _ _ found)
      cases found' : table.lookup input' with
      | none =>
        rw [found, found'] at same
        have long := congrArg List.length same
        simp [size] at long
      | some output' =>
        rw [found, found'] at same
        have listed := known _ _ found
        have listed' := known _ _ found'
        have equal : output = output' := same
        have entries := List.inj_on_of_nodup_map distinct listed listed' equal
        exact congrArg Prod.fst entries
  · intro input
    unfold tableHash
    cases found : table.lookup input with
    | none => simp
    | some output =>
      have size := sizes _ (known _ _ found)
      simp [size]

def SameHash (left right : Bytes) : Prop :=
  ∃ raw, Oce1.hash32Bytes left = .ok raw ∧ Oce1.hash32Bytes right = .ok raw

section Injective

open Oce1

variable {sha256 : Bytes → Bytes} (ideal : IdealHash sha256)

include ideal

theorem tagged_inj {tag tag' : String} {payload payload' : Bytes}
    (size : (Bytes.ofAscii tag).length = (Bytes.ofAscii tag').length)
    (same : tagged sha256 tag payload = tagged sha256 tag' payload') :
    Bytes.ofAscii tag = Bytes.ofAscii tag' ∧ payload = payload' := by
  have inputs := ideal.injective _ _ same
  obtain ⟨tags, rest⟩ := List.append_inj inputs size
  exact ⟨tags, (List.cons.inj rest).2⟩

/-- A hash is only spelled as it is. -/
theorem eq_of_hash32Bytes_tagged {tag : String} {payload bytes : Bytes}
    (written : hash32Bytes (tagged sha256 tag payload) = .ok bytes) :
    bytes = tagged sha256 tag payload := by
  have length : (tagged sha256 tag payload).length ≠ 64 := ideal.binary _
  unfold hash32Bytes at written
  split at written
  · cases written
    rfl
  · unfold hash32OfHex at written
    rw [if_pos length] at written
    cases written

theorem eq_of_sameHash_tagged {tag : String} {payload payload' : Bytes}
    (same : SameHash (tagged sha256 tag payload)
      (tagged sha256 tag payload')) : payload = payload' := by
  obtain ⟨raw, left, right⟩ := same
  have equal := (eq_of_hash32Bytes_tagged ideal left).symm.trans
    (eq_of_hash32Bytes_tagged ideal right)
  exact (tagged_inj ideal rfl equal).2

end Injective

/-- Headers that say the same of the executed epoch. -/
structure SameHeader (h h' : EpochHeader) : Prop where
  prevStateRoot : SameHash h.prevStateRoot h'.prevStateRoot
  txListHash : SameHash h.txListHash h'.txListHash
  receiptRoot : SameHash h.receiptRoot h'.receiptRoot
  proposedStateRoot : SameHash h.proposedStateRoot h'.proposedStateRoot
  creatorAddr : h.creatorAddr = h'.creatorAddr
  txidHi : h.txidHi % 2 ^ 64 = h'.txidHi % 2 ^ 64
  ts : h.ts = h'.ts

variable {id : Bytes}

open Oce1 in
theorem sameHeader_of_proposalIdWith
    {sha256 : Bytes → Bytes} (ideal : IdealHash sha256) {tag : String}
    {parent : EpochHeader → Except String Bytes} {n : Nat}
    (size : ∀ h bytes, parent h = .ok bytes → bytes.length = n)
    {h h' : EpochHeader} (sameChain : h.chainId = h'.chainId)
    (named : proposalIdWith sha256 tag parent h = .ok id)
    (named' : proposalIdWith sha256 tag parent h' = .ok id) : SameHeader h h' := by
  obtain ⟨prev, written, named⟩ := bind_eq_ok named
  obtain ⟨txs, writtenTxs, named⟩ := bind_eq_ok named
  obtain ⟨receipts, writtenReceipts, named⟩ := bind_eq_ok named
  obtain ⟨proposed, writtenProposed, named⟩ := bind_eq_ok named
  obtain ⟨commit, writtenCommit, named⟩ := bind_eq_ok named
  obtain ⟨prev', written', named'⟩ := bind_eq_ok named'
  obtain ⟨txs', writtenTxs', named'⟩ := bind_eq_ok named'
  obtain ⟨receipts', writtenReceipts', named'⟩ := bind_eq_ok named'
  obtain ⟨proposed', writtenProposed', named'⟩ := bind_eq_ok named'
  obtain ⟨commit', writtenCommit', named'⟩ := bind_eq_ok named'
  have same := (tagged_inj ideal rfl ((Except.ok.inj named).trans (Except.ok.inj named').symm)).2
  rw [sameChain] at same
  obtain ⟨-, same⟩ := append_inj_of_length (length_putUint 2 _) (length_putUint 2 _) same
  have same := List.append_cancel_left same
  obtain ⟨-, same⟩ := append_inj_of_length (length_putUint 8 _) (length_putUint 8 _) same
  obtain ⟨samePrev, same⟩ := append_inj_of_length (length_putHash32 written)
    (length_putHash32 written') same
  obtain ⟨sameTxs, same⟩ := append_inj_of_length (length_putHash32 writtenTxs)
    (length_putHash32 writtenTxs') same
  obtain ⟨sameReceipts, same⟩ := append_inj_of_length
    (length_putHash32 writtenReceipts) (length_putHash32 writtenReceipts') same
  obtain ⟨sameProposed, same⟩ := append_inj_of_length
    (length_putHash32 writtenProposed) (length_putHash32 writtenProposed') same
  obtain ⟨-, same⟩ := append_inj_of_length (size _ _ writtenCommit) (size _ _ writtenCommit') same
  obtain ⟨creators, ends⟩ := List.append_inj' same (by simp [putU64])
  obtain ⟨txids, times⟩ := append_inj_of_length (length_putUint 8 _) (length_putUint 8 _) ends
  -- lengths take four bytes, so what follows them is the address
  obtain ⟨-, creator⟩ := append_inj_of_length (length_putUint 4 _) (length_putUint 4 _) creators
  refine ⟨?_, ?_, ?_, ?_, creator, ?_, ?_⟩
  · exact ⟨prev', samePrev ▸ written, written'⟩
  · exact ⟨txs', sameTxs ▸ writtenTxs, writtenTxs'⟩
  · exact ⟨receipts', sameReceipts ▸ writtenReceipts, writtenReceipts'⟩
  · exact ⟨proposed', sameProposed ▸ writtenProposed, writtenProposed'⟩
  · exact putUint_inj txids
  · have low := h.ts.toNat_lt
    have low' := h'.ts.toNat_lt
    have bits := putUint_inj times
    apply UInt64.toNat_inj.mp
    omega

theorem tagged_of_proposalIdWith {sha256 : Bytes → Bytes} {tag : String}
    {parent : EpochHeader → Except String Bytes} {h : EpochHeader} (named : proposalIdWith sha256 tag parent h = .ok id) :
    ∃ payload, id = tagged sha256 tag payload := by
  obtain ⟨prev, -, named⟩ := bind_eq_ok named
  obtain ⟨txs, -, named⟩ := bind_eq_ok named
  obtain ⟨receipts, -, named⟩ := bind_eq_ok named
  obtain ⟨proposed, -, named⟩ := bind_eq_ok named
  obtain ⟨commit, -, named⟩ := bind_eq_ok named
  exact ⟨_, (Except.ok.inj named).symm⟩

/-- Headers of one chain with the same id say the same, in either version. -/
theorem sameHeader_of_proposalIdOf {sha256 : Bytes → Bytes} (ideal : IdealHash sha256)
    {h h' : EpochHeader} (sameChain : h.chainId = h'.chainId)
    (named : proposalIdOf sha256 h = .ok id) (named' : proposalIdOf sha256 h' = .ok id) :
    SameHeader h h' := by
  have differ : ∀ payload payload', tagged sha256 "octra:epoch_proposal_id:v3" payload ≠
        tagged sha256 "octra:epoch_proposal_id:v4" payload' := by
    intro payload payload' same
    exact absurd (tagged_inj ideal (by decide) same).1 (by decide)
  have empty : ∀ (h : EpochHeader) (bytes : Bytes),
      (Except.ok [] : Except String Bytes) = .ok bytes → bytes.length = 0 := by
    intro _ bytes written
    cases written
    rfl
  unfold proposalIdOf at named named'
  split at named
  · split at named'
    · exact sameHeader_of_proposalIdWith ideal empty sameChain named named'
    · split at named'
      · obtain ⟨payload, tag⟩ := tagged_of_proposalIdWith named
        obtain ⟨payload', tag'⟩ := tagged_of_proposalIdWith named'
        exact absurd (tag.symm.trans tag') (differ payload payload')
      · cases named'
  · split at named
    · split at named'
      · obtain ⟨payload, tag⟩ := tagged_of_proposalIdWith named
        obtain ⟨payload', tag'⟩ := tagged_of_proposalIdWith named'
        exact absurd (tag'.symm.trans tag) (differ payload' payload)
      · split at named'
        · exact sameHeader_of_proposalIdWith ideal
            (fun _ _ written => Oce1.length_putHash32 written) sameChain named
            named'
        · cases named'
    · cases named

/-- Receipts whose number and lengths fit in four bytes. -/
def ShortReceipts (receiptsJson : List Bytes) : Prop :=
  receiptsJson.length < 2 ^ 32 ∧ ∀ receipt ∈ receiptsJson, receipt.length < 2 ^ 32

open Oce1 in
theorem flatMap_putString_inj {receipts receipts' : List Bytes}
    (short : ∀ receipt ∈ receipts, receipt.length < 2 ^ 32)
    (short' : ∀ receipt ∈ receipts', receipt.length < 2 ^ 32)
    (count : receipts.length = receipts'.length)
    (same : receipts.flatMap putString = receipts'.flatMap putString) : receipts = receipts' := by
  induction receipts generalizing receipts' with
  | nil => exact (List.length_eq_zero_iff.mp count.symm).symm
  | cons receipt rest ih =>
    cases receipts' with
    | nil => cases count
    | cons receipt' rest' =>
      have small := short receipt List.mem_cons_self
      have small' := short' receipt' List.mem_cons_self
      rw [List.flatMap_cons, List.flatMap_cons] at same
      unfold putString putBytes at same
      rw [List.append_assoc, List.append_assoc] at same
      obtain ⟨sizes, items⟩ := append_inj_of_length (length_putUint 4 _) (length_putUint 4 _) same
      have size := putUint_inj sizes
      obtain ⟨first, others⟩ := List.append_inj items (by omega)
      rw [first, ih
        (fun other later => short other (List.mem_cons_of_mem _ later))
        (fun other later => short' other (List.mem_cons_of_mem _ later))
        (Nat.succ.inj count) others]

open Oce1 in
theorem receiptPayload_inj {receipts receipts' : List Bytes} (short : ShortReceipts receipts)
    (short' : ShortReceipts receipts') (same : receiptPayload receipts = receiptPayload receipts') :
    receipts = receipts' := by
  obtain ⟨counts, items⟩ := append_inj_of_length (length_putUint 4 _) (length_putUint 4 _) same
  have count := putUint_inj counts
  have small := short.1
  have small' := short'.1
  exact flatMap_putString_inj short.2 short'.2 (by omega) items

end LiteNode
