import LiteNode.Data.Ordered
import LiteNode.Types.Hashing

/-!
# Attestations of resources

Nodes attest work, storage, useful work and finality, each with a weight and a
score. A committee is the first well-formed attestations in the order of their
scores, and a root is the hash of the ids of attestations in that order.

Attestations of equal scores, nodes, kinds, proofs and commitments keep the
order in which they were given.
-/

namespace LiteNode
namespace Resources

open Oce1

inductive AttestationKind
  | pow
  | poStorage
  | poUW
  | finality
  deriving DecidableEq

structure Attestation where
  chainId : Bytes
  epochId : Int64
  nodeId : Bytes
  kind : AttestationKind
  commitment : Bytes
  proofHash : Bytes
  weight : Int64
  score : Bytes
  signature : Bytes
  deriving DecidableEq

def attestationKindToU8 : AttestationKind → Int
  | .pow => 1
  | .poStorage => 2
  | .poUW => 3
  | .finality => 4

theorem attestationKindToU8_inj {kind kind' : AttestationKind}
    (same : attestationKindToU8 kind = attestationKindToU8 kind') : kind = kind' := by
  cases kind <;> cases kind' <;> first | rfl | cases same

def isWellFormed (attestation : Attestation) : Bool :=
  attestation.chainId ≠ [] &&
    attestation.nodeId ≠ [] &&
    decide (0 < attestation.weight) &&
    attestation.proofHash.length = 32 &&
    attestation.score.length = 32 &&
    attestation.signature.length = 64

section Hashes

variable (sha256 : Bytes → Bytes)

def hashEncoded (tag : String) (payload : Except String Bytes) : Except String Bytes :=
  payload.map (tagged sha256 tag)

def putSig64 (value : Bytes) : Except String Bytes :=
  if value.length ≠ 64 then .error "sig64 length must be 64" else .ok value

/-- The fields of an attestation that are scored and signed, and a last hash. -/
def putFields (attestation : Attestation) (last : Bytes) : Except String Bytes := do
  let proofHash ← putHash32 attestation.proofHash
  let last ← putHash32 last
  .ok (putString attestation.chainId ++ (putU64 attestation.epochId.toInt ++
    (putString attestation.nodeId ++
      (putU8 (attestationKindToU8 attestation.kind) ++
        (putString attestation.commitment ++
          (proofHash ++ (putU64 attestation.weight.toInt ++ last)))))))

def attestationScore (challenge : Bytes) (attestation : Attestation) : Except String Bytes :=
  hashEncoded sha256 "octra:resource_attestation_score:v1" (putFields attestation challenge)

def attestationSignBytes (attestation : Attestation) : Except String Bytes :=
  hashEncoded sha256 "octra:resource_attestation_sign:v1"
    (putFields attestation attestation.score)

def attestationId (attestation : Attestation) : Except String Bytes :=
  hashEncoded sha256 "octra:resource_attestation_id:v1" do
    let signBytes ← putHash32 (← attestationSignBytes sha256 attestation)
    let signature ← putSig64 attestation.signature
    .ok (signBytes ++ signature)

end Hashes

def compareAttestation (left right : Attestation) : Ordering :=
  (compareBytes left.score right.score).then
    ((compareBytes left.nodeId right.nodeId).then
      ((compare (attestationKindToU8 left.kind)
          (attestationKindToU8 right.kind)).then
        ((compareBytes left.proofHash right.proofHash).then
          (compareBytes left.commitment right.commitment))))

def selectCommittee (size : Int) (attestations : List Attestation) : List Attestation :=
  (Ordered.sort compareAttestation (attestations.filter isWellFormed)).take size.toNat

def attestationsRoot (sha256 : Bytes → Bytes)
    (attestations : List Attestation) : Except String Bytes :=
  hashEncoded sha256 "octra:resource_attestations_root:v1"
    (putList (fun attestation => attestationId sha256 attestation >>= putHash32)
      (Ordered.sort compareAttestation attestations))

/-- What the order compares. -/
structure Rank where
  score : Bytes
  nodeId : Bytes
  kind : AttestationKind
  proofHash : Bytes
  commitment : Bytes
  deriving DecidableEq

def Attestation.rank (attestation : Attestation) : Rank :=
  ⟨attestation.score, attestation.nodeId, attestation.kind,
    attestation.proofHash, attestation.commitment⟩

/-- The rank, as a value of a linear order. -/
def Rank.key (rank : Rank) : Bytes ×ₗ Bytes ×ₗ Int ×ₗ Bytes ×ₗ Bytes :=
  toLex (rank.score, toLex (rank.nodeId,
    toLex (attestationKindToU8 rank.kind, toLex (rank.proofHash, rank.commitment))))

theorem Rank.key_inj {rank rank' : Rank} (same : rank.key = rank'.key) : rank = rank' := by
  simp only [Rank.key, toLex_inj, Prod.mk.injEq] at same
  obtain ⟨score, node, kind, proof, commitment⟩ := same
  cases rank
  cases rank'
  cases attestationKindToU8_inj kind
  simp_all

theorem byKey_compareAttestation :
    Ordered.ByKey compareAttestation fun attestation => attestation.rank.key := by
  apply (Ordered.byKey_compareBytes Attestation.score).andThen
  apply (Ordered.byKey_compareBytes Attestation.nodeId).andThen
  apply (Ordered.byKey_compare fun attestation : Attestation =>
    attestationKindToU8 attestation.kind).andThen
  exact (Ordered.byKey_compareBytes Attestation.proofHash).andThen
    (Ordered.byKey_compareBytes Attestation.commitment)

variable {attestations others : List Attestation}

/-- What attestations of one rank share stands in the same places. -/
theorem map_sort_eq_of_perm (perm : attestations.Perm others) {shared : Attestation → β}
    (respects : ∀ left ∈ attestations, ∀ right ∈ attestations,
      left.rank = right.rank → shared left = shared right) :
    (Ordered.sort compareAttestation attestations).map shared =
      (Ordered.sort compareAttestation others).map shared :=
  byKey_compareAttestation.map_sort_eq_of_perm perm
    fun left inLeft right inRight same => respects left inLeft right inRight (Rank.key_inj same)

theorem putItems_eq_of_map_eq {put : α → Except String Bytes}
    {items others : List α} (same : items.map put = others.map put) :
    putItems put items = putItems put others := by
  induction items generalizing others with
  | nil =>
    cases others with
    | nil => rfl
    | cons first rest => cases same
  | cons first rest ih =>
    cases others with
    | nil => cases same
    | cons other rest' =>
      rw [List.map_cons, List.map_cons, List.cons.injEq] at same
      rw [putItems, putItems, same.1, ih same.2]

theorem map_selectCommittee_eq_of_perm
    (perm : attestations.Perm others) (size : Int) {shared : Attestation → β}
    (respects : ∀ left ∈ attestations, ∀ right ∈ attestations,
      isWellFormed left → isWellFormed right → left.rank = right.rank →
        shared left = shared right) :
    (selectCommittee size attestations).map shared = (selectCommittee size others).map shared := by
  rw [selectCommittee, selectCommittee, List.map_take, List.map_take,
    map_sort_eq_of_perm (perm.filter _)]
  intro left inLeft right inRight
  rw [List.mem_filter] at inLeft inRight
  exact respects left inLeft.1 right inRight.1 inLeft.2 inRight.2

theorem attestationsRoot_eq_of_perm (sha256 : Bytes → Bytes) (perm : attestations.Perm others)
    (identified : ∀ left ∈ attestations, ∀ right ∈ attestations,
      left.rank = right.rank → attestationId sha256 left = attestationId sha256 right) :
    attestationsRoot sha256 attestations = attestationsRoot sha256 others := by
  have ids := @map_sort_eq_of_perm _ _ _ perm
    (fun attestation => attestationId sha256 attestation >>= putHash32)
    fun left inLeft right inRight same => by
      rw [identified left inLeft right inRight same]
  have lengths := congrArg List.length ids
  rw [List.length_map, List.length_map] at lengths
  rw [attestationsRoot, attestationsRoot, putList, putList, putItems_eq_of_map_eq ids, lengths]

/-- Committees of a list in two orders have the same ranks in the same places.
They are the same as far as well-formed attestations of one rank are, and the
roots are as far as attestations of one rank have one id. -/
theorem committee_and_root_eq_of_perm
    (sha256 : Bytes → Bytes) {attestations others : List Attestation}
    (perm : attestations.Perm others) :
    (∀ size,
      (selectCommittee size attestations).map Attestation.rank =
        (selectCommittee size others).map Attestation.rank) ∧
    ((∀ left ∈ attestations, ∀ right ∈ attestations,
        isWellFormed left → isWellFormed right → left.rank = right.rank → left = right) →
      ∀ size, selectCommittee size attestations = selectCommittee size others) ∧
    ((∀ left ∈ attestations, ∀ right ∈ attestations, left.rank = right.rank →
        attestationId sha256 left = attestationId sha256 right) →
      attestationsRoot sha256 attestations = attestationsRoot sha256 others) := by
  refine ⟨?_, ?_, ?_⟩
  · intro size
    apply map_selectCommittee_eq_of_perm perm size
    intro left _ right _ _ _ same
    exact same
  · intro apart size
    have mapped := @map_selectCommittee_eq_of_perm _ _ _ perm size id apart
    rwa [List.map_id, List.map_id] at mapped
  · exact attestationsRoot_eq_of_perm sha256 perm

/-- Attestation of a weight, with a byte of its score. -/
def attestationOf (weight : Int64) (score : UInt8) : Attestation where
  chainId := [99]
  epochId := 1
  nodeId := [110]
  kind := .pow
  commitment := []
  proofHash := List.replicate 32 0
  weight := weight
  score := List.replicate 32 score
  signature := List.replicate 64 0

theorem committee_and_root_eq_of_perm_scores :
    selectCommittee 1 [attestationOf 5 1, attestationOf 7 2] =
      selectCommittee 1 [attestationOf 7 2, attestationOf 5 1] :=
  (committee_and_root_eq_of_perm id (.swap _ _ [])).2.1 (by decide) 1

/-- The first of two attestations of one rank is in the committee. -/
theorem committee_of_given_order :
    ¬ ∀ (sha256 : Bytes → Bytes) (attestations others : List Attestation),
      attestations.Perm others →
        (∀ size, selectCommittee size attestations = selectCommittee size others) ∧
        attestationsRoot sha256 attestations = attestationsRoot sha256 others := by
  intro stable
  have same := (stable id [attestationOf 5 1, attestationOf 7 1]
    [attestationOf 7 1, attestationOf 5 1] (.swap _ _ [])).1 1
  exact absurd same (by decide)

end Resources
end LiteNode
