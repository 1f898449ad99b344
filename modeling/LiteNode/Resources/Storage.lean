import LiteNode.Resources.Attestations

/-!
# Storage evidence

A node shows that it stores a chunk by the chunk's path to the root of a tree.
The path has the shape of the chunk's position, and the root binds the chunk and
the siblings on the path. The position is drawn from a challenge.
-/

namespace LiteNode
namespace Resources

open Oce1

inductive MerkleSide
  | left
  | right
  deriving DecidableEq

structure MerkleStep where
  side : MerkleSide
  siblingHash : Bytes
  deriving DecidableEq

structure StorageEvidence where
  leafIndex : Int64
  leafCount : Int64
  chunk : Bytes
  path : List MerkleStep
  deriving DecidableEq

def merkleSideToU8 : MerkleSide → Int
  | .left => 1
  | .right => 2

def storageLeafHash (sha256 : Bytes → Bytes) (chunk : Bytes) : Bytes :=
  tagged sha256 "octra:storage_chunk_leaf:v1" chunk

def storageParentHash (sha256 : Bytes → Bytes) (left right : Bytes) : Except String Bytes :=
  hashEncoded sha256 "octra:storage_merkle_parent:v1" do
    let left ← putHash32 left
    let right ← putHash32 right
    .ok (left ++ right)

/-- Climb from an index of a level of some nodes to the root. -/
def walk (index count : Int64) : List MerkleStep → Bool
  | [] => index = 0 && count = 1
  | step :: rest =>
    decide (1 < count) && step.siblingHash.length = 32 &&
      (decide (step.side = .left) == decide (index % 2 = 1)) &&
      walk (index / 2) (count / 2 + count % 2) rest

def storagePath (evidence : StorageEvidence) : Bool :=
  decide (0 < evidence.leafCount) && decide (0 ≤ evidence.leafIndex) &&
    decide (evidence.leafIndex < evidence.leafCount) &&
    walk evidence.leafIndex evidence.leafCount evidence.path

section Roots

variable (leafHash : Bytes → Bytes)
variable (parentHash : Bytes → Bytes → Except String Bytes)

def climb (current : Bytes) (step : MerkleStep) : Except String Bytes :=
  match step.side with
  | .left => parentHash step.siblingHash current
  | .right => parentHash current step.siblingHash

def merkleRootFromEvidence (evidence : StorageEvidence) : Except String Bytes :=
  evidence.path.foldlM (climb parentHash) (leafHash evidence.chunk)

end Roots

/-- The first eight bytes of a digest; the source raises where there are fewer. -/
def u64Prefix (digest : Bytes) : Except String Int64 :=
  if digest.length < 8 then .error "index out of bounds"
  else
    .ok ((digest.take 8).foldl
      (fun value byte => (value <<< (8 : Int64)) ||| Int64.ofNat byte.toNat) 0)

section Challenges

variable (sha256 : Bytes → Bytes)

def indexDigest (challenge : Bytes) (attestation : Attestation) : Except String Bytes :=
  hashEncoded sha256 "octra:storage_attestation_index:v1" do
    let challenge ← putHash32 challenge
    .ok (challenge ++ (putString attestation.chainId ++
      (putU64 attestation.epochId.toInt ++ (putString attestation.nodeId ++
        putString attestation.commitment))))

def storageChallengeIndex (challenge : Bytes) (leafCount : Int64)
    (attestation : Attestation) : Except String (Option Int64) := do
  if leafCount ≤ 0 || challenge.length ≠ 32 then return none
  else
    let digest ← indexDigest sha256 challenge attestation
    return some ((← u64Prefix digest).abs % leafCount)

end Challenges

/-- The sides of the siblings on the way up from an index, in a tree where each
level of some nodes has half as many parents, rounded up. -/
def pathShape (index count : Nat) : List MerkleSide :=
  if count ≤ 1 then []
  else (if index % 2 = 1 then .left else .right) :: pathShape (index / 2) ((count + 1) / 2)
termination_by count

theorem toInt_half {x : Int64} {n : Nat} (held : x.toInt = n) :
    (x / 2).toInt = (n / 2 : Nat) ∧ (x % 2).toInt = (n % 2 : Nat) := by
  have small := x.toInt_lt
  have two : (2 : Int64).toInt = 2 := by decide
  constructor
  · rw [Int64.toInt_div, two, held, Int.tdiv_eq_ediv_of_nonneg (by omega)]
    rw [Int.bmod_eq_of_le (by omega) (by omega)]
    rfl
  · rw [Int64.toInt_mod, two, held, Int.tmod_eq_emod_of_nonneg (by omega)]
    rfl

theorem toInt_parents {x : Int64} {n : Nat} (held : x.toInt = n) :
    (x / 2 + x % 2).toInt = ((n + 1) / 2 : Nat) := by
  obtain ⟨half, rest⟩ := toInt_half held
  have small := x.toInt_lt
  rw [Int64.toInt_add, half, rest, Int.bmod_eq_of_le (by omega) (by omega)]
  omega

/-- A climb takes the shape of its position, and siblings that are hashes. -/
theorem walk_iff {index count : Int64} {i n : Nat} {path : List MerkleStep}
    (at_index : index.toInt = i) (of_count : count.toInt = n) (inside : i < n) :
    walk index count path ↔
      (∀ step ∈ path, step.siblingHash.length = 32) ∧ path.map MerkleStep.side = pathShape i n := by
  induction path generalizing index count i n with
  | nil =>
    rw [walk, pathShape, Bool.and_eq_true, decide_eq_true_eq,
      decide_eq_true_eq, ← Int64.toInt_inj, ← Int64.toInt_inj, at_index, of_count]
    have one : (1 : Int64).toInt = 1 := by decide
    rw [Int64.toInt_zero, one]
    split
    · next single => simp; omega
    · next several => simp; omega
  | cons step rest ih =>
    obtain ⟨half, odd⟩ := toInt_half at_index
    have later := ih half (toInt_parents of_count) (by omega)
    have one : (1 : Int64).toInt = 1 := by decide
    have many : 1 < count ↔ ¬ n ≤ 1 := by
      rw [Int64.lt_iff_toInt_lt, one, of_count]
      omega
    have turn : index % 2 = 1 ↔ i % 2 = 1 := by
      rw [← Int64.toInt_inj, odd, one]
      omega
    rw [walk, pathShape]
    simp only [Bool.and_eq_true, decide_eq_true_eq, beq_iff_eq,
      decide_eq_decide, later, many, turn, List.forall_mem_cons, List.map_cons]
    by_cases single : n ≤ 1
    · simp [single]
    · simp only [single, not_false_eq_true, true_and, if_false, List.cons.injEq]
      cases side : step.side <;> by_cases isOdd : i % 2 = 1 <;> simp [isOdd, and_assoc]

theorem storagePath_iff (evidence : StorageEvidence) :
    storagePath evidence ↔
      (0 < evidence.leafCount ∧ 0 ≤ evidence.leafIndex ∧ evidence.leafIndex < evidence.leafCount) ∧
      (∀ step ∈ evidence.path, step.siblingHash.length = 32) ∧
        evidence.path.map MerkleStep.side =
          pathShape evidence.leafIndex.toInt.toNat evidence.leafCount.toInt.toNat := by
  rw [storagePath, Bool.and_eq_true, Bool.and_eq_true, Bool.and_eq_true,
    decide_eq_true_eq, decide_eq_true_eq, decide_eq_true_eq, and_assoc,
    and_assoc, ← and_assoc, ← and_assoc, and_assoc (a := 0 < evidence.leafCount)]
  apply and_congr_right
  rintro ⟨positive, nonneg, inside⟩
  rw [Int64.lt_iff_toInt_lt, Int64.toInt_zero] at positive
  rw [Int64.le_iff_toInt_le, Int64.toInt_zero] at nonneg
  rw [Int64.lt_iff_toInt_lt] at inside
  exact walk_iff (Int.toNat_of_nonneg nonneg).symm
    (Int.toNat_of_nonneg positive.le).symm (by omega)

/-- Hashes that bind what they are hashes of, where nodes of the tree and
siblings are hashed. -/
structure Binding (leafHash : Bytes → Bytes)
    (parentHash : Bytes → Bytes → Except String Bytes) (Node : Bytes → Prop) :
    Prop where
  sibling : ∀ hash, hash.length = 32 → Node hash
  leaf : ∀ chunk, Node (leafHash chunk)
  parent : ∀ left right hash, parentHash left right = .ok hash → Node hash
  leaf_inj : ∀ chunk chunk', leafHash chunk = leafHash chunk' → chunk = chunk'
  parent_inj : ∀ left right left' right' hash, Node left → Node right → Node left' → Node right' →
      parentHash left right = .ok hash → parentHash left' right' = .ok hash →
        left = left' ∧ right = right'

theorem eq_of_putHash32 {hash written : Bytes} (raw : hash.length ≠ 64)
    (put : putHash32 hash = .ok written) : written = hash ∧ hash.length = 32 := by
  unfold putHash32 hash32Bytes hash32OfHex at put
  split at put
  · next short =>
      cases put
      exact ⟨rfl, short⟩
  · cases put

theorem storageParentHash_eq_ok {sha256 : Bytes → Bytes}
    {left right hash : Bytes} (rawLeft : left.length ≠ 64) (rawRight : right.length ≠ 64)
    (done : storageParentHash sha256 left right = .ok hash) :
    left.length = 32 ∧ hash = tagged sha256 "octra:storage_merkle_parent:v1" (left ++ right) := by
  obtain ⟨payload, written, hashed⟩ := map_eq_ok done
  obtain ⟨first, putLeft, rest⟩ := bind_eq_ok written
  obtain ⟨second, putRight, joined⟩ := bind_eq_ok rest
  obtain ⟨firstEq, short⟩ := eq_of_putHash32 rawLeft putLeft
  obtain ⟨secondEq, _⟩ := eq_of_putHash32 rawRight putRight
  cases joined
  rw [firstEq, secondEq] at hashed
  exact ⟨short, hashed.symm⟩

/-- The hashes of the source bind as far as no inputs of the hash function
collide. -/
theorem binding_of_ideal {sha256 : Bytes → Bytes} (ideal : IdealHash sha256) :
    Binding (storageLeafHash sha256) (storageParentHash sha256) fun hash => hash.length ≠ 64 where
  sibling hash short := by omega
  leaf chunk := ideal.binary _
  parent left right hash done := by
    obtain ⟨payload, _, rfl⟩ := map_eq_ok done
    exact ideal.binary _
  leaf_inj chunk chunk' same := (tagged_inj ideal rfl same).2
  parent_inj left right left' right' hash rawLeft rawRight rawLeft' rawRight'
      done done' := by
    obtain ⟨short, hashed⟩ := storageParentHash_eq_ok rawLeft rawRight done
    obtain ⟨short', hashed'⟩ := storageParentHash_eq_ok rawLeft' rawRight' done'
    have payloads := (tagged_inj ideal rfl (hashed.symm.trans hashed')).2
    exact List.append_inj payloads (short.trans short'.symm)

section Binds

variable {leafHash : Bytes → Bytes}
variable {parentHash : Bytes → Bytes → Except String Bytes}
variable {Node : Bytes → Prop}

/-- Climbs of one shape to one root start at one hash and pass the same
siblings. -/
theorem climb_inj (binding : Binding leafHash parentHash Node)
    {path path' : List MerkleStep} {current current' root : Bytes}
    (node : Node current) (node' : Node current')
    (siblings : ∀ step ∈ path, step.siblingHash.length = 32)
    (siblings' : ∀ step ∈ path', step.siblingHash.length = 32)
    (sides : path.map MerkleStep.side = path'.map MerkleStep.side)
    (climbed : path.foldlM (climb parentHash) current = .ok root)
    (climbed' : path'.foldlM (climb parentHash) current' = .ok root) :
    current = current' ∧ path = path' := by
  induction path generalizing path' current current' with
  | nil =>
    cases path' with
    | nil =>
      cases climbed
      cases climbed'
      exact ⟨rfl, rfl⟩
    | cons step rest => cases sides
  | cons step rest ih =>
    cases path' with
    | nil => cases sides
    | cons step' rest' =>
      rw [List.map_cons, List.map_cons, List.cons.injEq] at sides
      rw [List.forall_mem_cons] at siblings siblings'
      rw [List.foldlM_cons] at climbed climbed'
      obtain ⟨next, stepped, climbed⟩ := bind_eq_ok climbed
      obtain ⟨next', stepped', climbed'⟩ := bind_eq_ok climbed'
      have sibling := binding.sibling _ siblings.1
      have sibling' := binding.sibling _ siblings'.1
      have above : ∀ {current step next}, climb parentHash current step = .ok next → Node next := by
        intro current step next done
        unfold climb at done
        split at done
        · exact binding.parent _ _ _ done
        · exact binding.parent _ _ _ done
      obtain ⟨rfl, rfl⟩ := ih (above stepped)
        (above stepped') siblings.2 siblings'.2 sides.2 climbed climbed'
      obtain ⟨side, hash⟩ := step
      obtain ⟨side', hash'⟩ := step'
      cases sides.1
      cases side with
      | left =>
        obtain ⟨rfl, rfl⟩ := binding.parent_inj _ _ _ _ _ sibling node
          sibling' node' stepped stepped'
        exact ⟨rfl, rfl⟩
      | right =>
        obtain ⟨rfl, rfl⟩ := binding.parent_inj _ _ _ _ _ node sibling
          node' sibling' stepped stepped'
        exact ⟨rfl, rfl⟩

theorem evidence_eq_of_root (binding : Binding leafHash parentHash Node)
    {evidence evidence' : StorageEvidence} {root : Bytes}
    (shaped : storagePath evidence) (shaped' : storagePath evidence')
    (index : evidence.leafIndex = evidence'.leafIndex)
    (count : evidence.leafCount = evidence'.leafCount)
    (rooted : merkleRootFromEvidence leafHash parentHash evidence = .ok root)
    (rooted' : merkleRootFromEvidence leafHash parentHash evidence' = .ok root) :
    evidence = evidence' := by
  obtain ⟨_, siblings, sides⟩ := (storagePath_iff evidence).mp shaped
  obtain ⟨_, siblings', sides'⟩ := (storagePath_iff evidence').mp shaped'
  rw [index, count, ← sides'] at sides
  obtain ⟨leaves, paths⟩ := climb_inj binding (binding.leaf _) (binding.leaf _)
    siblings siblings' sides rooted rooted'
  have chunks := binding.leaf_inj _ _ leaves
  cases evidence
  cases evidence'
  simp_all

end Binds

/-- The bits of the first bytes are those of the number they spell. -/
theorem toBitVec_foldl {bytes : Bytes} (short : bytes.length ≤ 8) :
    (bytes.foldl (fun value byte =>
        (value <<< (8 : Int64)) ||| Int64.ofNat byte.toNat)
      (0 : Int64)).toBitVec.toNat = ofBigEndian bytes := by
  induction bytes using List.reverseRecOn with
  | nil => rfl
  | append_singleton bytes byte ih =>
    rw [List.length_append, List.length_singleton] at short
    have earlier := ih (by omega)
    have bounded : ofBigEndian bytes < 2 ^ 56 := by
      have below := ofBigEndian_lt bytes
      have most : 256 ^ bytes.length ≤ 256 ^ 7 := Nat.pow_le_pow_right (by decide) (by omega)
      exact below.trans_le most
    have small := byte.toNat_lt
    rw [List.foldl_append, ofBigEndian_append]
    simp only [List.foldl_cons, List.foldl_nil]
    generalize bytes.foldl
      (fun value byte => (value <<< (8 : Int64)) ||| Int64.ofNat byte.toNat)
      (0 : Int64) = value at earlier ⊢
    have shifted : (value <<< (8 : Int64)).toBitVec.toNat = ofBigEndian bytes <<< 8 := by
      have bits : (value <<< (8 : Int64)).toBitVec = value.toBitVec <<< 8 := rfl
      rw [bits, BitVec.toNat_shiftLeft, earlier, Nat.mod_eq_of_lt]
      rw [Nat.shiftLeft_eq]
      omega
    have last : (Int64.ofNat byte.toNat).toBitVec.toNat = byte.toNat := by
      rw [Int64.toBitVec_ofNat', BitVec.toNat_ofNat, Nat.mod_eq_of_lt (by omega)]
    rw [Int64.toBitVec_or, BitVec.toNat_or, shifted, last,
      ← Nat.shiftLeft_add_eq_or_of_lt small, Nat.shiftLeft_eq]
    omega

theorem u64Prefix_ne_minValue {digest : Bytes} (long : 8 ≤ digest.length)
    (ordinary : digest.take 8 ≠ [128, 0, 0, 0, 0, 0, 0, 0]) :
    ∃ value, u64Prefix digest = .ok value ∧ value ≠ Int64.minValue := by
  refine ⟨_, if_neg (by omega), ?_⟩
  intro least
  have length : (digest.take 8).length = 8 := by
    rw [List.length_take]
    omega
  have bits := toBitVec_foldl length.le
  rw [least] at bits
  have spelled := bigEndian_ofBigEndian (digest.take 8)
  rw [length, ← bits] at spelled
  exact ordinary (spelled.symm.trans (by decide))

theorem toInt_abs {value : Int64} (ordinary : value ≠ Int64.minValue) :
    value.abs.toInt = value.toInt.natAbs := by
  apply BitVec.toInt_abs_eq_natAbs_of_ne_intMin
  intro least
  exact ordinary (Int64.toBitVec_inj.mp least)

theorem rem_in_range {value count : Int64} (ordinary : value ≠ Int64.minValue)
    (positive : 0 < count) : 0 ≤ value.abs % count ∧ value.abs % count < count := by
  rw [Int64.lt_iff_toInt_lt, Int64.toInt_zero] at positive
  rw [Int64.le_iff_toInt_le, Int64.lt_iff_toInt_lt, Int64.toInt_mod,
    Int64.toInt_zero, toInt_abs ordinary, Int.tmod_eq_emod_of_nonneg (Int.natCast_nonneg _)]
  exact ⟨Int.emod_nonneg _ positive.ne', Int.emod_lt_of_pos _ positive⟩

theorem indexDigest_eq {sha256 : Bytes → Bytes} {challenge : Bytes}
    (whole : challenge.length = 32) (attestation : Attestation) :
    indexDigest sha256 challenge attestation =
      .ok (tagged sha256 "octra:storage_attestation_index:v1"
        (challenge ++ (putString attestation.chainId ++
          (putU64 attestation.epochId.toInt ++ (putString attestation.nodeId ++
            putString attestation.commitment))))) := by
  have raw : putHash32 challenge = .ok challenge := if_pos whole
  rw [indexDigest, raw]
  rfl

theorem storageChallengeIndex_in_range {sha256 : Bytes → Bytes}
    (digests : ∀ input, (sha256 input).length = 32) {challenge : Bytes}
    {leafCount : Int64} {attestation : Attestation}
    (whole : challenge.length = 32) (positive : 0 < leafCount)
    (ordinary : ∀ digest, indexDigest sha256 challenge attestation = .ok digest →
      digest.take 8 ≠ [128, 0, 0, 0, 0, 0, 0, 0]) :
    ∃ index, storageChallengeIndex sha256 challenge leafCount attestation =
        .ok (some index) ∧ 0 ≤ index ∧ index < leafCount := by
  have hashed := @indexDigest_eq sha256 _ whole attestation
  have long : ∀ payload, 8 ≤ (tagged sha256
      "octra:storage_attestation_index:v1" payload).length := by
    intro payload
    rw [tagged, digests]
    decide
  obtain ⟨value, read, nonMinimal⟩ := u64Prefix_ne_minValue (long _) (ordinary _ hashed)
  refine ⟨value.abs % leafCount, ?_, rem_in_range nonMinimal positive⟩
  have admitted : ¬ leafCount ≤ 0 := Int64.not_le.mpr positive
  simp [storageChallengeIndex, admitted, whole, hashed, read]

/-- Every index of a tree has a path. -/
theorem exists_storagePath {index count : Int64} (nonneg : 0 ≤ index)
    (inside : index < count) (chunk : Bytes) : ∃ path, storagePath ⟨index, count, chunk, path⟩ := by
  refine ⟨(pathShape index.toInt.toNat count.toInt.toNat).map
    fun side => ⟨side, List.replicate 32 0⟩, ?_⟩
  rw [storagePath_iff]
  have positive : 0 < count := by
    rw [Int64.lt_iff_toInt_lt] at inside ⊢
    rw [Int64.le_iff_toInt_le] at nonneg
    omega
  refine ⟨⟨positive, nonneg, inside⟩, ?_, ?_⟩
  · intro step listed
    obtain ⟨side, _, rfl⟩ := List.mem_map.mp listed
    exact List.length_replicate
  · rw [List.map_map]
    exact List.map_id _

/-- Evidence is accepted that has the shape of its position and hashes as
siblings, its root binds its chunk and its path, and a challenge asks for a
position in the tree. -/
theorem storage_evidence_binds (leafHash : Bytes → Bytes)
    (parentHash : Bytes → Bytes → Except String Bytes) (Node : Bytes → Prop)
    (binding : Binding leafHash parentHash Node) (sha256 : Bytes → Bytes)
    (digests : ∀ input, (sha256 input).length = 32) :
    (∀ evidence,
      storagePath evidence ↔
        (0 < evidence.leafCount ∧ 0 ≤ evidence.leafIndex ∧
          evidence.leafIndex < evidence.leafCount) ∧
        (∀ step ∈ evidence.path, step.siblingHash.length = 32) ∧
          evidence.path.map MerkleStep.side =
            pathShape evidence.leafIndex.toInt.toNat evidence.leafCount.toInt.toNat) ∧
    (∀ evidence evidence' root,
      storagePath evidence → storagePath evidence' →
        evidence.leafIndex = evidence'.leafIndex →
          evidence.leafCount = evidence'.leafCount →
            merkleRootFromEvidence leafHash parentHash evidence = .ok root →
              merkleRootFromEvidence leafHash parentHash evidence' = .ok root →
                evidence.chunk = evidence'.chunk ∧
                  evidence.path.map MerkleStep.siblingHash =
                    evidence'.path.map MerkleStep.siblingHash) ∧
    ∀ challenge attestation leafCount,
      challenge.length = 32 → 0 < leafCount →
        (∀ digest, indexDigest sha256 challenge attestation = .ok digest →
          digest.take 8 ≠ [128, 0, 0, 0, 0, 0, 0, 0]) →
        ∃ index,
          storageChallengeIndex sha256 challenge leafCount attestation = .ok (some index) ∧
            (0 ≤ index ∧ index < leafCount) ∧
            ∀ chunk, ∃ path, storagePath ⟨index, leafCount, chunk, path⟩ := by
  refine ⟨storagePath_iff, ?_, ?_⟩
  · intro evidence evidence' root shaped shaped' index count rooted rooted'
    rw [evidence_eq_of_root binding shaped shaped' index count rooted rooted']
    exact ⟨rfl, rfl⟩
  · intro challenge attestation leafCount whole positive ordinary
    obtain ⟨index, drawn, nonneg, inside⟩ :=
      storageChallengeIndex_in_range digests whole positive ordinary
    exact ⟨index, drawn, ⟨nonneg, inside⟩, exists_storagePath nonneg inside⟩

theorem storage_evidence_binds_twoChunks :
    storagePath ⟨1, 2, [98], [⟨.left, List.replicate 32 7⟩]⟩ ∧
      ∃ index,
        storageChallengeIndex (fun _ => List.replicate 32 5)
            (List.replicate 32 0) 2 (attestationOf 1 1) = .ok (some index) ∧
          (0 ≤ index ∧ index < 2) ∧
          ∀ chunk, ∃ path, storagePath ⟨index, 2, chunk, path⟩ := by
  have ideal : IdealHash (tableHash []) := ideal_tableHash List.nodup_nil (by simp)
  obtain ⟨shaped, _, asked⟩ := storage_evidence_binds _ _ _
    (binding_of_ideal ideal) (fun _ => List.replicate 32 5)
    fun _ => List.length_replicate
  refine ⟨(shaped _).mpr ⟨by decide, by decide, ?_⟩,
    asked _ _ _ List.length_replicate (by decide) ?_⟩
  · rw [show (2 : Int64).toInt.toNat = 2 from rfl,
      show (1 : Int64).toInt.toNat = 1 from rfl, pathShape, pathShape]
    rfl
  · intro digest hashed
    rw [indexDigest_eq List.length_replicate] at hashed
    cases hashed
    decide

/-- A path of the right shape is refused for a sibling that is no hash, a
challenge of another length asks for nothing, and one digest asks for a negative
index. -/
theorem storagePath_short_sibling :
    storagePath ⟨0, 2, [97], [⟨.right, List.replicate 31 0⟩]⟩ = false ∧
      storageChallengeIndex (fun _ => 128 :: List.replicate 31 0) [] 3
        (attestationOf 1 1) = .ok none ∧
      storageChallengeIndex (fun _ => 128 :: List.replicate 31 0)
        (List.replicate 32 0) 3 (attestationOf 1 1) = .ok (some (-2)) := by
  refine ⟨by decide, by decide, ?_⟩
  rw [storageChallengeIndex, if_neg (by decide), indexDigest_eq List.length_replicate]
  rfl

end Resources
end LiteNode
