import LiteNode.Types.Transaction

/-!
# Chunks of a blob

A blob is cut where a rolling sum of its bytes says so. The reader replays the
sum on every piece by itself, and accepts one list of pieces only.
-/

namespace LiteNode
namespace BlobChunk

structure Part where
  id : Bytes
  raw : Bytes
deriving DecidableEq

structure Blob where
  id : Bytes
  size : Int
  parts : List Part
deriving DecidableEq

def minSize : Nat := 4 * 1024

def maxSize : Nat := 64 * 1024

def mask : UInt64 := 0x3fff

def gear : UInt64 := 0x5851f42d4c957f2d

section Cut

variable (sha256 : Bytes → Bytes)

def hash (tag : String) (raw : Bytes) : Bytes :=
  Transaction.toHex (sha256 (Bytes.ofAscii tag ++ 0 :: raw))

def partId (raw : Bytes) : Bytes := hash sha256 "octra.account.part" raw

def blobId (raw : Bytes) : Bytes := hash sha256 "octra.account.blob" raw

def countOk (size : Int) (count : Nat) : Bool :=
  if size = 0 then count = 0
  else 0 < size ∧ 0 < count ∧ (count : Int) ≤ 1 + (size - 1) / minSize

def mix (byte : UInt8) : UInt64 :=
  let value := (byte.toUInt64 + 1) * gear
  value ^^^ (value >>> 29)

/-- The rolling sum after one more byte. -/
def roll (state : UInt64) (byte : UInt8) : UInt64 := (state <<< 1) + mix byte

/-- Whether a piece of a size ends where the sum is. -/
def stops (size : Nat) (state : UInt64) : Bool :=
  minSize ≤ size ∧ (state &&& mask = 0 ∨ maxSize ≤ size)

/-- Cut what is left, when the piece is what was read since the last cut. -/
def scan (piece : Bytes) (state : UInt64) : Bytes → List Bytes
  | [] => if piece = [] then [] else [piece]
  | byte :: rest =>
    let state := roll state byte
    let piece := piece ++ [byte]
    if stops piece.length state then piece :: scan [] 0 rest else scan piece state rest

def cut (raw : Bytes) : Blob where
  id := blobId sha256 raw
  size := raw.length
  parts := (scan [] 0 raw).map fun raw => ⟨partId sha256 raw, raw⟩

/-- Replay the sum on a piece of which some bytes were read. -/
def replay (final : Bool) (size : Nat) (state : UInt64) (byte : UInt8) : Bytes → Bool
  | [] => stops (size + 1) (roll state byte) || final
  | next :: rest =>
    if stops (size + 1) (roll state byte) then false
    else replay final (size + 1) (roll state byte) next rest

def pieceOk (final : Bool) : Bytes → Bool
  | [] => false
  | byte :: rest => replay final 0 0 byte rest

def check (id : Bytes) (size : Int) (total : Int) (acc : Bytes) :
    List (Bytes × Bytes) → Except String Bytes
  | [] =>
    if total ≠ size then .error "blob size differs"
    else if blobId sha256 acc = id then .ok acc
    else .error "blob id differs"
  | (expected, raw) :: rest =>
    if partId sha256 raw ≠ expected then .error "blob part id differs"
    else if size - total < raw.length then .error "blob parts exceed size"
    else
      let total := total + raw.length
      let final := rest.isEmpty && total = size
      if !pieceOk final raw then .error "blob part split differs"
      else check id size total (acc ++ raw) rest

def join (id : Bytes) (size : Int) (parts : List (Bytes × Bytes)) : Except String Bytes :=
  if size < 0 then .error "blob size is negative"
  else if !countOk size parts.length then .error "blob part count differs"
  else check sha256 id size 0 [] parts

end Cut

variable {final : Bool} {size : Nat} {state : UInt64} {byte : UInt8} {rest tail : Bytes}

theorem stops_ge (stopped : stops size state = true) : minSize ≤ size := by
  simp only [stops, decide_eq_true_eq] at stopped
  exact stopped.1

theorem lt_of_not_stops (goesOn : ¬ stops size state = true) : size < maxSize := by
  simp only [stops, decide_eq_true_eq, not_and_or, not_or] at goesOn
  simp only [minSize, maxSize] at goesOn ⊢
  omega

/-- A replayed piece is not longer than the longest, and not shorter than the
shortest where it is not the final one. -/
theorem replay_bounds (short : size < maxSize)
    (replayed : replay final size state byte rest = true) :
    size + 1 + rest.length ≤ maxSize ∧ (final = false → minSize ≤ size + 1 + rest.length) := by
  induction rest generalizing size state byte with
  | nil =>
    refine ⟨short, fun inner => ?_⟩
    rw [replay, inner, Bool.or_false] at replayed
    exact stops_ge replayed
  | cons next rest ih =>
    rw [replay] at replayed
    split at replayed
    · cases replayed
    · next goesOn =>
      obtain ⟨most, least⟩ := ih (lt_of_not_stops goesOn) replayed
      rw [List.length_cons, ← Nat.add_assoc, Nat.add_right_comm]
      exact ⟨most, least⟩

/-- The cutter cuts where the replay of the piece ends. -/
theorem scan_of_replay (piece : Bytes) (last : final = true → tail = [])
    (replayed : replay final piece.length state byte rest = true) :
    scan piece state (byte :: rest ++ tail) = (piece ++ byte :: rest) :: scan [] 0 tail := by
  induction rest generalizing piece state byte with
  | nil =>
    rw [replay] at replayed
    rw [List.singleton_append, scan, List.length_append, List.length_singleton]
    split
    · rfl
    · next goesOn =>
      rw [Bool.not_eq_true] at goesOn
      rw [goesOn, Bool.false_or] at replayed
      simp [last replayed, scan]
  | cons next rest ih =>
    rw [replay] at replayed
    split at replayed
    · cases replayed
    · next goesOn =>
      have later := ih (piece ++ [byte]) (by simpa using replayed)
      rw [List.cons_append, scan]
      simp only [List.length_append, List.length_singleton]
      rw [if_neg goesOn, later]
      simp

/-- What the cutter reads up to its next cut is replayed. -/
theorem exists_replay (size : Nat) (state : UInt64) (byte : UInt8) (rest : Bytes) :
    ∃ head tail, rest = head ++ tail ∧ replay tail.isEmpty size state byte head = true := by
  induction rest generalizing size state byte with
  | nil => exact ⟨[], [], rfl, by simp [replay]⟩
  | cons next rest ih =>
    by_cases stopped : stops (size + 1) (roll state byte) = true
    · exact ⟨[], next :: rest, rfl, by simp [replay, stopped]⟩
    · obtain ⟨head, tail, rfl, replayed⟩ := ih (size + 1) (roll state byte) next
      exact ⟨next :: head, tail, rfl, by rw [replay, if_neg stopped, replayed]⟩

/-- Pieces that are replayed, each as the final one where it is the last. -/
def Pieces : List Bytes → Prop
  | [] => True
  | piece :: rest => pieceOk rest.isEmpty piece = true ∧ Pieces rest

variable {pieces : List Bytes}

theorem scan_flatten (replayed : Pieces pieces) : scan [] 0 pieces.flatten = pieces := by
  induction pieces with
  | nil => rfl
  | cons piece rest ih =>
    obtain ⟨first, later⟩ := replayed
    cases piece with
    | nil => cases first
    | cons byte piece =>
      have last : rest.isEmpty = true → rest.flatten = [] := by
        intro none
        rw [List.isEmpty_iff.mp none]
        rfl
      rw [List.flatten_cons, scan_of_replay [] last first, ih later, List.nil_append]

theorem pieces_scan (raw : Bytes) : Pieces (scan [] 0 raw) ∧ (scan [] 0 raw).flatten = raw := by
  induction size : raw.length using Nat.strong_induction_on generalizing raw with
  | _ count ih =>
    cases raw with
    | nil => exact ⟨trivial, rfl⟩
    | cons byte rest =>
      obtain ⟨head, tail, rfl, replayed⟩ := exists_replay 0 0 byte rest
      have fewer : tail.length < count := by
        rw [← size, List.length_cons, List.length_append]
        omega
      obtain ⟨later, whole⟩ := ih tail.length fewer tail rfl
      have cuts := scan_of_replay [] List.isEmpty_iff.mp replayed
      rw [List.cons_append] at cuts
      rw [cuts, List.flatten_cons, whole]
      refine ⟨⟨?_, later⟩, rfl⟩
      have same : (scan [] 0 tail).isEmpty = tail.isEmpty := by
        cases tail with
        | nil => rfl
        | cons next tail =>
          cases shape : scan [] 0 (next :: tail) with
          | nil => rw [shape] at whole; cases whole
          | cons => rfl
      rw [same]
      exact replayed

/-- All pieces are within the bounds of their sizes, and so is their number. -/
theorem Pieces.bounds (replayed : Pieces pieces) :
    (∀ piece ∈ pieces, 1 ≤ piece.length ∧ piece.length ≤ maxSize) ∧
      (∀ piece ∈ pieces.dropLast, minSize ≤ piece.length) ∧
      (pieces ≠ [] → minSize * (pieces.length - 1) < pieces.flatten.length) := by
  induction pieces with
  | nil => simp
  | cons piece rest ih =>
    obtain ⟨first, later⟩ := replayed
    obtain ⟨all, inner, count⟩ := ih later
    cases piece with
    | nil => cases first
    | cons byte piece =>
      obtain ⟨most, least⟩ := replay_bounds (by decide) first
      rw [Nat.zero_add, Nat.add_comm] at most least
      refine ⟨List.forall_mem_cons.mpr ⟨⟨by simp, most⟩, all⟩, ?_⟩
      cases rest with
      | nil => simp
      | cons second rest =>
        rw [List.dropLast_cons_cons]
        refine ⟨List.forall_mem_cons.mpr ⟨least rfl, inner⟩, fun _ => ?_⟩
        have more := count (List.cons_ne_nil _ _)
        have long := least rfl
        simp only [List.flatten_cons, List.length_append, List.length_cons, minSize] at more long ⊢
        omega

theorem Pieces.count (replayed : Pieces pieces) :
    countOk pieces.flatten.length pieces.length = true := by
  obtain ⟨-, -, count⟩ := replayed.bounds
  cases pieces with
  | nil => rfl
  | cons piece rest =>
    have more := count (List.cons_ne_nil _ _)
    simp only [minSize, List.length_cons] at more
    rw [countOk, if_neg (by omega), decide_eq_true_eq]
    simp only [minSize, List.length_cons]
    omega

variable {sha256 : Bytes → Bytes}

/-- What the reader accepts is replayed, named, of the whole size, and joined. -/
theorem check_eq_ok {id : Bytes} {size total : Int} {acc raw : Bytes}
    {parts : List (Bytes × Bytes)} : check sha256 id size total acc parts = .ok raw ↔
      Pieces (parts.map Prod.snd) ∧ (∀ part ∈ parts, part.1 = partId sha256 part.2) ∧
        total + (parts.map Prod.snd).flatten.length = size ∧
        acc ++ (parts.map Prod.snd).flatten = raw ∧ blobId sha256 raw = id := by
  induction parts generalizing total acc with
  | nil =>
    rw [check]
    constructor
    · intro checked
      split at checked
      · cases checked
      · next whole =>
        split at checked
        · next named =>
          cases checked
          exact ⟨trivial, by simp, by simpa using whole, by simp, named⟩
        · cases checked
    · rintro ⟨-, -, whole, rfl, named⟩
      rw [List.map_nil, List.flatten_nil, List.append_nil] at named ⊢
      rw [if_neg (by simpa using whole), if_pos named]
  | cons part rest ih =>
    obtain ⟨expected, piece⟩ := part
    rw [check]
    simp only [List.map_cons, List.flatten_cons, List.forall_mem_cons, List.length_append, Pieces,
      List.isEmpty_map, Nat.cast_add, ← List.append_assoc, ← Int.add_assoc]
    constructor
    · intro checked
      split at checked
      · cases checked
      · next named =>
        split at checked
        · cases checked
        · split at checked
          · cases checked
          · next replayed =>
            obtain ⟨later, ids, whole, joined⟩ := ih.mp checked
            refine ⟨⟨?_, later⟩, ⟨(not_not.mp named).symm, ids⟩, whole, joined⟩
            have final : (rest.isEmpty && decide (total + piece.length = size)) = rest.isEmpty := by
              cases rest with
              | nil => simpa using whole
              | cons => rfl
            rw [final] at replayed
            simpa using replayed
    · rintro ⟨⟨replayed, later⟩, ⟨named, ids⟩, whole, joined⟩
      have final : (rest.isEmpty && decide (total + piece.length = size)) = rest.isEmpty := by
        cases rest with
        | nil => simpa using whole
        | cons => rfl
      rw [if_neg (not_not.mpr named.symm), if_neg (by omega), final, replayed]
      exact ih.mpr ⟨later, ids, whole, joined⟩

theorem count_cut (sha256 : Bytes → Bytes) (raw : Bytes) :
    countOk (cut sha256 raw).size (cut sha256 raw).parts.length = true := by
  obtain ⟨replayed, whole⟩ := pieces_scan raw
  have count := replayed.count
  rw [whole] at count
  simpa [cut] using count

theorem join_cut (sha256 : Bytes → Bytes) (raw : Bytes) :
    join sha256 (cut sha256 raw).id (cut sha256 raw).size
      ((cut sha256 raw).parts.map fun part => (part.id, part.raw)) = .ok raw := by
  obtain ⟨replayed, whole⟩ := pieces_scan raw
  rw [join, if_neg (by simp [cut]), List.length_map, count_cut, Bool.not_true, if_neg (by simp)]
  apply check_eq_ok.mpr
  simp [cut, Function.comp_def, replayed, whole]

/-- Every blob is cut into chunks of the sizes that the reader asks for, the
reader joins them to the blob, and it joins no other chunks. -/
theorem chunks_exact_and_unique (sha256 : Bytes → Bytes) :
    (∀ raw, (∀ part ∈ (cut sha256 raw).parts, 1 ≤ part.raw.length ∧ part.raw.length ≤ 65536) ∧
      (∀ part ∈ (cut sha256 raw).parts.dropLast, 4096 ≤ part.raw.length) ∧
      countOk (cut sha256 raw).size (cut sha256 raw).parts.length = true ∧
      join sha256 (cut sha256 raw).id (cut sha256 raw).size
        ((cut sha256 raw).parts.map fun part => (part.id, part.raw)) = .ok raw) ∧
    ∀ id size parts raw, join sha256 id size parts = .ok raw →
      id = (cut sha256 raw).id ∧ size = (cut sha256 raw).size ∧
        parts = (cut sha256 raw).parts.map fun part => (part.id, part.raw) := by
  constructor
  · intro raw
    obtain ⟨all, inner, -⟩ := (pieces_scan raw).1.bounds
    refine ⟨?_, ?_, count_cut sha256 raw, join_cut sha256 raw⟩
    · simpa [cut, maxSize] using all
    · simpa [cut, ← List.map_dropLast, minSize] using inner
  · intro id size parts raw joined
    rw [join] at joined
    split at joined
    · cases joined
    · split at joined
      · cases joined
      · obtain ⟨replayed, ids, rfl, rfl, rfl⟩ := check_eq_ok.mp joined
        simp only [List.nil_append, Int.zero_add, cut, scan_flatten replayed, List.map_map]
        refine ⟨trivial, trivial, ?_⟩
        conv_lhs => rw [← List.map_id parts]
        apply List.map_congr_left
        intro part listed
        exact Prod.ext (ids part listed) rfl

end BlobChunk
end LiteNode
