import LiteNode.Auxiliary.Delta
import LiteNode.Types.Transaction

/-!
# Auxiliary tables

The tables of receipts, rejections and metadata, and what is done to them in one
transaction: a journaled write, the retirement of its journal, and its undoing.
An operation that refuses leaves the tables as they were.
-/

/-!
## Auxiliary journals as texts

A journal is stored as a JSON text with a checksum. A sealed journal is read as
it was written, and a text that is read is the one that is written for it.
-/

namespace LiteNode
namespace AuxDelta

/-- The texts and the hash function of the libraries that are used. -/
structure Codec where
  texts : Texts
  sha256 : Bytes → Bytes

variable (codec : Codec)

def anchorJson (value : Anchor) : Json :=
  .list [.int value.epoch, .string value.root, .string value.commitId]

def keyJson : Key → Json
  | .receipt hash => .list [.string (Bytes.ofAscii "receipt"), .string hash]
  | .rejected hash => .list [.string (Bytes.ofAscii "rejected"), .string hash]
  | .address owner value => .list [.string (Bytes.ofAscii "address"), .string owner, .string value]
  | .epoch number hash => .list [.string (Bytes.ofAscii "epoch"), .int number, .string hash]
  | .metadata key => .list [.string (Bytes.ofAscii "metadata"), .string key]

def cellJson : Cell → Json
  | .value none => .null
  | .value (some value) => .string (codec.texts.encode value)
  | .member value => .bool value

def rowJson (row : Row) : Json :=
  .list [keyJson row.key, cellJson codec row.prior, cellJson codec row.next]

def previousJson : Option Anchor → Json
  | none => .null
  | some head => anchorJson head

def tag : Bytes := Bytes.ofAscii "octra_aux_delta"

def payloadJson (value : AuxDelta) : Json :=
  .list [.string tag, previousJson value.previous, anchorJson value.target,
    .list (value.rows.map (rowJson codec))]

def checksum (payload : Json) : Bytes :=
  Transaction.toHex (codec.sha256 (tag ++ 0 :: codec.texts.print payload))

def encode (value : AuxDelta) : Bytes :=
  let payload := payloadJson codec value
  codec.texts.print (.list [payload, .string (checksum codec payload)])

def anchorOfJson : Json → Except String Anchor
  | .list [.int epoch, .string root, .string commitId] => .ok ⟨epoch, root, commitId⟩
  | _ => .error "auxiliary anchor encoding is invalid"

def keyOfJson : Json → Except String Key
  | .list [.string kind, .string text] =>
    if kind = Bytes.ofAscii "receipt" then .ok (.receipt text)
    else if kind = Bytes.ofAscii "rejected" then .ok (.rejected text)
    else if kind = Bytes.ofAscii "metadata" then .ok (.metadata text)
    else .error "auxiliary key encoding is invalid"
  | .list [.string kind, .string owner, .string value] =>
    if kind = Bytes.ofAscii "address" then .ok (.address owner value)
    else .error "auxiliary key encoding is invalid"
  | .list [.string kind, .int number, .string hash] =>
    if kind = Bytes.ofAscii "epoch" ∧ 0 ≤ number then .ok (.epoch number hash)
    else .error "auxiliary key encoding is invalid"
  | _ => .error "auxiliary key encoding is invalid"

def cellOfJson : Json → Except String Cell
  | .null => .ok (.value none)
  | .string bytes =>
    match codec.texts.decode bytes with
    | some value =>
      if codec.texts.encode value = bytes then .ok (.value (some value))
      else .error "auxiliary value encoding is invalid"
    | none => .error "auxiliary value encoding is invalid"
  | .bool value => .ok (.member value)
  | _ => .error "auxiliary cell encoding is invalid"

def rowOfJson : Json → Except String Row
  | .list [key, prior, next] => do
    let key ← keyOfJson key
    let prior ← cellOfJson codec prior
    let next ← cellOfJson codec next
    return ⟨key, prior, next⟩
  | _ => .error "auxiliary row encoding is invalid"

def previousOfJson : Json → Except String (Option Anchor)
  | .null => .ok none
  | value => (anchorOfJson value).map some

/-- The fields of a payload, and its checksum. -/
def decodeParts (bytes : Bytes) (tag' : Bytes) (previous target : Json)
    (values : List Json) (digest : Bytes) : Except String AuxDelta := do
  let payload := Json.list [.string tag', previous, target, .list values]
  require "auxiliary journal checksum differs" (checksum codec payload = digest)
  let previous ← previousOfJson previous
  let target ← anchorOfJson target
  let rows ← values.mapM (rowOfJson codec)
  let journal ← «seal» previous target
    (rows.map fun row => (row.key, row.prior))
    (rows.map fun row => (row.key, row.next))
  require "auxiliary rows are not strictly ordered changes" (journal.rows = rows)
  require "auxiliary journal bytes differ from writer" (encode codec journal = bytes)
  return journal

def decode (bytes : Bytes) : Except String AuxDelta :=
  match codec.texts.parse bytes with
  | none => .error "auxiliary journal JSON is invalid"
  | some (.list [.list [.string tag', previous, target, .list values], .string digest]) =>
      if tag' = tag then decodeParts codec bytes tag' previous target values digest
      else .error "auxiliary journal encoding is invalid"
  | some _ => .error "auxiliary journal encoding is invalid"

/-! ## What is written is read -/

theorem anchorOfJson_anchorJson (value : Anchor) :
    anchorOfJson (anchorJson value) = .ok value := rfl

theorem previousOfJson_previousJson (previous : Option Anchor) :
    previousOfJson (previousJson previous) = .ok previous := by
  cases previous <;> rfl

theorem keyOfJson_keyJson {key : Key} (valid : validKey key = true) :
    keyOfJson (keyJson key) = .ok key := by
  cases key with
  | epoch number hash =>
    simp only [validKey, Bool.and_eq_true, decide_eq_true_iff] at valid
    simp [keyOfJson, keyJson, valid.1.1]
  | _ => rfl

section Faithful

variable {codec} (faithful : codec.texts.Faithful)

include faithful

theorem cellOfJson_cellJson (cell : Cell) : cellOfJson codec (cellJson codec cell) = .ok cell := by
  cases cell with
  | member value => rfl
  | value value =>
    cases value with
    | none => rfl
    | some value => simp [cellJson, cellOfJson, faithful.decode_encode]

theorem rowOfJson_rowJson {row : Row} (valid : validKey row.key = true) :
    rowOfJson codec (rowJson codec row) = .ok row := by
  simp [rowOfJson, rowJson, keyOfJson_keyJson valid, cellOfJson_cellJson faithful]

theorem mapM_rowOfJson {rows : List Row} (valid : ∀ row ∈ rows, validKey row.key = true) :
    (rows.map (rowJson codec)).mapM (rowOfJson codec) = .ok rows := by
  induction rows with
  | nil => rfl
  | cons row rest ih =>
    obtain ⟨here, later⟩ := List.forall_mem_cons.mp valid
    rw [List.map_cons, List.mapM_cons, rowOfJson_rowJson faithful here, ih later]
    rfl

end Faithful

section Exactness

variable (codec : Codec)

theorem exact_anchorJson (value : Anchor) : (anchorJson value).Exact := by
  apply Json.Exact.list
  intro item listed
  simp only [List.mem_cons, List.not_mem_nil, or_false] at listed
  rcases listed with rfl | rfl | rfl
  · exact .int _
  · exact .string _
  · exact .string _

theorem exact_keyJson (key : Key) : (keyJson key).Exact := by
  cases key <;>
    · apply Json.Exact.list
      intro item listed
      simp only [List.mem_cons, List.not_mem_nil, or_false] at listed
      rcases listed with rfl | rfl | rfl <;> constructor

theorem exact_cellJson (cell : Cell) : (cellJson codec cell).Exact := by
  cases cell with
  | member value => exact .bool value
  | value value =>
    cases value with
    | none => exact .null
    | some value => exact .string _

theorem exact_rowJson (row : Row) : (rowJson codec row).Exact := by
  apply Json.Exact.list
  intro item listed
  simp only [List.mem_cons, List.not_mem_nil, or_false] at listed
  rcases listed with rfl | rfl | rfl
  · exact exact_keyJson row.key
  · exact exact_cellJson codec row.prior
  · exact exact_cellJson codec row.next

theorem exact_payloadJson (value : AuxDelta) : (payloadJson codec value).Exact := by
  apply Json.Exact.list
  intro item listed
  simp only [List.mem_cons, List.not_mem_nil, or_false] at listed
  rcases listed with rfl | rfl | rfl | rfl
  · exact .string _
  · cases value.previous with
    | none => exact .null
    | some head => exact exact_anchorJson head
  · exact exact_anchorJson value.target
  · apply Json.Exact.list
    intro item listed
    obtain ⟨row, -, rfl⟩ := List.mem_map.mp listed
    exact exact_rowJson codec row

theorem exact_encode (value : AuxDelta) :
    (Json.list [payloadJson codec value,
      .string (checksum codec (payloadJson codec value))]).Exact := by
  apply Json.Exact.list
  intro item listed
  simp only [List.mem_cons, List.not_mem_nil, or_false] at listed
  rcases listed with rfl | rfl
  · exact exact_payloadJson codec value
  · exact .string _

end Exactness

/-- A sealed journal is read as it was written. -/
theorem decode_encode {codec : Codec} (faithful : codec.texts.Faithful) {journal : AuxDelta}
    (sound : Sealed journal) : decode codec (encode codec journal) = .ok journal := by
  have parsed : codec.texts.parse (encode codec journal) =
      some (.list [payloadJson codec journal,
        .string (checksum codec (payloadJson codec journal))]) :=
    faithful.parse_print _ (exact_encode codec journal)
  rw [decode, parsed]
  simp only [payloadJson, if_true, decodeParts, previousOfJson_previousJson,
    anchorOfJson_anchorJson, mapM_rowOfJson faithful sound.keys, ok_bind,
    sound.seal_eq, require_bind_eq_ok_iff, decide_eq_true_iff, true_and]
  rfl

/-- What is read is the text that is written for it. -/
theorem encode_of_decode {codec : Codec} {bytes : Bytes} {journal : AuxDelta}
    (read : decode codec bytes = .ok journal) : Sealed journal ∧ encode codec journal = bytes := by
  unfold decode at read
  split at read
  · cases read
  · split at read
    · simp only [decodeParts, require_bind_eq_ok_iff] at read
      obtain ⟨-, read⟩ := read
      obtain ⟨previous, -, read⟩ := bind_eq_ok read
      obtain ⟨target, -, read⟩ := bind_eq_ok read
      obtain ⟨rows, -, read⟩ := bind_eq_ok read
      obtain ⟨found, done, read⟩ := bind_eq_ok read
      simp only [require_bind_eq_ok_iff, decide_eq_true_iff] at read
      obtain ⟨-, same, read⟩ := read
      cases read
      exact ⟨sealed_of_seal done, same⟩
    · cases read
  · cases read

end AuxDelta

open AuxDelta

structure AuxIndex where
  metadata : Bytes → Option Bytes
  receipts : Bytes → Option Bytes
  rejected : Bytes → Option Bytes
  addresses : Bytes → Bytes → Bool
  epochs : Int32 → Bytes → Bool

namespace AuxIndex

inductive Fault
  | refused (reason : String)
  | invalidArgument (reason : String)
  /-- Whatever an action raises. -/
  | raised (reason : String)
  deriving DecidableEq

def pendingKey : Bytes := Bytes.ofAscii "aux_delta_pending"

def need : Except String α → Except Fault α
  | .ok value => .ok value
  | .error reason => .error (.refused reason)

def read (tables : AuxIndex) : Key → Cell
  | .receipt key => .value (tables.receipts key)
  | .rejected key => .value (tables.rejected key)
  | .metadata key => .value (tables.metadata key)
  | .address key value => .member (tables.addresses key value)
  | .epoch key value => .member (tables.epochs (Int32.ofInt key) value)

def put [DecidableEq κ] (map : κ → Option Bytes) (key : κ)
    (value : Option Bytes) : κ → Option Bytes :=
  Function.update map key value

def putPair [DecidableEq κ] (map : κ → Bytes → Bool) (key : κ) (value : Bytes)
    (present : Bool) : κ → Bytes → Bool :=
  Function.update map key (Function.update (map key) value present)

def write (tables : AuxIndex) : Key × Cell → Except Fault AuxIndex
  | (.receipt key, .value value) => .ok { tables with receipts := put tables.receipts key value }
  | (.rejected key, .value value) => .ok { tables with rejected := put tables.rejected key value }
  | (.metadata key, .value value) => .ok { tables with metadata := put tables.metadata key value }
  | (.address key value, .member present) =>
    .ok { tables with
      addresses := putPair tables.addresses key value present }
  | (.epoch key value, .member present) =>
    .ok { tables with
      epochs := putPair tables.epochs (Int32.ofInt key) value present }
  | _ => .error (.refused "auxiliary write cell type differs")

/-- The tables with another pending journal, or none. -/
def withPending (tables : AuxIndex) (value : Option Bytes) : AuxIndex :=
  { tables with metadata := put tables.metadata pendingKey value }

section Operations

variable (codec : Codec)

def journal (tables : AuxIndex) : Except Fault (Option AuxDelta) :=
  match tables.metadata pendingKey with
  | none => .ok none
  | some bytes => do
    let value ← need (decode codec bytes)
    if value.rows.any fun row => row.key = .metadata pendingKey then
      throw (.refused "auxiliary journal includes its own key")
    else if value.rows.any fun row => tables.read row.key ≠ row.next then
      throw (.refused "auxiliary values differ from journal")
    else return some value

def retire (tables : AuxIndex) (head : Option Anchor) : Except Fault AuxIndex := do
  match ← journal codec tables with
  | none => return tables
  | some value =>
    match ← need (AuxDelta.decide head value) with
    | .restore => throw (.refused "auxiliary journal is ahead of durable HEAD")
    | .retire => return tables.withPending none

def withWrite (tables : AuxIndex) (previous : Option Anchor) (target : Anchor)
    (writes : List (Key × Cell)) (action : Except Fault α) : Except Fault (AuxIndex × α) :=
  let after := lastWrites writes
  if after.any fun entry => entry.1 = .metadata pendingKey then
    throw (.invalidArgument "auxiliary write includes its journal key")
  else do
    let tables ← retire codec tables previous
    let before := after.map fun entry => (entry.1, tables.read entry.1)
    let record ← need («seal» previous target before after)
    let result ← action
    let tables ← writes.foldlM write tables
    return (tables.withPending (some (encode codec record)), result)

def restoration (tables : AuxIndex) (head : Option Anchor) : Except Fault (List (Key × Cell)) := do
  match ← journal codec tables with
  | none => return []
  | some value =>
    match ← need (AuxDelta.decide head value) with
    | .retire => return []
    | .restore =>
      let current := value.rows.map fun row => (row.key, tables.read row.key)
      need (AuxDelta.restore head current value)

def applyRestore (tables : AuxIndex) (head : Option Anchor) : Except Fault AuxIndex := do
  let pending ← journal codec tables
  let rows ← restoration codec tables head
  let tables ← rows.foldlM write tables
  match pending with
  | none => return tables
  | some value =>
    match ← need (AuxDelta.decide head value) with
    | .retire => return tables
    | .restore => return tables.withPending none

end Operations

/-- The place of a key, where epochs are kept in 32 bits. -/
def place : Key → Key
  | .epoch key value => .epoch (Int32.ofInt key).toInt value
  | key => key

theorem place_of_valid {key : Key} (valid : validKey key = true) : place key = key := by
  cases key with
  | epoch number hash =>
    simp only [validKey, Bool.and_eq_true, decide_eq_true_iff] at valid
    rw [place, Int32.toInt_ofInt_of_le (by omega) (by omega)]
  | _ => rfl

theorem read_place (tables : AuxIndex) (key : Key) : tables.read (place key) = tables.read key := by
  cases key with
  | epoch number hash => rw [place, read, Int32.ofInt_toInt, read]
  | _ => rfl

/-- Tables are known by their cells. -/
theorem ext_read {tables tables' : AuxIndex}
    (same : ∀ key, place key = key → tables.read key = tables'.read key) : tables = tables' := by
  have all : ∀ key, tables.read key = tables'.read key := by
    intro key
    rw [← read_place, ← read_place tables']
    apply same
    cases key with
    | epoch number hash => rw [place, place, Int32.ofInt_toInt]
    | _ => rfl
  obtain ⟨metadata, receipts, rejected, addresses, epochs⟩ := tables
  rw [mk.injEq]
  refine ⟨?_, ?_, ?_, ?_, ?_⟩
  · funext key
    exact Cell.value.inj (all (.metadata key))
  · funext key
    exact Cell.value.inj (all (.receipt key))
  · funext key
    exact Cell.value.inj (all (.rejected key))
  · funext key value
    exact Cell.member.inj (all (.address key value))
  · funext key value
    have here := Cell.member.inj (all (.epoch key.toInt value))
    rwa [Int32.ofInt_toInt] at here

theorem put_apply [DecidableEq κ] (map : κ → Option Bytes) (key other : κ) (value : Option Bytes) :
    put map key value other = if other = key then value else map other :=
  Function.update_apply ..

theorem putPair_apply [DecidableEq κ] (map : κ → Bytes → Bool)
    (key other : κ) (value text : Bytes) (present : Bool) :
    putPair map key value present other text =
      if other = key ∧ text = value then present else map other text := by
  unfold putPair
  by_cases same : other = key
  · subst same
    simp [Function.update_apply]
  · simp [same]

/-- A write that fits its key sets one cell. -/
theorem write_spec (tables : AuxIndex) {entry : Key × Cell} (valid : validCell entry = true) :
    ∃ tables', tables.write entry = .ok tables' ∧
      ∀ key, place key = key → tables'.read key =
        if key = place entry.1 then entry.2 else tables.read key := by
  obtain ⟨target, cell⟩ := entry
  cases target <;> cases cell <;> try cases valid
  case epoch.member number hash present =>
    refine ⟨_, rfl, ?_⟩
    intro key placed
    cases key with
    | epoch number' hash' =>
      have same : Int32.ofInt number' = Int32.ofInt number ↔
          number' = (Int32.ofInt number).toInt := by
        rw [place, Key.epoch.injEq] at placed
        rw [← Int32.toInt_inj, placed.1]
      simp only [read, putPair_apply, place, Key.epoch.injEq, same, apply_ite Cell.member]
    | _ => rfl
  all_goals
    refine ⟨_, rfl, ?_⟩
    intro key placed
    cases key <;>
      simp [read, put_apply, putPair_apply, place, apply_ite Cell.value, apply_ite Cell.member]

theorem write_error (tables : AuxIndex) {entry : Key × Cell} (invalid : validCell entry = false) :
    tables.write entry = .error (.refused "auxiliary write cell type differs") := by
  obtain ⟨target, cell⟩ := entry
  cases target <;> cases cell <;> first | rfl | cases invalid

theorem writes_spec {writes : List (Key × Cell)} (keys : ∀ entry ∈ writes, validKey entry.1 = true)
    (cells : ∀ entry ∈ writes, validCell entry = true) (tables : AuxIndex) :
    ∃ tables', writes.foldlM write tables = .ok tables' ∧
      ∀ key, place key = key → tables'.read key = writeAll tables.read writes key := by
  induction writes generalizing tables with
  | nil => exact ⟨tables, rfl, fun _ _ => rfl⟩
  | cons entry rest ih =>
    obtain ⟨validKey, keys⟩ := List.forall_mem_cons.mp keys
    obtain ⟨validCell, cells⟩ := List.forall_mem_cons.mp cells
    obtain ⟨written, done, here⟩ := write_spec tables validCell
    obtain ⟨tables', later, there⟩ := ih keys cells written
    refine ⟨tables', ?_, ?_⟩
    · rw [List.foldlM_cons, done, ok_bind, later]
    · intro key placed
      rw [there key placed, writeAll_cons]
      apply writeAll_congr
      rw [here key placed, place_of_valid validKey, writeOne, Function.update_apply]

/-- Writes that are not refused fit their keys. -/
theorem validCell_of_writes {writes : List (Key × Cell)} {tables tables' : AuxIndex}
    (done : writes.foldlM write tables = .ok tables') :
    ∀ entry ∈ writes, validCell entry = true := by
  induction writes generalizing tables with
  | nil => simp
  | cons entry rest ih =>
    rw [List.foldlM_cons] at done
    obtain ⟨written, first, later⟩ := bind_eq_ok done
    refine List.forall_mem_cons.mpr ⟨?_, ih later⟩
    by_contra invalid
    rw [write_error tables (Bool.eq_false_of_not_eq_true invalid)] at first
    cases first

end AuxIndex
end LiteNode
