import LiteNode.Data.Base64
import LiteNode.Ledger.BlobChunk
import LiteNode.Ledger.State

/-!
# Packed accounts

An account without a cipher is stored as one text. The cipher of another one is
stored apart, in chunks that are referred to by their hashes, and as the bytes
that its base64 stands for where that is read back without a loss.
-/

namespace LiteNode
namespace AccountPack

open BlobChunk (Part)
open Transaction (optJson)

inductive Form
  | hfhe | text
deriving DecidableEq

structure Meta where
  form : Form
  size : Int
  id : Bytes
  blob : Bytes
  parts : List Bytes
deriving DecidableEq

inductive Data
  | old (account : Account)
  | parts (account : Account) (id : Bytes)

structure Image where
  data : Bytes
  metadata : Option Bytes
  parts : List Part
  id : Option Bytes

section Fields

def exactly (expected : List String) (fields : List (String × Json)) : Bool :=
  let got := fields.map Prod.fst
  got.length = expected.length && got.dedup.isPerm expected

def assoc (name : String) (fields : List (String × Json)) : Except String Json :=
  match fields.lookup name with
  | some value => .ok value
  | none => .error ("account field is missing: " ++ name)

def text (name : String) (fields : List (String × Json)) : Except String Bytes := do
  match ← assoc name fields with
  | .string value => return value
  | _ => .error ("account field is not text: " ++ name)

def intv (name : String) (fields : List (String × Json)) : Except String Int := do
  match ← assoc name fields with
  | .int value => return value
  | _ => .error ("account field is not integer: " ++ name)

def optText (name : String) (fields : List (String × Json)) : Except String (Option Bytes) := do
  match ← assoc name fields with
  | .null => return none
  | .string value => return some value
  | _ => .error ("account field is not optional text: " ++ name)

end Fields

section Reading

variable (texts : Texts) (zOfString : Bytes → Option Int)

def z (name : String) (fields : List (String × Json)) : Except String Int := do
  match zOfString (← text name fields) with
  | some value => return value
  | none => .error ("account field is not natural text: " ++ name)

def account (fields : List (String × Json)) (decrypt : Bool) : Except String Account := do
  let balance ← z zOfString "balance" fields
  let nonce ← intv "nonce" fields
  let publicKey ← optText "public_key" fields
  let encryptedBalance ← optText "encrypted_balance" fields
  let decryptAllowance ← if decrypt then z zOfString "decrypt_allowance" fields else .ok 0
  return { balance, nonce, publicKey, encryptedBalance, decryptAllowance }

def oldFields : List String :=
  ["balance", "nonce", "public_key", "encrypted_balance", "decrypt_allowance"]

def earlyFields : List String := ["balance", "nonce", "public_key", "encrypted_balance"]

def partFields : List String :=
  ["layout", "balance", "nonce", "public_key", "cipher_id", "decrypt_allowance"]

def parseParts (fields : List (String × Json)) : Except String Data := do
  if !exactly partFields fields then .error "account part fields differ"
  else if (← text "layout" fields) ≠ Bytes.ofAscii "parts" then .error "account layout differs"
  else
    let balance ← z zOfString "balance" fields
    let nonce ← intv "nonce" fields
    let publicKey ← optText "public_key" fields
    let id ← text "cipher_id" fields
    let decryptAllowance ← z zOfString "decrypt_allowance" fields
    return .parts { balance, nonce, publicKey, encryptedBalance := none, decryptAllowance } id

def data (raw : Bytes) : Except String Data :=
  match texts.parse raw with
  | some (.assoc fields) =>
    if (fields.lookup "layout").isSome then parseParts zOfString fields
    else if exactly oldFields fields then (account zOfString fields true).map .old
    else if exactly earlyFields fields then (account zOfString fields false).map .old
    else .error "account fields differ"
  | some _ => .error "account value is not an object"
  | none => .error "account value is not json"

def hex (value : Bytes) : Bool :=
  value.length = 64 && value.all fun byte => (48 ≤ byte && byte ≤ 57) || (97 ≤ byte && byte ≤ 102)

def formKey : Form → Bytes
  | .hfhe => Bytes.ofAscii "hfhe"
  | .text => Bytes.ofAscii "text"

def form (key : Bytes) : Except String Form :=
  if key = formKey .hfhe then .ok .hfhe
  else if key = formKey .text then .ok .text
  else .error "account cipher form differs"

def metaFields : List String := ["form", "size", "id", "blob", "parts"]

def partIds : Json → Except String (List Bytes)
  | .list values =>
    values.foldr (fun value acc => do
      let rest ← acc
      match value with
      | .string id => if hex id then return id :: rest else .error "account part id differs"
      | _ => .error "account part id differs") (.ok [])
  | _ => .error "account parts are not a list"

def metadata (raw : Bytes) : Except String Meta := do
  match texts.parse raw with
  | some (.assoc fields) =>
    if !exactly metaFields fields then .error "account cipher fields differ"
    else
      let form ← form (← text "form" fields)
      let size ← intv "size" fields
      let id ← text "id" fields
      let blob ← text "blob" fields
      let parts ← partIds (← assoc "parts" fields)
      if size < 0 then .error "account cipher size is negative"
      else if !hex id then .error "account cipher id differs"
      else if !hex blob then .error "account blob id differs"
      else if !BlobChunk.countOk size parts.length then .error "account part count differs"
      else return { form, size, id, blob, parts }
  | some _ => .error "account cipher value is not an object"
  | none => .error "account cipher value is not json"

end Reading

section Writing

variable (texts : Texts) (sha256 : Bytes → Bytes)

def accountToYojson (account : Account) : Json :=
  .assoc [("balance", .string (intToString account.balance)), ("nonce", .int account.nonce),
    ("public_key", optJson account.publicKey),
    ("encrypted_balance", optJson account.encryptedBalance),
    ("decrypt_allowance", .string (intToString account.decryptAllowance))]

def pref : Bytes := Bytes.ofAscii "hfhe_v1|"

def cipherId (form : Form) (raw : Bytes) : Bytes :=
  BlobChunk.hash sha256 "octra.account.cipher" (formKey form ++ 0 :: raw)

/-- The bytes that are stored of a cipher, and what they stand for. -/
def source (cipher : Bytes) : Form × Bytes :=
  if pref.length < cipher.length ∧ pref.isPrefixOf cipher then
    match texts.decode (cipher.drop pref.length) with
    | some raw => if pref ++ texts.encode raw = cipher then (.hfhe, raw) else (.text, cipher)
    | none => (.text, cipher)
  else (.text, cipher)

def dataJson (account : Account) (id : Bytes) : Json :=
  .assoc [("layout", .string (Bytes.ofAscii "parts")),
    ("balance", .string (intToString account.balance)), ("nonce", .int account.nonce),
    ("public_key", optJson account.publicKey), ("cipher_id", .string id),
    ("decrypt_allowance", .string (intToString account.decryptAllowance))]

def metaJson (metadata : Meta) : Json :=
  .assoc [("form", .string (formKey metadata.form)), ("size", .int metadata.size),
    ("id", .string metadata.id), ("blob", .string metadata.blob),
    ("parts", .list (metadata.parts.map .string))]

def head (account : Account) : Option (Bytes × Bytes) :=
  account.encryptedBalance.map fun cipher =>
    let (form, raw) := source texts cipher
    let id := cipherId sha256 form raw
    (texts.print (dataJson account id), id)

/-- What is stored of the cipher that some bytes stand for. -/
def metaOf (form : Form) (raw : Bytes) : Meta :=
  let cut := BlobChunk.cut sha256 raw
  { form, size := cut.size, id := cipherId sha256 form raw, blob := cut.id,
    parts := cut.parts.map Part.id }

def image (account : Account) : Image :=
  match account.encryptedBalance with
  | none => ⟨texts.print (accountToYojson account), none, [], none⟩
  | some cipher =>
    let (form, raw) := source texts cipher
    let id := cipherId sha256 form raw
    ⟨texts.print (dataJson account id), some (texts.print (metaJson (metaOf sha256 form raw))),
      (BlobChunk.cut sha256 raw).parts, some id⟩

def gather (get : Bytes → Option Bytes) : List Bytes → Except String (List (Bytes × Bytes))
  | [] => .ok []
  | id :: rest =>
    match get id with
    | none => .error "account cipher part is missing"
    | some raw => (gather get rest).map ((id, raw) :: ·)

/-- The cipher that some bytes stand for. -/
def cipherOf : Form → Bytes → Bytes
  | .hfhe, raw => pref ++ texts.encode raw
  | .text, raw => raw

def restore (metadata : Meta) (get : Bytes → Option Bytes) : Except String Bytes := do
  let parts ← gather get metadata.parts
  let raw ← BlobChunk.join sha256 metadata.blob metadata.size parts
  if cipherId sha256 metadata.form raw ≠ metadata.id then .error "account cipher id differs"
  else return cipherOf texts metadata.form raw

def read (data : Data) (metaRaw : Option Bytes) (get : Bytes → Option Bytes) :
    Except String Account := do
  match data with
  | .old account => return account
  | .parts account id =>
    match metaRaw with
    | none => .error "account cipher metadata is missing"
    | some raw =>
      let metadata ← metadata texts raw
      if metadata.id ≠ id then .error "account cipher reference differs"
      else return { account with encryptedBalance := some (← restore texts sha256 metadata get) }

end Writing

variable {texts : Texts} {zOfString : Bytes → Option Int} {sha256 : Bytes → Bytes}

@[simp] theorem isPerm_self (names : List String) : names.isPerm names = true :=
  List.isPerm_iff.mpr .rfl

theorem exact_optJson (value : Option Bytes) : (optJson value).Exact := by
  cases value with
  | none => exact .null
  | some value => exact .string _

theorem data_old (faithful : texts.Faithful) (reads : ∀ n, zOfString (intToString n) = some n)
    (a : Account) : data texts zOfString (texts.print (accountToYojson a)) = .ok (.old a) := by
  have exact : (accountToYojson a).Exact := by
    apply Json.Exact.assoc
    simp only [List.forall_mem_cons, List.not_mem_nil, false_imp_iff, implies_true, and_true]
    exact ⟨.string _, .int _, exact_optJson _, exact_optJson _, .string _⟩
  rw [data, faithful.parse_print _ exact]
  obtain ⟨balance, nonce, _ | key, _ | cipher, allowance⟩ := a <;>
    simp [accountToYojson, exactly, account, z, text, intv, optText, assoc, List.lookup_cons, reads,
      oldFields, optJson, Except.map, pure, Except.pure]

theorem data_dataJson (faithful : texts.Faithful)
    (reads : ∀ n, zOfString (intToString n) = some n) (a : Account) (id : Bytes) :
    data texts zOfString (texts.print (dataJson a id)) =
      .ok (.parts { a with encryptedBalance := none } id) := by
  have exact : (dataJson a id).Exact := by
    apply Json.Exact.assoc
    simp only [List.forall_mem_cons, List.not_mem_nil, false_imp_iff, implies_true, and_true]
    exact ⟨.string _, .string _, .int _, exact_optJson _, .string _, .string _⟩
  rw [data, faithful.parse_print _ exact]
  obtain ⟨balance, nonce, _ | key, cipher, allowance⟩ := a <;>
    simp [dataJson, exactly, parseParts, z, text, intv, optText, assoc, List.lookup_cons, reads,
      partFields, optJson, pure, Except.pure]

theorem partIds_strings {ids : List Bytes} (digits : ∀ id ∈ ids, hex id = true) :
    partIds (.list (ids.map .string)) = .ok ids := by
  rw [partIds, List.foldr_map]
  induction ids with
  | nil => rfl
  | cons id rest ih =>
    obtain ⟨first, others⟩ := List.forall_mem_cons.mp digits
    rw [List.foldr_cons, ih others]
    exact if_pos first

theorem metadata_metaJson (faithful : texts.Faithful) {m : Meta} (natural : 0 ≤ m.size)
    (id : hex m.id = true) (blob : hex m.blob = true) (digits : ∀ id ∈ m.parts, hex id = true)
    (count : BlobChunk.countOk m.size m.parts.length = true) :
    metadata texts (texts.print (metaJson m)) = .ok m := by
  have exact : (metaJson m).Exact := by
    apply Json.Exact.assoc
    simp only [List.forall_mem_cons, List.not_mem_nil, false_imp_iff, implies_true, and_true]
    refine ⟨.string _, .int _, .string _, .string _, .list ?_⟩
    intro item listed
    obtain ⟨id, -, rfl⟩ := List.mem_map.mp listed
    exact .string _
  have known : form (formKey m.form) = .ok m.form := by cases m.form <;> decide
  rw [metadata, faithful.parse_print _ exact]
  simp [metaJson, exactly, text, intv, assoc, List.lookup_cons, metaFields, known, pure, Except.pure,
    partIds_strings digits, natural, id, blob, count]

/-- Hashes of 32 bytes are written in 64 digits. -/
theorem hex_hash (sized : ∀ raw, (sha256 raw).length = 32) (tag : String) (raw : Bytes) :
    hex (BlobChunk.hash sha256 tag raw) = true := by
  have digits : ∀ value < 16, (48 ≤ Json.hexDigit value ∧ Json.hexDigit value ≤ 57) ∨
      (97 ≤ Json.hexDigit value ∧ Json.hexDigit value ≤ 102) := by decide
  have all : ∀ raw : Bytes, (Transaction.toHex raw).length = 2 * raw.length ∧
      (Transaction.toHex raw).all fun byte => (48 ≤ byte && byte ≤ 57) ||
        (97 ≤ byte && byte ≤ 102) := by
    intro raw
    induction raw with
    | nil => exact ⟨rfl, rfl⟩
    | cons byte rest ih =>
      have below := byte.toNat_lt
      have high := digits (byte.toNat / 16) (by omega)
      have low := digits (byte.toNat % 16) (by omega)
      unfold Transaction.toHex at ih ⊢
      rw [List.flatMap_cons]
      refine ⟨by simp [ih.1]; omega, ?_⟩
      simpa [ih.2, high] using low
  rw [hex, BlobChunk.hash, (all _).1, sized, (all _).2]
  rfl

variable {get : Bytes → Option Bytes}

theorem gather_eq_ok {parts : List Part} (found : ∀ part ∈ parts, get part.id = some part.raw) :
    gather get (parts.map Part.id) = .ok (parts.map fun part => (part.id, part.raw)) := by
  induction parts with
  | nil => rfl
  | cons part rest ih =>
    obtain ⟨first, others⟩ := List.forall_mem_cons.mp found
    rw [List.map_cons, gather, first, ih others]
    rfl

theorem cipherOf_source (cipher : Bytes) :
    cipherOf texts (source texts cipher).1 (source texts cipher).2 = cipher := by
  unfold source
  split
  · split
    · split
      · next same => exact same
      · rfl
    · rfl
  · rfl

/-- What is stored of a cipher is what is read of it. -/
theorem restore_metaOf {form : Form} {raw : Bytes}
    (found : ∀ part ∈ (BlobChunk.cut sha256 raw).parts, get part.id = some part.raw) :
    restore texts sha256 (metaOf sha256 form raw) get = .ok (cipherOf texts form raw) := by
  simp [restore, metaOf, gather_eq_ok found, BlobChunk.join_cut, pure, Except.pure]

theorem metadata_metaOf (faithful : texts.Faithful) (sized : ∀ raw, (sha256 raw).length = 32)
    (form : Form) (raw : Bytes) :
    metadata texts (texts.print (metaJson (metaOf sha256 form raw))) =
      .ok (metaOf sha256 form raw) := by
  apply metadata_metaJson faithful (Int.natCast_nonneg _) (hex_hash sized _ _) (hex_hash sized _ _)
  · intro id listed
    obtain ⟨part, cut, rfl⟩ := List.mem_map.mp listed
    obtain ⟨piece, -, rfl⟩ := List.mem_map.mp cut
    exact hex_hash sized _ _
  · simpa [metaOf] using BlobChunk.count_cut sha256 raw

/-- One hash refers to the cipher, so that what is read of it is what is read. -/
theorem cipherId_inj (injective : ∀ input input', sha256 input = sha256 input' → input = input')
    {form form' : Form} {raw raw' : Bytes}
    (same : cipherId sha256 form raw = cipherId sha256 form' raw') : form = form' ∧ raw = raw' := by
  have inputs := injective _ _ (Transaction.toHex_inj same)
  simp only [List.append_cancel_left_eq, List.cons.injEq, true_and] at inputs
  cases form <;> cases form' <;> simp_all [formKey, Bytes.ofAscii]

theorem restore_eq_ok {m : Meta} {cipher : Bytes}
    (restored : restore texts sha256 m get = .ok cipher) :
    ∃ raw, cipherId sha256 m.form raw = m.id ∧ cipherOf texts m.form raw = cipher := by
  rw [restore] at restored
  cases gathered : gather get m.parts with
  | error reason => rw [gathered] at restored; cases restored
  | ok parts =>
    rw [gathered] at restored
    dsimp only [bind, Except.bind] at restored
    cases joined : BlobChunk.join sha256 m.blob m.size parts with
    | error reason => rw [joined] at restored; cases restored
    | ok raw =>
      rw [joined] at restored
      dsimp only at restored
      split at restored
      · cases restored
      · next named =>
        cases restored
        exact ⟨raw, not_not.mp named, rfl⟩

/-- A cipher is read of no other metadata than its own. -/
theorem read_parts_eq_ok {a read' : Account} {id : Bytes} {metaRaw : Option Bytes}
    (done : read texts sha256 (.parts a id) metaRaw get = .ok read') :
    ∃ form raw, cipherId sha256 form raw = id ∧
      read' = { a with encryptedBalance := some (cipherOf texts form raw) } := by
  cases metaRaw with
  | none => cases done
  | some metaRaw =>
    rw [read] at done
    cases parsed : metadata texts metaRaw with
    | error reason => rw [parsed] at done; cases done
    | ok m =>
      rw [parsed] at done
      dsimp only [bind, Except.bind] at done
      split at done
      · cases done
      · next named =>
        cases restored : restore texts sha256 m get with
        | error reason => rw [restored] at done; cases done
        | ok cipher =>
          rw [restored] at done
          cases done
          obtain ⟨raw, hashed, rfl⟩ := restore_eq_ok restored
          exact ⟨m.form, raw, hashed.trans (not_not.mp named), rfl⟩

/-- Every account is read back from its image, whose head is stated by itself,
and what is stored apart cannot make one data text read as two accounts. -/
theorem packing_lossless_and_binding (faithful : texts.Faithful)
    (reads : ∀ n, zOfString (intToString n) = some n) :
    ((∀ raw, (sha256 raw).length = 32) → ∀ (a : Account) (get : Bytes → Option Bytes),
      (∀ part ∈ (image texts sha256 a).parts, get part.id = some part.raw) →
      ∃ d, data texts zOfString (image texts sha256 a).data = .ok d ∧
        read texts sha256 d (image texts sha256 a).metadata get = .ok a) ∧
    (∀ a : Account, head texts sha256 a =
      (image texts sha256 a).id.map fun id => ((image texts sha256 a).data, id)) ∧
    ((∀ input input', sha256 input = sha256 input' → input = input') →
      ∀ (raw : Bytes) (d d' : Data) (metaRaw metaRaw' : Option Bytes)
        (get get' : Bytes → Option Bytes) (a a' : Account),
      data texts zOfString raw = .ok d → read texts sha256 d metaRaw get = .ok a →
      data texts zOfString raw = .ok d' → read texts sha256 d' metaRaw' get' = .ok a' →
      a = a') := by
  refine ⟨fun sized a get found => ?_, fun a => ?_, ?_⟩
  · cases stored : a.encryptedBalance with
    | none =>
      refine ⟨.old a, ?_, ?_⟩
      · simpa [image, stored] using data_old faithful reads a
      · rfl
    | some cipher =>
      simp only [image, stored] at found ⊢
      refine ⟨_, data_dataJson faithful reads a _, ?_⟩
      have restored := @restore_metaOf texts sha256 get (source texts cipher).1 _ found
      rw [cipherOf_source] at restored
      have same : { a with encryptedBalance := some cipher } = a := by rw [← stored]
      simp only [read, metadata_metaOf faithful sized, bind, Except.bind, restored, same]
      exact if_neg (not_not.mpr rfl)
  · unfold head image
    cases a.encryptedBalance <;> rfl
  · intro injective raw d d' metaRaw metaRaw' get get' a a' known done known' done'
    cases known.symm.trans known'
    cases d with
    | old account =>
      cases done
      cases done'
      rfl
    | parts account id =>
      obtain ⟨form, raw, hashed, rfl⟩ := read_parts_eq_ok done
      obtain ⟨form', raw', hashed', rfl⟩ := read_parts_eq_ok done'
      obtain ⟨rfl, rfl⟩ := cipherId_inj injective (hashed.trans hashed'.symm)
      rfl

def plainTexts : Texts := ⟨Json.write, Json.read, Base64.encode, Base64.decode⟩

/-- The first 32 bytes, padded where there are fewer. -/
def paddedHash (raw : Bytes) : Bytes := (raw ++ List.replicate 32 0).take 32

/-- An account whose cipher stands for three bytes. -/
def cipheredAccount : Account :=
  { emptyAccount with encryptedBalance := some (Bytes.ofAscii "hfhe_v1|AAAA") }

theorem packing_lossless_and_binding_threeBytes :
    ∃ d, data plainTexts readDecimal (image plainTexts paddedHash cipheredAccount).data = .ok d ∧
      read plainTexts paddedHash d (image plainTexts paddedHash cipheredAccount).metadata
        (fun _ => some [0, 0, 0]) = .ok cipheredAccount :=
  (packing_lossless_and_binding ⟨fun _ exact => Json.read_write exact, Base64.decode_encode⟩
    readDecimal_intToString).1 (by simp [paddedHash]) _ _ (by decide)

end AccountPack
end LiteNode
