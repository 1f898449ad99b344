import LiteNode.Data.JsonText
import LiteNode.Data.Results

/-!
# Headers of epochs

The header of an epoch is stored as a JSON text. The source of its rewards is
put in order and checked before it is written and again when it is read.
-/

namespace LiteNode
namespace Json

def member (name : String) : Json → Except String Json
  | .assoc fields => .ok ((fields.lookup name).getD .null)
  | _ => .error s!"Can't get member '{name}' of non-object type"

def toString : Json → Except String Bytes
  | .string text => .ok text
  | _ => .error "Expected string"

def toInt : Json → Except String Int
  | .int value => .ok value
  | _ => .error "Expected int"

def toList : Json → Except String (List Json)
  | .list items => .ok items
  | _ => .error "Expected array"

end Json

/-- Floating point numbers, with how they are written in JSON and read. -/
structure Floats (F : Type) where
  print : F → Bytes
  read : Bytes → Option F
  ofInt : Int → F

def Json.toNumber {F : Type} (floats : Floats F) : Json → Except String F
  | .int value => .ok (floats.ofInt value)
  | .number text =>
    match floats.read text with
    | some value => .ok value
    | none => .error "Expected number"
  | _ => .error "Expected number"

structure RewardMember where
  rewardAddress : Bytes
  rewardPublicKey : Option Bytes
  rewardWeight : Int
  deriving DecidableEq

structure RewardSource where
  rewardProposerAddr : Bytes
  rewardProposerPublicKey : Option Bytes
  rewardMembers : List RewardMember
  deriving DecidableEq

/-- Texts, and the reader of integers of any size. -/
structure HeaderTexts extends Texts where zOfString : Bytes → Option Int

namespace RewardSource

def maxAddressBytes : Nat := 128

def maxMembers : Nat := 4096

def maxWeightBytes : Nat := 256

def validAddress (value : Bytes) : Bool := 3 < value.length && value.length ≤ maxAddressBytes

def validPublicKey : Option Bytes → Bool
  | none => true
  | some value => value.length = 32

def canonical (source : RewardSource) : RewardSource :=
  { source with
    rewardMembers := sortByKey RewardMember.rewardAddress source.rewardMembers }

def validMember (member : RewardMember) : Bool :=
  validAddress member.rewardAddress && validPublicKey member.rewardPublicKey &&
    0 < member.rewardWeight

def validate (source : RewardSource) : Except String RewardSource :=
  let source := source.canonical
  let addresses := source.rewardMembers.map RewardMember.rewardAddress
  let publicKeys := source.rewardMembers.filterMap RewardMember.rewardPublicKey
  if validAddress source.rewardProposerAddr = false then
    .error "reward proposer address is invalid"
  else if validPublicKey source.rewardProposerPublicKey = false then
    .error "reward proposer public key is invalid"
  else if source.rewardMembers = [] then .error "reward source has no members"
  else if maxMembers < source.rewardMembers.length then .error "reward source has too many members"
  else if source.rewardMembers.any fun member => !validMember member then
    .error "reward source member is invalid"
  else if addresses ≠ sortUniq addresses then .error "reward source has duplicate addresses"
  else if publicKeys.length ≠ (sortUniq publicKeys).length then
    .error "reward source has duplicate public keys"
  else .ok source

section Texts

variable (texts : HeaderTexts)

def publicKeyJson : Option Bytes → Json
  | none => .null
  | some value => .string (texts.encode value)

def memberJson (member : RewardMember) : Json :=
  .assoc [("address", .string member.rewardAddress),
    ("public_key", publicKeyJson texts member.rewardPublicKey),
    ("weight", .string (intToString member.rewardWeight))]

def sourceJson (source : RewardSource) : Json :=
  .assoc [("proposer_address", .string source.rewardProposerAddr),
    ("proposer_public_key", publicKeyJson texts source.rewardProposerPublicKey),
    ("members", .list (source.rewardMembers.map (memberJson texts)))]

def toYojson (source : RewardSource) : Except String Json :=
  (validate source).map (sourceJson texts)

def publicKeyOfJson : Json → Except String (Option Bytes)
  | .null => .ok none
  | .string encoded =>
    match texts.decode encoded with
    | none => .error "reward source public key is invalid"
    | some value =>
      if value.length = 32 then .ok (some value)
      else .error "reward source public key is invalid"
  | _ => .error "reward source public key is invalid"

def parseWeight (raw : Bytes) : Except String Int :=
  if maxWeightBytes < raw.length then .error "reward source weight is invalid"
  else
    match texts.zOfString raw with
    | none => .error "reward source weight is invalid"
    | some weight => .ok weight

def memberOfJson (json : Json) : Except String RewardMember := do
  let publicKey ← publicKeyOfJson texts (← json.member "public_key")
  let weight ← parseWeight texts (← (← json.member "weight").toString)
  let address ← (← json.member "address").toString
  return ⟨address, publicKey, weight⟩

def ofYojson (json : Json) : Except String RewardSource := do
  let proposerPublicKey ←
    publicKeyOfJson texts (← json.member "proposer_public_key")
  let members ← (← (← json.member "members").toList).mapM (memberOfJson texts)
  let proposerAddr ← (← json.member "proposer_address").toString
  validate ⟨proposerAddr, proposerPublicKey, members⟩

end Texts
end RewardSource

structure ProposerInfo where
  creatorAddr : Bytes
  commitRound : Int
  deriving DecidableEq

structure RewardRecipient where
  rewardAddr : Bytes
  rewardRole : Bytes
  rewardAmount : Bytes
  deriving DecidableEq

structure StoredHeader (F : Type) where
  id : Int
  stateRoot : Bytes
  prevStateRoot : Bytes
  parentCommit : Bytes
  startTxid : Int64
  txCount : Int
  finalizedBy : Bytes
  finalizedAt : F
  proposer : ProposerInfo
  feesTotal : Bytes
  feesBurned : Bytes
  baseReward : Bytes
  totalReward : Bytes
  proposerReward : Bytes
  validatorRewardEach : Bytes
  rewardRecipients : List RewardRecipient
  rewardSource : Option RewardSource
  deriving DecidableEq

namespace StoredHeader

variable {F : Type} (texts : HeaderTexts) (floats : Floats F)

def recipientJson (recipient : RewardRecipient) : Json :=
  .assoc [("address", .string recipient.rewardAddr), ("role", .string recipient.rewardRole),
    ("amount", .string recipient.rewardAmount)]

def rewardSourceJson : Option RewardSource → Except String Json
  | none => .ok .null
  | some source => source.toYojson texts

def headerJson (header : StoredHeader F) (source : Json) : Json :=
  .assoc [("id", .int header.id), ("state_root", .string header.stateRoot),
    ("prev_state_root", .string header.prevStateRoot),
    ("parent_commit", .string header.parentCommit),
    ("start_txid", .string (intToString header.startTxid.toInt)), ("tx_count", .int header.txCount),
    ("finalized_by", .string header.finalizedBy),
    ("finalized_at", .number (floats.print header.finalizedAt)),
    ("creator_addr", .string header.proposer.creatorAddr),
    ("commit_round", .int header.proposer.commitRound), ("fees_total", .string header.feesTotal),
    ("fees_burned", .string header.feesBurned), ("base_reward", .string header.baseReward),
    ("total_reward", .string header.totalReward),
    ("proposer_reward", .string header.proposerReward),
    ("validator_reward_each", .string header.validatorRewardEach),
    ("reward_recipients", .list (header.rewardRecipients.map recipientJson)),
    ("reward_source", source)]

def epochToJson (header : StoredHeader F) : Except String Bytes := do
  let source ← rewardSourceJson texts header.rewardSource
  return texts.print (headerJson floats header source)

/-- A text field, or what stands for it where it is missing. -/
def optText (default : Bytes) (json : Json) (name : String) : Bytes :=
  (json.member name >>= Json.toString).toOption.getD default

def optString (json : Json) (name : String) : Bytes := optText [] json name

def optAmount (json : Json) (name : String) : Bytes := optText (Bytes.ofAscii "0") json name

def optInt (json : Json) (name : String) : Int := (json.member name >>= Json.toInt).toOption.getD 0

def recipientOfJson (row : Json) : Except String RewardRecipient := do
  let address ← (← row.member "address").toString
  let role ← (← row.member "role").toString
  let amount ← (← row.member "amount").toString
  return ⟨address, role, amount⟩

def recipientsOfJson (json : Json) : List RewardRecipient :=
  match json.member "reward_recipients" >>= Json.toList with
  | .error _ => []
  | .ok rows => rows.filterMap fun row => (recipientOfJson row).toOption

def rewardSourceOfJson (json : Json) : Except String (Option RewardSource) := do
  match ← json.member "reward_source" with
  | .null => return none
  | value => return some (← RewardSource.ofYojson texts value)

def int64OfText (text : Bytes) : Except String Int64 :=
  match intOfString int64Bits text with
  | some value => .ok (Int64.ofInt value)
  | none => .error "Int64.of_string"

def ofJson (json : Json) : Except String (StoredHeader F) := do
  let rewardSource ← rewardSourceOfJson texts json
  return {
    id := ← (← json.member "id").toInt
    stateRoot := ← (← json.member "state_root").toString
    prevStateRoot := ← (← json.member "prev_state_root").toString
    parentCommit := ← (← json.member "parent_commit").toString
    startTxid := ← int64OfText (← (← json.member "start_txid").toString)
    txCount := ← (← json.member "tx_count").toInt
    finalizedBy := ← (← json.member "finalized_by").toString
    finalizedAt := ← (← json.member "finalized_at").toNumber floats
    proposer := ⟨optString json "creator_addr", optInt json "commit_round"⟩
    feesTotal := optAmount json "fees_total"
    feesBurned := optAmount json "fees_burned"
    baseReward := optAmount json "base_reward"
    totalReward := optAmount json "total_reward"
    proposerReward := optAmount json "proposer_reward"
    validatorRewardEach := optAmount json "validator_reward_each"
    rewardRecipients := recipientsOfJson json
    rewardSource := rewardSource }

def epochOfJson (text : Bytes) : Option (StoredHeader F) := do
  let json ← texts.parse text
  (ofJson texts floats json).toOption

end StoredHeader

namespace RewardSource

variable {texts : HeaderTexts} {source : RewardSource}

/-- A source that is written as it is, with weights that readers accept. -/
structure Storable (source : RewardSource) : Prop where
  valid : validate source = .ok source
  weights : ∀ member ∈ source.rewardMembers,
    (intToString member.rewardWeight).length ≤ maxWeightBytes

theorem validPublicKey_of_validate (valid : validate source = .ok source) :
    validPublicKey source.rewardProposerPublicKey = true ∧
      ∀ member ∈ source.rewardMembers, validPublicKey member.rewardPublicKey = true := by
  unfold validate at valid
  dsimp only at valid
  split at valid
  · cases valid
  split at valid
  · cases valid
  next proposer =>
  split at valid
  · cases valid
  split at valid
  · cases valid
  split at valid
  · cases valid
  next members =>
  refine ⟨(Bool.not_eq_false _).mp proposer, ?_⟩
  intro member listed
  have present : member ∈ source.canonical.rewardMembers := mem_sortByKey.mpr listed
  have passed : validMember member = true := by
    by_contra failed
    refine members (List.any_eq_true.mpr ⟨member, present, ?_⟩)
    simpa using failed
  simp only [validMember, Bool.and_eq_true] at passed
  exact passed.1.2

section

variable (encodes : ∀ raw, texts.decode (texts.encode raw) = some raw)

include encodes

theorem publicKeyOfJson_publicKeyJson {key : Option Bytes} (valid : validPublicKey key = true) :
    publicKeyOfJson texts (publicKeyJson texts key) = .ok key := by
  cases key with
  | none => rfl
  | some value =>
    have size : value.length = 32 := by simpa [validPublicKey] using valid
    unfold publicKeyJson publicKeyOfJson
    dsimp only
    rw [encodes]
    exact if_pos size

variable (reads : ∀ n, texts.zOfString (intToString n) = some n)

include reads

theorem memberOfJson_memberJson {member : RewardMember}
    (key : validPublicKey member.rewardPublicKey = true)
    (weight : (intToString member.rewardWeight).length ≤ maxWeightBytes) :
    memberOfJson texts (memberJson texts member) = .ok member := by
  have parsed : parseWeight texts (intToString member.rewardWeight) = .ok member.rewardWeight := by
    unfold parseWeight
    rw [if_neg (by omega), reads]
  have address : (memberJson texts member).member "address" =
      .ok (.string member.rewardAddress) := rfl
  have publicKey : (memberJson texts member).member "public_key" =
      .ok (publicKeyJson texts member.rewardPublicKey) := rfl
  have weightJson : (memberJson texts member).member "weight" =
      .ok (.string (intToString member.rewardWeight)) := rfl
  unfold memberOfJson
  rw [address, publicKey, weightJson, ok_bind,
    publicKeyOfJson_publicKeyJson encodes key, ok_bind, ok_bind]
  dsimp only [Json.toString]
  rw [ok_bind, parsed, ok_bind, ok_bind, ok_bind]
  rfl

theorem mapM_memberOfJson {members : List RewardMember}
    (each : ∀ member ∈ members, validPublicKey member.rewardPublicKey = true ∧
      (intToString member.rewardWeight).length ≤ maxWeightBytes) :
    (members.map (memberJson texts)).mapM (memberOfJson texts) = .ok members := by
  induction members with
  | nil => rfl
  | cons member members ih =>
    obtain ⟨⟨key, weight⟩, others⟩ := List.forall_mem_cons.mp each
    rw [List.map_cons, List.mapM_cons, memberOfJson_memberJson encodes reads key weight, ok_bind,
      ih others, ok_bind]
    rfl

/-- A source that can be stored is read as it was written. -/
theorem ofYojson_sourceJson (storable : Storable source) :
    ofYojson texts (sourceJson texts source) = .ok source := by
  obtain ⟨proposer, members⟩ := validPublicKey_of_validate storable.valid
  have each := mapM_memberOfJson encodes reads fun member listed =>
    ⟨members member listed, storable.weights member listed⟩
  have key : (sourceJson texts source).member "proposer_public_key" =
      .ok (publicKeyJson texts source.rewardProposerPublicKey) := rfl
  have list : (sourceJson texts source).member "members" =
      .ok (.list (source.rewardMembers.map (memberJson texts))) := rfl
  have address : (sourceJson texts source).member "proposer_address" =
      .ok (.string source.rewardProposerAddr) := rfl
  unfold ofYojson
  rw [key, list, address, ok_bind, publicKeyOfJson_publicKeyJson encodes proposer, ok_bind, ok_bind]
  dsimp only [Json.toList, Json.toString]
  rw [ok_bind, each, ok_bind, ok_bind, ok_bind]
  exact storable.valid

end

end RewardSource

namespace StoredHeader

variable {F : Type} {texts : HeaderTexts} {floats : Floats F} {header : StoredHeader F}

/-- A header whose source of rewards is written as it is. -/
def Storable (header : StoredHeader F) : Prop :=
  ∀ source, header.rewardSource = some source → source.Storable

/-- The text of a header reads as it was written, its number included. -/
structure ReadsBack (texts : HeaderTexts) (floats : Floats F)
    (header : StoredHeader F) : Prop where
  parse_print : ∀ source, rewardSourceJson texts header.rewardSource = .ok source →
    texts.parse (texts.print (headerJson floats header source)) =
      some (headerJson floats header source)
  read_print : floats.read (floats.print header.finalizedAt) = some header.finalizedAt

theorem int64OfText_intToString (value : Int64) :
    int64OfText (intToString value.toInt) = .ok value := by
  have fits : FitsBits int64Bits value.toInt := ⟨value.le_toInt, value.toInt_lt⟩
  unfold int64OfText
  rw [intOfString_intToString (by decide) fits]
  exact congrArg Except.ok (Int64.ofInt_toInt value)

theorem recipientsOfJson_eq (source : Json) :
    recipientsOfJson (headerJson floats header source) = header.rewardRecipients := by
  have rows : ((headerJson floats header source).member
      "reward_recipients" >>= Json.toList) = .ok (header.rewardRecipients.map recipientJson) := rfl
  unfold recipientsOfJson
  rw [rows]
  dsimp only
  rw [List.filterMap_map]
  exact List.filterMap_some

theorem rewardSourceOfJson_eq (encodes : ∀ raw, texts.decode (texts.encode raw) = some raw)
    (reads : ∀ n, texts.zOfString (intToString n) = some n)
    (storable : header.Storable) {source : Json}
    (written : rewardSourceJson texts header.rewardSource = .ok source) :
    rewardSourceOfJson texts (headerJson floats header source) = .ok header.rewardSource := by
  have field : (headerJson floats header source).member "reward_source" = .ok source := rfl
  unfold rewardSourceOfJson
  rw [field, ok_bind]
  cases rewards : header.rewardSource with
  | none =>
    rw [rewards] at written
    cases written
    rfl
  | some value =>
    have passed := storable value rewards
    rw [rewards] at written
    unfold rewardSourceJson RewardSource.toYojson at written
    dsimp only at written
    rw [passed.valid] at written
    cases written
    change (do return some (← RewardSource.ofYojson texts
      (RewardSource.sourceJson texts value))) = _
    rw [RewardSource.ofYojson_sourceJson encodes reads passed]
    rfl

/-- A header that can be stored is read as it was written. -/
theorem epochOfJson_epochToJson (encodes : ∀ raw, texts.decode (texts.encode raw) = some raw)
    (reads : ∀ n, texts.zOfString (intToString n) = some n)
    (storable : header.Storable) (readsBack : header.ReadsBack texts floats) :
    ∃ text, epochToJson texts floats header = .ok text ∧
      epochOfJson texts floats text = some header := by
  obtain ⟨source, written⟩ : ∃ source, rewardSourceJson texts header.rewardSource = .ok source := by
    cases rewards : header.rewardSource with
    | none => exact ⟨.null, rfl⟩
    | some value =>
      refine ⟨RewardSource.sourceJson texts value, ?_⟩
      unfold rewardSourceJson RewardSource.toYojson
      dsimp only
      rw [(storable value rewards).valid]
      rfl
  refine ⟨texts.print (headerJson floats header source), ?_, ?_⟩
  · unfold epochToJson
    rw [written]
    rfl
  have read := @rewardSourceOfJson_eq _ _ floats _ encodes reads storable _ written
  have number : (Json.number (floats.print header.finalizedAt)).toNumber
      floats = .ok header.finalizedAt := by
    unfold Json.toNumber
    dsimp only
    rw [readsBack.read_print]
  have whole : ofJson texts floats (headerJson floats header source) = .ok header := by
    unfold ofJson
    rw [read, ok_bind, recipientsOfJson_eq]
    change (do
      let startTxid ← int64OfText (intToString header.startTxid.toInt)
      let finalizedAt ←
        (Json.number (floats.print header.finalizedAt)).toNumber floats
      return { header with startTxid, finalizedAt }) = _
    rw [int64OfText_intToString, ok_bind, number, ok_bind]
    rfl
  unfold epochOfJson
  rw [readsBack.parse_print source written]
  change (ofJson texts floats (headerJson floats header source)).toOption = _
  rw [whole]
  rfl

end StoredHeader
end LiteNode
