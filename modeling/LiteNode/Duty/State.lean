import LiteNode.Data.StringMap
import LiteNode.Duty.Marks
import LiteNode.Types.Certificates

/-!
# Duty state

The duty of a validator follows from what is noted of it: that it is in the
active set, that it signed the commit of an epoch, or that it sent a pulse while
it was not active. Each operation checks what it is given and returns a new
state, or refuses with a reason.
-/

namespace LiteNode
namespace SetFold

structure Pulse where
  first : Int
  last : Int
  count : Int
  deriving DecidableEq

inductive Phase
  | live (since : Int)
  | shadow (pulse : Option Pulse)
  deriving DecidableEq

structure Member where
  address : Bytes
  phase : Phase
  marks : Marks
  deriving DecidableEq

structure Final where
  epoch : Int
  proposalId : Bytes
  setHash : Bytes
  round : Option Int
  deriving DecidableEq

structure State where
  members : List Member
  finals : List Final
  safeAfter : Int
  applied : Option Int
  seats : Option Int
  deriving DecidableEq

structure MarkClaim where
  epoch : Int
  signature : Bytes

/-- A vote with the commit that left it out. -/
structure Proof where
  vote : Vote
  commit : ParentCommit

/-- Whether a full table refuses new members or drops old ones. -/
inductive CapMode
  | reject
  | prune
  deriving DecidableEq

def empty : State := ⟨[], [], 0, none, none⟩

/-- The sum of two integers of 64 bits. -/
def int64Add (left right : Int) : Int := (left + right).bmod (2 ^ 64)

def int64Sub (left right : Int) : Int := (left - right).bmod (2 ^ 64)

def phaseRank : Phase → Int
  | .live _ => 0
  | .shadow _ => 1

def memberBefore (left right : Member) : Bool :=
  decide (left.address < right.address) ||
    left.address = right.address && decide (phaseRank left.phase ≤ phaseRank right.phase)

def sortMembers (members : List Member) : List Member :=
  members.insertionSort fun left right => memberBefore left right = true

def sortFinals (finals : List Final) : List Final :=
  finals.insertionSort fun left right => left.epoch ≤ right.epoch

def memberCap (cfg : Cfg) : Int := cfg.maxMembers * 4

def liveMember (epoch : Int) (address : Bytes) : Member := ⟨address, .live epoch, emptyMarks⟩

def shadowMember (address : Bytes) : Member := ⟨address, .shadow none, emptyMarks⟩

def tableOfMembers (members : List Member) : StringMap Member :=
  StringMap.ofList Member.address members

def pulseFresh (cfg : Cfg) (epoch : Int) (pulse : Pulse) : Bool :=
  decide (epoch < pulse.last) || decide (epoch - pulse.last ≤ cfg.pulseGap)

def retainMember (cfg : Cfg) (epoch : Int) (member : Member) : Bool :=
  match member.phase with
  | .live _ => true
  | .shadow none => member.marks.bits ≠ 0
  | .shadow (some pulse) => member.marks.bits ≠ 0 || pulseFresh cfg epoch pulse

def shadowEpoch (member : Member) : Option Int :=
  match member.phase, lastMark member.marks with
  | .live _, _ => none
  | .shadow none, mark => mark
  | .shadow (some pulse), none => some pulse.last
  | .shadow (some pulse), some mark => some (max pulse.last mark)

/-- Order in which members are dropped: by their last sign of life. -/
def shadowBefore (left right : Bytes × Member) : Bool :=
  match shadowEpoch left.2, shadowEpoch right.2 with
  | none, none => decide (left.1 ≤ right.1)
  | none, some _ => true
  | some _, none => false
  | some leftEpoch, some rightEpoch =>
    decide (leftEpoch < rightEpoch) || leftEpoch = rightEpoch && decide (left.1 ≤ right.1)

def removeOldest (count : Int) (table : StringMap Member) :
    List (Bytes × Member) → Except String (StringMap Member)
  | [] =>
    if count ≤ 0 then .ok table
    else .error "validator duty live state exceeds member limit"
  | (address, _) :: rest =>
    if count ≤ 0 then .ok table
    else removeOldest (count - 1) (table.remove address) rest

def isShadow (member : Member) : Bool :=
  match member.phase with
  | .live _ => false
  | .shadow _ => true

def pruneMember (cfg : Cfg) (epoch : Int) (member : Member) : Member :=
  { member with marks := pruneMarks cfg epoch member.marks }

def pruneTable (cfg : Cfg) (epoch : Int) (table : StringMap Member) :
    Except String (StringMap Member) :=
  let table := (table.map (pruneMember cfg epoch)).filter
    fun _ member => retainMember cfg epoch member
  let overflow := table.cardinal - memberCap cfg
  if overflow ≤ 0 then .ok table
  else
    removeOldest overflow table
      ((table.bindings.filter fun entry => isShadow entry.2).insertionSort
        fun left right => shadowBefore left right = true)

def limitTable (cfg : Cfg) (capMode : CapMode) (epoch : Int)
    (table : StringMap Member) : Except String (StringMap Member) :=
  match capMode with
  | .reject =>
    if memberCap cfg < table.cardinal then .error "validator duty state exceeds member limit"
    else .ok table
  | .prune => pruneTable cfg epoch table

/-- A state whose members are those of a table that was limited. -/
def limited (cfg : Cfg) (capMode : CapMode) (epoch : Int) (state : State)
    (table : StringMap Member) : Except String State :=
  (limitTable cfg capMode epoch table).map fun table => { state with members := table.values }

/-- A member once the active set is known. -/
def syncMember (cfg : Cfg) (epoch : Int) (active : List Bytes) (member : Member) : Member :=
  let phase :=
    match active.contains member.address, member.phase with
    | true, .live since => .live since
    | true, .shadow _ => .live epoch
    | false, .live _ => .shadow none
    | false, .shadow pulse => .shadow pulse
  { member with phase, marks := pruneMarks cfg epoch member.marks }

def addActive (epoch : Int) (table : StringMap Member) (address : Bytes) : StringMap Member :=
  if table.mem address then table
  else table.add address (liveMember epoch address)

def sync (cfg : Cfg) (epoch : Int) (active : List Bytes) (state : State) : Except String State :=
  let active := sortUniq active
  if cfg.maxMembers < active.length then .error "validator duty active set exceeds limit"
  else
    let table := tableOfMembers (state.members.map (syncMember cfg epoch active))
    let table := active.foldl (addActive epoch) table
    .ok { state with
      members := table.values.filter (retainMember cfg epoch) }

def noteSet (cfg : Cfg) (epoch : Int) (active : List Bytes) (state : State) : Except String State :=
  match validateCfg cfg with
  | .error error => .error error
  | .ok () =>
    if epoch < 0 then .error "validator duty set epoch is negative"
    else sync cfg epoch active state

def lock (cfg : Cfg) (active : List Bytes) (state : State) : Except String (State × Bool) :=
  match validateCfg cfg with
  | .error error => .error error
  | .ok () =>
    match state.seats with
    | some seats =>
      if seats < 4 ∨ cfg.maxMembers < seats then .error "validator seat limit is outside limits"
      else .ok (state, false)
    | none =>
      let seats := (sortUniq active).length
      if (seats : Int) < 4 ∨ cfg.maxMembers < seats then
        .error "validator seat limit is outside limits"
      else .ok ({ state with seats := some seats }, true)

def delay (cfg : Cfg) (epoch : Int) (state : State) : Except String State :=
  match validateCfg cfg with
  | .error error => .error error
  | .ok () =>
    if epoch < 0 then .error "validator duty delay epoch is negative"
    else
      let safeAfter := int64Add epoch (int64Add cfg.window cfg.challenge)
      .ok { state with safeAfter := max state.safeAfter safeAfter }

def addSigner (cfg : Cfg) (epoch : Int) (table : StringMap Member)
    (signer : Bytes) : StringMap Member :=
  let member := (table.find? signer).getD (shadowMember signer)
  table.add signer { member with marks := addMark cfg epoch member.marks }

def retainFinals (cfg : Cfg) (epoch : Int) (finals : List Final) : List Final :=
  let span := cfg.challenge + 1
  let floor := if epoch < span then 0 else epoch - span
  finals.filter fun final => decide (floor ≤ final.epoch)

def findFinalIn (epoch : Int) (finals : List Final) : Option Final :=
  finals.find? fun final => final.epoch = epoch

def putFinal (cfg : Cfg) (epoch : Int) (final : Final) (finals : List Final) :
    Except String (List Final) :=
  match findFinalIn final.epoch finals with
  | some item =>
    if item = final then .ok (retainFinals cfg epoch finals)
    else .error "validator duty finality conflict"
  | none => .ok (sortFinals (retainFinals cfg epoch (final :: finals)))

inductive FinalStep
  | applied (state : State)
  | held (state : State) (reason : String)

def noteFinalStep (capMode : CapMode) (cfg : Cfg) (epoch : Int)
    (active : List Bytes) (final : Final) (signers : List Bytes) (state : State) : FinalStep :=
  match validateCfg cfg with
  | .error error => .held state error
  | .ok () =>
    if epoch ≤ 0 then .held state "validator duty apply epoch is not positive"
    else if final.epoch + 1 ≠ epoch then .held state "validator duty finality epoch is not parent"
    else
      match sync cfg epoch active state with
      | .error error => .held state error
      | .ok state =>
        let table := (sortUniq signers).foldl (addSigner cfg final.epoch)
          (tableOfMembers state.members)
        match limitTable cfg capMode epoch table with
        | .error error => .held state error
        | .ok table =>
          let state := { state with members := table.values }
          match putFinal cfg epoch final state.finals with
          | .error error => .held state error
          | .ok finals => .applied { state with finals }

def noteFinal (capMode : CapMode) (cfg : Cfg) (epoch : Int)
    (active : List Bytes) (final : Final) (signers : List Bytes)
    (state : State) : Except String State :=
  match noteFinalStep capMode cfg epoch active final signers state with
  | .applied state => .ok state
  | .held _ error => .error error

def advancePulse (cfg : Cfg) (epoch credit : Int) : Option Pulse → Except String Pulse
  | none => .ok ⟨epoch, epoch, 1⟩
  | some pulse =>
    if epoch < pulse.last then .error "validator duty pulse epoch moved backward"
    else if epoch = pulse.last then .ok pulse
    else if epoch - pulse.last ≤ cfg.pulseGap then
      if credit ≤ pulse.last then .ok pulse
      else .ok { pulse with last := credit, count := pulse.count + 1 }
    else .ok ⟨epoch, epoch, 1⟩

def priorPulse (member : Member) : Option Pulse :=
  match member.phase with
  | .live _ => none
  | .shadow pulse => pulse

def notePulse (capMode : CapMode) (credit : Option Int) (cfg : Cfg)
    (epoch : Int) (active : Bool) (address : Bytes) (state : State) : Except String State :=
  let credit := credit.getD epoch
  match validateCfg cfg with
  | .error error => .error error
  | .ok () =>
    if address = [] then .error "validator duty pulse address is empty"
    else if epoch < 0 then .error "validator duty pulse epoch is negative"
    else if credit < 0 ∨ epoch < credit then
      .error "validator duty pulse credit is outside execution epoch"
    else if active then .ok state
    else
      let table := tableOfMembers state.members
      let member := (table.find? address).getD (shadowMember address)
      match advancePulse cfg epoch credit (priorPulse member) with
      | .error error => .error error
      | .ok pulse =>
        limited cfg capMode epoch state (table.add address { member with
          phase := .shadow (some pulse)
          marks := pruneMarks cfg epoch member.marks })

section Commits

variable (ext : Externals)

def findFinal (epoch : Int) (state : State) : Option Final := findFinalIn epoch state.finals

def verifyVote (chainId address : Bytes) (commit : ParentCommit)
    (vote : Vote) : Except String Unit :=
  let cert := commit.certificate
  if vote.chainId ≠ chainId then .error "validator duty vote chain mismatch"
  else if vote.validator ≠ address then .error "validator duty vote owner mismatch"
  else if vote.voteType ≠ .precommit then .error "validator duty vote is not precommit"
  else if vote.epochId ≠ cert.epochId then .error "validator duty vote epoch mismatch"
  else if vote.round ≠ cert.commitRound then .error "validator duty vote round mismatch"
  else if vote.proposalId ≠ cert.proposalId then .error "validator duty vote proposal mismatch"
  else
    match commit.validatorSet.pubkeyOfAddr address with
    | none => .error "validator duty vote signer is not in set"
    | some pubkey =>
      if ext.verifyVote pubkey vote then .ok ()
      else .error "validator duty vote signature is invalid"

def verifyCommit (chainId : Bytes) (commit : ParentCommit) : Except String Unit :=
  let verifyVote (vote : Vote) : Bool :=
    match commit.validatorSet.pubkeyOfAddr vote.validator with
    | none => false
    | some pubkey => ext.verifyVote pubkey vote
  match validateCertificateWithPolicy ext (QuorumPolicy.forChain chainId) false
      chainId commit.validatorSet verifyVote commit.certificate with
  | .valid => .ok ()
  | .invalid reason => .error ("validator duty commit is invalid: " ++ reason)

/-- The final of a commit, its signers, and the active set. -/
def readParent (marks : Bool) (chainId : Bytes) (commit : ParentCommit) :
    Except String (Final × List Bytes × List Bytes) :=
  match verifyCommit ext chainId commit with
  | .error error => .error error
  | .ok () =>
    let cert := commit.certificate
    .ok (
      { epoch := cert.epochId
        proposalId := cert.proposalId
        setHash := ext.validatorSetHash commit.validatorSet
        round := if marks then some cert.commitRound else none },
      sortUniq (cert.precommits.map Vote.validator),
      sortUniq (commit.validatorSet.validators.map ValidatorInfo.address))

/-- A state that delays exclusions, for a reason. -/
def hold (cfg : Cfg) (epoch : Int) (state : State) (reason : String) :
    Except String (State × Option String) :=
  match delay cfg epoch state with
  | .error error => .error error
  | .ok state => .ok (state, some reason)

def takeParent (capMode : CapMode) (marks : Bool) (cfg : Cfg)
    (chainId : Bytes) (epoch : Int) (parent : Option ParentCommit)
    (state : State) : Except String (State × Option String) :=
  match parent with
  | none => .error "validator duty parent commit missing"
  | some parent =>
    match readParent ext marks chainId parent with
    | .error error => .error error
    | .ok (final, signers, active) =>
      match noteFinalStep capMode cfg epoch active final signers state with
      | .applied state => .ok (state, none)
      | .held state error => hold cfg epoch state error

def isGap (start epoch : Int) : Option Int → Bool
  | none => decide (start < epoch)
  | some prior => decide (prior + 1 < epoch)

/-- Move to an epoch: the state, why it holds, and whether it moved. -/
def advance (capMode : CapMode) (marks : Bool) (cfg : Cfg) (chainId : Bytes)
    (start epoch : Int) (parent : Option ParentCommit) (state : State) :
    Except String (State × Option String × Bool) :=
  if state.applied = some epoch then .ok (state, none, false)
  else if state.applied.any fun prior => decide (epoch < prior) then
    .error "validator duty apply epoch moved backward"
  else
    match takeParent ext capMode marks cfg chainId epoch parent state with
    | .error error => .error error
    | .ok (next, reason) =>
      let held :=
        if isGap start epoch state.applied then hold cfg epoch next "epoch_gap"
        else .ok (next, reason)
      held.map fun (next, reason) => ({ next with applied := some epoch }, reason, true)

def verifyProof (cfg : Cfg) (chainId : Bytes) (epoch : Int) (address : Bytes)
    (proof : Proof) (state : State) : Except String Unit :=
  let vote := proof.vote
  let commit := proof.commit
  if epoch < vote.epochId then .error "validator duty proof is from the future"
  else if cfg.challenge < int64Sub epoch vote.epochId then
    .error "validator duty proof challenge expired"
  else
    match findFinal vote.epochId state with
    | none => .error "validator duty finalized reference is missing"
    | some final =>
      if commit.certificate.proposalId ≠ final.proposalId then
        .error "validator duty finalized proposal mismatch"
      else if ext.validatorSetHash commit.validatorSet ≠ final.setHash then
        .error "validator duty finalized set mismatch"
      else
        match verifyVote ext chainId address commit vote with
        | .error error => .error error
        | .ok () => verifyCommit ext chainId commit

def markedMember (table : StringMap Member) (active : Bool) (epoch : Int)
    (address : Bytes) : Member :=
  (table.find? address).getD (if active then liveMember epoch address else shadowMember address)

def applyProof (capMode : CapMode) (cfg : Cfg) (chainId : Bytes) (epoch : Int)
    (active : Bool) (address : Bytes) (proof : Proof) (state : State) : Except String State :=
  match verifyProof ext cfg chainId epoch address proof state with
  | .error error => .error error
  | .ok () =>
    let table := tableOfMembers state.members
    let member := markedMember table active proof.vote.epochId address
    limited cfg capMode epoch state (table.add address { member with
      marks := addMark cfg proof.vote.epochId member.marks })

def checkMarkClaim (cfg : Cfg) (epoch : Int) (claim : MarkClaim)
    (state : State) : Except String Final :=
  if claim.epoch < 0 ∨ epoch < claim.epoch ∨ epoch - claim.epoch < 2 then
    .error "validator duty mark epoch is not final"
  else if cfg.challenge < epoch - claim.epoch then .error "validator duty mark challenge expired"
  else
    match findFinal claim.epoch state with
    | none => .error "validator duty finalized reference is missing"
    | some final =>
      if final.round.isNone then .error "validator duty mark round is missing"
      else .ok final

def verifyMarkClaim (cfg : Cfg) (chainId : Bytes) (epoch : Int)
    (address : Bytes) (sets : List (Int × Bytes × ValidatorSet))
    (claim : MarkClaim) (state : State) : Except String Unit :=
  match checkMarkClaim cfg epoch claim state with
  | .error error => .error error
  | .ok final =>
    match sets.filter fun entry => entry.1 = claim.epoch with
    | [(_, chain, validators)] =>
      if chain = chainId ∧ ext.validatorSetHash validators = final.setHash
      then
        match validators.pubkeyOfAddr address with
        | none => .error "validator duty mark signer is not in set"
        | some pubkey =>
          let vote : Vote := {
            chainId
            epochId := claim.epoch
            round := final.round.getD 0
            voteType := .precommit
            proposalId := final.proposalId
            validator := address
            signature := claim.signature }
          if ext.verifyVote pubkey vote then .ok ()
          else .error "validator duty mark signature is invalid"
      else .error "validator duty mark set mismatch"
    | _ => .error "validator duty mark set mismatch"

/-- Check the claims in order, each of a later epoch than the one before. -/
def verifyMarkClaims (cfg : Cfg) (chainId : Bytes) (epoch : Int)
    (address : Bytes) (sets : List (Int × Bytes × ValidatorSet))
    (state : State) : Int → List MarkClaim → Except String Unit
  | _, [] => .ok ()
  | previous, claim :: rest =>
    if claim.epoch ≤ previous then .error "validator duty marks are not ordered"
    else
      match verifyMarkClaim ext cfg chainId epoch address sets claim state with
      | .error error => .error error
      | .ok () => verifyMarkClaims cfg chainId epoch address sets state claim.epoch rest

def applyMarkClaims (capMode : CapMode) (cfg : Cfg) (chainId : Bytes)
    (epoch : Int) (active : Bool) (address : Bytes)
    (sets : List (Int × Bytes × ValidatorSet)) (claims : List MarkClaim)
    (state : State) : Except String State :=
  match claims with
  | [] => .error "validator duty mark count is invalid"
  | first :: rest =>
    if cfg.challenge ≤ (first :: rest).length then .error "validator duty mark count is invalid"
    else
      match verifyMarkClaims ext cfg chainId epoch address sets state (-1) (first :: rest) with
      | .error error => .error error
      | .ok () =>
        let table := tableOfMembers state.members
        let member := markedMember table active first.epoch address
        let marks := (first :: rest).foldl
          (fun marks claim => addMark cfg claim.epoch marks) member.marks
        limited cfg capMode epoch state (table.add address { member with marks })

end Commits

inductive Call
  | noteSet (epoch : Int) (active : List Bytes)
  | noteFinal (capMode : CapMode) (epoch : Int) (active : List Bytes)
      (final : Final) (signers : List Bytes)
  | notePulse (capMode : CapMode) (credit : Option Int) (epoch : Int)
      (active : Bool) (address : Bytes)
  | applyProof (capMode : CapMode) (chainId : Bytes) (epoch : Int)
      (active : Bool) (address : Bytes) (proof : Proof)
  | applyMarkClaims (capMode : CapMode) (chainId : Bytes) (epoch : Int)
      (active : Bool) (address : Bytes)
      (sets : List (Int × Bytes × ValidatorSet)) (claims : List MarkClaim)
  | delay (epoch : Int)
  | lock (active : List Bytes)
  | advance (capMode : CapMode) (marks : Bool) (chainId : Bytes)
      (start epoch : Int) (parent : Option ParentCommit)

/-- What a call says besides the new state. -/
abbrev Reply := Option String × Bool

def silent (state : State) : State × Reply := (state, none, false)

def answer (ext : Externals) (cfg : Cfg) (state : State) : Call → Except String (State × Reply)
  | .noteSet epoch active => (noteSet cfg epoch active state).map silent
  | .noteFinal capMode epoch active final signers =>
    (noteFinal capMode cfg epoch active final signers state).map silent
  | .notePulse capMode credit epoch active address =>
    (notePulse capMode credit cfg epoch active address state).map silent
  | .applyProof capMode chainId epoch active address proof =>
    (applyProof ext capMode cfg chainId epoch active address proof state).map silent
  | .applyMarkClaims capMode chainId epoch active address sets claims =>
    (applyMarkClaims ext capMode cfg chainId epoch active address sets claims state).map silent
  | .delay epoch => (SetFold.delay cfg epoch state).map silent
  | .lock active =>
    (SetFold.lock cfg active state).map fun (state, locked) => (state, none, locked)
  | .advance capMode marks chainId start epoch parent =>
    SetFold.advance ext capMode marks cfg chainId start epoch parent state

/-- The state after a call: unchanged if the call is refused. -/
def next (ext : Externals) (cfg : Cfg) (state : State) (call : Call) : State :=
  match answer ext cfg state call with
  | .ok (state, _) => state
  | .error _ => state

def reply (ext : Externals) (cfg : Cfg) (state : State) (call : Call) : Except String Reply :=
  (answer ext cfg state call).map Prod.snd

/-- The state after some calls. -/
def run (ext : Externals) (cfg : Cfg) (state : State) : List Call → State
  | [] => state
  | call :: calls => run ext cfg (next ext cfg state call) calls

def replies (ext : Externals) (cfg : Cfg) (state : State) : List Call → List (Except String Reply)
  | [] => []
  | call :: calls => reply ext cfg state call :: replies ext cfg (next ext cfg state call) calls

end SetFold
end LiteNode
