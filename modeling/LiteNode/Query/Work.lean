import LiteNode.Data.Decimal
import LiteNode.Data.StringMap

/-!
# Admission of query work

Peers ask for work that costs units of credit. Credit is kept for each peer,
each network and each of two lanes, earned with time and refunded when less
was used. Times are nanoseconds of 64 bits.
-/

namespace LiteNode
namespace Query

structure Bucket where
  atTime : Int
  credit : Int
deriving DecidableEq

structure Peer where
  bucket : Bucket
  seen : Int
  validator : Bool
deriving DecidableEq

inductive Phase where
  | building
  | writing (bytes : Int)
deriving DecidableEq

structure Job where
  id : Int
  peer : Bytes
  network : Bytes
  validator : Bool
  cost : Int
  phase : Phase
deriving DecidableEq

structure Waiting where
  who : Bytes
  group : Bytes
  untilTime : Int
  lane : Bool
  cost : Int
deriving DecidableEq

structure State where
  publics : Bucket
  validators : Bucket
  peers : StringMap Peer
  networks : StringMap Peer
  active : List Job
  waiting : List Waiting
  next : Int

/-- What a peer asks for. -/
structure Request where
  now : Int
  peer : Bytes
  network : Bytes
  validator : Bool
  cost : Int
deriving DecidableEq

inductive Message where
  | start (request : Request)
  | finish (id : Int)
  | prepared (id bytes cost : Int)
deriving DecidableEq

def replyLimit : Int := 8 * 1024 * 1024

def laneLimit : Int := 4 * replyLimit

def maxInt : Int := 2 ^ 62 - 1

def unitCredit : Int := 1000000000

def waitSpan : Int := 16000000000

def idleSpan : Int := 60000000000

/-- Capacity and rate of the bucket of a peer or of a network. -/
def capacityOf (validator : Bool) : Int := if validator then 32 else 16

def rateOf (validator : Bool) : Int := if validator then 4 else 1

def laneCapacity (validator : Bool) : Int := if validator then 64 else 16

def laneRate (validator : Bool) : Int := if validator then 16 else 4

def Job.bytes (job : Job) : Int :=
  match job.phase with
  | .building => replyLimit
  | .writing bytes => bytes

def laneBytes (state : State) (validator : Bool) : Int :=
  state.active.foldl
    (fun total job => if job.validator = validator then total + job.bytes else total) 0

def credit (units : Int) : Int := int64Mul units unitCredit

def initial (now units : Int) : Bucket := ⟨now, credit units⟩

def create (now : Int) : State where
  publics := initial now 16
  validators := initial now 64
  peers := .empty
  networks := .empty
  active := []
  waiting := []
  next := 0

def refill (now capacity rate : Int) (bucket : Bucket) : Bucket :=
  let elapsed := if now ≤ bucket.atTime then 0 else int64Sub now bucket.atTime
  let cap := credit capacity
  let earned := int64Mul (min cap elapsed) rate
  ⟨max now bucket.atTime, min cap (int64Add bucket.credit earned)⟩

def restore (refund capacity : Int) (bucket : Bucket) : Bucket :=
  { bucket with
    credit := min (credit capacity) (int64Add bucket.credit refund) }

def Bucket.charge (bucket : Bucket) (price : Int) : Bucket :=
  { bucket with credit := int64Sub bucket.credit price }

def State.lane (state : State) (validator : Bool) : Bucket :=
  if validator then state.validators else state.publics

def finish (state : State) (id : Int) : State × Option Int :=
  ({ state with active := state.active.filter (·.id ≠ id) }, none)

/-- Give back the part of a job's price that its reply did not need. -/
def prepare (state : State) (job : Job) (bytes cost : Int) : State :=
  let refund := credit (job.cost - cost)
  let saved (peer : Peer) : Peer :=
    { peer with bucket := restore refund (capacityOf job.validator) peer.bucket }
  { state with
    peers := state.peers.update job.peer (·.map saved)
    networks := state.networks.update job.network (·.map saved)
    publics := if job.validator then state.publics else restore refund 16 state.publics
    validators :=
      if job.validator then restore refund 64 state.validators
      else state.validators
    active := state.active.map fun found =>
      if found.id = job.id then { found with phase := .writing bytes, cost }
      else found }

def prepared (state : State) (id bytes cost : Int) : State × Option Int :=
  match state.active.find? (·.id = id) with
  | none => (state, none)
  | some job =>
    if job.phase = .building ∧ 0 ≤ bytes ∧ bytes ≤ replyLimit ∧ 1 ≤ cost ∧ cost ≤ job.cost then
      (prepare state job bytes cost, some id)
    else (state, none)

def Request.group (request : Request) : Bytes :=
  if request.validator then .ofAscii "validator:" ++ request.peer
  else .ofAscii "public:" ++ request.network

/-- Requests that are refused without a look at credit. -/
def refuses (state : State) (request : Request) : Bool :=
  let busy := state.active.any (·.peer = request.peer)
  let count := state.active.countP fun job =>
    job.validator = request.validator ∧ job.phase = .building
  busy || 2 ≤ count ||
    laneLimit - replyLimit < laneBytes state request.validator ||
    request.cost < 1 || 16 < request.cost || state.next = maxInt

/-- Whether the credit of a peer or network is still remembered. -/
def remembered (now : Int) (saved : Peer) (used : Bool) : Bool :=
  now < saved.seen || int64Sub now saved.seen < idleSpan || used

def recentPeers (state : State) (now : Int) : StringMap Peer :=
  state.peers.filter fun name saved => remembered now saved (state.active.any (·.peer = name))

def recentNetworks (state : State) (now : Int) : StringMap Peer :=
  state.networks.filter fun name saved =>
    remembered now saved (state.active.any (·.network = name))

/-- Number of peers or networks of a lane. -/
def tracked (saved : StringMap Peer) (validator : Bool) : Nat :=
  saved.values.countP (·.validator = validator)

/-- Whether a new peer or network is one too many. -/
def crowded (peers networks : StringMap Peer) (request : Request) : Bool :=
  let sameLane :=
    match peers.find? request.peer with
    | some saved => saved.validator = request.validator
    | none => false
  !sameLane && 256 ≤ tracked peers request.validator ||
    !networks.mem request.group && 256 ≤ tracked networks request.validator

/-- The bucket of a peer or network as a request finds it. -/
def bucketFor (saved : StringMap Peer) (name : Bytes) (request : Request) : Bucket :=
  match saved.find? name with
  | none => initial request.now (capacityOf request.validator)
  | some saved =>
    refill request.now (capacityOf request.validator) (rateOf request.validator) saved.bucket

def laneBucket (state : State) (request : Request) : Bucket :=
  refill request.now (laneCapacity request.validator)
    (laneRate request.validator) (state.lane request.validator)

/-- Requests that still wait, with a new term for the one repeated. -/
def stillWaiting (state : State) (request : Request) : List Waiting :=
  (state.waiting.filter (request.now < ·.untilTime)).map fun item =>
    if item.who = request.peer ∧ item.group = request.group then
      { item with
        untilTime := int64Add request.now waitSpan, cost := request.cost }
    else item

/-- The credit that a waiting request would find. -/
def available (saved : StringMap Peer) (name : Bytes) (request : Request) : Int :=
  match saved.find? name with
  | none => credit (capacityOf request.validator)
  | some saved =>
    (refill request.now (capacityOf request.validator)
      (rateOf request.validator) saved.bucket).credit

/-- The first waiting request of a network. -/
def firstOf (waiting : List Waiting) (group : Bytes) : Option Waiting :=
  waiting.find? (·.group = group)

/-- The request that the lane's credit is kept for. -/
def headOf (peers networks : StringMap Peer) (waiting : List Waiting)
    (request : Request) : Option Waiting :=
  waiting.find? fun item =>
    item.lane = request.validator &&
      credit item.cost ≤ available peers item.who request &&
      credit item.cost ≤ available networks item.group request &&
      match firstOf waiting item.group with
      | some before => before.who = item.who
      | none => false

/-- Whether funds leave enough for the request that goes first. -/
def room (request : Request) (funds : Int) (first : Option Waiting) : Bool :=
  let price := credit request.cost
  match first with
  | some item =>
    if item.who ≠ request.peer then int64Add price (credit item.cost) ≤ funds
    else price ≤ funds
  | none => price ≤ funds

/-- Whether a request can be paid now. -/
def payable (state : State) (peers networks : StringMap Peer) (request : Request) : Bool :=
  let waiting := stillWaiting state request
  let price := credit request.cost
  let group := (bucketFor networks request.group request).credit
  price ≤ (bucketFor peers request.peer request).credit && price ≤ group &&
    room request (laneBucket state request).credit (headOf peers networks waiting request) &&
    room request group (firstOf waiting request.group)

/-- The waiting requests after one could not be paid. -/
def enlisted (peers : StringMap Peer) (waiting : List Waiting) (request : Request) : List Waiting :=
  if (bucketFor peers request.peer request).credit < credit request.cost ||
      waiting.any (fun item => item.who = request.peer ∧ item.group = request.group) ||
      2 ≤ waiting.countP (·.group = request.group) ||
      256 ≤ waiting.countP (·.lane = request.validator) then
    waiting
  else
    waiting ++
      [⟨request.peer, request.group, int64Add request.now waitSpan,
        request.validator, request.cost⟩]

/-- Charge a request to its buckets and open its job. -/
def admission (state : State) (peers networks : StringMap Peer) (request : Request) : State :=
  let price := credit request.cost
  let saved := (bucketFor peers request.peer request).charge price
  let global := (laneBucket state request).charge price
  let group := (bucketFor networks request.group request).charge price
  let job : Job := ⟨state.next, request.peer, request.group,
    request.validator, request.cost, .building⟩
  { peers := peers.add request.peer ⟨saved, request.now, request.validator⟩
    networks := networks.add request.group ⟨group, request.now, request.validator⟩
    publics := if request.validator then state.publics else global
    validators := if request.validator then global else state.validators
    active := job :: state.active
    waiting := (stillWaiting state request).filter fun item =>
      item.who ≠ request.peer ∨ item.group ≠ request.group
    next := state.next + 1 }

def start (state : State) (request : Request) : State × Option Int :=
  if refuses state request then (state, none)
  else
    let peers := recentPeers state request.now
    let networks := recentNetworks state request.now
    if crowded peers networks request then (state, none)
    else if payable state peers networks request then
      (admission state peers networks request, some state.next)
    else
      let waiting := enlisted peers (stillWaiting state request) request
      ({ state with peers, networks, waiting }, none)

def step (state : State) : Message → State × Option Int
  | .start request => start state request
  | .finish id => finish state id
  | .prepared id bytes cost => prepared state id bytes cost

/-- The state after some messages. -/
def run (state : State) (messages : List Message) : State :=
  messages.foldl (fun state message => (step state message).1) state

end Query
end LiteNode
