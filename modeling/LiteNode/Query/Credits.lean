import LiteNode.Data.TokenBucket
import LiteNode.Query.Work

/-!
# Credits of a query gate

What holds of a gate in any of its states, as long as the times it is given
lie in a range that 64 bits can tell apart.
-/

namespace LiteNode
namespace Query

def refillFits (now capacity rate : Int) (bucket : Bucket) : Prop :=
  let elapsed := if now ≤ bucket.atTime then 0 else now - bucket.atTime
  let earned := min (capacity * unitCredit) elapsed * rate
  Fits64 elapsed ∧ Fits64 (capacity * unitCredit) ∧ Fits64 earned ∧ Fits64 (bucket.credit + earned)

def restoreFits (refund capacity : Int) (bucket : Bucket) : Prop :=
  Fits64 (capacity * unitCredit) ∧ Fits64 (bucket.credit + refund)

def rememberedFits (now : Int) (saved : Peer) : Prop := saved.seen ≤ now → Fits64 (now - saved.seen)

def bucketsFit (saved : StringMap Peer) (request : Request) : Prop :=
  ∀ name peer, saved.find? name = some peer →
    refillFits request.now (capacityOf request.validator) (rateOf request.validator) peer.bucket

/-- Whether a request is answered without an overflow. -/
def startFits (state : State) (request : Request) : Prop :=
  let peers := recentPeers state request.now
  let networks := recentNetworks state request.now
  let price := request.cost * unitCredit
  refuses state request = false →
    (∀ name saved, state.peers.find? name = some saved → rememberedFits request.now saved) ∧
    (∀ name saved, state.networks.find? name = some saved → rememberedFits request.now saved) ∧
    (crowded peers networks request = false →
      Fits64 (capacityOf request.validator * unitCredit) ∧ Fits64 price ∧
      bucketsFit peers request ∧ bucketsFit networks request ∧
      refillFits request.now (laneCapacity request.validator)
        (laneRate request.validator) (state.lane request.validator) ∧
      Fits64 (request.now + waitSpan) ∧
      (∀ item ∈ stillWaiting state request,
        Fits64 (item.cost * unitCredit) ∧ Fits64 (price + item.cost * unitCredit)) ∧
      (payable state peers networks request = true →
        Fits64 ((bucketFor peers request.peer request).credit - price) ∧
        Fits64 ((bucketFor networks request.group request).credit - price) ∧
        Fits64 ((laneBucket state request).credit - price)))

/-- Whether a job is marked as prepared without an overflow. -/
def preparedFits (state : State) (id bytes cost : Int) : Prop :=
  ∀ job, state.active.find? (·.id = id) = some job →
    job.phase = .building ∧ 0 ≤ bytes ∧ bytes ≤ replyLimit ∧ 1 ≤ cost ∧ cost ≤ job.cost →
      let refund := (job.cost - cost) * unitCredit
      Fits64 refund ∧
      (∀ saved, state.peers.find? job.peer = some saved →
        restoreFits refund (capacityOf job.validator) saved.bucket) ∧
      (∀ saved, state.networks.find? job.network = some saved →
        restoreFits refund (capacityOf job.validator) saved.bucket) ∧
      restoreFits refund (laneCapacity job.validator) (state.lane job.validator)

/-- No operation on 64 bits overflows in a step. -/
def StepFits (state : State) : Message → Prop
  | .start request => startFits state request
  | .finish _ => True
  | .prepared id bytes cost => preparedFits state id bytes cost

/-- Times that 64 bits can tell apart, with a term to wait after each. -/
structure Timely (lo hi : Int) : Prop where
  least : -2 ^ 63 ≤ lo
  most : hi + waitSpan < 2 ^ 63
  span : hi - lo < 2 ^ 63

structure Bucket.Within (lo hi capacity : Int) (bucket : Bucket) : Prop where
  nonneg : 0 ≤ bucket.credit
  most : bucket.credit ≤ capacity * unitCredit
  early : lo ≤ bucket.atTime
  late : bucket.atTime ≤ hi

theorem credit_eq {units : Int} (least : -64 ≤ units) (most : units ≤ 64) :
    credit units = units * unitCredit := by
  apply int64Mul_eq
  rw [fits64_iff]
  simp only [unitCredit]
  omega

theorem Bucket.Within.mono {lo hi capacity capacity' : Int} {bucket : Bucket}
    (within : bucket.Within lo hi capacity) (room : capacity ≤ capacity') :
    bucket.Within lo hi capacity' where
  nonneg := within.nonneg
  most := by
    have most := within.most
    simp only [unitCredit] at most ⊢
    omega
  early := within.early
  late := within.late

section Buckets

variable {lo hi now capacity rate : Int} {bucket : Bucket}

theorem earned_bounds (least : 0 ≤ capacity) (most : capacity ≤ 64)
    (gain : 0 ≤ rate) (slow : rate ≤ 16) {elapsed : Int} (order : 0 ≤ elapsed) :
    0 ≤ min (capacity * unitCredit) elapsed * rate ∧
      min (capacity * unitCredit) elapsed * rate ≤ 1024 * unitCredit := by
  simp only [unitCredit]
  have some : 0 ≤ min (capacity * 1000000000) elapsed := by omega
  have few : min (capacity * 1000000000) elapsed ≤ 64000000000 := by omega
  have product := mul_le_mul few slow gain (by omega)
  refine ⟨mul_nonneg some gain, ?_⟩
  omega

theorem refillFits_of_within (timely : Timely lo hi)
    (within : bucket.Within lo hi 64) (least : 0 ≤ capacity)
    (most : capacity ≤ 64) (gain : 0 ≤ rate) (slow : rate ≤ 16)
    (early : lo ≤ now) (late : now ≤ hi) : refillFits now capacity rate bucket := by
  obtain ⟨nonneg, bounded, after, before⟩ := within
  obtain ⟨first, last, span⟩ := timely
  have order : 0 ≤ if now ≤ bucket.atTime then 0 else now - bucket.atTime := by
    split <;> omega
  have earned := earned_bounds least most gain slow order
  simp only [refillFits, fits64_iff]
  simp only [unitCredit] at earned bounded ⊢
  refine ⟨?_, by omega, by omega, by omega⟩
  split <;> omega

theorem refill_eq (fits : refillFits now capacity rate bucket)
    (nonneg : 0 ≤ bucket.credit) (least : 0 ≤ capacity) (most : capacity ≤ 64) (gain : 1 ≤ rate) :
    refill now capacity rate bucket =
      ⟨max now bucket.atTime,
        level (capacity * unitCredit) rate bucket.credit bucket.atTime now⟩ := by
  obtain ⟨fitsElapsed, _, fitsEarned, fitsCredit⟩ := fits
  have cap := @credit_eq capacity (by omega) most
  have order : 0 ≤ if now ≤ bucket.atTime then 0 else now - bucket.atTime := by
    split <;> omega
  have elapsed :
      (if now ≤ bucket.atTime then 0 else int64Sub now bucket.atTime) =
        if now ≤ bucket.atTime then 0 else now - bucket.atTime := by
    split
    · rfl
    · next after =>
        rw [if_neg after] at fitsElapsed
        exact int64Sub_eq fitsElapsed
  have span : max 0 (now - bucket.atTime) =
      if now ≤ bucket.atTime then 0 else now - bucket.atTime := by
    split <;> omega
  simp only [refill]
  rw [elapsed, cap, int64Mul_eq fitsEarned, int64Add_eq fitsCredit,
    level_of_capped (by simp only [unitCredit]; omega) gain nonneg order]
  simp only [level, span]

theorem Bucket.Within.refill (timely : Timely lo hi)
    (within : bucket.Within lo hi 64) (least : 0 ≤ capacity)
    (most : capacity ≤ 64) (gain : 1 ≤ rate) (slow : rate ≤ 16)
    (early : lo ≤ now) (late : now ≤ hi) :
    (Query.refill now capacity rate bucket).Within lo hi capacity := by
  have fits := refillFits_of_within timely within least most (by omega) slow early late
  rw [refill_eq fits within.nonneg least most gain]
  have bound : 0 ≤ capacity * unitCredit := by
    simp only [unitCredit]
    omega
  exact {
    nonneg := level_nonneg bound (by omega) within.nonneg
    most := level_le_capacity
    early := le_trans early (le_max_left ..)
    late := max_le late within.late }

theorem within_initial (least : 0 ≤ capacity) (most : capacity ≤ 64)
    (early : lo ≤ now) (late : now ≤ hi) : (initial now capacity).Within lo hi capacity := by
  have amount := @credit_eq capacity (by omega) most
  refine ⟨?_, ?_, early, late⟩
  · simp only [initial, amount, unitCredit]
    omega
  · simp only [initial, amount, le_refl]

variable {refund : Int}

theorem restoreFits_of_within (within : bucket.Within lo hi 64)
    (least : 0 ≤ capacity) (most : capacity ≤ 64)
    (gift : 0 ≤ refund) (small : refund ≤ 64 * unitCredit) :
    restoreFits refund capacity bucket := by
  have nonneg := within.nonneg
  have bounded := within.most
  simp only [restoreFits, fits64_iff]
  simp only [unitCredit] at small bounded ⊢
  omega

theorem restore_eq (fits : restoreFits refund capacity bucket)
    (least : 0 ≤ capacity) (most : capacity ≤ 64) :
    restore refund capacity bucket =
      { bucket with
        credit := min (capacity * unitCredit) (bucket.credit + refund) } := by
  simp only [restore]
  rw [credit_eq (by omega) most, int64Add_eq fits.2]

theorem Bucket.Within.restore (within : bucket.Within lo hi capacity)
    (least : 0 ≤ capacity) (most : capacity ≤ 64)
    (gift : 0 ≤ refund) (small : refund ≤ 64 * unitCredit) :
    (Query.restore refund capacity bucket).Within lo hi capacity := by
  have fits := restoreFits_of_within (within.mono most) least most gift small
  have nonneg := within.nonneg
  rw [restore_eq fits least most]
  refine ⟨?_, min_le_left .., within.early, within.late⟩
  simp only [unitCredit]
  omega

theorem charge_eq {price : Int} (within : bucket.Within lo hi 64)
    (paid : 0 ≤ price) (enough : price ≤ bucket.credit) :
    bucket.charge price = { bucket with credit := bucket.credit - price } := by
  have bounded := within.most
  simp only [Bucket.charge]
  rw [int64Sub_eq]
  rw [fits64_iff]
  simp only [unitCredit] at bounded
  omega

theorem Bucket.Within.charge {price : Int}
    (within : bucket.Within lo hi capacity) (most : capacity ≤ 64)
    (paid : 0 ≤ price) (enough : price ≤ bucket.credit) :
    (bucket.charge price).Within lo hi capacity := by
  have bounded := within.most
  rw [charge_eq (within.mono most) paid enough]
  exact ⟨by simpa using enough, by simp only; omega, within.early, within.late⟩

end Buckets
end Query
end LiteNode
