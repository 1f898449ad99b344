import LiteNode.Engine.State
import LiteNode.Types.Relief
import LiteNode.Types.RoundSkip

/-!
# The pool of round syncs

The pool keeps the round syncs of one epoch, the latest of each member for each
round near the current one. From them it picks a witness: syncs of the highest
round that justify a skip.
-/

namespace LiteNode

/-- `C_engine.sync_history_limit`. -/
def syncHistoryLimit : Int := maxSyncAhead

/-- The pool. Replies carry the time at which they were taken up. -/
structure RoundPool (τ : Type) where
  epoch : Option Int
  byAddr : Table Bytes RoundSync
  byRound : Table Bytes RoundSync
  replies : Table Bytes (RoundSync × τ)
  sent : Table Int RoundSync
  sentTop : Option Int

namespace RoundPool

variable {τ : Type}

def create : RoundPool τ where
  epoch := none
  byAddr := ∅
  byRound := ∅
  replies := ∅
  sent := ∅
  sentTop := none

def stepRank : RoundStep → Nat
  | .proposeStep => 1
  | .prevoteStep => 2
  | .precommitStep => 3

def later (left right : RoundSync) : Bool :=
  decide (right.epochId < left.epochId) ||
    (left.epochId = right.epochId &&
      (decide (right.round < left.round) ||
        (left.round = right.round &&
          ((left.request && !right.request) ||
            (left.request = right.request &&
              decide (stepRank right.step < stepRank left.step))))))

/-- Keep a sync under a key unless the one there is as late. -/
def keepLater {κ : Type} [DecidableEq κ] (table : Table κ RoundSync) (key : κ)
    (sync : RoundSync) : Table κ RoundSync :=
  match table.find? key with
  | some prior => if later sync prior then table.replace key sync else table
  | none => table.replace key sync

def replace (t : RoundPool τ) (sync : RoundSync) : RoundPool τ :=
  { t with byAddr := keepLater t.byAddr sync.validator sync }

/-- The round in decimal, a zero byte and the validator. -/
def roundKey (sync : RoundSync) : Bytes := intToString sync.round ++ 0 :: sync.validator

def rememberRound (t : RoundPool τ) (sync : RoundSync) : RoundPool τ :=
  { t with byRound := keepLater t.byRound (roundKey sync) sync }

def trimRounds (t : RoundPool τ) (current : Int) : RoundPool τ :=
  let floor := max 0 (current - syncHistoryLimit)
  let ceiling := current + syncHistoryLimit
  { t with
    byRound := t.byRound.filterValues fun sync =>
      decide (floor ≤ sync.round) && decide (sync.round ≤ ceiling) }

def remember (t : RoundPool τ) (current : Int) (sync : RoundSync) : RoundPool τ :=
  if max 0 (current - syncHistoryLimit) ≤ sync.round ∧ sync.round ≤ current + syncHistoryLimit then
    (t.rememberRound sync).trimRounds current
  else t

def replaceReply (t : RoundPool τ) (now : τ) (sync : RoundSync) : RoundPool τ :=
  if sync.request then t
  else
    match t.replies.find? sync.validator with
    | some (prior, _) =>
      if later prior sync then t
      else { t with replies := t.replies.replace sync.validator (sync, now) }
    | none => { t with replies := t.replies.replace sync.validator (sync, now) }

def replaceSent (t : RoundPool τ) (sync : RoundSync) : RoundPool τ :=
  { t with sent := keepLater t.sent sync.round sync }

def trimSent (t : RoundPool τ) : RoundPool τ :=
  match t.sentTop with
  | none => t
  | some top =>
    let floor := top - syncHistoryLimit
    { t with sent := t.sent.filterKeys fun round => decide (floor ≤ round) }

def keepSent (t : RoundPool τ) (sync : RoundSync) : RoundPool τ :=
  if sync.request then t
  else
    let top := match t.sentTop with
      | none => sync.round
      | some prior => max prior sync.round
    let t := { t with sentTop := some top }
    let t := if top - syncHistoryLimit ≤ sync.round then t.replaceSent sync else t
    t.trimSent

def clear (t : RoundPool τ) : RoundPool τ :=
  { t with byAddr := ∅, byRound := ∅, replies := ∅, sent := ∅, sentTop := none }

def takeUp (t : RoundPool τ) (now : τ) (current : Int) (sync : RoundSync) : RoundPool τ :=
  ((t.replace sync).replaceReply now sync).remember current sync

def addAt (t : RoundPool τ) (now : τ) (current : Int) (sync : RoundSync) : RoundPool τ :=
  match t.epoch with
  | none => takeUp { t with epoch := some sync.epochId } now current sync
  | some epoch =>
    if epoch = sync.epochId then t.takeUp now current sync
    else if epoch < sync.epochId then
      takeUp { t.clear with epoch := some sync.epochId } now current sync
    else t

def add (t : RoundPool τ) (now : τ) (sync : RoundSync) : RoundPool τ := t.addAt now sync.round sync

def addLocal (t : RoundPool τ) (now : τ) (sync : RoundSync) : RoundPool τ :=
  let t := t.add now sync
  if t.epoch = some sync.epochId then t.keepSent sync else t

def weight (vs : ValidatorSet) (sync : RoundSync) : Option Int := vs.weightOfAddr sync.validator

/-- Whether the order puts a sync no later than another: heavier ones come
first, those without a weight last, and the names decide between equals. -/
def order (vs : ValidatorSet) (left right : RoundSync) : Bool :=
  match weight vs left, weight vs right with
  | some leftWeight, some rightWeight =>
    if leftWeight = rightWeight then decide (left.validator ≤ right.validator)
    else decide (rightWeight < leftWeight)
  | some _, none => true
  | none, some _ => false
  | none, none => decide (left.validator ≤ right.validator)

section Witness

variable (chainId : Bytes) (epochId : Int) (vs : ValidatorSet)

/-- Whether signers of some number and weight justify a skip. -/
def skipReached (signerCount signedWeight : Int) : Bool :=
  vs.roundSkipReachedAt (QuorumPolicy.forChain chainId) epochId signerCount signedWeight

/-- Take syncs from the front until they justify a skip. -/
def take (count signedWeight : Int) (acc : List RoundSync) : List RoundSync → List RoundSync
  | [] =>
    if skipReached chainId epochId vs count signedWeight then acc.reverse
    else []
  | sync :: rest =>
    if skipReached chainId epochId vs count signedWeight then acc.reverse
    else
      match weight vs sync with
      | none => take count signedWeight acc rest
      | some value => take (count + 1) (signedWeight + value) (sync :: acc) rest

def takeWitness (syncs : List RoundSync) : List RoundSync :=
  take chainId epochId vs 0 0 [] (syncs.insertionSort fun left right => order vs left right = true)

/-- The witness of a round, if there is one. -/
def roundProof (syncs : List RoundSync) : Option (List RoundSync) :=
  match takeWitness chainId epochId vs syncs with
  | [] => none
  | proof => some proof

/-- Syncs of members by their rounds, in an interval. -/
def groupRounds (afterRound throughRound : Int) (syncs : List RoundSync) :
    Table Int (List RoundSync) :=
  syncs.foldl
    (fun byRound sync =>
      if afterRound < sync.round ∧ sync.round ≤ throughRound ∧ (weight vs sync).isSome then
        let prior := (byRound.find? sync.round).getD []
        byRound.replace sync.round (sync :: prior)
      else byRound)
    ∅

/-- The rounds of a table with their syncs, the highest first. -/
def descending (byRound : Table Int (List RoundSync)) : List (Int × List RoundSync) :=
  (byRound.toList.foldl (fun rounds entry => entry :: rounds)
    []).insertionSort fun left right => right.1 ≤ left.1

def witness (t : RoundPool τ) (afterRound throughRound : Int) : List RoundSync :=
  if t.epoch ≠ some epochId then []
  else
    let byRound := groupRounds vs afterRound throughRound t.byRound.values
    ((descending byRound).findSome? fun entry => roundProof chainId epochId vs entry.2).getD []

end Witness

/-- A call that changes the pool, with the time at which it is made. -/
inductive Operation (τ : Type)
  | addAt (now : τ) (current : Int) (sync : RoundSync)
  | addLocal (now : τ) (sync : RoundSync)
  | clear

def Operation.apply (t : RoundPool τ) : Operation τ → RoundPool τ
  | .addAt now current sync => t.addAt now current sync
  | .addLocal now sync => t.addLocal now sync
  | .clear => t.clear

def run (t : RoundPool τ) (operations : List (Operation τ)) : RoundPool τ :=
  operations.foldl Operation.apply t

section Kept

variable {τ : Type} {t : RoundPool τ} {sync : RoundSync} {now : τ} {current : Int}

/-- Every sync of a round is of the pool's epoch, under its own key. -/
def Kept (t : RoundPool τ) : Prop :=
  ∀ key sync, t.byRound.find? key = some sync → key = roundKey sync ∧ t.epoch = some sync.epochId

/-- Only the syncs of the rounds and the epoch matter. -/
theorem Kept.congr {t' : RoundPool τ} (kept : t.Kept)
    (rounds : t'.byRound = t.byRound) (epoch : t'.epoch = t.epoch) : t'.Kept := by
  intro key sync found
  rw [rounds] at found
  rw [epoch]
  exact kept key sync found

theorem find?_keepLater {κ : Type} [DecidableEq κ] {table : Table κ RoundSync}
    {key key' : κ} {found : RoundSync}
    (stored : (keepLater table key sync).find? key' = some found) :
    key' = key ∧ found = sync ∨ table.find? key' = some found := by
  have replaced : (table.replace key sync).find? key' = some found →
      key' = key ∧ found = sync ∨ table.find? key' = some found := by
    intro stored
    rw [Table.find?_replace_eq_ite] at stored
    split at stored
    · next same => exact .inl ⟨same, (Option.some.inj stored).symm⟩
    · exact .inr stored
  unfold keepLater at stored
  split at stored
  · split at stored
    · exact replaced stored
    · exact .inr stored
  · exact replaced stored

theorem Kept.remember (kept : t.Kept) (epoch : t.epoch = some sync.epochId) :
    (t.remember current sync).Kept := by
  unfold RoundPool.remember
  split
  · intro key found stored
    simp only [trimRounds, rememberRound, Table.find?_filterValues,
      Option.filter_eq_some_iff] at stored
    rcases find?_keepLater stored.1 with ⟨rfl, rfl⟩ | earlier
    · exact ⟨rfl, epoch⟩
    · exact kept key found earlier
  · exact kept

theorem replaceReply_rounds (t : RoundPool τ) (now : τ) (sync : RoundSync) :
    (t.replaceReply now sync).byRound = t.byRound ∧ (t.replaceReply now sync).epoch = t.epoch := by
  unfold replaceReply
  split
  · exact ⟨rfl, rfl⟩
  split
  · split <;> exact ⟨rfl, rfl⟩
  · exact ⟨rfl, rfl⟩

theorem Kept.takeUp (kept : t.Kept) (epoch : t.epoch = some sync.epochId) :
    (t.takeUp now current sync).Kept := by
  obtain ⟨rounds, same⟩ := replaceReply_rounds (t.replace sync) now sync
  exact (kept.congr rounds same).remember (same.trans epoch)

theorem Kept.addAt (kept : t.Kept) : (t.addAt now current sync).Kept := by
  unfold RoundPool.addAt
  split
  · next none =>
    refine Kept.takeUp (fun key found stored => ?_) rfl
    have missing := (kept key found stored).2
    rw [none] at missing
    cases missing
  · next epoch opened =>
    split
    · next same =>
      rw [same] at opened
      exact kept.takeUp opened
    split
    · exact Kept.takeUp (fun key found stored => by simp [clear] at stored) rfl
    · exact kept

theorem keepSent_rounds (t : RoundPool τ) (sync : RoundSync) :
    (t.keepSent sync).byRound = t.byRound ∧ (t.keepSent sync).epoch = t.epoch := by
  unfold keepSent
  split
  · exact ⟨rfl, rfl⟩
  · have trimmed : ∀ t : RoundPool τ, t.trimSent.byRound = t.byRound ∧
        t.trimSent.epoch = t.epoch := by
      intro t
      unfold trimSent
      split <;> exact ⟨rfl, rfl⟩
    rw [(trimmed _).1, (trimmed _).2]
    constructor
    · split <;> split <;> rfl
    · split <;> split <;> rfl

theorem Kept.apply (kept : t.Kept) (operation : Operation τ) : (operation.apply t).Kept := by
  cases operation with
  | addAt now current sync => exact kept.addAt
  | addLocal now sync =>
    change (t.addLocal now sync).Kept
    have added : (t.add now sync).Kept := kept.addAt
    unfold addLocal
    dsimp only
    split
    · obtain ⟨rounds, epoch⟩ := keepSent_rounds (t.add now sync) sync
      exact added.congr rounds epoch
    · exact added
  | clear => exact fun key sync stored => by simp [Operation.apply, clear] at stored

theorem kept_run (operations : List (Operation τ)) (kept : t.Kept) : (t.run operations).Kept := by
  induction operations generalizing t with
  | nil => exact kept
  | cons operation rest ih => exact ih (kept.apply operation)

theorem kept_create : (create : RoundPool τ).Kept :=
  fun key sync stored => by simp [create] at stored

end Kept

section Take

variable {chainId : Bytes} {epochId : Int} {vs : ValidatorSet}
  {syncs : List RoundSync} {count signedWeight : Int}

open Thresholds

/-- Weight of the sync's validator, zero for a stranger. -/
def weigh (vs : ValidatorSet) (sync : RoundSync) : Int := vs.weightOf sync.validator

def Justifies (chainId : Bytes) (epochId : Int) (vs : ValidatorSet)
    (syncs : List RoundSync) : Prop :=
  Meets (skipReached chainId epochId vs) (weigh vs) syncs

theorem rising_skipReached (chainId : Bytes) (epochId : Int)
    (vs : ValidatorSet) : Rising (skipReached chainId epochId vs) :=
  ValidatorSet.rising_roundSkipReachedAt (QuorumPolicy.forChain chainId) epochId vs

theorem skipReached_zero (sound : vs.Sound) : skipReached chainId epochId vs 0 0 = false :=
  sound.roundSkipReachedAt_zero

/-- What is taken from the front justifies a skip, when all syncs do. -/
theorem take_spec (sound : vs.Sound)
    (members : ∀ sync ∈ syncs, (weight vs sync).isSome) (acc : List RoundSync) :
    (MeetsFrom (skipReached chainId epochId vs) (weigh vs) count signedWeight
        syncs → ∃ taken, taken <+: syncs ∧
      MeetsFrom (skipReached chainId epochId vs) (weigh vs) count signedWeight taken ∧
      take chainId epochId vs count signedWeight acc syncs = acc.reverse ++ taken) ∧
    (¬ MeetsFrom (skipReached chainId epochId vs) (weigh vs) count signedWeight
        syncs → take chainId epochId vs count signedWeight acc syncs = []) := by
  induction syncs generalizing count signedWeight acc with
  | nil =>
    rw [meetsFrom_nil]
    unfold take
    constructor
    · intro reached
      exact ⟨[], List.prefix_rfl, meetsFrom_nil.mpr reached, by
        rw [if_pos reached, List.append_nil]⟩
    · intro short
      rw [if_neg short]
  | cons sync rest ih =>
    obtain ⟨value, weighed⟩ := Option.isSome_iff_exists.mp (members sync List.mem_cons_self)
    have own : weigh vs sync = value := by
      unfold weight at weighed
      rw [weigh, ValidatorSet.weightOf, weighed]
      rfl
    obtain ⟨enough, short⟩ := @ih (count + 1)
      (signedWeight + value)
      (fun sync listed => members sync (List.mem_cons_of_mem _ listed))
      (sync :: acc)
    unfold take
    by_cases reached : skipReached chainId epochId vs count signedWeight = true
    · rw [if_pos reached]
      refine ⟨fun _ => ⟨[], List.nil_prefix, meetsFrom_nil.mpr reached,
        (List.append_nil _).symm⟩, fun unmet => absurd ?_ unmet⟩
      exact MeetsFrom.append (rising_skipReached chainId epochId vs)
        (fun sync _ => sound.weightOf_nonneg sync.validator)
        (meetsFrom_nil.mpr reached)
    · rw [if_neg reached, weighed, meetsFrom_cons, own]
      refine ⟨fun met => ?_, short⟩
      obtain ⟨taken, front, meets, same⟩ := enough met
      refine ⟨sync :: taken, List.cons_prefix_cons.mpr ⟨rfl, front⟩, ?_, ?_⟩
      · rw [meetsFrom_cons, own]
        exact meets
      · dsimp only
        rw [same, List.reverse_cons, List.append_assoc, List.singleton_append]

/-- A witness of some syncs is a part of them that justifies a skip; there is
none only when they do not. -/
theorem takeWitness_spec (sound : vs.Sound) (members : ∀ sync ∈ syncs, (weight vs sync).isSome) :
    (takeWitness chainId epochId vs syncs = [] ↔ ¬ Justifies chainId epochId vs syncs) ∧
    (takeWitness chainId epochId vs syncs ≠ [] →
      (takeWitness chainId epochId vs syncs).Subperm syncs ∧
        Justifies chainId epochId vs (takeWitness chainId epochId vs syncs)) := by
  have perm := List.perm_insertionSort (fun left right => order vs left right = true) syncs
  obtain ⟨enough, short⟩ := @take_spec chainId epochId vs _ 0 0 sound
    (fun sync listed => members sync (perm.mem_iff.mp listed)) []
  have same : Justifies chainId epochId vs syncs ↔
      Justifies chainId epochId vs
        (syncs.insertionSort fun left right => order vs left right = true) :=
    (meetsFrom_perm perm).symm
  by_cases justified : Justifies chainId epochId vs syncs
  · obtain ⟨taken, front, meets, equal⟩ := enough (same.mp justified)
    have witness : takeWitness chainId epochId vs syncs = taken := equal
    have nonempty : taken ≠ [] := by
      rintro rfl
      rw [meetsFrom_nil, skipReached_zero sound] at meets
      cases meets
    rw [witness]
    exact ⟨⟨fun empty => absurd empty nonempty, fun unjustified => absurd justified unjustified⟩,
      fun _ => ⟨front.sublist.subperm.trans perm.subperm, meets⟩⟩
  · have empty : takeWitness chainId epochId vs syncs = [] := short (mt same.mpr justified)
    exact ⟨⟨fun _ => justified, fun _ => empty⟩, fun found => absurd empty found⟩

end Take

section Rounds

variable {vs : ValidatorSet} {afterRound throughRound round : Int}

/-- The syncs grouped under a round are those of the round in the interval. -/
theorem find?_groupRounds (afterRound throughRound : Int)
    (syncs : List RoundSync) (vs : ValidatorSet) (round : Int) :
    ((groupRounds vs afterRound throughRound syncs).find? round).getD [] =
      (syncs.filter fun sync => decide (afterRound < sync.round ∧
        sync.round ≤ throughRound ∧ (weight vs sync).isSome ∧ sync.round = round)).reverse := by
  suffices grouped : ∀ byRound : Table Int (List RoundSync), ((syncs.foldl
        (fun byRound sync =>
          if afterRound < sync.round ∧ sync.round ≤ throughRound ∧ (weight vs sync).isSome then
            byRound.replace sync.round (sync :: (byRound.find? sync.round).getD [])
          else byRound) byRound).find? round).getD [] =
        (syncs.filter fun sync => decide (afterRound < sync.round ∧
          sync.round ≤ throughRound ∧ (weight vs sync).isSome ∧
            sync.round = round)).reverse ++ (byRound.find? round).getD [] by
    have whole := grouped ∅
    rw [Table.find?_empty, Option.getD_none, List.append_nil] at whole
    exact whole
  induction syncs with
  | nil => exact fun byRound => rfl
  | cons sync rest ih =>
    intro byRound
    rw [List.foldl_cons, ih]
    by_cases inside : afterRound < sync.round ∧ sync.round ≤ throughRound ∧ (weight vs sync).isSome
    · rw [if_pos inside, Table.find?_replace_eq_ite]
      by_cases same : round = sync.round
      · rw [if_pos same, List.filter_cons_of_pos (by simpa [same] using inside),
          List.reverse_cons, List.append_assoc, same]
        rfl
      · rw [if_neg same, List.filter_cons_of_neg (by
          simp only [decide_eq_true_eq]
          exact fun kept => same kept.2.2.2.symm)]
    · rw [if_neg inside, List.filter_cons_of_neg (by
        simp only [decide_eq_true_eq]
        exact fun kept => inside ⟨kept.1, kept.2.1, kept.2.2.1⟩)]

theorem mem_descending {byRound : Table Int (List RoundSync)} {entry : Int × List RoundSync} :
    entry ∈ descending byRound ↔ byRound.find? entry.1 = some entry.2 := by
  rw [descending, List.mem_insertionSort, List.foldl_flip_cons_eq_append',
    List.append_nil, List.mem_reverse, ← Table.mem_toList]

theorem descending_pairwise (byRound : Table Int (List RoundSync)) :
    (descending byRound).Pairwise fun left right => right.1 ≤ left.1 := by
  have total : Std.Total fun left right : Int × List RoundSync =>
      right.1 ≤ left.1 := ⟨fun left right => le_total right.1 left.1⟩
  have transitive : IsTrans (Int × List RoundSync) fun left right =>
      right.1 ≤ left.1 := ⟨fun _ _ _ first second => second.trans first⟩
  exact List.pairwise_insertionSort _ _

end Rounds

/-! ## Soundness of witnesses -/

section Witnesses

variable {τ : Type} {t : RoundPool τ} {chainId : Bytes} {epochId : Int}
  {vs : ValidatorSet} {afterRound throughRound round : Int}

/-- Syncs of an epoch and a round that members sent. -/
def recorded (t : RoundPool τ) (epochId : Int) (vs : ValidatorSet) (round : Int) : List RoundSync :=
  t.byRound.values.filter fun sync =>
    decide (sync.epochId = epochId ∧ (weight vs sync).isSome ∧ sync.round = round)

theorem mem_recorded {sync : RoundSync} :
    sync ∈ t.recorded epochId vs round ↔
      sync ∈ t.byRound.values ∧ sync.epochId = epochId ∧
        (weight vs sync).isSome ∧ sync.round = round := by
  rw [recorded, List.mem_filter, decide_eq_true_eq]

/-- A round has one sync of each validator. -/
theorem Kept.nodup_recorded (kept : t.Kept) :
    ((t.recorded epochId vs round).map RoundSync.validator).Nodup := by
  have keys : t.byRound.toList.map Prod.fst = t.byRound.values.map roundKey := by
    unfold Table.values
    rw [List.map_map]
    refine List.map_congr_left fun entry listed => ?_
    exact (kept entry.1 entry.2 (Table.mem_toList.mp listed)).1
  have distinct : ((t.recorded epochId vs round).map roundKey).Nodup := by
    refine List.Nodup.sublist ?_ (keys ▸ t.byRound.nodup_keys)
    exact List.filter_sublist.map roundKey
  have same : (t.recorded epochId vs round).map roundKey =
      ((t.recorded epochId vs round).map RoundSync.validator).map fun validator =>
        intToString round ++ 0 :: validator := by
    rw [List.map_map]
    refine List.map_congr_left fun sync listed => ?_
    rw [roundKey, (mem_recorded.mp listed).2.2.2]
    rfl
  rw [same] at distinct
  exact distinct.of_map _

/-- What is grouped under a round of the interval is what is recorded. -/
theorem Kept.find?_groupRounds (kept : t.Kept) (vs : ValidatorSet) (epoch : t.epoch = some epochId)
    (after : afterRound < round) (through : round ≤ throughRound) :
    ((groupRounds vs afterRound throughRound t.byRound.values).find?
      round).getD [] = (t.recorded epochId vs round).reverse := by
  rw [RoundPool.find?_groupRounds, recorded]
  congr 1
  refine List.filter_congr fun sync listed => ?_
  obtain ⟨key, found⟩ := Table.mem_values.mp listed
  have own : sync.epochId = epochId := Option.some.inj ((kept key sync found).2.symm.trans epoch)
  rw [decide_eq_decide]
  constructor
  · exact fun inside => ⟨own, inside.2.2⟩
  · rintro ⟨-, member, same⟩
    exact ⟨by omega, by omega, member, same⟩

theorem justifies_recorded (syncs : List RoundSync) :
    Justifies chainId epochId vs syncs.reverse ↔ Justifies chainId epochId vs syncs :=
  Thresholds.meetsFrom_perm (List.reverse_perm syncs)

/-- A witness is made of recorded syncs of one round that justify a skip, and of
no lower round than others that do. -/
structure IsWitness (t : RoundPool τ) (chainId : Bytes) (epochId : Int)
    (vs : ValidatorSet) (afterRound throughRound round : Int)
    (proof : List RoundSync) : Prop where
  epoch : t.epoch = some epochId
  after : afterRound < round
  through : round ≤ throughRound
  recorded : ∀ sync ∈ proof, sync ∈ t.byRound.values
  own : ∀ sync ∈ proof, sync.epochId = epochId ∧ sync.round = round
  members : ∀ sync ∈ proof, vs.isValidator sync.validator = true
  distinct : (proof.map RoundSync.validator).Nodup
  reached : vs.roundSkipReachedAt (QuorumPolicy.forChain chainId) epochId
    proof.length (proof.map fun sync => vs.weightOf sync.validator).sum = true
  highest : ∀ later, round < later → later ≤ throughRound →
    ¬ Justifies chainId epochId vs (t.recorded epochId vs later)

/-- What is grouped are syncs of members. -/
theorem weighed_of_grouped {syncs : List RoundSync}
    (grouped : (groupRounds vs afterRound throughRound t.byRound.values).find?
      round = some syncs) :
    ∀ sync ∈ syncs, (weight vs sync).isSome ∧ afterRound < round ∧ round ≤ throughRound := by
  intro sync listed
  have same := find?_groupRounds afterRound throughRound t.byRound.values vs round
  rw [grouped, Option.getD_some] at same
  rw [same, List.mem_reverse, List.mem_filter, decide_eq_true_eq] at listed
  obtain ⟨-, after, through, member, rfl⟩ := listed
  exact ⟨member, after, through⟩

/-- A round whose recorded syncs justify a skip has a witness. -/
theorem Kept.takeWitness_ne_nil (kept : t.Kept) (sound : vs.Sound)
    (epoch : t.epoch = some epochId) (after : afterRound < round) (through : round ≤ throughRound)
    (justified : Justifies chainId epochId vs (t.recorded epochId vs round)) :
    ∃ syncs, (groupRounds vs afterRound throughRound t.byRound.values).find?
        round = some syncs ∧ takeWitness chainId epochId vs syncs ≠ [] := by
  have grouped := kept.find?_groupRounds vs epoch after through
  rw [← justifies_recorded, ← grouped] at justified
  cases found : (groupRounds vs afterRound throughRound t.byRound.values).find? round with
  | none =>
    rw [found] at justified
    have reached := Thresholds.meetsFrom_nil.mp justified
    rw [skipReached_zero sound] at reached
    cases reached
  | some syncs =>
    rw [found] at justified
    refine ⟨syncs, rfl, fun empty => ?_⟩
    have spec := @takeWitness_spec chainId epochId vs syncs sound
      fun sync listed => (weighed_of_grouped found sync listed).1
    exact spec.1.mp empty justified

theorem roundProof_eq_none_iff {syncs : List RoundSync} :
    roundProof chainId epochId vs syncs = none ↔ takeWitness chainId epochId vs syncs = [] := by
  unfold roundProof
  cases takeWitness chainId epochId vs syncs <;> simp

theorem roundProof_eq_some {syncs proof : List RoundSync}
    (found : roundProof chainId epochId vs syncs = some proof) :
    takeWitness chainId epochId vs syncs = proof ∧ proof ≠ [] := by
  unfold roundProof at found
  split at found
  · cases found
  · next nonempty =>
    obtain rfl := Option.some.inj found
    exact ⟨rfl, fun empty => nonempty empty⟩

/-- Without a witness no round of the interval justifies a skip. -/
theorem Kept.not_justified (kept : t.Kept) (sound : vs.Sound) (epoch : t.epoch = some epochId)
    (empty : t.witness chainId epochId vs afterRound throughRound = [])
    (after : afterRound < round) (through : round ≤ throughRound) :
    ¬ Justifies chainId epochId vs (t.recorded epochId vs round) := by
  intro justified
  obtain ⟨syncs, found, nonempty⟩ := kept.takeWitness_ne_nil sound epoch after through justified
  unfold witness at empty
  rw [if_neg (not_not.mpr epoch)] at empty
  dsimp only at empty
  cases search : (descending (groupRounds vs afterRound throughRound
      t.byRound.values)).findSome? fun entry => roundProof chainId epochId vs entry.2 with
  | none =>
    have dropped := List.findSome?_eq_none_iff.mp search (round, syncs) (mem_descending.mpr found)
    exact nonempty (roundProof_eq_none_iff.mp dropped)
  | some proof =>
    rw [search, Option.getD_some] at empty
    obtain ⟨-, entry, -, -, chosen, -⟩ := List.findSome?_eq_some_iff.mp search
    exact (roundProof_eq_some chosen).2 empty

theorem Kept.isWitness (kept : t.Kept) (sound : vs.Sound) (epoch : t.epoch = some epochId)
    (nonempty : t.witness chainId epochId vs afterRound throughRound ≠ []) :
    ∃ round, IsWitness t chainId epochId vs afterRound throughRound round
      (t.witness chainId epochId vs afterRound throughRound) := by
  unfold witness at nonempty ⊢
  rw [if_neg (not_not.mpr epoch)] at nonempty ⊢
  dsimp only at nonempty ⊢
  cases search : (descending (groupRounds vs afterRound throughRound
      t.byRound.values)).findSome? fun entry => roundProof chainId epochId vs entry.2 with
  | none =>
    rw [search] at nonempty
    exact absurd rfl nonempty
  | some proof =>
    rw [Option.getD_some]
    obtain ⟨before, ⟨round, syncs⟩, rest, split, chosen, passed⟩ :=
      List.findSome?_eq_some_iff.mp search
    obtain ⟨taken, some⟩ := roundProof_eq_some chosen
    have present : (round, syncs) ∈ descending (groupRounds vs afterRound
        throughRound t.byRound.values) := by
      rw [split]
      exact List.mem_append_right _ List.mem_cons_self
    have found : _ = Option.some syncs := mem_descending.mp present
    have weighed := weighed_of_grouped found
    have spec := @takeWitness_spec chainId epochId vs syncs sound
      fun sync listed => (weighed sync listed).1
    rw [taken] at spec
    obtain ⟨part, justified⟩ := spec.2 some
    obtain ⟨first, listed⟩ := List.exists_mem_of_ne_nil proof some
    obtain ⟨-, after, through⟩ := weighed first (part.subset listed)
    have grouped := kept.find?_groupRounds vs epoch after through
    rw [found, Option.getD_some] at grouped
    have inside : ∀ sync ∈ proof, sync ∈ t.recorded epochId vs round := by
      intro sync chosen
      have kept := part.subset chosen
      rwa [grouped, List.mem_reverse] at kept
    obtain ⟨part', perm, sublist⟩ := part
    refine ⟨round, epoch, after, through, ?_, ?_, ?_, ?_, ?_, ?_⟩
    · exact fun sync listed => (mem_recorded.mp (inside sync listed)).1
    · intro sync listed
      obtain ⟨-, own, -, same⟩ := mem_recorded.mp (inside sync listed)
      exact ⟨own, same⟩
    · intro sync listed
      obtain ⟨-, -, member, -⟩ := mem_recorded.mp (inside sync listed)
      exact sound.isValidator_iff.mpr (ValidatorSet.mem_members_iff.mpr member)
    · have distinct := @Kept.nodup_recorded τ t epochId vs round kept
      rw [← List.nodup_reverse, ← List.map_reverse, ← grouped] at distinct
      exact (perm.map RoundSync.validator).nodup_iff.mp
        (distinct.sublist (sublist.map RoundSync.validator))
    · have reached : skipReached chainId epochId vs (0 + proof.length)
          (0 + (proof.map (weigh vs)).sum) = true := justified
      rw [zero_add, zero_add] at reached
      exact reached
    · intro later more inside justified
      obtain ⟨syncs', found', nonempty'⟩ := kept.takeWitness_ne_nil sound epoch
        (after.trans more) inside justified
      have present' := (@mem_descending _ (later, syncs')).mpr found'
      have falling := descending_pairwise (groupRounds vs afterRound throughRound t.byRound.values)
      rw [split] at present' falling
      rcases List.mem_append.mp present' with earlier | here
      · exact nonempty' (roundProof_eq_none_iff.mp (passed _ earlier))
      · rcases List.mem_cons.mp here with same | below
        · exact absurd (Prod.mk.inj same).1 more.ne'
        · have least := List.rel_of_pairwise_cons (List.pairwise_append.mp falling).2.1 below
          exact absurd least (not_le.mpr more)

theorem IsWitness.justified {proof : List RoundSync} (sound : vs.Sound)
    (found : IsWitness t chainId epochId vs afterRound throughRound round proof) :
    Justifies chainId epochId vs (t.recorded epochId vs round) := by
  have part : proof.Subperm (t.recorded epochId vs round) := by
    refine (List.Nodup.of_map _ found.distinct).subperm fun sync listed => ?_
    obtain ⟨own, same⟩ := found.own sync listed
    exact mem_recorded.mpr ⟨found.recorded sync listed, own,
      ValidatorSet.weightOfAddr_isSome_of_isValidator (found.members sync listed), same⟩
  have reached : Justifies chainId epochId vs proof := by
    unfold Justifies Thresholds.Meets Thresholds.MeetsFrom
    rw [zero_add, zero_add]
    exact found.reached
  exact reached.of_subperm (rising_skipReached chainId epochId vs)
    (fun sync _ => sound.weightOf_nonneg sync.validator) part

/-- Nothing is recorded for an epoch that is not the pool's. -/
theorem Kept.recorded_eq_nil (kept : t.Kept) (other : t.epoch ≠ some epochId) :
    t.recorded epochId vs round = [] := by
  refine List.filter_eq_nil_iff.mpr fun sync listed => ?_
  obtain ⟨key, found⟩ := Table.mem_values.mp listed
  rw [decide_eq_true_eq]
  rintro ⟨rfl, -⟩
  exact other (kept key sync found).2

/-- What the pool gives out as a witness is made of syncs of its epoch by
different members, all of the highest round of the interval that justifies a
skip, and there is none when no round does. When the syncs are of the chain and
their signatures verify, relief accepts a witness of a late enough round. -/
theorem witness_accepted (sound : vs.Sound) (operations : List (Operation τ))
    (pool : t = create.run operations) :
    (t.witness chainId epochId vs afterRound throughRound = [] ↔
      ∀ round, afterRound < round → round ≤ throughRound →
        ¬ Justifies chainId epochId vs (t.recorded epochId vs round)) ∧
    (t.witness chainId epochId vs afterRound throughRound ≠ [] → ∃ round,
      IsWitness t chainId epochId vs afterRound throughRound round
          (t.witness chainId epochId vs afterRound throughRound) ∧
        ∀ verify : Bytes → RoundSync → Bool,
          (∀ sync ∈ t.byRound.values, sync.chainId = chainId) →
          (∀ sync ∈ t.byRound.values, ∀ pubkey,
            vs.pubkeyOfAddr sync.validator = some pubkey → verify pubkey sync = true) →
          Relief.minRound ≤ round →
          Relief.checkProof verify chainId epochId vs
              (t.witness chainId epochId vs afterRound throughRound) =
            .ok (round, sortByKey RoundSync.validator
              (t.witness chainId epochId vs afterRound throughRound))) := by
  have kept : t.Kept := pool ▸ kept_run operations kept_create
  by_cases epoch : t.epoch = some epochId
  · refine ⟨⟨fun empty round after through =>
      kept.not_justified sound epoch empty after through, fun unjustified => ?_⟩,
      fun nonempty => ?_⟩
    · by_contra nonempty
      obtain ⟨round, found⟩ := kept.isWitness sound epoch nonempty
      exact unjustified round found.after found.through (found.justified sound)
    · obtain ⟨round, found⟩ := kept.isWitness sound epoch nonempty
      refine ⟨round, found, fun verify ofChain signed late => ?_⟩
      apply Relief.checkProof_of_passes late nonempty found.distinct
      · intro sync listed
        obtain ⟨own, same⟩ := found.own sync listed
        have present := found.recorded sync listed
        obtain ⟨pubkey, known⟩ := ValidatorSet.exists_pubkeyOfAddr (found.members sync listed)
        exact ⟨ofChain sync present, own, same, pubkey, known, signed sync present pubkey known⟩
      · exact fun sync listed => sound.isValidator_iff.mp (found.members sync listed)
      · exact found.reached
  · have none : t.witness chainId epochId vs afterRound throughRound = [] := if_pos epoch
    refine ⟨⟨fun _ round _ _ justified => ?_, fun _ => none⟩,
      fun nonempty => absurd none nonempty⟩
    rw [kept.recorded_eq_nil epoch] at justified
    have reached := Thresholds.meetsFrom_nil.mp justified
    rw [skipReached_zero sound] at reached
    cases reached

end Witnesses

/-- Sync of a member for round 64 of an epoch on a chain. -/
def lateSync (chainId : Bytes) (name : UInt8) : RoundSync where
  chainId
  epochId := 5
  round := 64
  step := .prevoteStep
  request := false
  validator := [name]
  signature := List.replicate 64 name

/-- Pool with the late syncs of two members on a chain. -/
def latePool (chainId : Bytes) : RoundPool Unit :=
  create.run [.addAt () 60 (lateSync chainId 1), .addLocal () (lateSync chainId 2)]

/-- Four members of equal weight. -/
def lateSet : ValidatorSet :=
  buildValidatorSet true ([1, 2, 3, 4].map fun name => (⟨[name], List.replicate 32 name⟩, 1))

/-- A witness of syncs of another chain is refused, though all signatures
verify. -/
theorem witness_otherChain :
    (latePool [9]).witness [] 5 lateSet 0 100 = [lateSync [9] 1, lateSync [9] 2] ∧
      Relief.minRound ≤ 64 ∧
      Relief.checkProof (fun _ _ => true) [] 5 lateSet
          ((latePool [9]).witness [] 5 lateSet 0 100) =
        .error "validator relief proof chain differs" := by
  decide +kernel

/-- Two late members justify a skip, and relief accepts their syncs. -/
theorem witness_accepted_late :
    ∃ round, Relief.checkProof (fun _ _ => true) [] 5 lateSet
        ((latePool []).witness [] 5 lateSet 0 100) =
      .ok (round, [lateSync [] 1, lateSync [] 2]) := by
  have sound : lateSet.Sound := ValidatorSet.sound_build (by decide) true
  have syncs : (latePool []).witness [] 5 lateSet 0 100 =
      [lateSync [] 1, lateSync [] 2] := by decide +kernel
  have sorted : sortByKey RoundSync.validator [lateSync [] 1, lateSync [] 2] =
      [lateSync [] 1, lateSync [] 2] := by decide +kernel
  have stored : (latePool []).byRound.values = [lateSync [] 2, lateSync [] 1] := by decide +kernel
  have accepted := (@witness_accepted Unit (latePool []) [] 5 lateSet 0 100 sound
    [.addAt () 60 (lateSync [] 1), .addLocal () (lateSync [] 2)] rfl).2
  rw [syncs, stored] at accepted
  obtain ⟨round, found, accepts⟩ := accepted (List.cons_ne_nil _ _)
  have late : 64 = round := (found.own (lateSync [] 1) List.mem_cons_self).2
  refine ⟨round, ?_⟩
  rw [syncs, accepts (fun _ _ => true) (by decide) (fun _ _ _ _ => rfl) (late ▸ le_rfl), sorted]

end RoundPool
end LiteNode
