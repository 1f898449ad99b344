import LiteNode.Data.Table
import LiteNode.Types.Messages
import LiteNode.Types.Soundness

/-!
# Vote sets

The tables in which the engine counts votes. The counters are kept up to date
one vote at a time; `Consistent` says that they agree with the stored votes,
and the three ways of reading off a quorum are compared under it.
-/

namespace LiteNode

structure VoteSet where
  votes : Table Bytes Vote
  byPid : Table Bytes Int
  byPidWeight : Table Bytes Int
  countNil : Int
  countTotal : Int
  weightNil : Int
  weightTotal : Int

inductive VoteAddResult
  | duplicate
  | rejected
  | added
  | quorumAny
  | quorumOf (proposalId : Bytes)
  deriving DecidableEq

def createVoteSet : VoteSet where
  votes := ∅
  byPid := ∅
  byPidWeight := ∅
  countNil := 0
  countTotal := 0
  weightNil := 0
  weightTotal := 0

instance : Inhabited VoteSet := ⟨createVoteSet⟩

namespace VoteSet

def countForPid (votes : VoteSet) (pid : Bytes) : Int := (votes.byPid.find? pid).getD 0

def weightForPid (votes : VoteSet) (pid : Bytes) : Int := (votes.byPidWeight.find? pid).getD 0

def nilQuorum (policy : QuorumPolicy) (votes : VoteSet) (epochId : Int)
    (vs : ValidatorSet) : Bool :=
  vs.quorumReachedAt policy epochId votes.countNil votes.weightNil

/-- Count a vote, and report whether its proposal id, or all votes together,
reach a quorum. -/
def addVote (policy : QuorumPolicy) (votes : VoteSet) (v : Vote)
    (vs : ValidatorSet) : VoteSet × VoteAddResult :=
  if votes.votes.mem v.validator then (votes, .duplicate)
  else
    match vs.weightOfAddr v.validator with
    | none => (votes, .rejected)
    | some weight =>
      let votes := { votes with
        votes := votes.votes.replace v.validator v
        countTotal := votes.countTotal + 1
        weightTotal := votes.weightTotal + weight }
      if isNil v.proposalId then
        let votes := { votes with
          countNil := votes.countNil + 1
          weightNil := votes.weightNil + weight }
        (votes, if votes.nilQuorum policy v.epochId vs then .quorumOf v.proposalId
          else if vs.quorumReachedAt policy v.epochId votes.countTotal
              votes.weightTotal then .quorumAny
          else .added)
      else
        let count := votes.countForPid v.proposalId + 1
        let proposalWeight := votes.weightForPid v.proposalId + weight
        let votes := { votes with
          byPid := votes.byPid.replace v.proposalId count
          byPidWeight := votes.byPidWeight.replace v.proposalId proposalWeight }
        (votes,
          if vs.quorumReachedAt policy v.epochId count proposalWeight then .quorumOf v.proposalId
          else if vs.quorumReachedAt policy v.epochId votes.countTotal
              votes.weightTotal then .quorumAny
          else .added)

/-- Count the votes of a list one after the other. -/
def addVotes (policy : QuorumPolicy) (vs : ValidatorSet) (votes : VoteSet)
    (list : List Vote) : VoteSet :=
  list.foldl (fun counted vote => (counted.addVote policy vote vs).1) votes

/-- Count all votes of one set again with the weights of another. -/
def projectVotes (policy : QuorumPolicy) (vs : ValidatorSet) (votes : VoteSet) : VoteSet :=
  addVotes policy vs createVoteSet votes.votes.values

/-- Least proposal id that is not nil and has a quorum. -/
def quorumPid (policy : QuorumPolicy) (epochId : Int) (vs : ValidatorSet)
    (votes : VoteSet) : Option Bytes :=
  votes.byPidWeight.toList.foldl
    (fun found entry =>
      let signerCount := votes.countForPid entry.1
      if isNil entry.1 ||
          !vs.quorumReachedAt policy epochId signerCount entry.2 then found
      else
        match found with
        | none => some entry.1
        | some prior => if prior ≤ entry.1 then some prior else some entry.1)
    none

/-- What the counted votes decide. -/
def quorumResult (policy : QuorumPolicy) (votes : VoteSet) (epochId : Int)
    (vs : ValidatorSet) : VoteAddResult :=
  let proposalId := votes.byPidWeight.toList.foldl
    (fun found entry =>
      match found with
      | some _ => found
      | none =>
        if vs.quorumReachedAt policy epochId (votes.countForPid entry.1) entry.2 then some entry.1
        else none)
    none
  match proposalId with
  | some pid => .quorumOf pid
  | none =>
    if votes.nilQuorum policy epochId vs then .quorumOf nilHash
    else if vs.quorumReachedAt policy epochId votes.countTotal votes.weightTotal then .quorumAny
    else .added

end VoteSet
end LiteNode
