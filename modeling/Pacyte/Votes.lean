/-
# The vote manager

`VoteManager` of `src/consensus/vote.rs`: for every height the votes of one round, by
type and block hash, and the keys of all votes that were ever accepted.

Signatures are verified outside (`Verifiers`).  Every lock is taken through `guarded`,
so a run also tells whether the call has asked for a lock that it holds itself; the
locks of the validator manager are recorded there.
-/
import Pacyte.Validators

open Locks

/-- `Ed25519Verifier::verify` and `Dilithium5Verifier::verify`, of a message, a signature
and a public key. -/
class Verifiers where
  ed25519 : Hash → Signature → Bytes → Bool
  dilithium5 : Hash → Signature → Bytes → Bool

/-! ## Votes of a height -/

/-- `RoundVotes`. -/
structure RoundVotes where
  round : UInt64
  prevotes : Map Hash (List Vote)
  precommits : Map Hash (List Vote)

namespace RoundVotes

/-- `RoundVotes::new`. -/
def new (round : UInt64) : RoundVotes := ⟨round, ∅, ∅⟩

/-- The map for a type of vote. -/
def voteMap (rv : RoundVotes) : VoteType → Map Hash (List Vote)
  | .prevote => rv.prevotes
  | .precommit => rv.precommits

/-- The votes of a type for a block. -/
def votesFor (rv : RoundVotes) (voteType : VoteType) (blockHash : Hash) : List Vote :=
  ((rv.voteMap voteType).lookup blockHash).getD []

/-- The votes of a type for a block are replaced. -/
def setVotes (rv : RoundVotes) (voteType : VoteType) (blockHash : Hash) (votes : List Vote) :
    RoundVotes :=
  match voteType with
  | .prevote => { rv with prevotes := rv.prevotes.insert blockHash votes }
  | .precommit => { rv with precommits := rv.precommits.insert blockHash votes }

end RoundVotes

/-- `VoteKey`. -/
structure VoteKey where
  height : BlockHeight
  round : UInt64
  voteType : ℕ
  voter : UInt64
  deriving DecidableEq, Repr

/-- The key of a vote in `seen_votes`. -/
def Vote.key (vote : Vote) : VoteKey := ⟨vote.height, vote.round, vote.voteType.toNat, vote.voter⟩

/-- `VoteResult`. -/
inductive VoteResult : Type where
  | added (quorumReached : Bool)
  | alreadySeen
  deriving DecidableEq, Repr

/-! ## The manager -/

/-- The locks of a `VoteManager`. -/
inductive VoteLock : Type where
  | votes
  | seenVotes
  deriving DecidableEq, Repr

/-- `VoteManager`, with the clock and the locks that the running call holds. -/
structure VoteManager where
  validatorManager : ValidatorManager
  votes : Map BlockHeight RoundVotes
  seenVotes : Finset VoteKey
  clock : Clock
  guards : Guards VoteLock

namespace VoteManager

/-- `VoteManager::new`. -/
def new (validatorManager : ValidatorManager) (clock : Clock) : VoteManager where
  validatorManager := validatorManager
  votes := ∅
  seenVotes := ∅
  clock := clock
  guards := Guards.free

/-- Run a program while a guard of one of the manager's locks is held. -/
def guarded {α : Type} (l : VoteLock) (m : Mode) (body : Exec PacyteError VoteManager α) :
    Exec PacyteError VoteManager α :=
  Exec.guarded (·.guards) (fun g s => { s with guards := g }) l m body

/-- A call of the validator manager. -/
def onValidators {α : Type} (m : Exec PacyteError ValidatorManager α) :
    Exec PacyteError VoteManager α :=
  Exec.onPart (·.validatorManager) (fun vm s => { s with validatorManager := vm }) m

/-- The votes of a round, if the store has this round for the height. -/
def roundVotes (s : VoteManager) (height : BlockHeight) (round : UInt64) : Option RoundVotes :=
  (s.votes.lookup height).filter fun rv => rv.round = round

/-- The votes that the store has for a block. -/
def votesAt (s : VoteManager) (height : BlockHeight) (round : UInt64) (blockHash : Hash)
    (voteType : VoteType) : List Vote :=
  match s.roundVotes height round with
  | some rv => rv.votesFor voteType blockHash
  | none => []

section Validate

variable [Primitives] [Verifiers]

/-- `VoteManager::verify_vote_signature`. -/
def verifyVoteSignature (vote : Vote) (publicKey : Bytes) : Bool :=
  if vote.signature.length = 64 then Verifiers.ed25519 vote.signingHash vote.signature publicKey
  else if vote.signature.length = 4595 then
    Verifiers.dilithium5 vote.signingHash vote.signature publicKey
  else false

/-- `VoteManager::validate_vote`. -/
def validateVote (vote : Vote) : Exec PacyteError VoteManager Unit := do
  let found ← onValidators (ValidatorManager.getValidator vote.voter)
  match found with
  | none => Exec.throw (.validatorNotFound vote.voter)
  | some validator =>
    if !validator.isActive then
      Exec.throw (.validatorInactive vote.voter)
    else if !verifyVoteSignature vote validator.publicKey then
      Exec.throw .invalidSignature
    else
      let now ← Exec.onPart (·.clock) (fun c s => { s with clock := c }) currentTimestamp
      let latest ← Exec.addU64 now 10
      if latest < vote.timestamp then
        Exec.throw .invalidTimestamp
      else
        let earliest ← Exec.subU64 now 60
        if vote.timestamp < earliest then
          Exec.throw .invalidTimestamp
        else
          return ()

end Validate

/-- The voting power of the validators of some votes, from a start value. -/
def sumPower : UInt64 → List Vote → Exec PacyteError VoteManager UInt64
  | acc, [] => return acc
  | acc, vote :: rest => do
    let found ← onValidators (ValidatorManager.getValidator vote.voter)
    match found with
    | none => sumPower acc rest
    | some validator =>
      let acc ← Exec.addU64 acc validator.votingPower
      sumPower acc rest

/-- `VoteManager::get_voting_power_for_votes`. -/
def getVotingPowerForVotes (height : BlockHeight) (round : UInt64) (blockHash : Hash)
    (voteType : VoteType) : Exec PacyteError VoteManager UInt64 :=
  guarded .votes .read do
    let s ← Exec.get
    match s.roundVotes height round with
    | none => return 0
    | some rv =>
      match (rv.voteMap voteType).lookup blockHash with
      | none => return 0
      | some votes => sumPower 0 votes

/-- `VoteManager::check_quorum`. -/
def checkQuorum (height : BlockHeight) (round : UInt64) (blockHash : Hash) (voteType : VoteType) :
    Exec PacyteError VoteManager Bool :=
  guarded .votes .read do
    let s ← Exec.get
    match s.roundVotes height round with
    | none => return false
    | some _ =>
      let totalVotingPower ← getVotingPowerForVotes height round blockHash voteType
      let activeValidators ← onValidators ValidatorManager.activeCount
      return decide (activeValidators * 2 / 3 + 1 ≤ totalVotingPower.toNat)

/-- The votes of the height, for the round of the vote. -/
def currentRound (s : VoteManager) (vote : Vote) : RoundVotes :=
  match s.votes.lookup vote.height with
  | none => RoundVotes.new vote.round
  | some rv => if rv.round ≠ vote.round then RoundVotes.new vote.round else rv

/-- The vote's entry in the store, with these votes. -/
def putVotes (vote : Vote) (votes : List Vote) (s : VoteManager) : VoteManager :=
  { s with
    votes := s.votes.insert vote.height
      ((s.currentRound vote).setVotes vote.voteType vote.blockHash votes) }

/-- `VoteManager::store_vote`.  The store stays locked while the quorum is checked. -/
def storeVote (vote : Vote) : Exec PacyteError VoteManager Bool :=
  guarded .votes .write do
    let s ← Exec.get
    let votesForBlock := (s.currentRound vote).votesFor vote.voteType vote.blockHash
    if votesForBlock.any fun v => v.voter = vote.voter then
      -- the entry is made, but nothing is added
      Exec.modify (putVotes vote votesForBlock)
      return false
    else
      Exec.modify (putVotes vote (votesForBlock ++ [vote]))
      checkQuorum vote.height vote.round vote.blockHash vote.voteType

/-- `VoteManager::detect_double_voting`. -/
def detectDoubleVoting (vote : Vote) : Exec PacyteError VoteManager Bool :=
  guarded .votes .read do
    let s ← Exec.get
    match s.roundVotes vote.height vote.round with
    | none => return false
    | some rv =>
      return (rv.voteMap vote.voteType).toPairs.any fun e =>
        decide (e.1 ≠ vote.blockHash) && e.2.any fun v => v.voter = vote.voter

/-- The check of `seen_votes`: whether the key is new, and then it is added. -/
def recordKey (vote : Vote) : Exec PacyteError VoteManager Bool :=
  guarded .seenVotes .write do
    let s ← Exec.get
    if vote.key ∈ s.seenVotes then
      return false
    else
      Exec.modify fun s => { s with seenVotes := insert vote.key s.seenVotes }
      return true

/-- `VoteManager::add_vote`. -/
def addVote [Primitives] [Verifiers] (vote : Vote) : Exec PacyteError VoteManager VoteResult := do
  validateVote vote
  let fresh ← recordKey vote
  if !fresh then
    return .alreadySeen
  else
    let quorumReached ← storeVote vote
    let double ← detectDoubleVoting vote
    if double then
      Exec.attempt (onValidators (ValidatorManager.slashDoubleSign vote.voter))
      Exec.throw (.doubleVoting vote.voter)
    else
      return .added quorumReached

/-- `VoteManager::get_vote_count`. -/
def getVoteCount (height : BlockHeight) (round : UInt64) (blockHash : Hash) (voteType : VoteType) :
    Exec PacyteError VoteManager ℕ :=
  guarded .votes .read do
    let s ← Exec.get
    return (s.votesAt height round blockHash voteType).length

/-- `VoteManager::has_quorum`. -/
def hasQuorum (height : BlockHeight) (round : UInt64) (blockHash : Hash) (voteType : VoteType) :
    Exec PacyteError VoteManager Bool :=
  checkQuorum height round blockHash voteType

/-- `VoteManager::clear_round`. -/
def clearRound (height : BlockHeight) : Exec PacyteError VoteManager Unit :=
  guarded .votes .write (Exec.modify fun s => { s with votes := s.votes.erase height })

/-- The heights that `prune_old_heights` removes: the lowest ones. -/
def pruned (keepLast : ℕ) (heights : List BlockHeight) : List BlockHeight :=
  (heights.insertionSort fun a b => a ≤ b).take (heights.length - keepLast)

/-- `VoteManager::prune_old_heights`. -/
def pruneOldHeights (keepLast : ℕ) : Exec PacyteError VoteManager Unit :=
  guarded .votes .write (Exec.modify fun s => { s with
    votes := (pruned keepLast s.votes.keys).foldl (fun votes height => votes.erase height) s.votes })

end VoteManager

namespace Sample

/-- A signature is the message followed by the key. -/
scoped instance signatures : Verifiers where
  ed25519 message signature publicKey := decide (signature = message.toList ++ publicKey)
  dilithium5 _ _ _ := false

/-- A vote at height 1 and time 1000, signed with the key of the byte. -/
def ballot [Primitives] (voter : UInt64) (byte : UInt8) (round : UInt64) (voteType : VoteType)
    (blockHash : Hash) : Vote :=
  (Vote.new 1 round blockHash voter voteType 1000).signed
    (some fun message => message.toList ++ List.replicate 32 byte)

/-- The vote manager over a registry, at time 1000. -/
def voteManager (entries : List (UInt8 × U128)) : VoteManager :=
  VoteManager.new (registry inOrder entries) fun _ => 1000

end Sample
