/-
# Proposals, votes and validators

The types of `src/consensus/mod.rs`: configuration, proposals, votes, the
validator set, commands and events; the two messages of
`src/network/message.rs` that the engine sends; and what the engine uses of the
traits `Network` and `Mempool`.

The mempool shares the state manager with the engine: it looks up accounts in
it and does nothing else with it (`LawfulMempool`).
-/
import Pacyte.StateManager

/-! ## Proposals and votes -/

inductive VoteType : Type where
  | prevote
  | precommit
  deriving DecidableEq, Repr

/-- `vote_type as u8`. -/
def VoteType.toNat : VoteType → ℕ
  | prevote => 1
  | precommit => 2

structure Proposal where
  height : BlockHeight
  round : UInt64
  block : Block
  proposer : UInt64
  signature : Signature
  timestamp : Timestamp
  deriving DecidableEq, Repr

structure Vote where
  height : BlockHeight
  round : UInt64
  blockHash : Hash
  voter : UInt64
  voteType : VoteType
  signature : Signature
  timestamp : Timestamp
  deriving DecidableEq, Repr

section Hashes

variable [Primitives]

/-- `Proposal::hash`. -/
def Proposal.hash (proposal : Proposal) : Hash := proposal.block.hash

/-- `Proposal::signing_hash`. -/
def Proposal.signingHash (proposal : Proposal) : Hash :=
  Primitives.sha3_256 (leBytes 8 proposal.height.toNat ++ leBytes 8 proposal.round.toNat ++
    proposal.block.hash.toList ++ leBytes 8 proposal.proposer.toNat ++
    leBytes 8 proposal.timestamp.toNat)

/-- `Vote::signing_hash`. -/
def Vote.signingHash (vote : Vote) : Hash :=
  Primitives.sha3_256 (leBytes 8 vote.height.toNat ++ leBytes 8 vote.round.toNat ++
    vote.blockHash.toList ++ leBytes 8 vote.voter.toNat ++ leBytes 1 vote.voteType.toNat ++
    leBytes 8 vote.timestamp.toNat)

/-- `Proposal::new` at the clock reading `now`. -/
def Proposal.new (height : BlockHeight) (round : UInt64) (block : Block) (proposer : UInt64)
    (now : Timestamp) : Proposal :=
  { height := height, round := round, block := block, proposer := proposer
    signature := [], timestamp := now }

/-- `Vote::new` at the clock reading `now`. -/
def Vote.new (height : BlockHeight) (round : UInt64) (blockHash : Hash) (voter : UInt64)
    (voteType : VoteType) (now : Timestamp) : Vote :=
  { height := height, round := round, blockHash := blockHash, voter := voter
    voteType := voteType, signature := [], timestamp := now }

/-- A proposal signed by a node that has a signer. -/
def Proposal.signed (proposal : Proposal) (signer : Option (Hash → Signature)) : Proposal :=
  match signer with
  | some sign => { proposal with signature := sign proposal.signingHash }
  | none => proposal

/-- A vote signed by a node that has a signer. -/
def Vote.signed (vote : Vote) (signer : Option (Hash → Signature)) : Vote :=
  match signer with
  | some sign => { vote with signature := sign vote.signingHash }
  | none => vote

end Hashes

/-! ## Validators -/

structure ValidatorInfo where
  id : UInt64
  address : Address
  publicKey : Bytes
  stake : U128
  votingPower : UInt64
  isActive : Bool
  deriving DecidableEq, Repr

structure ValidatorSet where
  validators : List ValidatorInfo
  totalStake : U128
  epoch : UInt64
  deriving DecidableEq, Repr

namespace ValidatorSet

/-- `ValidatorSet::new`. -/
def new : ValidatorSet := ⟨[], 0, 0⟩

/-- `ValidatorSet::get_validator`. -/
def getValidator (set : ValidatorSet) (id : UInt64) : Option ValidatorInfo :=
  set.validators.find? fun v => v.id = id

/-- `ValidatorSet::get_proposer`: round robin over all validators. -/
def getProposer {ε τ : Type} (set : ValidatorSet) (height : BlockHeight) (round : UInt64) :
    Exec ε τ (Option ValidatorInfo) :=
  if set.validators.isEmpty then
    return none
  else do
    let sum ← Exec.addU64 height round
    return set.validators[sum.toNat % set.validators.length]?

/-- `ValidatorSet::active_count`. -/
def activeCount (set : ValidatorSet) : ℕ := set.validators.countP fun v => v.isActive

/-- The number of votes that `check_prevote_quorum` and `check_precommit_quorum`
ask for. -/
def quorum (set : ValidatorSet) : ℕ := set.activeCount * 2 / 3 + 1

/-- The id belongs to a validator of the set. -/
def Member (set : ValidatorSet) (id : UInt64) : Prop := ∃ v ∈ set.validators, v.id = id

instance (set : ValidatorSet) (id : UInt64) : Decidable (set.Member id) :=
  inferInstanceAs (Decidable (∃ v ∈ set.validators, v.id = id))

end ValidatorSet

/-! ## Configuration, commands and events -/

/-- The fields of `ConsensusConfig` that the engine reads. -/
structure ConsensusConfig where
  maxBlockSize : ℕ
  maxRounds : UInt64
  deriving DecidableEq, Repr

inductive ConsensusState : Type where
  | idle
  | proposing
  | prevoting
  | precommitting
  | committed
  | waitingForBlock
  | syncing
  deriving DecidableEq, Repr

inductive ConsensusCommand : Type where
  | propose (height : BlockHeight) (round : UInt64)
  | proposalReceived (proposal : Proposal)
  | voteReceived (vote : Vote)
  | timeout (height : BlockHeight) (round : UInt64)
  | newBlock (block : Block)
  | synced (height : BlockHeight)
  | stop
  deriving DecidableEq, Repr

inductive ConsensusEvent : Type where
  | blockCommitted (block : Block) (height : BlockHeight)
  | newRound (height : BlockHeight) (round : UInt64)
  | proposalSent (height : BlockHeight) (round : UInt64)
  | voteSent (height : BlockHeight) (round : UInt64) (voteType : VoteType)
  | quorumReached (height : BlockHeight) (round : UInt64) (voteType : VoteType)
  deriving DecidableEq, Repr

/-! ## The network -/

/-- A proposal on the wire: without its timestamp. -/
structure ConsensusProposal where
  height : BlockHeight
  round : UInt64
  block : Block
  proposer : UInt64
  signature : Signature
  deriving DecidableEq, Repr

/-- A vote on the wire: without its timestamp. -/
structure ConsensusVote where
  height : BlockHeight
  round : UInt64
  blockHash : Hash
  voter : UInt64
  voteType : VoteType
  signature : Signature
  deriving DecidableEq, Repr

/-- `From<Proposal> for ConsensusProposal`. -/
def Proposal.wire (p : Proposal) : ConsensusProposal :=
  ⟨p.height, p.round, p.block, p.proposer, p.signature⟩

/-- `From<Vote> for ConsensusVote`. -/
def Vote.wire (v : Vote) : ConsensusVote :=
  ⟨v.height, v.round, v.blockHash, v.voter, v.voteType, v.signature⟩

/-- The messages the engine sends. -/
inductive NetworkMessage : Type where
  | proposal (data : ConsensusProposal)
  | vote (data : ConsensusVote)
  deriving DecidableEq, Repr

/-- What the engine uses of the `Network` trait. -/
class Network (ν : Type) where
  broadcast : NetworkMessage → Exec PacyteError ν Unit

/-! ## The mempool -/

/-- What the engine uses of the `Mempool` trait.  Neither operation returns an
error. -/
class Mempool (μ σ : Type) where
  selectForBlock : ℕ → ℕ → Exec Empty (μ × StateManager σ) (List Transaction)
  cleanup : List Hash → Exec Empty (μ × StateManager σ) Unit

/-- The state manager after a sequence of account lookups. -/
def StateManager.lookups {σ : Type} [Storage σ] (addresses : List Address) (sm : StateManager σ) :
    StateManager σ :=
  addresses.foldl (fun sm a => (StateManager.getAccount a sm).2) sm

/-- A mempool that looks up accounts in the state manager and does nothing else
with it. -/
class LawfulMempool (μ σ : Type) [Storage σ] extends Mempool μ σ where
  selectForBlock_lookups (count size : ℕ) (m : μ) (sm : StateManager σ) :
    ∃ as, (selectForBlock count size (m, sm)).2.2 = sm.lookups as
  cleanup_lookups (hashes : List Hash) (m : μ) (sm : StateManager σ) :
    ∃ as, (cleanup hashes (m, sm)).2.2 = sm.lookups as

/-! ## A mempool without transactions and a network that never fails -/

namespace Sample

/-- A mempool that holds no transaction. -/
structure EmptyPool where

instance (σ : Type) [Storage σ] : LawfulMempool EmptyPool σ where
  selectForBlock _ _ := return []
  cleanup _ := return ()
  selectForBlock_lookups _ _ _ _ := ⟨[], rfl⟩
  cleanup_lookups _ _ _ := ⟨[], rfl⟩

/-- A network on which every broadcast succeeds. -/
structure OpenNetwork where

instance : Network OpenNetwork where
  broadcast _ := return ()

end Sample
