/-
# The consensus engine

`HotStuffEngine` of `src/consensus/engine.rs`: every function of the engine, the
start of `run`, and the command loop (`Node.step`, `Node.run`).

The engine's storage is the one its state manager holds, and its clock is the
clock of that machine.  Two fields are not in the source; they record what the
properties speak about and no function reads them.

* `sent`: every message handed to `network.broadcast`, whether or not the call
  then failed.
* `commits`: every block that `commit_block` saved, with the certificate, that
  is, the arguments of the `check_precommit_quorum` that called it.

A panic ends the thread that runs the loop, and so does an error of the
start-up; errors of single commands are dropped.
-/
import Pacyte.Consensus

/-- The arguments of a `check_precommit_quorum` that found a quorum. -/
structure Certificate where
  height : BlockHeight
  round : UInt64
  blockHash : Hash
  deriving DecidableEq, Repr

/-- A block that was saved, and the certificate it was saved for. -/
structure Commit where
  certificate : Certificate
  block : Block
  deriving DecidableEq, Repr

/-- The votes of one kind: by height, then by block hash. -/
abbrev VoteBook := Map BlockHeight (Map Hash (List Vote))

/-- The votes recorded for a height and a block hash. -/
def VoteBook.votes (book : VoteBook) (height : BlockHeight) (blockHash : Hash) : List Vote :=
  ((book.lookup height).bind fun byHash => byHash.lookup blockHash).getD []

/-- One branch of `add_vote`: a second vote of a voter for the same height and
hash is dropped. -/
def VoteBook.add (book : VoteBook) (vote : Vote) : VoteBook :=
  let byHash := (book.lookup vote.height).getD ∅
  let votes := (byHash.lookup vote.blockHash).getD []
  let votes := if votes.any fun v => v.voter = vote.voter then votes else votes ++ [vote]
  book.insert vote.height (byHash.insert vote.blockHash votes)

/-- `HotStuffEngine`. -/
structure Engine (σ μ ν : Type) where
  config : ConsensusConfig
  state : ConsensusState
  height : BlockHeight
  round : UInt64
  validatorSet : ValidatorSet
  myValidatorId : Option UInt64
  signer : Option (Hash → Signature)
  prevotes : VoteBook
  precommits : VoteBook
  currentProposal : Option Proposal
  lockedProposal : Option Proposal
  committedBlocks : List Hash
  stateManager : StateManager σ
  mempool : μ
  network : ν
  /-- The commands the engine has sent to itself. -/
  commands : List ConsensusCommand
  events : List ConsensusEvent
  roundStartTime : Option Timestamp
  sent : List NetworkMessage
  commits : List Commit

namespace Engine

variable {σ μ ν : Type} {α : Type}

/-! ## Parts -/

/-- A program on the state manager. -/
def onState (m : Exec PacyteError (StateManager σ) α) : Exec PacyteError (Engine σ μ ν) α :=
  Exec.onPart (·.stateManager) (fun sm e => { e with stateManager := sm }) m

/-- A storage operation. -/
def onStorage (m : Exec PacyteError σ α) : Exec PacyteError (Engine σ μ ν) α :=
  onState (StateManager.onStorage m)

/-- A program that reads the clock. -/
def onClock (m : Exec PacyteError Clock α) : Exec PacyteError (Engine σ μ ν) α :=
  onState (StateManager.onClock m)

/-- A mempool operation. -/
def onMempool (m : Exec Empty (μ × StateManager σ) α) : Exec PacyteError (Engine σ μ ν) α :=
  Exec.onPart (fun e => (e.mempool, e.stateManager))
    (fun p e => { e with mempool := p.1, stateManager := p.2 }) (Exec.infallible m)

/-- `event_tx.send`. -/
def emit (event : ConsensusEvent) : Exec PacyteError (Engine σ μ ν) Unit :=
  Exec.modify fun e => { e with events := e.events ++ [event] }

/-- `network.broadcast`, and a note of the message. -/
def broadcast [Network ν] (message : NetworkMessage) : Exec PacyteError (Engine σ μ ν) Unit := do
  Exec.modify fun e => { e with sent := e.sent ++ [message] }
  Exec.onPart (·.network) (fun n e => { e with network := n }) (Network.broadcast message)

/-- `my_validator_id.ok_or(NotValidator)`. -/
def requireId : Exec PacyteError (Engine σ μ ν) UInt64 := do
  let e ← Exec.get
  match e.myValidatorId with
  | some id => return id
  | none => Exec.throw .notValidator

/-! ## Construction -/

/-- `HotStuffEngine::new`. -/
def new (config : ConsensusConfig) (stateManager : StateManager σ) (mempool : μ) (network : ν) :
    Engine σ μ ν where
  config := config
  state := .idle
  height := 0
  round := 0
  validatorSet := ValidatorSet.new
  myValidatorId := none
  signer := none
  prevotes := ∅
  precommits := ∅
  currentProposal := none
  lockedProposal := none
  committedBlocks := []
  stateManager := stateManager
  mempool := mempool
  network := network
  commands := []
  events := []
  roundStartTime := none
  sent := []
  commits := []

/-- `HotStuffEngine::set_validator`. -/
def setValidator (id : UInt64) (signer : Hash → Signature) (e : Engine σ μ ν) : Engine σ μ ν :=
  { e with myValidatorId := some id, signer := some signer }

/-- `HotStuffEngine::update_validator_set`. -/
def updateValidatorSet (set : ValidatorSet) (e : Engine σ μ ν) : Engine σ μ ν :=
  { e with validatorSet := set }

/-! ## Rounds and proposals -/

section Handlers

variable [Primitives] [Storage σ] [Mempool μ σ] [Network ν]

/-- `get_proposer`. -/
def getProposer (height : BlockHeight) (round : UInt64) :
    Exec PacyteError (Engine σ μ ν) (Option UInt64) := do
  let e ← Exec.get
  let proposer ← e.validatorSet.getProposer height round
  return proposer.map (·.id)

/-- `am_i_proposer`. -/
def amIProposer (height : BlockHeight) (round : UInt64) :
    Exec PacyteError (Engine σ μ ν) Bool := do
  let e ← Exec.get
  match e.myValidatorId with
  | some myId =>
    let proposer ← getProposer height round
    return decide (proposer = some myId)
  | none => return false

/-- `create_block`.  The height of the missing block in the error is computed by
an unchecked subtraction. -/
def createBlock (height : BlockHeight) : Exec PacyteError (Engine σ μ ν) Block := do
  match ← onStorage Storage.getLatestBlock with
  | none =>
    let missing ← Exec.subU64 height 1
    Exec.throw (.blockNotFound missing)
  | some prevBlock =>
    let prevHash := prevBlock.hash
    let e ← Exec.get
    let txs ← onMempool (Mempool.selectForBlock 10000 e.config.maxBlockSize)
    let proposer ← requireId
    let proposerAddress := ((e.validatorSet.getValidator proposer).map (·.address)).getD zero32
    let now ← onClock currentTimestamp
    return Block.new height prevHash txs proposerAddress now

/-- `create_proposal`. -/
def createProposal (height : BlockHeight) (round : UInt64) (block : Block) :
    Exec PacyteError (Engine σ μ ν) Proposal := do
  let proposer ← requireId
  let now ← onClock currentTimestamp
  let e ← Exec.get
  return (Proposal.new height round block proposer now).signed e.signer

/-- `broadcast_proposal`: to the network, and to the own command queue. -/
def broadcastProposal (proposal : Proposal) : Exec PacyteError (Engine σ μ ν) Unit := do
  broadcast (.proposal proposal.wire)
  Exec.modify fun e => { e with commands := e.commands ++ [.proposalReceived proposal] }

/-- `start_new_round`. -/
def startNewRound (height : BlockHeight) (round : UInt64) :
    Exec PacyteError (Engine σ μ ν) Unit := do
  Exec.modify fun e => { e with round := round }
  let now ← onClock currentTimestamp
  Exec.modify fun e => { e with roundStartTime := some now, state := .proposing }
  emit (.newRound height round)
  if ← amIProposer height round then
    let block ← createBlock height
    let proposal ← createProposal height round block
    broadcastProposal proposal
    Exec.modify fun e => { e with currentProposal := some proposal, state := .prevoting }
    emit (.proposalSent height round)
  else
    Exec.modify fun e => { e with state := .waitingForBlock }

/-! ## Commits -/

/-- `commit_block`.  The block comes from the current proposal; `certificate` is
noted with the block and decides nothing. -/
def commitBlock (height : BlockHeight) (certificate : Certificate) :
    Exec PacyteError (Engine σ μ ν) Unit := do
  let e ← Exec.get
  match e.currentProposal with
  | none => Exec.throw (.internal "No proposal to commit")
  | some proposal =>
    let _ ← onState (StateManager.applyBlock proposal.block)
    onStorage (Storage.saveBlock proposal.block)
    Exec.modify fun e => { e with commits := e.commits ++ [⟨certificate, proposal.block⟩] }
    onMempool (Mempool.cleanup (proposal.block.body.transactions.map Transaction.hash))
    Exec.modify fun e =>
      { e with committedBlocks := e.committedBlocks ++ [proposal.block.hash], state := .committed }
    emit (.blockCommitted proposal.block height)
    let next ← Exec.addU64 height 1
    Exec.modify fun e => { e with height := next, round := 0 }
    startNewRound next 0

/-! ## Votes -/

/-- `add_vote`. -/
def addVote (vote : Vote) (e : Engine σ μ ν) : Engine σ μ ν :=
  match vote.voteType with
  | .prevote => { e with prevotes := e.prevotes.add vote }
  | .precommit => { e with precommits := e.precommits.add vote }

/-- `check_precommit_quorum`. -/
def checkPrecommitQuorum (height : BlockHeight) (round : UInt64) (blockHash : Hash) :
    Exec PacyteError (Engine σ μ ν) Unit := do
  let e ← Exec.get
  let votes := (e.precommits.votes height blockHash).length
  if e.validatorSet.quorum ≤ votes then
    emit (.quorumReached height round .precommit)
    commitBlock height ⟨height, round, blockHash⟩

/-- The beginning that `send_prevote` and `send_precommit` share: the own vote at
the present height and round is recorded and broadcast. -/
def castVote (blockHash : Hash) (voteType : VoteType) :
    Exec PacyteError (Engine σ μ ν) (BlockHeight × UInt64) := do
  let e ← Exec.get
  let voter ← requireId
  let now ← onClock currentTimestamp
  let vote := (Vote.new e.height e.round blockHash voter voteType now).signed e.signer
  Exec.modify (addVote vote)
  broadcast (.vote vote.wire)
  emit (.voteSent e.height e.round voteType)
  return (e.height, e.round)

/-- `send_precommit`. -/
def sendPrecommit (blockHash : Hash) : Exec PacyteError (Engine σ μ ν) Unit := do
  let (height, round) ← castVote blockHash .precommit
  checkPrecommitQuorum height round blockHash

/-- `check_prevote_quorum`. -/
def checkPrevoteQuorum (height : BlockHeight) (round : UInt64) (blockHash : Hash) :
    Exec PacyteError (Engine σ μ ν) Unit := do
  let e ← Exec.get
  let votes := (e.prevotes.votes height blockHash).length
  if e.validatorSet.quorum ≤ votes then
    emit (.quorumReached height round .prevote)
    sendPrecommit blockHash

/-- `send_prevote`. -/
def sendPrevote (blockHash : Hash) : Exec PacyteError (Engine σ μ ν) Unit := do
  let (height, round) ← castVote blockHash .prevote
  checkPrevoteQuorum height round blockHash

/-! ## Handlers -/

/-- `verify_proposal_signature`: the proposer is known; the signature is not
looked at. -/
def verifyProposalSignature (proposal : Proposal) : Exec PacyteError (Engine σ μ ν) Bool := do
  let e ← Exec.get
  return (e.validatorSet.getValidator proposal.proposer).isSome

/-- The loop of `validate_block` over the transactions. -/
def validateTransactions : List Transaction → Exec PacyteError (Engine σ μ ν) Bool
  | [] => return true
  | tx :: rest => do
    if ← onClock (tx.validateBasic 3600) then
      validateTransactions rest
    else
      return false

/-- `validate_block`. -/
def validateBlock (block : Block) : Exec PacyteError (Engine σ μ ν) Bool := do
  let e ← Exec.get
  if block.header.height ≠ e.height then
    return false
  else
    match ← onStorage Storage.getLatestBlock with
    | some prev =>
      if block.header.previousHash ≠ prev.hash then
        return false
      else
        validateTransactions block.body.transactions
    | none => validateTransactions block.body.transactions

/-- `handle_proposal`. -/
def handleProposal (proposal : Proposal) : Exec PacyteError (Engine σ μ ν) Unit := do
  let e ← Exec.get
  if proposal.height ≠ e.height ∨ proposal.round ≠ e.round then
    return ()
  else
    let expected ← getProposer e.height e.round
    if expected ≠ some proposal.proposer then
      return ()
    else if ← verifyProposalSignature proposal then
      if ← validateBlock proposal.block then
        Exec.modify fun e => { e with currentProposal := some proposal }
        sendPrevote proposal.hash

/-- `handle_vote`.  Neither the signature nor the voter is checked. -/
def handleVote (vote : Vote) : Exec PacyteError (Engine σ μ ν) Unit := do
  let e ← Exec.get
  if vote.height ≠ e.height ∨ vote.round ≠ e.round then
    return ()
  else
    Exec.modify (addVote vote)
    match vote.voteType with
    | .prevote => checkPrevoteQuorum e.height e.round vote.blockHash
    | .precommit => checkPrecommitQuorum e.height e.round vote.blockHash

/-! ## The command loop -/

/-- The height is raised to the one of the storage, if that is larger. -/
def raiseHeight : Exec PacyteError (Engine σ μ ν) Unit := do
  let saved ← Exec.unwrapOr (onStorage Storage.getBlockHeight) 0
  Exec.modify fun e => if e.height < saved then { e with height := saved } else e

/-- The part of `run` before the loop. -/
def startUp : Exec PacyteError (Engine σ μ ν) Unit := do
  raiseHeight
  let e ← Exec.get
  startNewRound e.height 0
  raiseHeight

/-- One command of the loop of `run`; the result tells whether the loop goes
on. -/
def dispatch (command : ConsensusCommand) : Exec PacyteError (Engine σ μ ν) Bool :=
  match command with
  | .propose height round => do
    Exec.attempt (startNewRound height round)
    return true
  | .proposalReceived proposal => do
    Exec.attempt (handleProposal proposal)
    return true
  | .voteReceived vote => do
    Exec.attempt (handleVote vote)
    return true
  | .timeout height round => do
    let e ← Exec.get
    if height = e.height ∧ round = e.round then
      if round < e.config.maxRounds then
        let next ← Exec.addU64 round 1
        Exec.attempt (startNewRound height next)
    return true
  | .newBlock _ => return true
  | .synced _ => return true
  | .stop => return false

end Handlers

end Engine

/-! ## Nodes -/

/-- An engine and whether its loop is running. -/
structure Node (σ μ ν : Type) where
  engine : Engine σ μ ν
  running : Bool

namespace Node

variable {σ μ ν : Type} [Primitives] [Storage σ] [Mempool μ σ] [Network ν]

/-- A node that has run the part of `run` before the loop. -/
def boot (engine : Engine σ μ ν) : Node σ μ ν :=
  match Engine.startUp engine with
  | (.ok _, e) => ⟨e, true⟩
  | (_, e) => ⟨e, false⟩

/-- One turn of the loop. -/
def step (node : Node σ μ ν) (command : ConsensusCommand) : Node σ μ ν :=
  if node.running then
    match Engine.dispatch command node.engine with
    | (.ok goesOn, e) => ⟨e, goesOn⟩
    | (_, e) => ⟨e, false⟩
  else node

/-- The loop over a sequence of commands. -/
def run (node : Node σ μ ν) (commands : List ConsensusCommand) : Node σ μ ν :=
  commands.foldl step node

end Node
