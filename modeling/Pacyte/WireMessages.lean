/-
# Messages between nodes

`NetworkMessage` of `src/network/message.rs` with all its variants (`WireMessage`); the engine sends
two of them.  A text is a `String`, as there: bytes that are valid UTF-8.
-/
import Pacyte.Consensus

/-- `HandshakeData`. -/
structure HandshakeData where
  version : String
  protocolVersion : UInt32
  nodeId : UInt64
  port : UInt16
  genesisHash : Hash
  bestHeight : BlockHeight
  bestHash : Hash
  capabilities : List String
  timestamp : UInt64
  deriving DecidableEq, Repr

/-- `HandshakeAck`. -/
structure HandshakeAck where
  accepted : Bool
  reason : Option String
  peerId : Option UInt64
  deriving DecidableEq, Repr

/-- `PeerInfo`. -/
structure PeerInfo where
  id : UInt64
  address : String
  port : UInt16
  bestHeight : BlockHeight
  bestHash : Hash
  capabilities : List String
  connectedSince : UInt64
  lastSeen : UInt64
  latencyMs : UInt64
  deriving DecidableEq, Repr

/-- `BlockHeaderData`. -/
structure BlockHeaderData where
  height : BlockHeight
  hash : Hash
  previousHash : Hash
  timestamp : UInt64
  transactionCount : UInt32
  deriving DecidableEq, Repr

/-- `NetworkMessage`. -/
inductive WireMessage : Type where
  | handshake (data : HandshakeData)
  | handshakeAck (ack : HandshakeAck)
  | ping (nonce : UInt64)
  | pong (nonce : UInt64)
  | getPeers
  | peers (infos : List PeerInfo)
  | peerConnected (info : PeerInfo)
  | peerDisconnected (id : UInt64)
  | getBlocks («from» «to» : BlockHeight)
  | blocks (blocks : List Block)
  | newBlock (block : Block)
  | getBlockHeaders («from» : BlockHeight) (limit : UInt32)
  | blockHeaders (headers : List BlockHeaderData)
  | newTransaction (tx : Transaction)
  | getTransactions (hashes : List Hash)
  | transactions (txs : List Transaction)
  | proposal (proposal : ConsensusProposal)
  | vote (vote : ConsensusVote)
  | newView (height : BlockHeight) (round : UInt64)
  | timeout (height : BlockHeight) (round : UInt64)
  | getStateChunk (root : Hash) (chunkIndex : UInt32)
  | stateChunk (root : Hash) (chunkIndex : UInt32) (data : Bytes)
  | error (code : UInt32) (message : String)
  deriving DecidableEq, Repr
