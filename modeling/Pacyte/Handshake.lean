/-
# The handshake

The message of `src/network/handshake.rs` that two nodes exchange when they connect: the hash that
is signed, and the check of the chain and of the time.  The clock there falls back to zero where
the system clock is before 1970, as `current_timestamp` does.
-/
import Pacyte.Crypto

open Primitives

/-- `HandshakeMessage`, with the bytes of its capabilities. -/
structure HandshakeMessage where
  protocolVersion : UInt32
  networkId : UInt32
  nodeId : UInt64
  port : UInt16
  genesisHash : Hash
  bestHeight : UInt64
  bestHash : Hash
  capabilities : List Bytes
  timestamp : UInt64
  signature : Bytes
  deriving DecidableEq, Repr

namespace HandshakeMessage

/-- The bytes hashed by `HandshakeMessage::signing_hash`. -/
def signingMessage (message : HandshakeMessage) : Bytes :=
  leBytes 4 message.protocolVersion.toNat ++ leBytes 4 message.networkId.toNat ++
    leBytes 8 message.nodeId.toNat ++ leBytes 2 message.port.toNat ++
    message.genesisHash.toList ++ leBytes 8 message.bestHeight.toNat ++ message.bestHash.toList ++
    leBytes 8 message.timestamp.toNat ++ message.capabilities.flatten

/-- `HandshakeMessage::signing_hash`. -/
def signingHash [Primitives] (message : HandshakeMessage) : Hash :=
  sha3_256 message.signingMessage

/-- `HandshakeMessage::validate`. -/
def validate (message : HandshakeMessage) (ourGenesisHash : Hash) (maxTimeDiffSecs : UInt64) :
    Exec PacyteError Clock Unit := do
  if message.genesisHash ≠ ourGenesisHash then
    Exec.throw (.handshakeFailed "Genesis hash mismatch")
  else
    let now ← currentTimestamp
    let latest ← Exec.addU64 now maxTimeDiffSecs
    if latest < message.timestamp then
      Exec.throw (.handshakeFailed "Timestamp out of range")
    else
      let earliest ← Exec.subU64 now maxTimeDiffSecs
      if message.timestamp < earliest then
        Exec.throw (.handshakeFailed "Timestamp out of range")
      else
        return ()

end HandshakeMessage
