/-
# Hashes of transactions and blocks

The hash functions of `src/types/transaction.rs`, `src/types/block.rs` and
`src/crypto/merkle.rs`, over the two primitives that come from outside the
repository: SHA3-256 and the binary serialisation of accounts and block bodies.

Every hash is `sha3_256` of an explicit message (`BlockHeader.message`,
`Transaction.message`, ...), so that a statement about collisions can name the
messages that were hashed.
-/
import Pacyte.Types

/-- What the node takes from the `sha3` and `bincode` crates. -/
class Primitives where
  /-- `Sha3_256` of all the bytes fed to the hasher. -/
  sha3_256 : Bytes → Hash
  /-- `bincode::serialize` of an account. -/
  serializeAccount : Account → Option Bytes
  /-- `bincode::serialize` of a block body. -/
  serializeBody : BlockBody → Option Bytes

open Primitives

variable [Primitives]

/-! ## Transactions -/

/-- The bytes hashed by `Transaction::sighash`. -/
def Transaction.sigMessage (tx : Transaction) : Bytes :=
  tx.from.toList ++ tx.to.toList ++ leBytes 16 tx.amount.toNat ++ leBytes 16 tx.fee.toNat ++
    leBytes 8 tx.nonce.toNat ++ leBytes 8 tx.timestamp.toNat

/-- `Transaction::sighash`. -/
def Transaction.sighash (tx : Transaction) : Hash := sha3_256 tx.sigMessage

/-- The bytes hashed by `Transaction::hash`. -/
def Transaction.message (tx : Transaction) : Bytes := tx.sighash.toList ++ tx.signature

/-- `Transaction::hash`. -/
def Transaction.hash (tx : Transaction) : Hash := sha3_256 tx.message

/-! ## Merkle roots -/

/-- `hash_merkle_pair`. -/
def hashMerklePair (left right : Hash) : Hash := sha3_256 (left.toList ++ right.toList)

/-- `BlockBody::transactions_root`.  The loop halves the list of hashes, so as
many rounds as there are hashes are enough (`HashTree.length_climb_le_one`). -/
def BlockBody.transactionsRoot (body : BlockBody) : Hash :=
  if body.transactions.isEmpty then zero32
  else
    let hashes := body.transactions.map Transaction.hash
    ((HashTree.climb hashMerklePair hashes.length hashes).head?).getD zero32

/-- `SparseMerkleTree`. -/
structure SparseMerkleTree where
  root : Hash
  defaultHashes : List Hash

/-- `SparseMerkleTree::new`: the default hash of each of the 257 levels. -/
def SparseMerkleTree.new : SparseMerkleTree :=
  let defaultHashes := List.iterate (fun h => hashMerklePair h h) zero32 257
  { root := defaultHashes.getD 256 zero32, defaultHashes := defaultHashes }

/-- The bit of `path` that `root_from_updates` reads at `depth`. -/
def pathBit (path : Hash) (depth : ℕ) : Bool :=
  (path.toList.getD (31 - depth / 8) 0).toNat.testBit (7 - depth % 8)

/-- The inner loop of `root_from_updates`: from the value up to the root. -/
def SparseMerkleTree.branch (smt : SparseMerkleTree) (key value : Hash) : Hash :=
  (List.range 256).foldl (fun node depth =>
    let sibling := smt.defaultHashes.getD depth zero32
    if pathBit key depth then hashMerklePair sibling node else hashMerklePair node sibling) value

/-- `SparseMerkleTree::root_from_updates`. -/
def SparseMerkleTree.rootFromUpdates (smt : SparseMerkleTree) (updates : List (Hash × Hash)) :
    Hash :=
  updates.foldl (fun root update =>
    root.zipWith (· ^^^ ·) (smt.branch update.1 update.2)) smt.root

/-! ## Blocks -/

/-- The bytes hashed by `BlockHeader::hash`; the signature is not among them. -/
def BlockHeader.message (header : BlockHeader) : Bytes :=
  leBytes 8 header.height.toNat ++ header.previousHash.toList ++
    header.transactionsRoot.toList ++ header.stateRoot.toList ++
    leBytes 8 header.timestamp.toNat ++ header.proposer.toList ++
    leBytes 4 header.transactionCount.toNat ++ leBytes 4 header.blockSize.toNat

/-- `BlockHeader::hash`. -/
def BlockHeader.hash (header : BlockHeader) : Hash := sha3_256 header.message

/-- `Block::hash`. -/
def Block.hash (block : Block) : Hash := block.header.hash

/-- `BlockBody::size`. -/
def BlockBody.size (body : BlockBody) : ℕ := ((serializeBody body).map List.length).getD 0

/-- `Block::new` at the clock reading `now`. -/
def Block.new (height : BlockHeight) (previousHash : Hash) (transactions : List Transaction)
    (proposer : Address) (now : Timestamp) : Block :=
  let body : BlockBody := ⟨transactions⟩
  { header :=
      { height := height
        previousHash := previousHash
        transactionsRoot := body.transactionsRoot
        stateRoot := zero32
        timestamp := now
        proposer := proposer
        transactionCount := UInt32.ofNat body.transactions.length
        blockSize := UInt32.ofNat body.size
        signature := [] }
    body := body }

/-- `Block::genesis` at the clock reading `now`. -/
def Block.genesis (now : Timestamp) : Block := Block.new 0 zero32 [] zero32 now

/-- `BlockHeader::validate`. -/
def BlockHeader.validate (header parent : BlockHeader) : Exec PacyteError Clock Bool := do
  let next ← Exec.addU64 parent.height 1
  if header.height ≠ next then
    return false
  if header.previousHash ≠ parent.hash then
    return false
  let now ← currentTimestamp
  let limit ← Exec.addU64 now 30
  return !(decide (limit < header.timestamp) || decide (header.timestamp < parent.timestamp))

/-- The part of `Block::validate` that compares the header with the body. -/
def Block.headerMatchesBody (block : Block) : Prop :=
  block.header.transactionsRoot = block.body.transactionsRoot ∧
  block.header.blockSize = UInt32.ofNat block.body.size ∧
  block.header.transactionCount = UInt32.ofNat block.body.transactions.length

instance (block : Block) : Decidable block.headerMatchesBody :=
  inferInstanceAs (Decidable (_ ∧ _ ∧ _))

/-- `Block::validate`. -/
def Block.validate (block parent : Block) : Exec PacyteError Clock Bool := do
  let ok ← block.header.validate parent.header
  return ok && decide block.headerMatchesBody

/-! ## The layout of `bincode`, and a small hash

A concrete instance, on which the definitions can be evaluated. -/

/-- `bincode` of a byte vector: its length in eight bytes, then the bytes. -/
def encodeBytes (bs : Bytes) : Bytes := leBytes 8 bs.length ++ bs

/-- `bincode` of a transaction. -/
def encodeTransaction (tx : Transaction) : Bytes :=
  tx.from.toList ++ tx.to.toList ++ leBytes 16 tx.amount.toNat ++ leBytes 16 tx.fee.toNat ++
    leBytes 8 tx.nonce.toNat ++ encodeBytes tx.signature ++ leBytes 8 tx.timestamp.toNat

/-- `bincode` of a block body. -/
def encodeBody (body : BlockBody) : Bytes :=
  leBytes 8 body.transactions.length ++ body.transactions.flatMap encodeTransaction

/-- `bincode` of an account. -/
def encodeAccount (account : Account) : Bytes :=
  account.address.toList ++ leBytes 16 account.balance.toNat ++ leBytes 8 account.nonce.toNat ++
    leBytes 16 account.staked.toNat ++ leBytes 8 account.createdAt.toNat ++
    leBytes 8 account.lastActivity.toNat ++ leBytes 1 account.isDormant.toNat ++
    leBytes 1 account.isValidator.toNat ++
    (match account.validatorKey with
      | none => [0]
      | some key => 1 :: encodeBytes key) ++
    leBytes 4 (match account.accountType with
      | .user => 0
      | .sovereign => 1
      | .system => 2
      | .bridge => 3)

/-- The bytes as digits of a number in base 257, reduced to 32 bytes. -/
def digitHash (bs : Bytes) : Hash :=
  let n := bs.foldl (fun acc b => (acc * 257 + b.toNat + 1) % 2 ^ 256) 0
  ⟨⟨(List.range 32).map fun i => UInt8.ofNat (n / 256 ^ i)⟩, by simp⟩

namespace Sample

/-- The instance with `digitHash` for SHA3-256. -/
scoped instance small : Primitives where
  sha3_256 := digitHash
  serializeAccount account := some (encodeAccount account)
  serializeBody body := some (encodeBody body)

end Sample
