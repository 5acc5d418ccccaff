/-
# Basic types of the node

The data types of `src/types`: addresses, hashes, errors, accounts and
transactions, and the wall clock.

Fixed-width integers keep their width: `u64` is `UInt64`, `u32` is `UInt32`,
`u128` is `BitVec 128` and `[u8; 32]` is `Vector UInt8 32`.  Arithmetic that the
source leaves unchecked (`+`, `-`) panics on overflow, as in a build with
overflow checks.

The clock is the sequence of the readings it will give: every call of
`current_timestamp` takes the next one, so two readings inside one call may
differ in any way.
-/
import Pacyte.Exec
import Pacyte.HashTree

/-! ## Words, bytes and identifiers -/

abbrev Bytes := List UInt8
abbrev U128 := BitVec 128
abbrev Hash := Vector UInt8 32
abbrev Address := Vector UInt8 32
abbrev BlockHeight := UInt64
abbrev Timestamp := UInt64
abbrev Signature := Bytes

/-- The array `[0u8; 32]`. -/
def zero32 : Vector UInt8 32 := Vector.replicate 32 0

/-- `u128::saturating_add`. -/
def U128.saturatingAdd (a b : U128) : U128 :=
  if a.toNat + b.toNat < 2 ^ 128 then a + b else BitVec.allOnes 128

/-- `u64::saturating_add`. -/
def U64.saturatingAdd (a b : UInt64) : UInt64 :=
  if a.toNat + b.toNat < 2 ^ 64 then a + b else UInt64.ofNat (2 ^ 64 - 1)

theorem U128.toNat_saturatingAdd (a b : U128) :
    (U128.saturatingAdd a b).toNat = min (a.toNat + b.toNat) (2 ^ 128 - 1) := by
  unfold U128.saturatingAdd
  split_ifs with h
  · rw [BitVec.toNat_add, Nat.mod_eq_of_lt h]
    omega
  · rw [BitVec.toNat_allOnes]
    omega

theorem U64.toNat_saturatingAdd (a b : UInt64) :
    (U64.saturatingAdd a b).toNat = min (a.toNat + b.toNat) (2 ^ 64 - 1) := by
  unfold U64.saturatingAdd
  split_ifs with h
  · rw [UInt64.toNat_add, Nat.mod_eq_of_lt h]
    omega
  · have hmax : (UInt64.ofNat (2 ^ 64 - 1)).toNat = 2 ^ 64 - 1 := by decide
    rw [hmax]
    omega

/-- `u128::saturating_sub`. -/
def U128.saturatingSub (a b : U128) : U128 := if b.toNat ≤ a.toNat then a - b else 0

theorem U128.toNat_saturatingSub (a b : U128) :
    (U128.saturatingSub a b).toNat = a.toNat - b.toNat := by
  unfold U128.saturatingSub
  split_ifs with h
  · exact BitVec.toNat_sub_of_le h
  · have hzero : ((0 : U128)).toNat = 0 := rfl
    omega

namespace Exec

variable {ε σ : Type}

/-- Overflow-checked addition of 128-bit words. -/
def addU128 (a b : U128) : Exec ε σ U128 :=
  if a.toNat + b.toNat < 2 ^ 128 then pure (a + b) else abort

/-- Overflow-checked subtraction of 128-bit words. -/
def subU128 (a b : U128) : Exec ε σ U128 :=
  if b.toNat ≤ a.toNat then pure (a - b) else abort

theorem post_addU128 (a b : U128) (s : σ) (Q : Outcome ε U128 → σ → Prop) :
    Post (addU128 a b) s Q ↔
      (a.toNat + b.toNat < 2 ^ 128 → Q (.ok (a + b)) s) ∧
      (¬ a.toNat + b.toNat < 2 ^ 128 → Q .panic s) := by
  unfold addU128
  rw [post_ite, post_pure, post_abort]

/-- A subtraction that fits is the one of the natural numbers. -/
theorem subU128_of_le {a b : U128} (h : b.toNat ≤ a.toNat) :
    (subU128 a b : Exec ε σ U128) = pure (a - b) := if_pos h

end Exec

/-! ## Errors -/

/-- The errors the modelled functions return (`PacyteError`). -/
inductive PacyteError : Type where
  | insufficientBalance (required available : U128)
  | accountNotFound (address : String)
  | rocksDBError (message : String)
  | stateRootMismatch (expected actual : String)
  | networkError (message : String)
  | invalidProposal (message : String)
  | notValidator
  | internal (message : String)
  | blockNotFound (height : BlockHeight)
  | diskIoFailure (message : String)
  | doubleVoting (validator : UInt64)
  | invalidSignature
  | hardwareInsufficient
  | insufficientStake (held need : U128)
  | validatorAlreadyExists
  | validatorSetFull
  | validatorNotFound (validator : UInt64)
  | validatorInactive (validator : UInt64)
  | invalidTimestamp
  | invalidProposer (expected : Option UInt64) (got : UInt64)
  | doubleProposal (validator : UInt64)
  | safetyViolation (reason : String)
  | blockAlreadyCommitted (height : BlockHeight)
  | executionError (message : String)
  | amountTooSmall (got minimum : U128)
  | selfTransfer
  | dormantAccount (years : ℕ)
  | insufficientSupply
  | handshakeFailed (message : String)
  | handshakeTimeout
  | peerNotFound (peer : String)
  | maxPeersReached (max : ℕ)
  | peerBanned (address : String)
  | peerAlreadyConnected (address : String)
  | sameShardTransfer
  | bridgeNotFound (bridge : UInt64)
  | bridgeAmountTooLarge (got max : U128)
  | invalidBridgeStatus (expected actual : String)
  | bridgeAlreadyFinalized
  | invalidAmount
  | cryptoError (message : String)
  deriving DecidableEq, Repr

/-- Bytes as `{:?}` prints them. -/
def debugBytes (bs : Bytes) : String := "[" ++ ", ".intercalate (bs.map fun b => toString b.toNat) ++ "]"

/-- One hexadecimal digit. -/
def hexDigit (n : ℕ) : Char :=
  if n < 10 then Char.ofNat (48 + n) else Char.ofNat (87 + n)

/-- `hex::encode`. -/
def hexEncode (bs : Bytes) : String :=
  String.ofList (bs.flatMap fun b => [hexDigit (b.toNat / 16), hexDigit (b.toNat % 16)])

/-- `address_short`: the first and the last four bytes. -/
def addressShort (addr : Address) : String :=
  "0x" ++ hexEncode (addr.toList.take 4) ++ "..." ++ hexEncode (addr.toList.drop 28)

/-! ## The wall clock -/

/-- The readings the wall clock will give, in order. -/
abbrev Clock := ℕ → Timestamp

/-- `current_timestamp`: take the next reading. -/
def currentTimestamp {ε : Type} : Exec ε Clock Timestamp := fun clock =>
  (.ok (clock 0), fun k => clock (k + 1))

/-! ## Accounts -/

inductive AccountType : Type where
  | user
  | sovereign
  | system
  | bridge
  deriving DecidableEq, Repr

structure Account where
  address : Address
  balance : U128
  nonce : UInt64
  staked : U128
  createdAt : Timestamp
  lastActivity : Timestamp
  isDormant : Bool
  isValidator : Bool
  validatorKey : Option Bytes
  accountType : AccountType
  deriving DecidableEq, Repr

/-- `Account::new` at the clock reading `now`. -/
def Account.new (address : Address) (initialBalance : U128) (now : Timestamp) : Account where
  address := address
  balance := initialBalance
  nonce := 0
  staked := 0
  createdAt := now
  lastActivity := now
  isDormant := false
  isValidator := false
  validatorKey := none
  accountType := .user

/-- `Account::record_activity` at the clock reading `now`. -/
def Account.recordActivity (account : Account) (now : Timestamp) : Account :=
  { account with lastActivity := now, isDormant := false }

/-! ## Transactions and blocks -/

structure Transaction where
  «from» : Address
  «to» : Address
  amount : U128
  fee : U128
  nonce : UInt64
  signature : Signature
  timestamp : Timestamp
  deriving DecidableEq, Repr

structure BlockHeader where
  height : BlockHeight
  previousHash : Hash
  transactionsRoot : Hash
  stateRoot : Hash
  timestamp : Timestamp
  proposer : Address
  transactionCount : UInt32
  blockSize : UInt32
  signature : Signature
  deriving DecidableEq, Repr

structure BlockBody where
  transactions : List Transaction
  deriving DecidableEq, Repr

structure Block where
  header : BlockHeader
  body : BlockBody
  deriving DecidableEq, Repr

/-- `Transaction::validate_basic`.  The clock is read only after the checks on
the addresses and the amounts; `now - timestamp` panics for a timestamp ahead of
the clock that the first comparison lets through. -/
def Transaction.validateBasic (tx : Transaction) (maxTxAgeSecs : UInt64) :
    Exec PacyteError Clock Bool := do
  if tx.from = zero32 ∨ tx.to = zero32 ∨ tx.from = tx.to then
    return false
  if tx.amount = 0 ∨ ¬ tx.amount.toNat + tx.fee.toNat < 2 ^ 128 then
    return false
  let now ← currentTimestamp
  let limit ← Exec.addU64 now 30
  if limit < tx.timestamp then
    return false
  let age ← Exec.subU64 now tx.timestamp
  if maxTxAgeSecs < age then
    return false
  return !tx.signature.isEmpty && decide (tx.signature.length ≤ 5000)
