/-
# The validator of the mempool

`MempoolValidator` of `src/mempool/validator.rs`: the checks of a signature, a balance, a nonce
and a fee, and `validate`, which makes all of them.

Balances and nonces come from the state manager; where it cannot read an account, both count
as zero (`unwrap_or(0)`).
-/
import Pacyte.Mempool
import Pacyte.Votes

/-- `TxValidationResult`. -/
inductive TxValidationResult : Type where
  | valid
  | insufficientBalance (required available : U128)
  | invalidNonce (expected got : UInt64)
  | invalidSignature
  | expired (ageSecs maxAgeSecs : UInt64)
  | tooLarge (size maxSize : ℕ)
  | feeTooLow (fee minFee : U128)
  | accountDormant (years : ℕ)
  | other (message : String)
  deriving DecidableEq, Repr

namespace TxValidationResult

/-- `TxValidationResult::is_valid`. -/
def isValid (result : TxValidationResult) : Bool := decide (result = valid)

/-- `TxValidationResult::error_message`. -/
def errorMessage : TxValidationResult → String
  | valid => "Valid"
  | insufficientBalance required available =>
    s!"Insufficient balance: required={required.toNat}, available={available.toNat}"
  | invalidNonce expected got => s!"Invalid nonce: expected={expected}, got={got}"
  | invalidSignature => "Invalid signature"
  | expired ageSecs maxAgeSecs => s!"Expired: age={ageSecs}s, max={maxAgeSecs}s"
  | tooLarge size maxSize => s!"Too large: size={size}, max={maxSize}"
  | feeTooLow fee minFee => s!"Fee too low: fee={fee.toNat}, min={minFee.toNat}"
  | accountDormant years => s!"Account dormant for {years} years"
  | other message => message

end TxValidationResult

namespace Transaction

/-- `Transaction::size`: the length of its `bincode`. -/
def size (tx : Transaction) : ℕ := (encodeTransaction tx).length

/-- `Transaction::total_cost`. -/
def totalCost (tx : Transaction) : U128 := U128.saturatingAdd tx.amount tx.fee

/-- The fixed fields take 120 bytes. -/
theorem size_eq (tx : Transaction) : tx.size = 120 + tx.signature.length := by
  simp only [size, encodeTransaction, encodeBytes, List.length_append, length_leBytes,
    Vector.length_toList]
  omega

theorem size_pos (tx : Transaction) : 0 < tx.size := by
  rw [size_eq]
  omega

end Transaction

namespace MempoolValidator

/-! ## The checks -/

section Checks

variable [Primitives] [Verifiers]

/-- `verify_signature`: the length tells the scheme, and the sender's address is handed over as
the public key. -/
def verifySignature (tx : Transaction) : Bool :=
  if tx.signature.isEmpty then false
  else if tx.signature.length = 64 then
    Verifiers.ed25519 tx.sighash tx.signature tx.from.toList
  else if tx.signature.length = 4595 then
    Verifiers.dilithium5 tx.sighash tx.signature tx.from.toList
  else false

variable {σ : Type} [Storage σ]

/-- `state.get_balance(address).await.unwrap_or(0)`. -/
def knownBalance (address : Address) : Exec PacyteError (StateManager σ) U128 :=
  Exec.unwrapOr (StateManager.getBalance address) 0

/-- `state.get_nonce(address).await.unwrap_or(0)`. -/
def knownNonce (address : Address) : Exec PacyteError (StateManager σ) UInt64 :=
  Exec.unwrapOr (StateManager.getNonce address) 0

/-- `check_balance`. -/
def checkBalance (tx : Transaction) : Exec PacyteError (StateManager σ) Bool := do
  let balance ← knownBalance tx.from
  return decide (tx.totalCost ≤ balance)

/-- `check_nonce`. -/
def checkNonce (config : MempoolConfig) (tx : Transaction) :
    Exec PacyteError (StateManager σ) TxValidationResult := do
  let currentNonce ← knownNonce tx.from
  if tx.nonce < currentNonce then
    return .invalidNonce currentNonce tx.nonce
  else
    let limit ← Exec.addU64 currentNonce config.maxNonceGap
    if limit < tx.nonce then
      return .invalidNonce currentNonce tx.nonce
    else
      return .valid

/-- `check_fee`: the fee for a byte is rounded down. -/
def checkFee (config : MempoolConfig) (tx : Transaction) : Bool :=
  decide (config.minFeePerByte.toNat ≤ tx.fee.toNat / tx.size)

/-- The smallest fee that `check_fee` asks for, as `validate` reports it. -/
def minFee (config : MempoolConfig) (tx : Transaction) : Exec PacyteError (StateManager σ) U128 :=
  if config.minFeePerByte.toNat * tx.size < 2 ^ 128 then
    return BitVec.ofNat 128 (config.minFeePerByte.toNat * tx.size)
  else Exec.abort

/-- The last check of `validate`: an account that cannot be read makes it panic. -/
def checkDormancy (tx : Transaction) :
    Exec PacyteError (StateManager σ) TxValidationResult := fun sm =>
  match StateManager.getAccount tx.from sm with
  | (.ok (some account), sm) =>
    (.ok (if account.isDormant then .accountDormant 6 else .valid), sm)
  | (.ok none, sm) => (.ok .valid, sm)
  | (.err _, sm) => (.panic, sm)
  | (.panic, sm) => (.panic, sm)

/-- `validate`. -/
def validate (config : MempoolConfig) (tx : Transaction) :
    Exec PacyteError (StateManager σ) TxValidationResult := do
  if ← StateManager.onClock (tx.validateBasic config.maxTxAgeSecs) then
    if verifySignature tx then
      if ← checkBalance tx then
        let nonceResult ← checkNonce config tx
        if nonceResult.isValid then
          if checkFee config tx then
            checkDormancy tx
          else
            let required ← minFee config tx
            return .feeTooLow tx.fee required
        else return nonceResult
      else
        let balance ← knownBalance tx.from
        return .insufficientBalance tx.totalCost balance
    else return .invalidSignature
  else return .other "Basic validation failed"

end Checks

end MempoolValidator
