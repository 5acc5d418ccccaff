/-
# The transaction executor

`TransactionExecutor` of `src/execution/executor.rs` with its `ExecutionContext` of
`src/execution/mod.rs` and the `GasCalculator` of `src/execution/gas.rs`: a transaction is checked,
and is then a contract call, a contract creation or a transfer of the vault.

* The executor and its vault manager share one state manager.  Beside it the executor has a cache
  of accounts of its own, which only it reads and writes.
* The storage of the contract code is behind a trait (`CodeStorage`).
* 64-bit sums are overflow-checked, and a division by zero panics.
-/
import Pacyte.VaultManager
import Pacyte.VirtualMachine

/-! ## Gas -/

/-- `GasCalculator`. -/
structure GasCalculator where
  txBaseGas : UInt64
  txDataNonZeroGas : UInt64
  txDataZeroGas : UInt64
  contractCreationGas : UInt64
  deriving DecidableEq, Repr

namespace GasCalculator

/-- `GasCalculator::default`. -/
def default : GasCalculator where
  txBaseGas := 21000
  txDataNonZeroGas := 68
  txDataZeroGas := 4
  contractCreationGas := 32000

variable {ε σ : Type}

/-- The loop of `intrinsic_gas` over the data. -/
def addData (calculator : GasCalculator) : Bytes → UInt64 → Exec ε σ UInt64
  | [], gas => return gas
  | byte :: data, gas => do
    let gas ← Exec.addU64 gas
      (if byte = 0 then calculator.txDataZeroGas else calculator.txDataNonZeroGas)
    addData calculator data gas

/-- `intrinsic_gas`.  The signature stands for the data. -/
def intrinsicGas (calculator : GasCalculator) (tx : Transaction) (isContractCreation : Bool) :
    Exec ε σ UInt64 := do
  let gas ← calculator.addData tx.signature calculator.txBaseGas
  if isContractCreation then
    Exec.addU64 gas calculator.contractCreationGas
  else
    return gas

end GasCalculator

/-- `ExecutionContext`, as far as the executor uses it. -/
structure ExecutionContext where
  blockTimestamp : Timestamp
  gasLimit : UInt64
  gasUsed : UInt64
  deriving DecidableEq, Repr

namespace ExecutionContext

/-- `ExecutionContext::use_gas`. -/
def useGas {ε : Type} (amount : UInt64) : Exec ε ExecutionContext Bool := do
  let context ← Exec.get
  let sum ← Exec.addU64 context.gasUsed amount
  if context.gasLimit < sum then
    return false
  else
    let used ← Exec.addU64 context.gasUsed amount
    Exec.modify fun context => { context with gasUsed := used }
    return true

/-- `ExecutionContext::remaining_gas`. -/
def remainingGas (context : ExecutionContext) : UInt64 :=
  if context.gasUsed ≤ context.gasLimit then context.gasLimit - context.gasUsed else 0

end ExecutionContext

/-! ## Results -/

/-- `ExecutionResult`.  The refund is always zero, and there are no logs and no events. -/
structure ExecutionResult where
  success : Bool
  gasUsed : UInt64
  returnData : Bytes
  error : Option ExecutionError
  deriving DecidableEq, Repr

namespace ExecutionResult

/-- `ExecutionResult::success`. -/
def ofSuccess (gasUsed : UInt64) (returnData : Bytes) : ExecutionResult :=
  ⟨true, gasUsed, returnData, none⟩

/-- `ExecutionResult::failure`. -/
def failure (error : ExecutionError) (gasUsed : UInt64) : ExecutionResult :=
  ⟨false, gasUsed, [], some error⟩

/-- The failure that `use_gas` leads to. -/
def outOfGas (context : ExecutionContext) : ExecutionResult :=
  failure (.outOfGas context.gasUsed context.gasLimit) context.gasUsed

end ExecutionResult

/-- `ExecutionError::ContractNotFound`, converted. -/
def contractNotFoundError (address : Address) : PacyteError :=
  .executionError s!"Contract not found: {debugBytes address.toList}"

/-- `ExecutionError::NonceTooLow`, converted. -/
def nonceTooLowError (expected actual : UInt64) : PacyteError :=
  .executionError s!"Nonce too low: expected {expected}, got {actual}"

/-- `ExecutionError::InsufficientBalance`, converted. -/
def insufficientBalanceError (required available : U128) : PacyteError :=
  .executionError
    s!"Insufficient balance: required {required.toNat}, available {available.toNat}"

/-! ## Code -/

/-- `CodeStorage`. -/
class CodeStorage (κ : Type) where
  getCode : Address → κ → Option Bytes
  setCode : Address → Bytes → κ → κ
  codeExists : Address → κ → Bool

/-! ## The executor -/

/-- `TransactionExecutor`. -/
structure TransactionExecutor (σ κ : Type) where
  vaultManager : VaultManager σ
  gasCalculator : GasCalculator
  codeStorage : κ
  accountCache : Map Address Account

/-- The executor and the context of the transaction that it executes. -/
structure Execution (σ κ : Type) where
  executor : TransactionExecutor σ κ
  context : ExecutionContext

namespace TransactionExecutor

variable {σ κ α : Type}

/-- `TransactionExecutor::new`. -/
def new (vaultManager : VaultManager σ) (codeStorage : κ) : TransactionExecutor σ κ where
  vaultManager := vaultManager
  gasCalculator := .default
  codeStorage := codeStorage
  accountCache := ∅

/-- A program of the vault manager. -/
def onVault (m : Exec PacyteError (VaultManager σ) α) :
    Exec PacyteError (TransactionExecutor σ κ) α :=
  Exec.onPart (·.vaultManager) (fun vault executor => { executor with vaultManager := vault }) m

/-- A program of the shared state manager. -/
def onState (m : Exec PacyteError (StateManager σ) α) :
    Exec PacyteError (TransactionExecutor σ κ) α := onVault (VaultManager.onState m)

/-- `*account` is put into the cache. -/
def cacheAccount (address : Address) (account : Account) :
    Exec PacyteError (TransactionExecutor σ κ) Unit :=
  Exec.modify fun executor =>
    { executor with accountCache := executor.accountCache.insert address account }

section Accounts

variable [Storage σ]

/-- `get_account`: the cache, then the state manager; an account found there is cached. -/
def getAccount (address : Address) :
    Exec PacyteError (TransactionExecutor σ κ) (Option Account) := do
  let executor ← Exec.get
  match executor.accountCache.lookup address with
  | some account => return some account
  | none =>
    match ← onState (StateManager.getAccount address) with
    | some account =>
      cacheAccount address account
      return some account
    | none => return none

/-- `set_account`. -/
def setAccount (address : Address) (account : Account) :
    Exec PacyteError (TransactionExecutor σ κ) Unit := do
  cacheAccount address account
  onState (StateManager.setAccount address account)

/-- The sender's account, or a panic (`unwrap`), with the next nonce. -/
def nextNonce (address : Address) : Exec PacyteError (TransactionExecutor σ κ) Account := do
  match ← getAccount address with
  | none => Exec.abort
  | some account =>
    let nonce ← Exec.addU64 account.nonce 1
    return { account with nonce := nonce }

/-- The update of the nonce after a transfer or a call. -/
def countNonce (address : Address) : Exec PacyteError (TransactionExecutor σ κ) Unit := do
  let account ← nextNonce address
  setAccount address account

end Accounts

/-- `generate_contract_address`. -/
def generateContractAddress [Keccak256] (sender : Address) (nonce : UInt64) : Address :=
  let hash := Keccak256.digest (sender.toList ++ beBytes 8 nonce.toNat)
  Word.ofBytes (List.replicate 12 0 ++ hash.toList.drop 12)

end TransactionExecutor

namespace Execution

open TransactionExecutor

variable {σ κ α : Type}

/-- A program of the executor. -/
def onExecutor (m : Exec PacyteError (TransactionExecutor σ κ) α) :
    Exec PacyteError (Execution σ κ) α :=
  Exec.onPart (·.executor) (fun executor s => { s with executor := executor }) m

/-- A program of the context. -/
def onContext (m : Exec PacyteError ExecutionContext α) : Exec PacyteError (Execution σ κ) α :=
  Exec.onPart (·.context) (fun context s => { s with context := context }) m

/-- The condition on the gas price; what is done about it is left open. -/
def gasPriceTooLow {ε τ : Type} (fee : U128) (gasLimit : UInt64) : Exec ε τ Bool :=
  if gasLimit = 0 then Exec.abort
  else return decide (fee.toNat % 2 ^ 64 / gasLimit.toNat < 1)

variable [Storage σ] [CodeStorage κ]

/-- `validate_transaction`, the part about the sender. -/
def validateSender (tx : Transaction) : Exec PacyteError (Execution σ κ) Unit := do
  match ← onExecutor (getAccount tx.from) with
  | none => Exec.throw (contractNotFoundError tx.from)
  | some account =>
    if tx.nonce < account.nonce then
      Exec.throw (nonceTooLowError account.nonce tx.nonce)
    else
      let totalCost := U128.saturatingAdd tx.amount tx.fee
      if account.balance < totalCost then
        Exec.throw (insufficientBalanceError totalCost account.balance)
      else
        return ()

omit [Storage σ] in
/-- `validate_transaction`, the part about the gas limit. -/
def validateGas (tx : Transaction) : Exec PacyteError (Execution σ κ) Unit := do
  let s ← Exec.get
  let intrinsicGas ← s.executor.gasCalculator.intrinsicGas tx
    (CodeStorage.codeExists tx.to s.executor.codeStorage)
  let _tooLow ← gasPriceTooLow tx.fee s.context.gasLimit
  onContext (Exec.modify fun context =>
    { context with gasLimit := max context.gasLimit intrinsicGas })

/-- `validate_transaction`. -/
def validateTransaction (tx : Transaction) : Exec PacyteError (Execution σ κ) Unit := do
  validateSender tx
  validateGas tx

omit [Storage σ] [CodeStorage κ] in
/-- The intrinsic gas is used, or else the result is `OutOfGas`. -/
def payIntrinsic (tx : Transaction) (isContractCreation : Bool)
    (body : Exec PacyteError (Execution σ κ) ExecutionResult) :
    Exec PacyteError (Execution σ κ) ExecutionResult := do
  let s ← Exec.get
  let intrinsicGas ← s.executor.gasCalculator.intrinsicGas tx isContractCreation
  if ← onContext (ExecutionContext.useGas intrinsicGas) then
    body
  else
    let s ← Exec.get
    return .outOfGas s.context

omit [Storage σ] [CodeStorage κ] in
/-- A machine is run with the gas that is left, and its gas is used.  The result of that `use_gas`
is dropped. -/
def runCode [Keccak256] (code : Bytes) :
    Exec PacyteError ExecutionContext (Except ExecutionError Bytes) := do
  let context ← Exec.get
  match VM.run (VM.new code context.remainingGas) with
  | (.ok data, vm) =>
    let _ ← ExecutionContext.useGas vm.gasUsed
    return .ok data
  | (.err e, vm) =>
    let _ ← ExecutionContext.useGas vm.gasUsed
    return .error e
  | (.panic, _) => Exec.abort

omit [Storage σ] [CodeStorage κ] in
/-- The result of a success, with the gas used so far. -/
def succeed (returnData : Bytes) : Exec PacyteError (Execution σ κ) ExecutionResult := do
  let s ← Exec.get
  return .ofSuccess s.context.gasUsed returnData

omit [Storage σ] [CodeStorage κ] in
/-- The result of a machine that has failed. -/
def fail (e : ExecutionError) : Exec PacyteError (Execution σ κ) ExecutionResult := do
  let s ← Exec.get
  return .failure e s.context.gasUsed

section Kinds

variable (F : Type) [FloatOps F]

omit [CodeStorage κ] in
/-- `execute_transfer`. -/
def executeTransfer (tx : Transaction) : Exec PacyteError (Execution σ κ) ExecutionResult :=
  payIntrinsic tx false do
    let _ ← onExecutor (onVault (VaultManager.transfer F tx.from tx.to tx.amount tx.fee))
    onExecutor (countNonce tx.from)
    succeed []

variable [Keccak256]

/-- The value of a contract call is transferred without a fee. -/
def transferValue (tx : Transaction) : Exec PacyteError (Execution σ κ) Unit :=
  if 0 < tx.amount then do
    let _ ← onExecutor (onVault (VaultManager.transfer F tx.from tx.to tx.amount 0))
    return ()
  else
    return ()

/-- `execute_contract_call`. -/
def executeContractCall (tx : Transaction) : Exec PacyteError (Execution σ κ) ExecutionResult := do
  let s ← Exec.get
  match CodeStorage.getCode tx.to s.executor.codeStorage with
  | none => Exec.throw (contractNotFoundError tx.to)
  | some code =>
    payIntrinsic tx false do
      transferValue F tx
      match ← onContext (runCode code) with
      | .ok returnData =>
        onExecutor (countNonce tx.from)
        succeed returnData
      | .error e => fail e

/-- The account of a new contract. -/
def contractAccount (address : Address) (balance : U128) (now : Timestamp) : Account where
  address := address
  balance := balance
  nonce := 1
  staked := 0
  createdAt := now
  lastActivity := now
  isDormant := false
  isValidator := false
  validatorKey := none
  accountType := .user

/-- `execute_contract_creation`.  The signature is the code that is run. -/
def executeContractCreation (tx : Transaction) :
    Exec PacyteError (Execution σ κ) ExecutionResult :=
  payIntrinsic tx true do
    let contractAddress := generateContractAddress tx.from tx.nonce
    match ← onContext (runCode tx.signature) with
    | .ok runtimeCode =>
      onExecutor (Exec.modify fun executor => { executor with
        codeStorage := CodeStorage.setCode contractAddress runtimeCode executor.codeStorage })
      let fromAccount ← onExecutor (nextNonce tx.from)
      let balance := U128.saturatingSub (U128.saturatingSub fromAccount.balance tx.amount) tx.fee
      onExecutor (setAccount tx.from { fromAccount with balance := balance })
      let s ← Exec.get
      onExecutor (setAccount contractAddress
        (contractAccount contractAddress tx.amount s.context.blockTimestamp))
      succeed contractAddress.toList
    | .error e => fail e

/-- `execute_transaction`. -/
def executeTransaction (tx : Transaction) :
    Exec PacyteError (Execution σ κ) ExecutionResult := do
  validateTransaction tx
  let s ← Exec.get
  if CodeStorage.codeExists tx.to s.executor.codeStorage then
    executeContractCall F tx
  else if tx.to = zero32 then
    executeContractCreation tx
  else
    executeTransfer F tx

end Kinds

end Execution
