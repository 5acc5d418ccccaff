/-
# The vault manager

`VaultManager` of `src/vault/manager.rs` and its implementation of the trait `Vault`:
transfers between accounts whose fee is split by the phase of the supply, the distribution
of collected fees, and burns.

* The vault manager and its callers share one state manager.
* The counters are behind reader-writer locks.  They are taken through `Exec.guarded`, and a
  run goes on as with reentrant locks.
* The rates are numbers of a type `F` (`FloatOps`).

Left out are the initial allocation, the balance of the genesis vault that is kept beside
its account, and the parts of the trait that do nothing yet.
-/
import Pacyte.Conservation
import Pacyte.Locks
import Pacyte.SupplyPhase

open Locks

/-- `GENESIS_VAULT_ADDRESS`. -/
def genesisVaultAddress : Address := zero32

/-- `MIN_BALANCE`. -/
def minBalance : U128 := 1000

/-- `Account::genesis_sovereign` at the clock reading `now`. -/
def Account.genesisSovereign (balance : U128) (now : Timestamp) : Account :=
  { Account.new genesisVaultAddress balance now with
    isValidator := true
    accountType := .sovereign }

/-- The locks of a vault manager. -/
inductive VaultLock : Type where
  | totalSupply
  | totalBurned
  | totalFeesCollected
  | totalTransfers
  deriving DecidableEq, Repr

/-- `VaultManager`. -/
structure VaultManager (σ : Type) where
  stateManager : StateManager σ
  totalSupply : U128
  totalBurned : U128
  totalFeesCollected : U128
  totalTransfers : UInt64
  guards : Guards VaultLock

/-- `TransferResult`. -/
structure TransferResult where
  success : Bool
  fromBalanceAfter : U128
  toBalanceAfter : U128
  feeBurned : U128
  feeToValidator : U128
  feeToGenesis : U128
  deriving DecidableEq, Repr

/-- `FeeDistribution`. -/
structure FeeDistribution where
  totalFee : U128
  burned : U128
  toValidators : U128
  toGenesis : U128
  phase : SupplyPhase
  deriving DecidableEq, Repr

/-! ## Calls -/

namespace VaultManager

open StateManager FloatOps

variable {σ : Type} {α : Type}

/-- `VaultManager::new`. -/
def new (stateManager : StateManager σ) : VaultManager σ where
  stateManager := stateManager
  totalSupply := totalSupplyCap
  totalBurned := 0
  totalFeesCollected := 0
  totalTransfers := 0
  guards := Guards.free

/-- A program of the shared state manager. -/
def onState (m : Exec PacyteError (StateManager σ) α) : Exec PacyteError (VaultManager σ) α :=
  Exec.onPart (·.stateManager) (fun sm vm => { vm with stateManager := sm }) m

/-- A program that runs while a lock is held. -/
def locked (l : VaultLock) (mode : Mode) (m : Exec PacyteError (VaultManager σ) α) :
    Exec PacyteError (VaultManager σ) α :=
  Exec.guarded (·.guards) (fun g vm => { vm with guards := g }) l mode m

/-- `*self.total_supply.read()`, and what is computed of it in the same statement. -/
def withSupply (f : U128 → Exec PacyteError (VaultManager σ) α) :
    Exec PacyteError (VaultManager σ) α :=
  locked .totalSupply .read do
    let vm ← Exec.get
    f vm.totalSupply

/-- `current_phase`. -/
def currentPhase : Exec PacyteError (VaultManager σ) SupplyPhase :=
  withSupply fun supply => pure (SupplyPhase.fromSupply supply)

/-- `total_supply`. -/
def readTotalSupply : Exec PacyteError (VaultManager σ) U128 := withSupply pure

/-- `*self.total_burned.write() += amount`. -/
def countBurned (amount : U128) : Exec PacyteError (VaultManager σ) Unit :=
  locked .totalBurned .write do
    let vm ← Exec.get
    let total ← Exec.addU128 vm.totalBurned amount
    Exec.modify fun vm => { vm with totalBurned := total }

/-- The burn of `execute_transfer`.  The value is computed first, and the guard that it
reads under is held to the end of the assignment. -/
def burnFee (burned : U128) : Exec PacyteError (VaultManager σ) Unit :=
  if 0 < burned then do
    locked .totalSupply .read do
      let vm ← Exec.get
      let value := U128.saturatingSub vm.totalSupply burned
      locked .totalSupply .write do
        Exec.modify fun vm => { vm with totalSupply := value }
    countBurned burned
  else
    return ()

/-- `*self.total_fees_collected.write() += fee` and `*self.total_transfers.write() += 1`. -/
def countTransfer (fee : U128) : Exec PacyteError (VaultManager σ) Unit := do
  locked .totalFeesCollected .write do
    let vm ← Exec.get
    let total ← Exec.addU128 vm.totalFeesCollected fee
    Exec.modify fun vm => { vm with totalFeesCollected := total }
  locked .totalTransfers .write do
    let vm ← Exec.get
    let total ← Exec.addU64 vm.totalTransfers 1
    Exec.modify fun vm => { vm with totalTransfers := total }

section Accounts

variable [Storage σ]

/-- The sender's account after `increment_nonce`, the deduction and `record_activity`. -/
def debitSender (account : Account) (totalDeduct : U128) :
    Exec PacyteError (StateManager σ) Account := do
  let nonce ← Exec.addU64 account.nonce 1
  let nonceTime ← onClock currentTimestamp
  let account := { account with nonce := nonce }.recordActivity nonceTime
  let account := { account with balance := account.balance - totalDeduct }
  let now ← onClock currentTimestamp
  return account.recordActivity now

/-- The first part of `execute_transfer`: the accounts of the sender and of the recipient
as they will be written. -/
def prepareTransfer («from» «to» : Address) (amount fee : U128) :
    Exec PacyteError (StateManager σ) (Account × Account) := do
  let totalDeduct := U128.saturatingAdd amount fee
  match ← getAccount «from» with
  | none => Exec.throw (.accountNotFound (debugBytes «from».toList))
  | some fromAccount =>
    if fromAccount.isDormant then
      Exec.throw (.dormantAccount 6)
    else if fromAccount.balance < totalDeduct then
      Exec.throw (.insufficientBalance totalDeduct fromAccount.balance)
    else
      let fromAccount ← debitSender fromAccount totalDeduct
      let toAccount ← getAccountOrNew «to»
      let now ← onClock currentTimestamp
      return (fromAccount, (credit toAccount amount).recordActivity now)

/-- The account of the genesis vault, or else a new one. -/
def getGenesisOrNew : Exec PacyteError (StateManager σ) Account := do
  match ← getAccount genesisVaultAddress with
  | some genesis => return genesis
  | none =>
    let now ← onClock currentTimestamp
    return Account.genesisSovereign 0 now

/-- The part of a fee that goes to the genesis vault. -/
def creditGenesis (toGenesis : U128) : Exec PacyteError (StateManager σ) Unit :=
  if 0 < toGenesis then do
    let genesis ← getGenesisOrNew
    setAccount genesisVaultAddress (credit genesis toGenesis)
  else
    return ()

/-- The last part of `execute_transfer`: the accounts are written, the sender first. -/
def writeAccounts («from» «to» : Address) (accounts : Account × Account) :
    Exec PacyteError (StateManager σ) Unit := do
  setAccount «from» accounts.1
  setAccount «to» accounts.2

/-- `burn`.  The reason is only logged. -/
def burn (amount : U128) : Exec PacyteError (VaultManager σ) Unit :=
  if amount = 0 then return ()
  else
    locked .totalSupply .write do
      let vm ← Exec.get
      if vm.totalSupply < amount then
        Exec.throw .insufficientSupply
      else
        Exec.modify fun vm => { vm with totalSupply := vm.totalSupply - amount }
        countBurned amount

/-- The burn of `distribute_fees`. -/
def burnCollected (burned : U128) : Exec PacyteError (VaultManager σ) Unit :=
  if 0 < burned then burn burned else return ()

/-- `execute_transfer`, from the two products on. -/
def settleTransfer («from» «to» : Address) (fee : U128) (accounts : Account × Account)
    (burned toGenesis : U128) : Exec PacyteError (VaultManager σ) TransferResult := do
  let toValidators := U128.saturatingSub (U128.saturatingSub fee burned) toGenesis
  burnFee burned
  onState (creditGenesis toGenesis)
  onState (writeAccounts «from» «to» accounts)
  countTransfer fee
  let fromBalance ← onState (getBalance «from»)
  let toBalance ← onState (getBalance «to»)
  return {
    success := true
    fromBalanceAfter := fromBalance
    toBalanceAfter := toBalance
    feeBurned := burned
    feeToValidator := toValidators
    feeToGenesis := toGenesis }

variable (F : Type) [FloatOps F]

/-- `execute_transfer`. -/
def executeTransfer («from» «to» : Address) (amount fee : U128) :
    Exec PacyteError (VaultManager σ) TransferResult := do
  let accounts ← onState (prepareTransfer «from» «to» amount fee)
  let phase ← currentPhase
  let burnRate : F ← withSupply phase.burnRate
  let genesisRate : F ← withSupply phase.genesisRate
  settleTransfer «from» «to» fee accounts (toU128 (ofU128 fee * burnRate))
    (toU128 (ofU128 fee * genesisRate))

/-- `transfer`. -/
def transfer («from» «to» : Address) (amount fee : U128) :
    Exec PacyteError (VaultManager σ) TransferResult :=
  if amount < minBalance then Exec.throw (.amountTooSmall amount minBalance)
  else if «from» = «to» then Exec.throw .selfTransfer
  else executeTransfer F «from» «to» amount fee

/-- `distribute_fees`.  The height is not used. -/
def distributeFees (totalFee : U128) : Exec PacyteError (VaultManager σ) FeeDistribution := do
  let phase ← currentPhase
  let burnRate : F ← withSupply phase.burnRate
  let nodeRate : F ← withSupply phase.nodeRate
  -- the genesis rate is computed, but the genesis vault gets what is left
  let _genesisRate : F ← withSupply phase.genesisRate
  let burned := toU128 (ofU128 totalFee * burnRate)
  let toValidators := toU128 (ofU128 totalFee * nodeRate)
  let toGenesis := U128.saturatingSub (U128.saturatingSub totalFee burned) toValidators
  burnCollected burned
  onState (creditGenesis toGenesis)
  return ⟨totalFee, burned, toValidators, toGenesis, phase⟩

end Accounts

end VaultManager
