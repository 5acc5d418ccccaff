/-
# The paths of an execution

After the check the sender's account is in the cache of the executor.  From there each of the three
kinds of transactions pays its intrinsic gas (`Fits`, `paid`) and then runs its body: the transfer
of the vault and the count of the nonce, the transfer of the value and the code of a call
(`runCall`), the code and the accounts of a creation (`runCreation`).  For each body the outcome and
the executor it leaves are given.
-/
import Pacyte.ExecutorView

open Exec

namespace TransactionExecutor

variable {σ κ : Type}

/-- The executor after contract code was stored. -/
def deployed [CodeStorage κ] (executor : TransactionExecutor σ κ) (address : Address)
    (code : Bytes) : TransactionExecutor σ κ :=
  { executor with codeStorage := CodeStorage.setCode address code executor.codeStorage }

end TransactionExecutor

/-- The account with the next nonce. -/
def Account.nextNonce (account : Account) : Account := { account with nonce := account.nonce + 1 }

namespace Execution

open TransactionExecutor

variable {σ κ : Type}

/-- The state after a program of the vault. -/
def withVault (s : Execution σ κ) (vm : VaultManager σ) : Execution σ κ :=
  { s with executor := { s.executor with vaultManager := vm } }

/-- A program of the vault changes nothing else. -/
theorem onVault_run {α : Type} (m : Exec PacyteError (VaultManager σ) α) (s : Execution σ κ) :
    onExecutor (onVault m) s = ((m s.executor.vaultManager).1,
      s.withVault (m s.executor.vaultManager).2) := rfl

/-! ## The intrinsic gas -/

/-- The intrinsic gas fits into the limit. -/
def Fits (tx : Transaction) (isContractCreation : Bool) (s : Execution σ κ) : Prop :=
  s.context.gasUsed.toNat + s.executor.gasCalculator.intrinsic tx isContractCreation ≤
    s.context.gasLimit.toNat

/-- The state in which the body of a transaction starts. -/
def paid (tx : Transaction) (isContractCreation : Bool) (s : Execution σ κ) : Execution σ κ :=
  s.charged (UInt64.ofNat (s.executor.gasCalculator.intrinsic tx isContractCreation))

/-- The body is run if the intrinsic gas fits, and then the gas that is used is within the limit. -/
theorem payIntrinsic_of_fits {tx : Transaction} {isContractCreation : Bool}
    (body : Exec PacyteError (Execution σ κ) ExecutionResult) {s : Execution σ κ}
    (hfits : Fits tx isContractCreation s) :
    payIntrinsic tx isContractCreation body s = body (s.paid tx isContractCreation) ∧
      (s.paid tx isContractCreation).context.gasUsed ≤
        (s.paid tx isContractCreation).context.gasLimit := by
  have hbits := s.context.gasLimit.toNat_lt
  obtain ⟨gas, hgas, hrun⟩ := (payIntrinsic_run tx isContractCreation body s).1 hfits
  have hofNat : UInt64.ofNat (s.executor.gasCalculator.intrinsic tx isContractCreation) = gas := by
    rw [← hgas, UInt64.ofNat_toNat]
  unfold Fits at hfits
  have hused : (s.charged gas).context.gasUsed.toNat = s.context.gasUsed.toNat + gas.toNat :=
    toNat_add_of_fits (by omega)
  unfold paid
  rw [hofNat, UInt64.le_iff_toNat_le, hused, hgas]
  exact ⟨hrun, hfits⟩

/-- Otherwise nothing happens: the result is `OutOfGas`, or the sum overflows. -/
theorem payIntrinsic_of_not_fits {tx : Transaction} {isContractCreation : Bool}
    (body : Exec PacyteError (Execution σ κ) ExecutionResult) {s : Execution σ κ}
    (hbeyond : ¬ Fits tx isContractCreation s) :
    payIntrinsic tx isContractCreation body s = (.ok (.outOfGas s.context), s) ∨
      payIntrinsic tx isContractCreation body s = (.panic, s) := by
  obtain ⟨-, hrefused, hpanic⟩ := payIntrinsic_run tx isContractCreation body s
  by_cases hfull : s.context.gasUsed.toNat +
      s.executor.gasCalculator.intrinsic tx isContractCreation < 2 ^ 64
  · exact Or.inl (hrefused (Nat.lt_of_not_le hbeyond) hfull)
  · exact Or.inr (hpanic hfull)

/-! ## The bodies -/

variable [LawfulStorage σ]

/-- The nonce of the sender is counted, and the result is a success. -/
theorem countNonce_succeed {tx : Transaction} {s : Execution σ κ} {account : Account}
    (hcached : s.executor.accountCache.lookup tx.from = some account) (returnData : Bytes) :
    (do
      onExecutor (countNonce tx.from)
      succeed returnData : Exec PacyteError (Execution σ κ) ExecutionResult) s =
    if account.nonce.toNat + 1 < 2 ^ 64 then
      (.ok (.ofSuccess s.context.gasUsed returnData),
        { s with executor := s.executor.written tx.from account.nextNonce })
    else (.panic, s) := by
  rw [run_bind, onExecutor, run_onPart, countNonce_run hcached]
  split_ifs <;> rfl

variable [Keccak256]

/-- The last part of a call: the code is run, and then the nonce is counted. -/
def runCall (tx : Transaction) (code : Bytes) :
    Exec PacyteError (Execution σ κ) ExecutionResult := do
  match ← onContext (runCode code) with
  | .ok returnData =>
    onExecutor (countNonce tx.from)
    succeed returnData
  | .error e => fail e

/-- The state after code was run. -/
def metered (s : Execution σ κ) (code : Bytes) : Execution σ κ :=
  s.charged (vmGas code s.context)

/-- **The code of a call.** -/
theorem runCall_run {tx : Transaction} {s : Execution σ κ} {account : Account}
    (hcached : s.executor.accountCache.lookup tx.from = some account)
    (hle : s.context.gasUsed ≤ s.context.gasLimit) (code : Bytes) :
    runCall tx code s =
      match (VM.run (VM.new code s.context.remainingGas)).1 with
      | .ok data =>
        if account.nonce.toNat + 1 < 2 ^ 64 then
          (.ok (.ofSuccess (s.metered code).context.gasUsed data),
            { s.metered code with executor := s.executor.written tx.from account.nextNonce })
        else (.panic, s.metered code)
      | .err e => (.ok (.failure e (s.metered code).context.gasUsed), s.metered code)
      | .panic => (.panic, s) := by
  obtain ⟨hok, herr, hpanic⟩ := runCode_run hle code
  unfold runCall
  rcases hrun : (VM.run (VM.new code s.context.remainingGas)).1 with data | e | _
  · rw [run_bind, onContext, run_onPart, hok data hrun]
    exact countNonce_succeed (s := s.metered code) hcached data
  · rw [run_bind, onContext, run_onPart, herr e hrun]
    rfl
  · rw [run_bind, onContext, run_onPart, hpanic hrun]

variable [CodeStorage κ]

/-- The body of a contract creation. -/
def runCreation (tx : Transaction) : Exec PacyteError (Execution σ κ) ExecutionResult := do
  let contractAddress := generateContractAddress tx.from tx.nonce
  match ← onContext (runCode tx.signature) with
  | .ok runtimeCode =>
    onExecutor (Exec.modify fun executor => executor.deployed contractAddress runtimeCode)
    let fromAccount ← onExecutor (nextNonce tx.from)
    let balance := U128.saturatingSub (U128.saturatingSub fromAccount.balance tx.amount) tx.fee
    onExecutor (setAccount tx.from { fromAccount with balance := balance })
    let s ← Exec.get
    onExecutor (setAccount contractAddress
      (contractAccount contractAddress tx.amount s.context.blockTimestamp))
    succeed contractAddress.toList
  | .error e => fail e

theorem executeContractCreation_eq (tx : Transaction) (s : Execution σ κ) :
    executeContractCreation tx s = payIntrinsic tx true (runCreation tx) s := rfl

/-- The sender's account after a creation. -/
def creatorAccount (tx : Transaction) (account : Account) : Account :=
  { account.nextNonce with
    balance := U128.saturatingSub (U128.saturatingSub account.balance tx.amount) tx.fee }

/-- The executor after a creation: the code, the sender's account and the new account. -/
def created (tx : Transaction) (account : Account) (code : Bytes) (s : Execution σ κ) :
    TransactionExecutor σ κ :=
  let contractAddress := generateContractAddress tx.from tx.nonce
  ((s.executor.deployed contractAddress code).written tx.from (creatorAccount tx account)).written
    contractAddress (contractAccount contractAddress tx.amount s.context.blockTimestamp)

/-- **The body of a creation.** -/
theorem runCreation_run {tx : Transaction} {s : Execution σ κ} {account : Account}
    (hcached : s.executor.accountCache.lookup tx.from = some account)
    (hle : s.context.gasUsed ≤ s.context.gasLimit) :
    runCreation tx s =
      match (VM.run (VM.new tx.signature s.context.remainingGas)).1 with
      | .ok code =>
        if account.nonce.toNat + 1 < 2 ^ 64 then
          (.ok (.ofSuccess (s.metered tx.signature).context.gasUsed
              (generateContractAddress tx.from tx.nonce).toList),
            { s.metered tx.signature with executor := s.created tx account code })
        else (.panic, { s.metered tx.signature with
          executor := s.executor.deployed (generateContractAddress tx.from tx.nonce) code })
      | .err e => (.ok (.failure e (s.metered tx.signature).context.gasUsed),
          s.metered tx.signature)
      | .panic => (.panic, s) := by
  obtain ⟨hok, herr, hpanic⟩ := runCode_run hle tx.signature
  unfold runCreation
  rcases hrun : (VM.run (VM.new tx.signature s.context.remainingGas)).1 with code | e | _
  · rw [run_bind, onContext, run_onPart, hok code hrun]
    dsimp only
    have hnonce := nextNonce_run (show (s.executor.deployed
      (generateContractAddress tx.from tx.nonce) code).accountCache.lookup tx.from = some account
      from hcached)
    rw [run_bind, onExecutor, run_onPart, run_modify]
    dsimp only
    rw [run_bind, onExecutor, run_onPart]
    dsimp only
    rw [hnonce]
    split_ifs <;> rfl
  · rw [run_bind, onContext, run_onPart, herr e hrun]
    rfl
  · rw [run_bind, onContext, run_onPart, hpanic hrun]

end Execution
