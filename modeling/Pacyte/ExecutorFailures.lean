/-
# Executions that fail

A transaction that has failed should have changed nothing: not the accounts of the state manager,
not the contract code, not the supply counters of the vault.

* A contract creation runs its code before it writes anything.  A contract call transfers its value
  first, and does not take it back when the code fails.
* A transfer of the vault burns its part of the fee before it reads the account of the genesis
  vault.

`Execution.Spoils` says which executions fail after such a write, and `fails_cleanly_iff` that there
are no others.
-/
import Pacyte.ExecutorPaths

open Exec

namespace VaultManager

variable {σ : Type} [LawfulStorage σ] (F : Type) [FloatOps F]

/-- What the vault asks of a transfer. -/
structure Accepts («from» «to» : Address) (amount fee : U128) (vm : VaultManager σ) : Prop where
  minimum : minBalance ≤ amount
  parties : «from» ≠ «to»
  affordable : Affordable «from» «to» amount fee vm.stateManager
  ready : VaultReady F «from» «to» fee vm

theorem accepts_iff («from» «to» : Address) (amount fee : U128) (vm : VaultManager σ) :
    (transfer F «from» «to» amount fee vm).1.IsOk ↔ Accepts F «from» «to» amount fee vm := by
  constructor
  · intro hok
    obtain ⟨hamount, hne, -⟩ := transfer_of_ok F hok
    obtain ⟨hafford, hready⟩ := (transfer_isOk_iff F fee vm hne hamount).mp hok
    exact ⟨hamount, hne, hafford, hready⟩
  · rintro ⟨hamount, hne, hafford, hready⟩
    exact (transfer_isOk_iff F fee vm hne hamount).mpr ⟨hafford, hready⟩

/-- A transfer that succeeds shows in the book: the sender's nonce is another one. -/
theorem book_transfer_ne {«from» «to» : Address} {amount fee : U128} {vm : VaultManager σ}
    (h : (transfer F «from» «to» amount fee vm).1.IsOk) :
    (transfer F «from» «to» amount fee vm).2.stateManager.book ≠ vm.stateManager.book := by
  intro hbook
  obtain ⟨-, hne, -⟩ := transfer_of_ok F h
  have hpaid := transfer_paid F h
  have hnonce : (transfer F «from» «to» amount fee vm).2.stateManager.book.nonce «from» =
      min (vm.stateManager.book.nonce «from» + 1) maxU64 := by
    rw [hpaid.book]
    show (Book.pay maxU128 maxU64 (transferPayment «from» «to» amount fee)
      vm.stateManager.book).nonce «from» = _
    rw [Book.nonce_pay, if_pos ⟨rfl, hne.symm⟩]
  have hlast := hpaid.nonce
  rw [hbook] at hnonce
  omega

end VaultManager

/-! ## Failures -/

namespace Execution

open TransactionExecutor VaultManager

variable {σ κ : Type} [LawfulStorage σ]

/-- An error is returned, or a result that is no success. -/
def Failed : Outcome PacyteError ExecutionResult → Prop
  | .ok result => result.success = false
  | .err _ => True
  | .panic => False

/-- The balances and nonces of the state manager, the contract code and the counters of the supply
are the same. -/
structure Untouched (executor executor' : TransactionExecutor σ κ) : Prop where
  book : executor'.stateManager.book = executor.stateManager.book
  codeStorage : executor'.codeStorage = executor.codeStorage
  supply : executor'.vaultManager.totalSupply = executor.vaultManager.totalSupply
  burned : executor'.vaultManager.totalBurned = executor.vaultManager.totalBurned

theorem Untouched.refl (executor : TransactionExecutor σ κ) : Untouched executor executor :=
  ⟨rfl, rfl, rfl, rfl⟩

theorem Untouched.trans {e₁ e₂ e₃ : TransactionExecutor σ κ} (h : Untouched e₁ e₂)
    (h' : Untouched e₂ e₃) : Untouched e₁ e₃ :=
  ⟨h'.book.trans h.book, h'.codeStorage.trans h.codeStorage, h'.supply.trans h.supply,
    h'.burned.trans h.burned⟩

theorem Untouched.symm {e₁ e₂ : TransactionExecutor σ κ} (h : Untouched e₁ e₂) :
    Untouched e₂ e₁ := ⟨h.book.symm, h.codeStorage.symm, h.supply.symm, h.burned.symm⟩

/-- Looking an account up leaves everything untouched. -/
theorem Untouched.of_looked {executor executor' : TransactionExecutor σ κ}
    (h : Looked executor executor') : Untouched executor executor' := by
  have hrest := h.vault.rest
  have hsupply := congrArg VaultManager.totalSupply hrest
  have hburned := congrArg VaultManager.totalBurned hrest
  exact ⟨StateManager.book_congr h.vault.ledger.account, h.codeStorage, hsupply, hburned⟩

/-- An execution that has ended so has failed only if it has left everything untouched. -/
def CleanEnd (s : Execution σ κ) (r : Outcome PacyteError ExecutionResult × Execution σ κ) : Prop :=
  Failed r.1 → Untouched s.executor r.2.executor

/-- What has left the executor alone ends cleanly. -/
theorem CleanEnd.of_executor {s : Execution σ κ}
    {r : Outcome PacyteError ExecutionResult × Execution σ κ} (h : r.2.executor = s.executor) :
    CleanEnd s r := fun _ => h ▸ Untouched.refl _

/-- What has not failed ends cleanly. -/
theorem CleanEnd.of_not_failed {s : Execution σ κ}
    {r : Outcome PacyteError ExecutionResult × Execution σ κ} (h : ¬ Failed r.1) : CleanEnd s r :=
  fun hfailed => absurd hfailed h

/-! ## The three kinds of transactions -/

section Kinds

variable (F : Type) [FloatOps F]

/-- A transfer of the vault, and then what fails only if `P` holds: it ends uncleanly if the vault
burns and then returns an error, or if it accepts and `P` holds. -/
theorem cleanEnd_bind_transfer (tx : Transaction) (fee : U128) (s : Execution σ κ) (P : Prop)
    {α : Type} {m : Exec PacyteError (Execution σ κ) α}
    {k : α → Exec PacyteError (Execution σ κ) ExecutionResult}
    (herr : ∀ e vm, transfer F tx.from tx.to tx.amount fee s.executor.vaultManager = (.err e, vm) →
      m s = (.err e, s.withVault vm))
    (hpanic : ∀ vm, transfer F tx.from tx.to tx.amount fee s.executor.vaultManager = (.panic, vm) →
      m s = (.panic, s.withVault vm))
    (hok : ∀ r vm, transfer F tx.from tx.to tx.amount fee s.executor.vaultManager = (.ok r, vm) →
      ∃ a, m s = (.ok a, s.withVault vm) ∧
        (P → Failed (k a (s.withVault vm)).1 ∧
          (k a (s.withVault vm)).2.executor = (s.withVault vm).executor) ∧
        (¬ P → ¬ Failed (k a (s.withVault vm)).1)) :
    CleanEnd s ((m >>= k) s) ↔
      ¬ (BurnsUnread F tx.from tx.to tx.amount fee s.executor.vaultManager ∨
        (Accepts F tx.from tx.to tx.amount fee s.executor.vaultManager ∧ P)) := by
  have haccepts := accepts_iff F tx.from tx.to tx.amount fee s.executor.vaultManager
  have hburns : BurnsUnread F tx.from tx.to tx.amount fee s.executor.vaultManager → ∃ e,
      (transfer F tx.from tx.to tx.amount fee s.executor.vaultManager).1 = .err e :=
    fun h => h.isErr F
  rcases hrun : transfer F tx.from tx.to tx.amount fee s.executor.vaultManager with
    ⟨r | e | _, vm⟩
  · obtain ⟨a, hm, hfails, hsucceeds⟩ := hok r vm hrun
    have haccepted := haccepts.mp (by rw [hrun]; trivial)
    have hnoburn : ¬ BurnsUnread F tx.from tx.to tx.amount fee s.executor.vaultManager := by
      intro h
      obtain ⟨e, he⟩ := hburns h
      rw [hrun] at he
      cases he
    rw [run_bind_of_ok hm]
    by_cases hP : P
    · obtain ⟨hfailed, hsame⟩ := hfails hP
      refine iff_of_false (fun hclean => ?_) (not_not_intro (Or.inr ⟨haccepted, hP⟩))
      have hbook := (hclean hfailed).book
      have hpaid := book_transfer_ne F (haccepts.mpr haccepted)
      rw [hsame] at hbook
      rw [hrun] at hpaid
      exact hpaid hbook
    · exact iff_of_true (.of_not_failed (hsucceeds hP)) fun h =>
        h.elim hnoburn fun hspoilt => hP hspoilt.2
  · have hnot : ¬ Accepts F tx.from tx.to tx.amount fee s.executor.vaultManager := by
      intro h
      have hok' := haccepts.mpr h
      rw [hrun] at hok'
      exact hok'
    obtain ⟨hsame, hcounters⟩ := transfer_err F hrun
    rw [run_bind_of_err (herr e vm hrun), or_iff_left fun h => hnot h.1, ← hcounters]
    constructor
    · intro hclean
      exact ⟨(hclean trivial).supply, (hclean trivial).burned⟩
    · intro hcounters _
      exact ⟨StateManager.book_congr hsame.account, rfl, hcounters.1, hcounters.2⟩
  · rw [run_bind_of_panic (hpanic vm hrun)]
    refine iff_of_true (.of_not_failed id) fun h => ?_
    rcases h with h | h
    · obtain ⟨e, he⟩ := hburns h
      rw [hrun] at he
      cases he
    · have hok' := haccepts.mpr h.1
      rw [hrun] at hok'
      exact hok'

/-- A program that cannot pay its intrinsic gas ends cleanly. -/
theorem cleanEnd_of_not_fits {tx : Transaction} {isContractCreation : Bool}
    (body : Exec PacyteError (Execution σ κ) ExecutionResult) {s : Execution σ κ}
    (hbeyond : ¬ Fits tx isContractCreation s) :
    CleanEnd s (payIntrinsic tx isContractCreation body s) := by
  rcases payIntrinsic_of_not_fits body hbeyond with hrun | hrun
  · rw [hrun]
    exact .of_executor rfl
  · rw [hrun]
    exact .of_executor rfl

variable [CodeStorage κ] [Keccak256]

/-- **The executions that fail after a write.** -/
inductive Spoils (tx : Transaction) (s : Execution σ κ) : Prop
  /-- A transfer burns and then returns an error. -/
  | burned : CodeStorage.codeExists tx.to s.executor.codeStorage = false → tx.to ≠ zero32 →
      Fits tx false s → BurnsUnread F tx.from tx.to tx.amount tx.fee s.executor.vaultManager →
      Spoils tx s
  /-- So does the transfer of the value of a call. -/
  | callBurned (code : Bytes) : CodeStorage.codeExists tx.to s.executor.codeStorage = true →
      CodeStorage.getCode tx.to s.executor.codeStorage = some code → Fits tx false s →
      0 < tx.amount → BurnsUnread F tx.from tx.to tx.amount 0 s.executor.vaultManager → Spoils tx s
  /-- The value of a call is transferred, and then the code fails. -/
  | callFailed (code : Bytes) (e : ExecutionError) :
      CodeStorage.codeExists tx.to s.executor.codeStorage = true →
      CodeStorage.getCode tx.to s.executor.codeStorage = some code → Fits tx false s →
      Accepts F tx.from tx.to tx.amount 0 s.executor.vaultManager →
      (VM.run (VM.new code (s.paid tx false).context.remainingGas)).1 = .err e → Spoils tx s

omit [CodeStorage κ] [Keccak256] in
/-- A transfer ends cleanly unless it burns and then returns an error. -/
theorem cleanEnd_executeTransfer {tx : Transaction} {s : Execution σ κ} {account : Account}
    (h : s.executor.accountCache.lookup tx.from = some account) :
    CleanEnd s (executeTransfer F tx s) ↔
      ¬ (Fits tx false s ∧
        BurnsUnread F tx.from tx.to tx.amount tx.fee s.executor.vaultManager) := by
  unfold executeTransfer
  by_cases hfits : Fits tx false s
  · rw [(payIntrinsic_of_fits _ hfits).1]
    refine Iff.trans (cleanEnd_bind_transfer F tx tx.fee (s.paid tx false) False
      ?_ ?_ fun r vm hrun => ?_) (not_congr ?_)
    · intro e vm hrun
      rw [onVault_run, hrun]
    · intro vm hrun
      rw [onVault_run, hrun]
    · have hcached : ((s.paid tx false).withVault vm).executor.accountCache.lookup tx.from =
          some account := h
      refine ⟨r, ?_, False.elim, fun _ => ?_⟩
      · rw [onVault_run, hrun]
      · rw [countNonce_succeed hcached]
        split_ifs
        · exact Bool.noConfusion
        · exact id
    · exact ⟨fun hspoilt => ⟨hfits, hspoilt.resolve_right fun h => h.2⟩, fun hspoilt =>
        Or.inl hspoilt.2⟩
  · exact iff_of_true (cleanEnd_of_not_fits _ hfits) fun hspoilt => hfits hspoilt.1

omit [CodeStorage κ] in
/-- The last part of a call fails if and only if the code does, and then leaves the executor
alone. -/
theorem runCall_fails {tx : Transaction} {s : Execution σ κ} {account : Account}
    (hcached : s.executor.accountCache.lookup tx.from = some account)
    (hle : s.context.gasUsed ≤ s.context.gasLimit) (code : Bytes) :
    ((∃ e, (VM.run (VM.new code s.context.remainingGas)).1 = .err e) →
      Failed (runCall tx code s).1 ∧ (runCall tx code s).2.executor = s.executor) ∧
    (¬ (∃ e, (VM.run (VM.new code s.context.remainingGas)).1 = .err e) →
      ¬ Failed (runCall tx code s).1) := by
  rw [runCall_run hcached hle]
  rcases hrun : (VM.run (VM.new code s.context.remainingGas)).1 with data | e | _
  · refine ⟨nofun, fun _ => ?_⟩
    dsimp only
    split_ifs
    · exact Bool.noConfusion
    · exact id
  · exact ⟨fun _ => ⟨rfl, rfl⟩, fun h => absurd ⟨e, rfl⟩ h⟩
  · exact ⟨nofun, fun _ => id⟩

/-- A call ends cleanly unless its transfer burns and returns an error, or is accepted and the code
fails. -/
theorem cleanEnd_executeContractCall {tx : Transaction} {s : Execution σ κ} {account : Account}
    (h : s.executor.accountCache.lookup tx.from = some account) :
    CleanEnd s (executeContractCall F tx s) ↔
      ¬ ∃ code, CodeStorage.getCode tx.to s.executor.codeStorage = some code ∧ Fits tx false s ∧
        0 < tx.amount ∧
        (BurnsUnread F tx.from tx.to tx.amount 0 s.executor.vaultManager ∨
          Accepts F tx.from tx.to tx.amount 0 s.executor.vaultManager ∧
            ∃ e, (VM.run (VM.new code (s.paid tx false).context.remainingGas)).1 = .err e) := by
  unfold executeContractCall
  rw [run_bind, run_get]
  dsimp only
  cases hcode : CodeStorage.getCode tx.to s.executor.codeStorage with
  | none => exact iff_of_true (.of_executor rfl) fun ⟨_, hnone, _⟩ => nomatch hnone
  | some code =>
      show CleanEnd s (payIntrinsic tx false (transferValue F tx >>= fun _ => runCall tx code) s)
        ↔ _
      by_cases hfits : Fits tx false s
      · obtain ⟨hrun, hle⟩ := payIntrinsic_of_fits
          (transferValue F tx >>= fun _ => runCall tx code) hfits
        rw [hrun]
        by_cases hpos : 0 < tx.amount
        · refine Iff.trans (cleanEnd_bind_transfer F tx 0 (s.paid tx false)
            (∃ e, (VM.run (VM.new code (s.paid tx false).context.remainingGas)).1 = .err e)
            ?_ ?_ fun r vm hrun => ?_) (not_congr ?_)
          · intro e vm hrun
            rw [transferValue, if_pos hpos, run_bind, onVault_run, hrun]
          · intro vm hrun
            rw [transferValue, if_pos hpos, run_bind, onVault_run, hrun]
          · have hcached : ((s.paid tx false).withVault vm).executor.accountCache.lookup tx.from =
                some account := h
            refine ⟨(), ?_, runCall_fails hcached hle code⟩
            rw [transferValue, if_pos hpos, run_bind, onVault_run, hrun]
            rfl
          · constructor
            · exact fun hspoilt => ⟨code, rfl, hfits, hpos, hspoilt⟩
            · rintro ⟨code', hcode', -, -, hspoilt⟩
              cases hcode'
              exact hspoilt
        · refine iff_of_true ?_ fun ⟨_, _, _, hspoilt, _⟩ => hpos hspoilt
          have hvalue : transferValue F tx (s.paid tx false) = (.ok (), s.paid tx false) := by
            rw [transferValue, if_neg hpos]
            rfl
          rw [run_bind_of_ok hvalue]
          obtain ⟨hfails, hsucceeds⟩ := runCall_fails (s := s.paid tx false) h hle code
          by_cases herr : ∃ e,
              (VM.run (VM.new code (s.paid tx false).context.remainingGas)).1 = .err e
          · exact .of_executor (hfails herr).2
          · exact .of_not_failed (hsucceeds herr)
      · exact iff_of_true (cleanEnd_of_not_fits _ hfits) fun ⟨_, _, hspoilt, _⟩ => hfits hspoilt

/-- **A contract creation ends cleanly**: it runs the code before it writes. -/
theorem cleanEnd_executeContractCreation {tx : Transaction} {s : Execution σ κ} {account : Account}
    (h : s.executor.accountCache.lookup tx.from = some account) :
    CleanEnd s (executeContractCreation tx s) := by
  rw [executeContractCreation_eq]
  by_cases hfits : Fits tx true s
  · obtain ⟨hrun, hle⟩ := payIntrinsic_of_fits (runCreation tx) hfits
    rw [hrun, runCreation_run (s := s.paid tx true) h hle]
    rcases (VM.run (VM.new tx.signature (s.paid tx true).context.remainingGas)).1 with
      code | e | _
    · dsimp only
      split_ifs
      · exact .of_not_failed Bool.noConfusion
      · exact .of_not_failed id
    · exact .of_executor rfl
    · exact .of_not_failed id
  · exact cleanEnd_of_not_fits _ hfits

/-- The path of a transaction ends cleanly unless it spoils. -/
theorem cleanEnd_executePath {tx : Transaction} {s : Execution σ κ} {account : Account}
    (h : s.executor.accountCache.lookup tx.from = some account) :
    CleanEnd s (executePath F tx s) ↔ ¬ Spoils F tx s := by
  unfold executePath
  split_ifs with hexists hzero
  · rw [cleanEnd_executeContractCall F h]
    refine not_congr ⟨?_, ?_⟩
    · rintro ⟨code, hcode, hfits, hpos, hburns | ⟨haccepts, e, hfails⟩⟩
      · exact .callBurned code hexists hcode hfits hpos hburns
      · exact .callFailed code e hexists hcode hfits haccepts hfails
    · intro hspoils
      cases hspoils with
      | burned hnone => exact absurd (hexists.symm.trans hnone) Bool.noConfusion
      | callBurned code _ hcode hfits hpos hburns =>
          exact ⟨code, hcode, hfits, hpos, Or.inl hburns⟩
      | callFailed code e _ hcode hfits haccepts hfails =>
          have hpos : 0 < tx.amount := BitVec.lt_def.mpr
            (Nat.lt_of_lt_of_le (by decide) (BitVec.le_def.mp haccepts.minimum))
          exact ⟨code, hcode, hfits, hpos, Or.inr ⟨haccepts, e, hfails⟩⟩
  · refine iff_of_true (cleanEnd_executeContractCreation h) fun hspoils => ?_
    cases hspoils with
    | burned _ hne => exact hne hzero
    | callBurned _ hcode => exact hexists hcode
    | callFailed _ _ hcode => exact hexists hcode
  · rw [cleanEnd_executeTransfer F h]
    refine not_congr ⟨?_, ?_⟩
    · rintro ⟨hfits, hburns⟩
      exact .burned (Bool.eq_false_of_not_eq_true hexists) hzero hfits hburns
    · intro hspoils
      cases hspoils with
      | burned _ _ hfits hburns => exact ⟨hfits, hburns⟩
      | callBurned _ hcode => exact absurd hcode hexists
      | callFailed _ _ hcode => exact absurd hcode hexists

/-- An execution that has failed has left everything untouched. -/
def FailsCleanly (tx : Transaction) (s : Execution σ κ) : Prop :=
  CleanEnd s (executeTransaction F tx s)

/-- **When a failed execution has no effect**: unless the transaction passes the check and then
spoils. -/
theorem fails_cleanly_iff (tx : Transaction) (s : Execution σ κ) :
    FailsCleanly F tx s ↔ (Passes tx s → ¬ Spoils F tx (checked tx s)) := by
  obtain ⟨hlooked, hcached⟩ := checked_looked tx s
  have huntouched := Untouched.of_looked hlooked
  unfold FailsCleanly
  by_cases hpasses : Passes tx s
  · obtain ⟨account, -, hcached, -⟩ := hcached hpasses.sender
    rw [executeTransaction_of_ok F (validateTransaction_run hpasses), forall_prop_of_true hpasses,
      ← cleanEnd_executePath F (s := checked tx s) hcached]
    constructor
    · exact fun hclean hfailed => huntouched.symm.trans (hclean hfailed)
    · exact fun hclean hfailed => huntouched.trans (hclean hfailed)
  · refine iff_of_true ?_ fun h => absurd h hpasses
    unfold executeTransaction
    rcases hrun : validateTransaction tx s with ⟨⟨⟩ | e | _, s'⟩
    · exact absurd (passes_of_ok hrun) hpasses
    · have hexecutor := validateTransaction_executor tx s
      rw [hrun] at hexecutor
      rw [run_bind_of_err hrun]
      intro _
      rw [hexecutor]
      exact huntouched
    · rw [run_bind_of_panic hrun]
      exact .of_not_failed id

end Kinds

end Execution


/-! ## A call whose code fails -/

section Example

open scoped Sample VmSample ExecutorSample

open Execution

/-- An executor with the code `FE`, an invalid opcode, at the third address. -/
def failingExecution : Execution MemoryStorage (Map Address Bytes) :=
  { sampleExecution 30000 with
    executor := { sampleExecutor with
      codeStorage := (∅ : Map Address Bytes).insert (sampleAddress 3) [0xfe] } }

/-- The call fails, and its value stays with the contract. -/
theorem failed_call_pays :
    (executeTransaction ℚ (sampleTx 3 2000 0 0) failingExecution).1 =
        .ok (.failure (.invalidOpcode 0xfe) 21000) ∧
      (executeTransaction ℚ (sampleTx 3 2000 0 0)
        failingExecution).2.executor.stateManager.book.balance (sampleAddress 3) = 2000 ∧
      ¬ FailsCleanly ℚ (sampleTx 3 2000 0 0) failingExecution := by
  have hrun : (executeTransaction ℚ (sampleTx 3 2000 0 0) failingExecution).1 =
      .ok (.failure (.invalidOpcode 0xfe) 21000) := by decide +kernel
  have hpaid : (executeTransaction ℚ (sampleTx 3 2000 0 0)
      failingExecution).2.executor.stateManager.book.balance (sampleAddress 3) = 2000 := by
    decide +kernel
  refine ⟨hrun, hpaid, fun hclean => ?_⟩
  have hfailed : Failed (executeTransaction ℚ (sampleTx 3 2000 0 0) failingExecution).1 := by
    rw [hrun]
    rfl
  have hbefore : failingExecution.executor.stateManager.book.balance (sampleAddress 3) = 0 := by
    decide
  rw [(hclean hfailed).book, hbefore] at hpaid
  exact absurd hpaid (by decide)

end Example
