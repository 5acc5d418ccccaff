/-
# Transfers of the executor

A plain transfer is made by the vault, which reads and writes the accounts of the state manager.
Before it the executor has read the sender's account into its own cache, and after it the executor
writes that copy back with the next nonce.  So the sender's balance is the one of the copy
(`executeTransfer_ok`), and the effect is that of a transfer only if the copy was already behind the
state manager by exactly the cost (`transfer_effect_iff`).
-/
import Pacyte.ExecutorPaths

open Exec

namespace Execution

open TransactionExecutor VaultManager

variable {σ κ : Type} [LawfulStorage σ]

/-- The effect of a transfer on the accounts of the state manager. -/
structure TransferEffect (tx : Transaction) (sm sm' : StateManager σ) : Prop where
  sender : sm'.book.balance tx.from + (tx.amount.toNat + tx.fee.toNat) = sm.book.balance tx.from
  recipient : sm'.book.balance tx.to = sm.book.balance tx.to + tx.amount.toNat
  nonce : sm'.book.nonce tx.from = sm.book.nonce tx.from + 1
  others : ∀ x, x ≠ tx.from → x ≠ tx.to → x ≠ genesisVaultAddress →
    sm'.account x = sm.account x

theorem TransferEffect.congr {sm₁ sm₂ : StateManager σ} (h : sm₂.account = sm₁.account)
    (tx : Transaction) (sm' : StateManager σ) :
    TransferEffect tx sm₁ sm' ↔ TransferEffect tx sm₂ sm' := by
  have hbook := StateManager.book_congr h
  constructor
  · rintro ⟨hsender, hrecipient, hnonce, hothers⟩
    exact ⟨hbook ▸ hsender, hbook ▸ hrecipient, hbook ▸ hnonce, fun x hfrom hto hx =>
      (hothers x hfrom hto hx).trans (congrFun h x).symm⟩
  · rintro ⟨hsender, hrecipient, hnonce, hothers⟩
    exact ⟨hbook ▸ hsender, hbook ▸ hrecipient, hbook ▸ hnonce, fun x hfrom hto hx =>
      (hothers x hfrom hto hx).trans (congrFun h x)⟩

/-- The executor's copy of the sender's account is behind by the cost of the transfer, and the
recipient's balance does not saturate. -/
structure CopyBehind (tx : Transaction) (s : Execution σ κ) : Prop where
  copy : ∃ account, s.executor.seen tx.from = some account ∧
    account.balance.toNat + (tx.amount.toNat + tx.fee.toNat) =
      s.executor.stateManager.book.balance tx.from ∧
    account.nonce.toNat = s.executor.stateManager.book.nonce tx.from
  fits : s.executor.stateManager.book.balance tx.to + tx.amount.toNat ≤ maxU128

/-- A transfer between two accounts neither of which is the genesis vault, and not a call. -/
structure PlainTransfer [CodeStorage κ] (tx : Transaction) (s : Execution σ κ) : Prop where
  noCode : CodeStorage.codeExists tx.to s.executor.codeStorage = false
  sender : tx.from ≠ genesisVaultAddress
  recipient : tx.to ≠ genesisVaultAddress

variable (F : Type) [FloatOps F]

/-- **A transfer that succeeds**: the vault has paid, and over the sender's account the cached one
is written with the next nonce. -/
theorem executeTransfer_ok {tx : Transaction} {s : Execution σ κ} {account : Account}
    {result : ExecutionResult} (hcached : s.executor.accountCache.lookup tx.from = some account)
    (h : (executeTransfer F tx s).1 = .ok result) (hsuccess : result.success = true) :
    ∃ vm, (∃ r, transfer F tx.from tx.to tx.amount tx.fee s.executor.vaultManager = (.ok r, vm)) ∧
      account.nonce.toNat + 1 < 2 ^ 64 ∧
      (executeTransfer F tx s).2.executor =
        { s.executor with vaultManager := vm }.written tx.from account.nextNonce := by
  unfold executeTransfer at h ⊢
  by_cases hfits : Fits tx false s
  · rw [(payIntrinsic_of_fits _ hfits).1] at h ⊢
    rw [run_bind, onVault_run] at h ⊢
    have hvault : (s.paid tx false).executor = s.executor := rfl
    rw [hvault] at h ⊢
    rcases hrun : transfer F tx.from tx.to tx.amount tx.fee s.executor.vaultManager with
      ⟨r | e | _, vm⟩
    · rw [hrun] at h
      dsimp only at h ⊢
      have hcached' : ((s.paid tx false).withVault vm).executor.accountCache.lookup tx.from =
          some account := hcached
      rw [countNonce_succeed hcached'] at h ⊢
      split_ifs at h ⊢ with hnonce
      exact ⟨vm, ⟨r, rfl⟩, hnonce, rfl⟩
    · rw [hrun] at h
      cases h
    · rw [hrun] at h
      cases h
  · rcases payIntrinsic_of_not_fits (do
      let _ ← onExecutor (onVault (transfer F tx.from tx.to tx.amount tx.fee))
      onExecutor (countNonce tx.from)
      succeed [] : Exec PacyteError (Execution σ κ) ExecutionResult) hfits with hrun | hrun
    · rw [hrun] at h
      cases h
      cases hsuccess
    · rw [hrun] at h
      cases h

/-- The state manager after such a transfer has the effect of a transfer if and only if the cached
account was behind. -/
theorem effect_written_iff {tx : Transaction} {sm sm' : StateManager σ} {toGenesis : U128}
    {account : Account} (hpaid : Paid tx.from tx.to tx.amount tx.fee toGenesis sm sm')
    (hne : tx.from ≠ tx.to) (hgenesis : tx.to ≠ genesisVaultAddress)
    (hsender : tx.from ≠ genesisVaultAddress) (hlast : account.nonce.toNat + 1 < 2 ^ 64) :
    TransferEffect tx sm (sm'.withAccount tx.from account.nextNonce) ↔
      (account.balance.toNat + (tx.amount.toNat + tx.fee.toNat) = sm.book.balance tx.from ∧
        account.nonce.toNat = sm.book.nonce tx.from) ∧
      sm.book.balance tx.to + tx.amount.toNat ≤ maxU128 := by
  have hbalance : (sm'.withAccount tx.from account.nextNonce).book.balance tx.from =
      account.balance.toNat := by
    rw [book_withAccount]
    exact Function.update_self ..
  have hnonce : (sm'.withAccount tx.from account.nextNonce).book.nonce tx.from =
      account.nonce.toNat + 1 := by
    rw [book_withAccount]
    exact (Function.update_self ..).trans (toNat_add_of_fits hlast)
  have hrecipient : (sm'.withAccount tx.from account.nextNonce).book.balance tx.to =
      min (sm.book.balance tx.to + tx.amount.toNat) maxU128 := by
    rw [book_withAccount]
    dsimp only
    rw [Function.update_of_ne hne.symm, hpaid.book, Book.payOver_of_ne maxU128 maxU64 hsender
      hgenesis, Book.balance_pay, Book.deposit_balance_of_ne maxU128 hgenesis]
    exact if_pos rfl
  have hothers : ∀ x, x ≠ tx.from → x ≠ tx.to → x ≠ genesisVaultAddress →
      (sm'.withAccount tx.from account.nextNonce).account x = sm.account x := by
    intro x hfrom hto hx
    rw [StateManager.account_withAccount, Function.update_of_ne hfrom]
    exact hpaid.others x hfrom hto hx
  constructor
  · intro heffect
    have hfrom := heffect.sender
    have hnext := heffect.nonce
    have hto := heffect.recipient
    rw [hbalance] at hfrom
    rw [hnonce] at hnext
    rw [hrecipient] at hto
    exact ⟨⟨hfrom, Nat.succ.inj hnext⟩, by omega⟩
  · rintro ⟨⟨hfrom, hnext⟩, hfits⟩
    refine ⟨?_, ?_, ?_, hothers⟩
    · rw [hbalance, hfrom]
    · rw [hrecipient, Nat.min_eq_left hfits]
    · rw [hnonce, hnext]

variable [CodeStorage κ] [Keccak256]

/-- What is neither a call nor a creation is a transfer. -/
theorem executePath_of_plain {tx : Transaction} {s : Execution σ κ} (h : PlainTransfer tx s) :
    executePath F tx s = executeTransfer F tx s := by
  have hne : tx.to ≠ zero32 := h.recipient
  unfold executePath
  rw [h.noCode, if_neg Bool.false_ne_true, if_neg hne]

/-- **When the executor's effect is the transfer.** -/
theorem transfer_effect_iff {tx : Transaction} {s : Execution σ κ} {result : ExecutionResult}
    (hplain : PlainTransfer tx s) (h : (executeTransaction F tx s).1 = .ok result)
    (hsuccess : result.success = true) :
    TransferEffect tx s.executor.stateManager
        (executeTransaction F tx s).2.executor.stateManager ↔ CopyBehind tx s := by
  rcases hvalid : validateTransaction tx s with ⟨⟨⟩ | e | _, s₁⟩
  · have hpasses := passes_of_ok hvalid
    obtain ⟨hlooked, hchecked⟩ := checked_looked tx s
    obtain ⟨account, hseen, hcached, -⟩ := hchecked hpasses.sender
    have hplain' : PlainTransfer tx (checked tx s) :=
      ⟨(congrArg _ hlooked.codeStorage).trans hplain.noCode, hplain.sender, hplain.recipient⟩
    rw [executeTransaction_of_ok F (validateTransaction_run hpasses),
      executePath_of_plain F hplain'] at h ⊢
    obtain ⟨vm, ⟨r, hrun⟩, hnonce, hafter⟩ :=
      executeTransfer_ok F (s := checked tx s) hcached h hsuccess
    have hok : (transfer F tx.from tx.to tx.amount tx.fee
        (checked tx s).executor.vaultManager).1.IsOk := by
      rw [hrun]
      trivial
    have hpaid := transfer_paid F hok
    rw [hrun] at hpaid
    have hstate : (executeTransfer F tx (checked tx s)).2.executor.stateManager =
        vm.stateManager.withAccount tx.from account.nextNonce := by
      rw [hafter]
      rfl
    have haccount : (checked tx s).executor.vaultManager.stateManager.account =
        s.executor.stateManager.account := hlooked.vault.ledger.account
    have hbook := StateManager.book_congr haccount
    rw [hstate, TransferEffect.congr haccount, effect_written_iff hpaid (transfer_of_ok F hok).2.1
      hplain.recipient hplain.sender hnonce, hbook]
    constructor
    · rintro ⟨hcopy, hfits⟩
      exact ⟨⟨account, hseen, hcopy⟩, hfits⟩
    · rintro ⟨⟨account', hseen', hcopy⟩, hfits⟩
      cases hseen.symm.trans hseen'
      exact ⟨hcopy, hfits⟩
  · rw [executeTransaction, run_bind_of_err hvalid] at h
    cases h
  · rw [executeTransaction, run_bind_of_panic hvalid] at h
    cases h

end Execution

/-! ## A fresh executor, and one whose copy is behind -/

section Example

open scoped Sample VmSample ExecutorSample

open Execution

/-- The first account pays 2000 and keeps its balance. -/
theorem sender_keeps_balance :
    (executeTransaction ℚ (sampleTx 2 2000 0 0) (sampleExecution 30000)).1 =
        .ok (.ofSuccess 21000 []) ∧
      (executeTransaction ℚ (sampleTx 2 2000 0 0)
        (sampleExecution 30000)).2.executor.stateManager.book.balance (sampleAddress 1) = 1000000 ∧
      (executeTransaction ℚ (sampleTx 2 2000 0 0)
        (sampleExecution 30000)).2.executor.stateManager.book.balance (sampleAddress 2) = 2000 ∧
      ¬ TransferEffect (sampleTx 2 2000 0 0) (sampleExecution 30000).executor.stateManager
        (executeTransaction ℚ (sampleTx 2 2000 0 0)
          (sampleExecution 30000)).2.executor.stateManager := by
  have hafter : (executeTransaction ℚ (sampleTx 2 2000 0 0)
      (sampleExecution 30000)).2.executor.stateManager.book.balance (sampleAddress 1) =
        1000000 := by decide +kernel
  have hbefore : (sampleExecution 30000).executor.stateManager.book.balance (sampleAddress 1) =
      1000000 := by decide
  refine ⟨by decide +kernel, hafter, by decide +kernel, fun heffect => ?_⟩
  have hsender := heffect.sender
  rw [show (sampleTx 2 2000 0 0).from = sampleAddress 1 from rfl, hafter, hbefore] at hsender
  exact absurd hsender (by decide)

/-- An executor that has cached the first account with 2000 less. -/
def behindExecution : Execution MemoryStorage (Map Address Bytes) :=
  { sampleExecution 30000 with
    executor := sampleExecutor.withCached (sampleAddress 1)
      (Account.new (sampleAddress 1) 998000 0) }

/-- Here the effect is the transfer. -/
theorem copy_behind_transfers :
    TransferEffect (sampleTx 2 2000 0 0) behindExecution.executor.stateManager
      (executeTransaction ℚ (sampleTx 2 2000 0 0)
        behindExecution).2.executor.stateManager := by
  have hrun : (executeTransaction ℚ (sampleTx 2 2000 0 0) behindExecution).1 =
      .ok (.ofSuccess 21000 []) := by decide +kernel
  refine (transfer_effect_iff ℚ ⟨by decide, by decide, by decide⟩ hrun rfl).mpr
    ⟨⟨_, rfl, ?_, ?_⟩, ?_⟩
  · decide
  · decide
  · decide

end Example
