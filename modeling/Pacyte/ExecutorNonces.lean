/-
# Nonces of the executor

The check of a transaction refuses a nonce below the sender's, but none above it.  In a run of
executions in which no nonce is above the one that the executor sees (`Orderly`), every success has
exactly that nonce and raises it by one, and no execution lowers it (`nonces_step`).  So no two
successes have the same sender and the same nonce, and, where the addresses of new contracts do not
collide, no two creations store code at the same address (`executes_once`).
-/
import Pacyte.ExecutorPaths
import Pacyte.Runs

open Exec

namespace VaultManager

variable {σ : Type} [LawfulStorage σ] (F : Type) [FloatOps F]

/-- However a transfer of the vault ends, only the sender's nonce may have changed. -/
theorem nonce_transfer («from» «to» : Address) (amount fee : U128) (vm : VaultManager σ)
    {a : Address} (ha : a ≠ «from») :
    (transfer F «from» «to» amount fee vm).2.stateManager.book.nonce a =
      vm.stateManager.book.nonce a := by
  have hpaid : ∀ {vm' : VaultManager σ}, Paid «from» «to» amount fee
      (genesisShare F vm.totalSupply fee) vm.stateManager vm'.stateManager →
      vm'.stateManager.book.nonce a = vm.stateManager.book.nonce a := by
    intro vm' h
    rw [h.book]
    show (Book.pay maxU128 maxU64 (transferPayment «from» «to» amount fee)
      vm.stateManager.book).nonce a = _
    rw [Book.nonce_pay, if_neg fun h => ha h.1.symm]
  have hsame : ∀ {vm' : VaultManager σ},
      StateManager.SameLedger vm.stateManager vm'.stateManager →
      vm'.stateManager.book.nonce a = vm.stateManager.book.nonce a := fun h => by
    rw [StateManager.book_congr h.account]
  unfold transfer
  split_ifs
  · rfl
  · rfl
  · have hend := executeTransfer_spec F «from» «to» amount fee vm
    rw [Post] at hend
    generalize executeTransfer F «from» «to» amount fee vm = run at hend ⊢
    obtain ⟨o, vm'⟩ := run
    cases hend with
    | refused _ _ h => exact hsame h
    | overCap _ _ h => exact hsame h
    | burnedOverflow _ _ _ h => exact hsame h
    | genesisUnread _ _ _ _ _ h => exact hsame h
    | countersFull _ _ _ _ h => exact hpaid h
    | settled _ _ _ _ _ h => exact hpaid h

end VaultManager

/-! ## The nonces that the executor sees -/

namespace TransactionExecutor

variable {σ κ : Type} [LawfulStorage σ]

/-- The nonce of the account that the executor finds; an account that does not exist has none. -/
def seenNonce (executor : TransactionExecutor σ κ) (address : Address) : ℕ :=
  ((executor.seen address).map fun account => account.nonce.toNat).getD 0

theorem seenNonce_of_cached {executor : TransactionExecutor σ κ} {address : Address}
    {account : Account} (h : executor.accountCache.lookup address = some account) :
    executor.seenNonce address = account.nonce.toNat := by
  unfold seenNonce seen
  rw [h]
  rfl

theorem seenNonce_of_uncached {executor : TransactionExecutor σ κ} {address : Address}
    (h : executor.accountCache.lookup address = none) :
    executor.seenNonce address = executor.stateManager.book.nonce address := by
  unfold seenNonce seen
  rw [h]
  rfl

theorem seenNonce_written (executor : TransactionExecutor σ κ) (address : Address)
    (account : Account) : (executor.written address account).seenNonce =
      Function.update executor.seenNonce address account.nonce.toNat := by
  funext x
  unfold seenNonce
  rw [seen_written]
  by_cases hx : x = address
  · subst hx
    rw [Function.update_self, Function.update_self]
    rfl
  · rw [Function.update_of_ne hx, Function.update_of_ne hx]

/-- The vault does not move the nonces that the executor sees, as the sender is cached. -/
theorem seenNonce_transfer (F : Type) [FloatOps F] {executor : TransactionExecutor σ κ}
    {«from» : Address} {account : Account}
    (h : executor.accountCache.lookup «from» = some account) («to» : Address) (amount fee : U128) :
    TransactionExecutor.seenNonce { executor with
        vaultManager := (executor.vaultManager.transfer F «from» «to» amount fee).2 } =
      executor.seenNonce := by
  funext x
  cases hcached : executor.accountCache.lookup x with
  | some account' =>
      exact Eq.trans (seenNonce_of_cached hcached) (seenNonce_of_cached hcached).symm
  | none =>
      have hne : x ≠ «from» := fun hx => by
        rw [hx, h] at hcached
        cases hcached
      have hbook := VaultManager.nonce_transfer F «from» «to» amount fee executor.vaultManager hne
      exact Eq.trans (seenNonce_of_uncached hcached)
        (Eq.trans hbook (seenNonce_of_uncached hcached).symm)

end TransactionExecutor

/-! ## One execution -/

namespace Execution

open TransactionExecutor

variable {σ κ : Type} [LawfulStorage σ]

/-- An execution of a run: the transaction and its context. -/
structure Call where
  tx : Transaction
  context : ExecutionContext

/-- The address of the contract that a call creates. -/
def Call.address [Keccak256] (c : Call) : Address := generateContractAddress c.tx.from c.tx.nonce

/-- The result is a success. -/
def Succeeded : Outcome PacyteError ExecutionResult → Prop
  | .ok result => result.success = true
  | _ => False

/-- What a path does to the nonces that the executor sees, where the sender's account is
`account`. -/
inductive NonceEnd [CodeStorage κ] [Keccak256] (tx : Transaction) (s : Execution σ κ)
    (account : Account) (o : Outcome PacyteError ExecutionResult) (s' : Execution σ κ) : Prop
  | idle : ¬ Succeeded o → s'.executor.seenNonce = s.executor.seenNonce →
      NonceEnd tx s account o s'
  | counted : ¬ Creates tx s → s'.executor.seenNonce =
        Function.update s.executor.seenNonce tx.from (account.nonce.toNat + 1) →
      NonceEnd tx s account o s'
  | created : Creates tx s → s'.executor.seenNonce =
        Function.update (Function.update s.executor.seenNonce tx.from (account.nonce.toNat + 1))
          (generateContractAddress tx.from tx.nonce) 1 →
      NonceEnd tx s account o s'

variable [CodeStorage κ] [Keccak256]

/-- A path that cannot pay its intrinsic gas. -/
theorem nonceEnd_of_not_fits {tx : Transaction} {isContractCreation : Bool} {account : Account}
    (body : Exec PacyteError (Execution σ κ) ExecutionResult) {s : Execution σ κ}
    (hbeyond : ¬ Fits tx isContractCreation s) :
    NonceEnd tx s account (payIntrinsic tx isContractCreation body s).1
      (payIntrinsic tx isContractCreation body s).2 := by
  rcases payIntrinsic_of_not_fits body hbeyond with hrun | hrun
  · rw [hrun]
    exact .idle Bool.noConfusion rfl
  · rw [hrun]
    exact .idle id rfl

omit [CodeStorage κ] [Keccak256] in
/-- The next nonce is written over the sender's account. -/
theorem seenNonce_counted {executor : TransactionExecutor σ κ} {address : Address}
    {account : Account} (hlast : account.nonce.toNat + 1 < 2 ^ 64) :
    (executor.written address account.nextNonce).seenNonce =
      Function.update executor.seenNonce address (account.nonce.toNat + 1) := by
  rw [seenNonce_written]
  exact congrArg _ (toNat_add_of_fits hlast)

section Kinds

variable (F : Type) [FloatOps F]

theorem nonceEnd_executeTransfer {tx : Transaction} {s : Execution σ κ} {account : Account}
    (hnot : ¬ Creates tx s) (hcached : s.executor.accountCache.lookup tx.from = some account) :
    NonceEnd tx s account (executeTransfer F tx s).1 (executeTransfer F tx s).2 := by
  unfold executeTransfer
  by_cases hfits : Fits tx false s
  · have hvault := seenNonce_transfer F hcached tx.to tx.amount tx.fee
    rw [(payIntrinsic_of_fits _ hfits).1, run_bind, onVault_run,
      show (s.paid tx false).executor = s.executor from rfl]
    rcases hrun : s.executor.vaultManager.transfer F tx.from tx.to tx.amount tx.fee with
      ⟨r | e | _, vm⟩
    · rw [hrun] at hvault
      dsimp only
      have hcached' : ((s.paid tx false).withVault vm).executor.accountCache.lookup tx.from =
          some account := hcached
      rw [countNonce_succeed hcached']
      split_ifs with hlast
      · refine .counted hnot ((seenNonce_counted hlast).trans ?_)
        exact congrArg (Function.update · _ _) hvault
      · exact .idle id hvault
    · rw [hrun] at hvault
      exact .idle id hvault
    · rw [hrun] at hvault
      exact .idle id hvault
  · exact nonceEnd_of_not_fits _ hfits

/-- The last part of a call. -/
theorem nonceEnd_runCall {tx : Transaction} {s₀ s : Execution σ κ} {account : Account}
    (hnot : ¬ Creates tx s₀) (hcached : s.executor.accountCache.lookup tx.from = some account)
    (hle : s.context.gasUsed ≤ s.context.gasLimit)
    (hsame : s.executor.seenNonce = s₀.executor.seenNonce) (code : Bytes) :
    NonceEnd tx s₀ account (runCall tx code s).1 (runCall tx code s).2 := by
  rw [runCall_run hcached hle]
  rcases (VM.run (VM.new code s.context.remainingGas)).1 with data | e | _
  · dsimp only
    split_ifs with hlast
    · refine .counted hnot ((seenNonce_counted hlast).trans ?_)
      exact congrArg (Function.update · _ _) hsame
    · exact .idle id hsame
  · exact .idle Bool.noConfusion hsame
  · exact .idle id hsame

theorem nonceEnd_executeContractCall {tx : Transaction} {s : Execution σ κ} {account : Account}
    (hnot : ¬ Creates tx s) (hcached : s.executor.accountCache.lookup tx.from = some account) :
    NonceEnd tx s account (executeContractCall F tx s).1 (executeContractCall F tx s).2 := by
  unfold executeContractCall
  rw [run_bind, run_get]
  dsimp only
  cases CodeStorage.getCode tx.to s.executor.codeStorage with
  | none => exact .idle id rfl
  | some code =>
      show NonceEnd tx s account
        (payIntrinsic tx false (transferValue F tx >>= fun _ => runCall tx code) s).1
        (payIntrinsic tx false (transferValue F tx >>= fun _ => runCall tx code) s).2
      by_cases hfits : Fits tx false s
      · obtain ⟨hrun, hle⟩ := payIntrinsic_of_fits
          (transferValue F tx >>= fun _ => runCall tx code) hfits
        rw [hrun]
        by_cases hpos : 0 < tx.amount
        · have hvault := seenNonce_transfer F hcached tx.to tx.amount 0
          rw [run_bind, transferValue, if_pos hpos, run_bind, onVault_run,
            show (s.paid tx false).executor = s.executor from rfl]
          rcases hrun : s.executor.vaultManager.transfer F tx.from tx.to tx.amount 0 with
            ⟨r | e | _, vm⟩
          · rw [hrun] at hvault
            exact nonceEnd_runCall (s := (s.paid tx false).withVault vm) hnot hcached hle hvault
              code
          · rw [hrun] at hvault
            exact .idle id hvault
          · rw [hrun] at hvault
            exact .idle id hvault
        · rw [run_bind, transferValue, if_neg hpos]
          exact nonceEnd_runCall (s := s.paid tx false) hnot hcached hle rfl code
      · exact nonceEnd_of_not_fits _ hfits

omit F [FloatOps F] in
theorem nonceEnd_executeContractCreation {tx : Transaction} {s : Execution σ κ}
    {account : Account} (hcreates : Creates tx s)
    (hcached : s.executor.accountCache.lookup tx.from = some account) :
    NonceEnd tx s account (executeContractCreation tx s).1 (executeContractCreation tx s).2 := by
  rw [executeContractCreation_eq]
  by_cases hfits : Fits tx true s
  · obtain ⟨hrun, hle⟩ := payIntrinsic_of_fits (runCreation tx) hfits
    rw [hrun, runCreation_run (s := s.paid tx true) hcached hle]
    rcases (VM.run (VM.new tx.signature (s.paid tx true).context.remainingGas)).1 with
      code | e | _
    · dsimp only
      split_ifs with hlast
      · refine .created hcreates ?_
        unfold created
        rw [seenNonce_written, seenNonce_written]
        exact congrArg (Function.update · _ 1) (congrArg (Function.update _ _)
          (toNat_add_of_fits hlast))
      · exact .idle id rfl
    · exact .idle Bool.noConfusion rfl
    · exact .idle id rfl
  · exact nonceEnd_of_not_fits _ hfits

/-- The three paths. -/
theorem nonceEnd_executePath {tx : Transaction} {s : Execution σ κ} {account : Account}
    (hcached : s.executor.accountCache.lookup tx.from = some account) :
    NonceEnd tx s account (executePath F tx s).1 (executePath F tx s).2 := by
  unfold executePath
  split_ifs with hexists hzero
  · exact nonceEnd_executeContractCall F (fun h => Bool.noConfusion (hexists.symm.trans h.1)) hcached
  · exact nonceEnd_executeContractCreation ⟨Bool.eq_false_of_not_eq_true hexists, hzero⟩ hcached
  · exact nonceEnd_executeTransfer F (fun h => hzero h.2) hcached

/-! ## Runs -/

/-- The state in which a call starts. -/
def start (executor : TransactionExecutor σ κ) (c : Call) : Execution σ κ := ⟨executor, c.context⟩

/-- The executor after a call, however it ends. -/
def step (c : Call) (executor : TransactionExecutor σ κ) : TransactionExecutor σ κ :=
  (executeTransaction F c.tx (start executor c)).2.executor

/-- The call succeeds. -/
def Succeeds (executor : TransactionExecutor σ κ) (c : Call) : Prop :=
  Succeeded (executeTransaction F c.tx (start executor c)).1

/-- No nonce is above the sender's; the address of a new contract is not the sender's and has not
sent anything, and the nonce of the creator is not the last one. -/
structure Orderly (executor : TransactionExecutor σ κ) (c : Call) : Prop where
  nonce : c.tx.nonce.toNat ≤ executor.seenNonce c.tx.from
  address : Creates c.tx (start executor c) →
    c.address ≠ c.tx.from ∧ executor.seenNonce c.address ≤ 1
  last : Creates c.tx (start executor c) → executor.seenNonce c.tx.from + 1 < 2 ^ 64

omit F [FloatOps F] [CodeStorage κ] [Keccak256] in
theorem seenNonce_looked {executor executor' : TransactionExecutor σ κ}
    (h : Looked executor executor') : executor'.seenNonce = executor.seenNonce := by
  funext a
  unfold seenNonce
  rw [h.seen]

/-- **The nonces after a call.**  An orderly call lowers no nonce; if it succeeds, its nonce is the
sender's, and that is raised by one. -/
theorem nonces_step {executor : TransactionExecutor σ κ} {c : Call} (h : Orderly executor c) :
    (∀ a, executor.seenNonce a ≤ (step F c executor).seenNonce a) ∧
      (Succeeds F executor c → c.tx.nonce.toNat = executor.seenNonce c.tx.from ∧
        (step F c executor).seenNonce c.tx.from = c.tx.nonce.toNat + 1) := by
  obtain ⟨hlooked, hchecked⟩ := checked_looked c.tx (start executor c)
  have hview : (checked c.tx (start executor c)).executor.seenNonce = executor.seenNonce :=
    seenNonce_looked hlooked
  unfold step Succeeds
  by_cases hpasses : Passes c.tx (start executor c)
  · obtain ⟨account, hseen, hcached, hle, -⟩ := hchecked hpasses.sender
    have haccount : executor.seenNonce c.tx.from = account.nonce.toNat := by
      rw [← hview]
      exact seenNonce_of_cached hcached
    have hnonce : c.tx.nonce.toNat = account.nonce.toNat :=
      le_antisymm (haccount ▸ h.nonce) (UInt64.le_iff_toNat_le.mp hle)
    rw [executeTransaction_of_ok F (validateTransaction_run hpasses)]
    have hend := nonceEnd_executePath F (s := checked c.tx (start executor c)) hcached
    cases hend with
    | idle hnot hsame =>
        refine ⟨fun a => ?_, fun hsuccess => absurd hsuccess hnot⟩
        rw [hsame, hview]
    | counted hnot hupdate =>
        rw [hupdate, hview]
        refine ⟨fun a => ?_, fun _ => ⟨hnonce.trans haccount.symm, ?_⟩⟩
        · by_cases ha : a = c.tx.from
          · rw [ha, Function.update_self, haccount]
            exact Nat.le_succ _
          · rw [Function.update_of_ne ha]
        · rw [Function.update_self, hnonce]
    | created hcreates hupdate =>
        have hcreates' : Creates c.tx (start executor c) :=
          ⟨(congrArg _ hlooked.codeStorage).symm.trans hcreates.1, hcreates.2⟩
        obtain ⟨hne, hfresh⟩ := h.address hcreates'
        have hupdate' : (executePath F c.tx (checked c.tx (start executor c))).2.executor.seenNonce =
            Function.update (Function.update executor.seenNonce c.tx.from
              (account.nonce.toNat + 1)) c.address 1 := by
          rw [hupdate, hview]
          rfl
        rw [hupdate']
        refine ⟨fun a => ?_, fun _ => ⟨hnonce.trans haccount.symm, ?_⟩⟩
        · by_cases ha : a = c.address
          · rw [ha, Function.update_self]
            exact hfresh
          · rw [Function.update_of_ne ha]
            by_cases ha' : a = c.tx.from
            · rw [ha', Function.update_self, haccount]
              exact Nat.le_succ _
            · rw [Function.update_of_ne ha']
        · rw [Function.update_of_ne hne.symm, Function.update_self, hnonce]
  · have hexecutor := validateTransaction_executor c.tx (start executor c)
    unfold executeTransaction
    rcases hrun : validateTransaction c.tx (start executor c) with ⟨⟨⟩ | e | _, s'⟩
    · exact absurd (passes_of_ok hrun) hpasses
    · rw [hrun] at hexecutor
      rw [run_bind_of_err hrun, hexecutor]
      exact ⟨fun a => (congrFun hview a).ge, False.elim⟩
    · rw [hrun] at hexecutor
      rw [run_bind_of_panic hrun, hexecutor]
      exact ⟨fun a => (congrFun hview a).ge, False.elim⟩

/-- The code of a creation has run and is stored. -/
structure Stores (executor : TransactionExecutor σ κ) (c : Call) : Prop where
  passes : Passes c.tx (start executor c)
  creates : Creates c.tx (start executor c)
  fits : Fits c.tx true (checked c.tx (start executor c))
  code : ∃ code, (VM.run (VM.new c.tx.signature
    ((checked c.tx (start executor c)).paid c.tx true).context.remainingGas)).1 = .ok code

/-- An orderly creation that stores its code succeeds. -/
theorem Stores.succeeds {executor : TransactionExecutor σ κ} {c : Call} (hstores : Stores executor c)
    (h : Orderly executor c) : Succeeds F executor c := by
  obtain ⟨hlooked, hchecked⟩ := checked_looked c.tx (start executor c)
  obtain ⟨account, hseen, hcached, -⟩ := hchecked hstores.passes.sender
  obtain ⟨code, hcode⟩ := hstores.code
  have hlast : account.nonce.toNat + 1 < 2 ^ 64 := by
    have hnonce : executor.seenNonce c.tx.from = account.nonce.toNat := by
      refine Eq.trans (congrFun (seenNonce_looked hlooked) c.tx.from).symm ?_
      exact seenNonce_of_cached hcached
    rw [← hnonce]
    exact h.last hstores.creates
  have hcreates : Creates c.tx (checked c.tx (start executor c)) :=
    ⟨(congrArg _ hlooked.codeStorage).trans hstores.creates.1, hstores.creates.2⟩
  obtain ⟨hrun, hle⟩ := payIntrinsic_of_fits (runCreation c.tx) hstores.fits
  unfold Succeeds
  rw [executeTransaction_of_ok F (validateTransaction_run hstores.passes),
    executePath_of_creates F hcreates, executeContractCreation_eq, hrun,
    runCreation_run (s := (checked c.tx (start executor c)).paid c.tx true) hcached hle, hcode]
  dsimp only
  rw [if_pos hlast]
  rfl

/-- The addresses of new contracts do not collide. -/
def CollisionFree (calls : List Call) : Prop :=
  ∀ c ∈ calls, ∀ c' ∈ calls, c.address = c'.address →
    c.tx.from = c'.tx.from ∧ c.tx.nonce = c'.tx.nonce

/-- The executor after some calls. -/
def after (executor : TransactionExecutor σ κ) (calls : List Call) : TransactionExecutor σ κ :=
  Runs.run (step F) executor calls

/-- Every sender and nonce executes at most once along some calls. -/
structure ExecutesOnce (executor : TransactionExecutor σ κ) (calls : List Call) : Prop where
  /-- The nonce of a success is the one of the sender's account at that moment. -/
  matched : ∀ past c rest, calls = past ++ c :: rest → Succeeds F (after F executor past) c →
    c.tx.nonce.toNat = (after F executor past).seenNonce c.tx.from
  /-- No two successes have the same sender and the same nonce. -/
  once : ∀ past c next c' rest, calls = past ++ c :: next ++ c' :: rest →
    Succeeds F (after F executor past) c → Succeeds F (after F executor (past ++ c :: next)) c' →
    ¬ (c.tx.from = c'.tx.from ∧ c.tx.nonce = c'.tx.nonce)
  /-- No two creations store code at the same address. -/
  stored : CollisionFree calls → ∀ past c next c' rest, calls = past ++ c :: next ++ c' :: rest →
    Stores (after F executor past) c → Stores (after F executor (past ++ c :: next)) c' →
    c.address ≠ c'.address

/-- **In an orderly run every sender and nonce executes at most once.** -/
theorem executes_once {executor : TransactionExecutor σ κ} {calls : List Call}
    (h : Runs.Along (step F) Orderly executor calls) : ExecutesOnce F executor calls := by
  have honce : ∀ past c next c' rest, calls = past ++ c :: next ++ c' :: rest →
      Succeeds F (after F executor past) c →
      Succeeds F (after F executor (past ++ c :: next)) c' →
      ¬ (c.tx.from = c'.tx.from ∧ c.tx.nonce = c'.tx.nonce) := by
    rintro past c next c' rest rfl hc hc' ⟨hsender, hnonce⟩
    obtain ⟨hfirst, hlater, -⟩ := (Runs.along_append _ _).mp h
    obtain ⟨-, horderly, hnext⟩ := (Runs.along_append _ _).mp hfirst
    -- the nonces are not lowered between the two calls
    have hkept : ∀ a, (step F c (after F executor past)).seenNonce a ≤
        (after F executor (past ++ c :: next)).seenNonce a := by
      unfold after
      rw [Runs.run_append, Runs.run_cons]
      exact hnext.invariant
        (I := fun e => ∀ a, (step F c (Runs.run (step F) executor past)).seenNonce a ≤
          e.seenNonce a)
        (fun e c hI hP a => (hI a).trans ((nonces_step F hP).1 a)) fun a => le_rfl
    have hraised := ((nonces_step F horderly).2 hc).2
    have hmatched : c'.tx.nonce.toNat =
        (after F executor (past ++ c :: next)).seenNonce c'.tx.from :=
      ((nonces_step F hlater).2 hc').1
    have hle := hkept c.tx.from
    have hafter : (step F c (after F executor past)).seenNonce c.tx.from = c.tx.nonce.toNat + 1 :=
      hraised
    rw [hafter, hsender, ← hmatched, hnonce] at hle
    exact absurd hle (Nat.not_succ_le_self _)
  refine ⟨?_, honce, ?_⟩
  · rintro past c rest rfl hc
    obtain ⟨-, horderly, -⟩ := (Runs.along_append _ _).mp h
    exact ((nonces_step F horderly).2 hc).1
  · intro hfree past c next c' rest hcalls hc hc' heq
    have hmem : c ∈ calls ∧ c' ∈ calls := by
      rw [hcalls]
      simp
    subst hcalls
    obtain ⟨hfirst, hlater, -⟩ := (Runs.along_append _ _).mp h
    obtain ⟨-, horderly, -⟩ := (Runs.along_append _ _).mp hfirst
    exact honce past c next c' rest rfl (hc.succeeds F horderly) (hc'.succeeds F hlater)
      (hfree c hmem.1 c' hmem.2 heq)

end Kinds

end Execution

/-! ## A nonce that is ahead, and nonces in order -/

namespace NonceSample

/-- A digest for tests, so that new contracts are at one address that is not zero. -/
scoped instance digest : Keccak256 := ⟨fun _ => sampleAddress 7⟩

end NonceSample

section Example

open scoped Sample NonceSample ExecutorSample

open Execution

/-- A call of the first account. -/
def sampleCall (payee : UInt8) (nonce : UInt64) : Call :=
  ⟨sampleTx payee 2000 0 nonce, ⟨0, 60000, 0⟩⟩

/-- The account has the nonce 0, and a creation with the nonce 1 succeeds twice, at one address. -/
theorem creation_repeats :
    Succeeds ℚ sampleExecutor (sampleCall 0 1) ∧
      Succeeds ℚ (after ℚ sampleExecutor [sampleCall 0 1]) (sampleCall 0 1) ∧
      ¬ ExecutesOnce ℚ sampleExecutor [sampleCall 0 1, sampleCall 0 1] := by
  have hfirst : Succeeds ℚ sampleExecutor (sampleCall 0 1) := by
    have hrun : (executeTransaction ℚ (sampleCall 0 1).tx
        (start sampleExecutor (sampleCall 0 1))).1 =
          .ok (.ofSuccess 53000 (sampleCall 0 1).address.toList) := by decide
    rw [Succeeds, hrun]
    rfl
  have hsecond : Succeeds ℚ (after ℚ sampleExecutor [sampleCall 0 1]) (sampleCall 0 1) := by
    have hrun : (executeTransaction ℚ (sampleCall 0 1).tx
        (start (after ℚ sampleExecutor [sampleCall 0 1]) (sampleCall 0 1))).1 =
          .ok (.ofSuccess 53000 (sampleCall 0 1).address.toList) := by decide
    rw [Succeeds, hrun]
    rfl
  refine ⟨hfirst, hsecond, fun honce => ?_⟩
  exact honce.once [] (sampleCall 0 1) [] (sampleCall 0 1) [] rfl hfirst hsecond ⟨rfl, rfl⟩

/-- Two transfers with the nonces 0 and 1. -/
theorem transfers_once :
    ExecutesOnce ℚ sampleExecutor [sampleCall 2 0, sampleCall 2 1] := by
  have hplain : ∀ executor : TransactionExecutor MemoryStorage (Map Address Bytes), ∀ nonce,
      ¬ Creates (sampleCall 2 nonce).tx (start executor (sampleCall 2 nonce)) :=
    fun _ _ hcreates => absurd hcreates.2 (show sampleAddress 2 ≠ zero32 by decide)
  refine executes_once ℚ ⟨⟨?_, ?_, ?_⟩, ⟨?_, ?_, ?_⟩, trivial⟩
  · exact Nat.zero_le _
  · exact fun h => absurd h (hplain _ 0)
  · exact fun h => absurd h (hplain _ 0)
  · decide +kernel
  · exact fun h => absurd h (hplain _ 1)
  · exact fun h => absurd h (hplain _ 1)

end Example
