/-
# What the executor sees

`get_account` of the executor looks into its own cache first, so the account that it finds
(`TransactionExecutor.seen`) need not be the one of the shared state manager.  Looking an account
up changes neither view (`getAccount_spec`), and after the check of a transaction the sender's
account is in the cache (`validateTransaction_run`).

The vault writes past that cache.  A transfer that returns an error has written nothing, or it has
burned its fee and not found the account of the genesis vault (`transfer_err`).
-/
import Pacyte.GasLimits
import Pacyte.VaultPayments

open Exec

namespace TransactionExecutor

variable {σ κ : Type} [LawfulStorage σ]

/-- The state manager that the executor shares with its vault manager. -/
def stateManager (executor : TransactionExecutor σ κ) : StateManager σ :=
  executor.vaultManager.stateManager

/-- The account that the executor finds for an address. -/
def seen (executor : TransactionExecutor σ κ) (address : Address) : Option Account :=
  match executor.accountCache.lookup address with
  | some account => some account
  | none => executor.stateManager.account address

/-- The vault manager is the same but for its state manager, and that has the same ledger. -/
structure SameVault (vault vault' : VaultManager σ) : Prop where
  ledger : StateManager.SameLedger vault.stateManager vault'.stateManager
  rest : vault' = { vault with stateManager := vault'.stateManager }

theorem SameVault.refl (vault : VaultManager σ) : SameVault vault vault :=
  ⟨StateManager.SameLedger.refl _, rfl⟩

/-- What looking an account up does. -/
structure Looked (executor executor' : TransactionExecutor σ κ) : Prop where
  vault : SameVault executor.vaultManager executor'.vaultManager
  codeStorage : executor'.codeStorage = executor.codeStorage
  gasCalculator : executor'.gasCalculator = executor.gasCalculator
  seen : executor'.seen = executor.seen
  cached : ∀ x account, executor.accountCache.lookup x = some account →
    executor'.accountCache.lookup x = some account

theorem Looked.refl (executor : TransactionExecutor σ κ) : Looked executor executor :=
  ⟨.refl _, rfl, rfl, rfl, fun _ _ h => h⟩

/-- The executor after a look-up in the state manager. -/
def withState (executor : TransactionExecutor σ κ) (sm : StateManager σ) :
    TransactionExecutor σ κ :=
  { executor with vaultManager := { executor.vaultManager with stateManager := sm } }

theorem looked_withState {executor : TransactionExecutor σ κ} {sm : StateManager σ}
    (h : StateManager.SameLedger executor.stateManager sm) :
    Looked executor (executor.withState sm) := by
  refine ⟨⟨h, rfl⟩, rfl, rfl, ?_, fun _ _ h => h⟩
  funext x
  have haccount := congrFun h.account x
  unfold seen withState stateManager at *
  rw [haccount]

theorem Looked.trans {e₁ e₂ e₃ : TransactionExecutor σ κ} (h : Looked e₁ e₂) (h' : Looked e₂ e₃) :
    Looked e₁ e₃ := by
  refine ⟨⟨h.vault.ledger.trans h'.vault.ledger, ?_⟩, h'.codeStorage.trans h.codeStorage,
    h'.gasCalculator.trans h.gasCalculator, h'.seen.trans h.seen,
    fun x account hx => h'.cached x account (h.cached x account hx)⟩
  rw [h'.vault.rest, h.vault.rest]

/-- The executor after an account was cached. -/
def withCached (executor : TransactionExecutor σ κ) (address : Address) (account : Account) :
    TransactionExecutor σ κ :=
  { executor with accountCache := executor.accountCache.insert address account }

/-- The account that is seen is cached. -/
theorem looked_withCached {executor : TransactionExecutor σ κ} {address : Address}
    {account : Account} (h : executor.seen address = some account) :
    Looked executor (executor.withCached address account) := by
  refine ⟨.refl _, rfl, rfl, ?_, fun x account' hx => ?_⟩
  · funext x
    by_cases hx : x = address
    · subst hx
      rw [h]
      unfold seen withCached
      dsimp only
      rw [AList.lookup_insert]
    · unfold seen withCached
      dsimp only
      rw [AList.lookup_insert_ne hx]
      rfl
  · unfold withCached
    dsimp only
    by_cases hx' : x = address
    · subst hx'
      unfold seen at h
      rw [hx] at h
      rw [AList.lookup_insert, ← h]
    · rw [AList.lookup_insert_ne hx']
      exact hx

/-- **Looking an account up** returns what the executor sees, and an account that was found is in
the cache. -/
theorem getAccount_spec (address : Address) (executor : TransactionExecutor σ κ) :
    Post (getAccount address) executor fun o executor' =>
      Looked executor executor' ∧
        match o with
        | .ok r => r = executor.seen address ∧
            ∀ account, r = some account → executor'.accountCache.lookup address = some account
        | .err _ => True
        | .panic => False := by
  unfold getAccount
  rw [post_bind, post_get]
  dsimp only
  cases hcache : executor.accountCache.lookup address with
  | some account =>
      have hseen : executor.seen address = some account := by
        unfold seen
        rw [hcache]
      exact ⟨.refl _, hseen.symm, fun _ h => h ▸ hcache⟩
  | none =>
      have hseen : executor.seen address = executor.stateManager.account address := by
        unfold seen
        rw [hcache]
      dsimp only
      rw [post_bind, Execution.post_onState]
      refine Post.mono (StateManager.getAccount_spec address executor.stateManager) ?_
      rintro ((_ | account) | e | _) sm ⟨hsame, -, h⟩
      · exact ⟨looked_withState hsame, h.trans hseen.symm, nofun⟩
      · have hlooked := looked_withState hsame
        have hview : (executor.withState sm).seen address = some account := by
          rw [hlooked.seen, hseen]
          exact h.symm
        refine ⟨hlooked.trans (looked_withCached hview), h.trans hseen.symm, fun account' h' => ?_⟩
        cases h'
        exact AList.lookup_insert _
      · exact ⟨looked_withState hsame, trivial⟩
      · exact h.elim

/-- The sender's account is in the cache: it is returned with the next nonce, or that overflows. -/
theorem nextNonce_run {address : Address} {executor : TransactionExecutor σ κ} {account : Account}
    (h : executor.accountCache.lookup address = some account) :
    nextNonce address executor =
      if account.nonce.toNat + 1 < 2 ^ 64 then
        (.ok { account with nonce := account.nonce + 1 }, executor)
      else (.panic, executor) := by
  have hget : getAccount address executor = (.ok (some account), executor) := by
    unfold getAccount
    rw [run_bind, run_get]
    dsimp only
    rw [h]
    rfl
  have hone : (1 : UInt64).toNat = 1 := rfl
  unfold nextNonce
  rw [run_bind_of_ok hget]
  dsimp only
  rw [run_bind, addU64, hone]
  split_ifs <;> rfl

/-- The executor after an account was written, to the cache and to the state manager. -/
def written (executor : TransactionExecutor σ κ) (address : Address) (account : Account) :
    TransactionExecutor σ κ :=
  { executor.withState (executor.stateManager.withAccount address account) with
    accountCache := executor.accountCache.insert address account }

/-- Both views have the account that was written. -/
theorem seen_written (executor : TransactionExecutor σ κ) (address : Address) (account : Account) :
    (executor.written address account).seen =
      Function.update executor.seen address (some account) := by
  funext x
  by_cases hx : x = address
  · subst hx
    rw [Function.update_self]
    unfold seen written
    dsimp only
    rw [AList.lookup_insert]
  · rw [Function.update_of_ne hx]
    unfold seen written withState stateManager
    dsimp only
    rw [AList.lookup_insert_ne hx, StateManager.account_withAccount, Function.update_of_ne hx]

/-- After a transfer or a call the next nonce is written over the cached account. -/
theorem countNonce_run {address : Address} {executor : TransactionExecutor σ κ} {account : Account}
    (h : executor.accountCache.lookup address = some account) :
    countNonce address executor =
      if account.nonce.toNat + 1 < 2 ^ 64 then
        (.ok (), executor.written address { account with nonce := account.nonce + 1 })
      else (.panic, executor) := by
  unfold countNonce
  rw [run_bind, nextNonce_run h]
  split_ifs <;> rfl

end TransactionExecutor

/-! ## The state after the check -/

namespace Execution

open TransactionExecutor

variable {σ κ : Type} [LawfulStorage σ] [CodeStorage κ]

/-- The state after the check of a transaction that has passed. -/
def checked (tx : Transaction) (s : Execution σ κ) : Execution σ κ :=
  ⟨(getAccount tx.from s.executor).2,
    { s.context with gasLimit := max s.context.gasLimit (UInt64.ofNat (validationGas tx s)) }⟩

/-- The check passes: for the sender, and for the gas. -/
structure Passes (tx : Transaction) (s : Execution σ κ) : Prop where
  sender : SenderPasses tx s
  bits : validationGas tx s < 2 ^ 64
  limit : s.context.gasLimit ≠ 0

omit [CodeStorage κ] in
theorem validateSender_state (tx : Transaction) (s : Execution σ κ) :
    (validateSender tx s).2 = { s with executor := (getAccount tx.from s.executor).2 } := by
  unfold validateSender
  rw [run_bind, onExecutor, run_onPart]
  rcases (getAccount tx.from s.executor) with ⟨(_ | account) | e | _, executor⟩
  · rfl
  · dsimp only
    split_ifs <;> rfl
  · rfl
  · rfl

/-- **A check that passes** leaves the checked state. -/
theorem validateTransaction_run {tx : Transaction} {s : Execution σ κ} (h : Passes tx s) :
    validateTransaction tx s = (.ok (), checked tx s) := by
  have hspec := validateSender_spec tx s
  have hstate := validateSender_state tx s
  rcases hrun : validateSender tx s with ⟨o, s₁⟩
  rw [Post, hrun] at hspec
  rw [hrun] at hstate
  obtain ⟨hcontext, hreads, ho⟩ := hspec
  dsimp only at hstate hcontext hreads
  cases o with
  | err e => exact absurd h.sender ho
  | panic => exact ho.elim
  | ok u =>
      have hgas : validationGas tx s₁ = validationGas tx s := by
        unfold validationGas
        rw [hreads.codeStorage, hreads.gasCalculator]
      obtain ⟨gas, htoNat, hgasRun⟩ := (validateGas_run tx s₁).1 (hgas ▸ h.bits)
        (hcontext ▸ h.limit)
      have hofNat : gas = UInt64.ofNat (validationGas tx s) := by
        rw [← hgas, ← htoNat, UInt64.ofNat_toNat]
      unfold validateTransaction
      rw [run_bind_of_ok hrun, hgasRun, hofNat, hstate]
      rfl

/-- However it ends, the check has only looked the sender up. -/
theorem validateTransaction_executor (tx : Transaction) (s : Execution σ κ) :
    (validateTransaction tx s).2.executor = (getAccount tx.from s.executor).2 := by
  have hstate := congrArg Execution.executor (validateSender_state tx s)
  unfold validateTransaction
  rcases hrun : validateSender tx s with ⟨⟨⟩ | e | _, s₁⟩
  · rw [hrun] at hstate
    rw [run_bind_of_ok hrun]
    refine Eq.trans ?_ hstate
    by_cases hpanics : ¬ validationGas tx s₁ < 2 ^ 64 ∨ s₁.context.gasLimit = 0
    · rw [(validateGas_run tx s₁).2 hpanics]
    · rw [not_or, not_not] at hpanics
      obtain ⟨gas, -, hgas⟩ := (validateGas_run tx s₁).1 hpanics.1 hpanics.2
      rw [hgas]
  · rw [hrun] at hstate
    rw [run_bind_of_err hrun]
    exact hstate
  · rw [hrun] at hstate
    rw [run_bind_of_panic hrun]
    exact hstate

/-- Only then the check returns. -/
theorem passes_of_ok {tx : Transaction} {s s' : Execution σ κ}
    (h : validateTransaction tx s = (.ok (), s')) : Passes tx s := by
  have hspec := validateTransaction_spec tx s
  rw [Post, h] at hspec
  cases hspec with
  | passed _ gas hpasses hbits hne => exact ⟨hpasses, hbits, hne⟩

omit [CodeStorage κ] in
/-- **The checked state**: nothing but look-ups, and the sender's account is in the cache. -/
theorem checked_looked (tx : Transaction) (s : Execution σ κ) :
    Looked s.executor (getAccount tx.from s.executor).2 ∧
      (SenderPasses tx s → ∃ account, s.executor.seen tx.from = some account ∧
        (getAccount tx.from s.executor).2.accountCache.lookup tx.from = some account ∧
        account.nonce ≤ tx.nonce ∧
        U128.saturatingAdd tx.amount tx.fee ≤ account.balance) := by
  have hspec := TransactionExecutor.getAccount_spec tx.from s.executor
  rw [Post] at hspec
  refine ⟨hspec.1, fun hpasses => ?_⟩
  obtain ⟨account, hget, hnonce, hfunds⟩ := hpasses
  have hresult := hspec.2
  rw [hget] at hresult
  exact ⟨account, hresult.1.symm, hresult.2 account rfl, hnonce, hfunds⟩

end Execution

/-! ## Transfers of the vault that return an error -/

namespace VaultManager

variable {σ : Type} [LawfulStorage σ] (F : Type) [FloatOps F]

/-- The fee of a transfer is burned in part, and then the account of the genesis vault, which has
its share, cannot be read. -/
structure BurnsUnread («from» «to» : Address) (amount fee : U128) (vm : VaultManager σ) : Prop where
  minimum : minBalance ≤ amount
  parties : «from» ≠ «to»
  admits : Admits «from» «to» amount fee vm.stateManager
  cap : vm.totalSupply.toNat ≤ totalSupplyCap.toNat
  burned : vm.totalBurned.toNat + (burnShare F vm.totalSupply fee).toNat < 2 ^ 128
  genesis : 0 < genesisShare F vm.totalSupply fee
  unread : ¬ StateManager.Readable [«from», «to», genesisVaultAddress] vm.stateManager
  burns : 0 < burnShare F vm.totalSupply fee

theorem transfer_eq {«from» «to» : Address} {amount : U128} (hamount : minBalance ≤ amount)
    (hne : «from» ≠ «to») (fee : U128) (vm : VaultManager σ) :
    transfer F «from» «to» amount fee vm = executeTransfer F «from» «to» amount fee vm := by
  unfold transfer
  rw [if_neg (BitVec.not_lt.mpr hamount), if_neg hne]

/-- The account of the genesis vault cannot be read. -/
theorem executeTransfer_unread {«from» «to» : Address} {amount fee : U128} {vm : VaultManager σ}
    (hadmits : Admits «from» «to» amount fee vm.stateManager)
    (hcap : vm.totalSupply.toNat ≤ totalSupplyCap.toNat)
    (hburned : vm.totalBurned.toNat + (burnShare F vm.totalSupply fee).toNat < 2 ^ 128)
    (hgenesis : 0 < genesisShare F vm.totalSupply fee)
    (hunread : ¬ StateManager.Readable [«from», «to», genesisVaultAddress] vm.stateManager) :
    ∃ e, (executeTransfer F «from» «to» amount fee vm).1 = .err e := by
  have hprep := prepareTransfer_spec «from» «to» amount fee vm.stateManager
  rcases hrun : prepareTransfer «from» «to» amount fee vm.stateManager with ⟨o, sm⟩
  rw [Post, hrun] at hprep
  obtain ⟨-, ho⟩ := hprep
  cases o with
  | err e => exact absurd hadmits ho
  | panic => exact absurd hadmits ho
  | ok accounts =>
      obtain ⟨-, -, hreads⟩ := ho
      rw [executeTransfer_rates F hrun, if_pos hcap]
      suffices h : Post (settleTransfer «from» «to» fee accounts (burnShare F vm.totalSupply fee)
          (genesisShare F vm.totalSupply fee))
          { vm with stateManager := sm, guards := vm.guards.touch .totalSupply .read }
          (fun o _ => ∃ e, o = .err e) from h
      unfold settleTransfer
      refine (burnFee_spec _ _).seq ?_ ?_ ?_
      · rintro ⟨⟩ vm₁ ⟨⟨hstate, -, -⟩, -⟩
        rw [post_bind, post_onState, hstate]
        refine Post.mono (creditGenesis_spec (genesisShare F vm.totalSupply fee) sm) ?_
        rintro (⟨⟩ | e | _) sm₁ hcredit
        · exact absurd ((hreads _).mp (hcredit.1 hgenesis)) hunread
        · exact ⟨e, rfl⟩
        · exact hcredit.elim
      · rintro e vm₁ ⟨-, -, -, hfalse⟩
        exact hfalse.elim
      · rintro vm₁ ⟨-, -, -, hfull⟩
        exact absurd hburned hfull

theorem BurnsUnread.isErr {«from» «to» : Address} {amount fee : U128} {vm : VaultManager σ}
    (h : BurnsUnread F «from» «to» amount fee vm) :
    ∃ e, (transfer F «from» «to» amount fee vm).1 = .err e := by
  rw [transfer_eq F h.minimum h.parties]
  exact executeTransfer_unread F h.admits h.cap h.burned h.genesis h.unread

/-- **A transfer that returns an error** has written no account, and no counter either unless it
has burned the fee first. -/
theorem transfer_err {«from» «to» : Address} {amount fee : U128} {vm vm' : VaultManager σ}
    {e : PacyteError} (h : transfer F «from» «to» amount fee vm = (.err e, vm')) :
    StateManager.SameLedger vm.stateManager vm'.stateManager ∧
      ((vm'.totalSupply = vm.totalSupply ∧ vm'.totalBurned = vm.totalBurned) ↔
        ¬ BurnsUnread F «from» «to» amount fee vm) := by
  by_cases hamount : minBalance ≤ amount
  · by_cases hne : «from» = «to»
    · unfold transfer at h
      rw [if_neg (BitVec.not_lt.mpr hamount), if_pos hne] at h
      cases h
      exact ⟨.refl _, iff_of_true ⟨rfl, rfl⟩ fun hburns => hburns.parties hne⟩
    · have hend := executeTransfer_spec F «from» «to» amount fee vm
      rw [transfer_eq F hamount hne] at h
      rw [Post, h] at hend
      cases hend with
      | refused hnot _ hsame hrest =>
          have hsupply := congrArg VaultManager.totalSupply hrest
          have hburned := congrArg VaultManager.totalBurned hrest
          exact ⟨hsame, iff_of_true ⟨hsupply, hburned⟩ fun hburns => hnot hburns.admits⟩
      | genesisUnread hadmits hcap hfits hpos hread hsame hburned =>
          refine ⟨hsame, ?_⟩
          by_cases hshare : 0 < burnShare F vm.totalSupply fee
          · refine iff_of_false (fun hsupply => ?_) (not_not_intro
              ⟨hamount, hne, hadmits, hcap, hfits, hpos, hread, hshare⟩)
            have hcounted := hburned.counted
            rw [BitVec.lt_def] at hshare
            rw [hsupply.2] at hcounted
            have hzero : (0 : U128).toNat = 0 := rfl
            omega
          · have hzero : (burnShare F vm.totalSupply fee).toNat = 0 := by
              rw [BitVec.lt_def] at hshare
              exact Nat.eq_zero_of_not_pos hshare
            refine iff_of_true ⟨?_, ?_⟩ fun hburns => hshare hburns.burns
            · rw [hburned.supply]
              apply BitVec.eq_of_toNat_eq
              rw [U128.toNat_saturatingSub, hzero, Nat.sub_zero]
            · apply BitVec.eq_of_toNat_eq
              rw [hburned.counted, hzero, Nat.add_zero]
  · unfold transfer at h
    rw [if_pos (BitVec.not_le.mp hamount)] at h
    cases h
    exact ⟨.refl _, iff_of_true ⟨rfl, rfl⟩ fun hburns => hamount hburns.minimum⟩

end VaultManager
