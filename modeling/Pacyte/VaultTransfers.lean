/-
# How a transfer of the vault ends

`transfer` of `src/vault/manager.rs` in terms of the account view and of the counters.  The
sender's and the recipient's accounts are read first and written last, and the genesis vault
is credited in between, so what it was credited is lost when it is one of the two.

* `StateManager.Readable` says that a sequence of look-ups meets no error of the storage.
* `Admits` are the checks of the first part.  Nothing was written when one of them fails.
* `TransferEnd` lists the ways in which the call can end, `executeTransfer_spec` proves that
  there are no others.
-/
import Pacyte.VaultManager

open Locks Exec

/-! ## Deposits -/

namespace Book

variable {A : Type} [DecidableEq A] (M N : ℕ)

/-- A balance goes up, to the cap. -/
def deposit (a : A) (x : ℕ) (b : Book A) : Book A :=
  { b with balance := Function.update b.balance a (min (b.balance a + x) M) }

theorem deposit_balance_self (a : A) (x : ℕ) (b : Book A) :
    (deposit M a x b).balance a = min (b.balance a + x) M := Function.update_self ..

theorem deposit_balance_of_ne {a y : A} (h : y ≠ a) (x : ℕ) (b : Book A) :
    (deposit M a x b).balance y = b.balance y := Function.update_of_ne h ..

/-- Both parties of a payment are read, then a third balance goes up, then the two parties
are written. -/
def payOver (a : A) (x : ℕ) (p : Payment A) (b : Book A) : Book A where
  balance := Function.update
    (Function.update (deposit M a x b).balance p.src (b.balance p.src - cost M p))
    p.dst (min (b.balance p.dst + p.amount) M)
  nonce := (pay M N p b).nonce

/-- A deposit to a third party stays. -/
theorem payOver_of_ne {a : A} {p : Payment A} (hsrc : p.src ≠ a) (hdst : p.dst ≠ a) (x : ℕ)
    (b : Book A) : payOver M N a x p b = pay M N p (deposit M a x b) := by
  unfold payOver pay deposit
  simp only [Function.update_of_ne hsrc, Function.update_of_ne hdst]

/-- A deposit to a party of the payment is overwritten. -/
theorem payOver_of_eq {a : A} {p : Payment A} (h : p.src = a ∨ p.dst = a) (x : ℕ)
    (b : Book A) : payOver M N a x p b = pay M N p b := by
  unfold payOver pay deposit
  rcases h with rfl | rfl
  · rw [Function.update_idem]
  · congr 1
    funext y
    by_cases hy : y = p.dst
    · rw [hy, Function.update_self, Function.update_self]
    · simp only [Function.update_of_ne hy]
      by_cases hy' : y = p.src
      · rw [hy', Function.update_self, Function.update_self]
      · simp only [Function.update_of_ne hy', Function.update_of_ne hy]

theorem total_deposit [Fintype A] (a : A) (x : ℕ) (b : Book A) :
    total (deposit M a x b) + (b.balance a + x - M) = total b + x := by
  have h := sum_replace b.balance a (min (b.balance a + x) M)
  unfold total deposit
  dsimp only
  omega

end Book

/-! ## Reads that meet no error -/

namespace StateManager

variable {σ : Type}

section Readable

variable [Storage σ]

/-- These look-ups, one after the other, return no error. -/
def Readable : List Address → StateManager σ → Prop
  | [], _ => True
  | a :: rest, sm => (getAccount a sm).1.IsOk ∧ Readable rest (getAccount a sm).2

/-- A look-up does not read the clock. -/
theorem getAccount_clock (a : Address) (sm : StateManager σ) (c : Clock) :
    getAccount a { sm with clock := c } =
      ((getAccount a sm).1, { (getAccount a sm).2 with clock := c }) := by
  unfold getAccount
  simp only [run_bind, run_get]
  cases sm.accountCache.lookup a with
  | some account => rfl
  | none =>
      cases sm.dirtyAccounts.lookup a with
      | some account => rfl
      | none =>
          simp only [run_bind, onStorage, run_onPart]
          rcases Storage.getAccount a sm.storage with ⟨(_ | account) | e | _, st⟩ <;> rfl

theorem readable_clock (as : List Address) (sm : StateManager σ) (c : Clock) :
    Readable as { sm with clock := c } ↔ Readable as sm := by
  induction as generalizing sm with
  | nil => exact Iff.rfl
  | cons a rest ih =>
      unfold Readable
      rw [getAccount_clock, ih]

/-- A cached account is found. -/
theorem getAccount_of_cached {a : Address} {sm : StateManager σ} {account : Account}
    (h : sm.accountCache.lookup a = some account) :
    getAccount a sm = (.ok (some account), sm) := by
  unfold getAccount
  rw [run_bind, run_get]
  dsimp only
  rw [h]
  rfl

theorem getBalance_of_cached {a : Address} {sm : StateManager σ} {account : Account}
    (h : sm.accountCache.lookup a = some account) :
    getBalance a sm = (.ok account.balance, sm) := by
  unfold getBalance
  rw [run_bind_of_ok (getAccount_of_cached h)]
  rfl

end Readable

end StateManager

namespace VaultManager

open StateManager FloatOps

variable {σ : Type} {α : Type}

/-! ## The first part -/

section Prepare

variable [LawfulStorage σ]

/-- The checks of a transfer, on the state that it finds. -/
structure Admits («from» «to» : Address) (amount fee : U128) (sm : StateManager σ) : Prop where
  readable : Readable [«from», «to»] sm
  sender : ∃ fa, sm.account «from» = some fa ∧ fa.isDormant = false ∧
    (U128.saturatingAdd amount fee).toNat ≤ fa.balance.toNat ∧ fa.nonce.toNat + 1 < 2 ^ 64

/-- A recipient in a state with the same ledger. -/
theorem recipient_congr {sm sm' : StateManager σ} {a : Address} {acc : Account}
    (hsame : SameLedger sm sm') (h : Recipient sm' a acc) : Recipient sm a acc := by
  obtain ⟨n, hn⟩ := hsame.clock
  rcases h with h | ⟨h, i, hi⟩
  · exact Or.inl (hsame.account ▸ h)
  · refine Or.inr ⟨hsame.account ▸ h, i + n, ?_⟩
    rw [hi, hn]

/-- The accounts that will be written, from those that were found. -/
structure Prepared («from» «to» : Address) (amount fee : U128) (sm : StateManager σ)
    (accounts : Account × Account) (fa ta : Account) : Prop where
  sender : sm.account «from» = some fa
  funds : (U128.saturatingAdd amount fee).toNat ≤ fa.balance.toNat
  nonce : fa.nonce.toNat + 1 < 2 ^ 64
  recipient : Recipient sm «to» ta
  fromBalance : accounts.1.balance = fa.balance - U128.saturatingAdd amount fee
  fromNonce : accounts.1.nonce = fa.nonce + 1
  toBalance : accounts.2.balance = U128.saturatingAdd ta.balance amount
  toNonce : accounts.2.nonce = ta.nonce

/-- A look-up that returns something, for what comes after it. -/
theorem readable_cons_of_ok {a : Address} {as : List Address} {sm sm' : StateManager σ}
    {r : Option Account} (h : getAccount a sm = (.ok r, sm')) :
    Readable (a :: as) sm ↔ Readable as sm' := by
  show (getAccount a sm).1.IsOk ∧ Readable as (getAccount a sm).2 ↔ _
  rw [h]
  exact and_iff_right trivial

theorem not_readable_cons_of_err {a : Address} {as : List Address} {sm sm' : StateManager σ}
    {e : PacyteError} (h : getAccount a sm = (.err e, sm')) : ¬ Readable (a :: as) sm := by
  intro hread
  have hok := hread.1
  rw [h] at hok
  exact hok

/-- `getAccountOrNew` reads one account. -/
theorem getAccountOrNew_readable (a : Address) (sm : StateManager σ) :
    Post (getAccountOrNew a) sm fun o sm' =>
      SameLedger sm sm' ∧
        match o with
        | .ok acc => Recipient sm a acc ∧ ∀ as, Readable as sm' ↔ Readable (a :: as) sm
        | .err _ => ∀ as, ¬ Readable (a :: as) sm
        | .panic => False := by
  have hspec := getAccountOrNew_spec a sm
  unfold getAccountOrNew at hspec ⊢
  rw [post_bind] at hspec ⊢
  rcases hrun : getAccount a sm with ⟨r | e | _, sm'⟩
  · rw [Post, hrun] at hspec ⊢
    cases r with
    | some account =>
        exact ⟨hspec.1, hspec.2, fun as => (readable_cons_of_ok hrun).symm⟩
    | none =>
        refine ⟨hspec.1, hspec.2, fun as => ?_⟩
        rw [readable_cons_of_ok hrun]
        exact readable_clock as sm' _
  · rw [Post, hrun] at hspec ⊢
    exact ⟨hspec.1, fun as => not_readable_cons_of_err hrun⟩
  · rw [Post, hrun] at hspec
    exact hspec.2.elim

/-- The sender's account after the deduction, or a panic at the last nonce. -/
theorem debitSender_spec (account : Account) (totalDeduct : U128) (sm : StateManager σ) :
    Post (debitSender account totalDeduct) sm fun o sm' =>
      SameLedger sm sm' ∧ (∀ as, Readable as sm' ↔ Readable as sm) ∧
        match o with
        | .ok debited => account.nonce.toNat + 1 < 2 ^ 64 ∧
            debited.balance = account.balance - totalDeduct ∧ debited.nonce = account.nonce + 1
        | .err _ => False
        | .panic => ¬ account.nonce.toNat + 1 < 2 ^ 64 := by
  unfold debitSender
  rw [post_bind, post_addU64]
  constructor
  · intro hfits
    dsimp only
    rw [post_bind, post_now]
    dsimp only
    rw [post_bind, post_now]
    dsimp only
    rw [post_pure]
    refine ⟨(sameLedger_clock sm 1).trans (sameLedger_clock _ 1), fun as => ?_, hfits, rfl, rfl⟩
    exact readable_clock as sm _
  · intro hfull
    exact ⟨SameLedger.refl sm, fun _ => Iff.rfl, hfull⟩

/-- **The first part of a transfer** makes the checks `Admits`, and writes nothing. -/
theorem prepareTransfer_spec («from» «to» : Address) (amount fee : U128) (sm : StateManager σ) :
    Post (prepareTransfer «from» «to» amount fee) sm fun o sm' =>
      SameLedger sm sm' ∧
        match o with
        | .ok accounts => Admits «from» «to» amount fee sm ∧
            (∃ fa ta, Prepared «from» «to» amount fee sm accounts fa ta) ∧
            ∀ as, Readable as sm' ↔ Readable («from» :: «to» :: as) sm
        | .err _ => ¬ Admits «from» «to» amount fee sm
        | .panic => ¬ Admits «from» «to» amount fee sm := by
  unfold prepareTransfer
  refine (getAccount_spec «from» sm).run.seq ?_ ?_ ?_
  · rintro r sm₁ ⟨hrun, hsame₁, -, hr⟩
    cases r with
    | none =>
        refine ⟨hsame₁, fun hadmits => ?_⟩
        obtain ⟨fa, hfa, -⟩ := hadmits.sender
        rw [← hr] at hfa
        cases hfa
    | some fa =>
        dsimp only
        rw [post_ite, post_ite]
        refine ⟨fun hdormant => ⟨hsame₁, fun hadmits => ?_⟩, fun hactive => ⟨fun hless =>
          ⟨hsame₁, fun hadmits => ?_⟩, fun hfunds => ?_⟩⟩
        · obtain ⟨fa', hfa', hactive, -⟩ := hadmits.sender
          rw [← hr] at hfa'
          cases hfa'
          rw [hactive] at hdormant
          cases hdormant
        · obtain ⟨fa', hfa', -, hfunds, -⟩ := hadmits.sender
          rw [← hr] at hfa'
          cases hfa'
          have hless' := BitVec.lt_def.mp hless
          omega
        · rw [BitVec.not_lt, BitVec.le_def] at hfunds
          refine (debitSender_spec fa (U128.saturatingAdd amount fee) sm₁).seq ?_ ?_ ?_
          · rintro debited sm₂ ⟨hsame₂, hread₂, hnonce, hbalance, hnext⟩
            have hsame := hsame₁.trans hsame₂
            refine (getAccountOrNew_readable «to» sm₂).seq ?_ ?_ ?_
            · rintro ta sm₃ ⟨hsame₃, hta, hread₃⟩
              rw [post_bind, post_now]
              have hreads : ∀ as, Readable as sm₃ ↔ Readable («from» :: «to» :: as) sm := by
                intro as
                rw [hread₃, hread₂, readable_cons_of_ok hrun]
              refine ⟨(hsame.trans hsame₃).trans (sameLedger_clock sm₃ 1),
                ⟨(hreads []).mp trivial, fa, hr.symm, by simpa using hactive, hfunds, hnonce⟩,
                ⟨fa, ta, ⟨hr.symm, hfunds, hnonce, ?_, hbalance, hnext, rfl, rfl⟩⟩, fun as => ?_⟩
              · exact recipient_congr hsame hta
              · exact (readable_clock as sm₃ _).trans (hreads as)
            · rintro e sm₃ ⟨hsame₃, hfail⟩
              refine ⟨hsame.trans hsame₃, fun hadmits => hfail [] ?_⟩
              rw [hread₂]
              exact (readable_cons_of_ok hrun).mp hadmits.readable
            · rintro sm₃ ⟨-, hfalse⟩
              exact hfalse.elim
          · rintro e sm₂ ⟨-, -, hfalse⟩
            exact hfalse.elim
          · rintro sm₂ ⟨hsame₂, -, hfull⟩
            refine ⟨hsame₁.trans hsame₂, fun hadmits => ?_⟩
            obtain ⟨fa', hfa', -, -, hnonce⟩ := hadmits.sender
            rw [← hr] at hfa'
            cases hfa'
            exact hfull hnonce
  · rintro e sm₁ ⟨hrun, hsame₁, -⟩
    exact ⟨hsame₁, fun hadmits => not_readable_cons_of_err hrun hadmits.readable⟩
  · rintro sm₁ ⟨-, -, -, hfalse⟩
    exact hfalse.elim

end Prepare

/-! ## The writes -/

section Writes

variable [LawfulStorage σ]

/-- The book after an account was written. -/
theorem book_withAccount (sm : StateManager σ) (a : Address) (acc : Account) :
    (sm.withAccount a acc).book =
      { balance := Function.update sm.book.balance a acc.balance.toNat
        nonce := Function.update sm.book.nonce a acc.nonce.toNat } := by
  ext x
  · simp only [StateManager.book, account_withAccount]
    by_cases hx : x = a
    · subst hx
      simp
    · simp [Function.update_of_ne hx]
  · simp only [StateManager.book, account_withAccount]
    by_cases hx : x = a
    · subst hx
      simp
    · simp [Function.update_of_ne hx]

theorem getGenesisOrNew_spec (sm : StateManager σ) :
    Post getGenesisOrNew sm fun o sm' =>
      SameLedger sm sm' ∧
        match o with
        | .ok genesis => Readable [genesisVaultAddress] sm ∧
            genesis.balance.toNat = sm.book.balance genesisVaultAddress ∧
            genesis.nonce.toNat = sm.book.nonce genesisVaultAddress
        | .err _ => ¬ Readable [genesisVaultAddress] sm
        | .panic => False := by
  unfold getGenesisOrNew
  refine (getAccount_spec genesisVaultAddress sm).run.seq ?_ ?_ ?_
  · rintro r sm₁ ⟨hrun, hsame, -, hr⟩
    have hread : Readable [genesisVaultAddress] sm := (readable_cons_of_ok hrun).mpr trivial
    cases r with
    | some genesis =>
        refine ⟨hsame, hread, ?_⟩
        simp [StateManager.book, ← hr]
    | none =>
        refine ⟨hsame.trans (sameLedger_clock sm₁ 1), hread, ?_⟩
        simp [StateManager.book, ← hr, Account.genesisSovereign, Account.new]
  · rintro e sm₁ ⟨hrun, hsame, -⟩
    exact ⟨hsame, not_readable_cons_of_err hrun⟩
  · rintro sm₁ ⟨-, -, -, hfalse⟩
    exact hfalse.elim

/-- A balance of the book fits into 128 bits. -/
theorem balance_le (sm : StateManager σ) (a : Address) : sm.book.balance a ≤ maxU128 := by
  simp only [StateManager.book, maxU128]
  cases sm.account a with
  | none => simp
  | some acc =>
      have := acc.balance.isLt
      simp only [Option.map_some, Option.getD_some]
      omega

/-- The genesis vault is credited, or its account cannot be read. -/
theorem creditGenesis_spec (toGenesis : U128) (sm : StateManager σ) :
    Post (creditGenesis toGenesis) sm fun o sm' =>
      match o with
      | .ok () => (0 < toGenesis → Readable [genesisVaultAddress] sm) ∧
          sm'.book = sm.book.deposit maxU128 genesisVaultAddress toGenesis.toNat ∧
          ∀ x, x ≠ genesisVaultAddress → sm'.account x = sm.account x
      | .err _ => 0 < toGenesis ∧ ¬ Readable [genesisVaultAddress] sm ∧ SameLedger sm sm'
      | .panic => False := by
  unfold creditGenesis
  rw [post_ite]
  refine ⟨fun hpos => ?_, fun hzero => ?_⟩
  · refine (getGenesisOrNew_spec sm).seq ?_ ?_ ?_
    · rintro genesis sm₁ ⟨hsame, hread, hbalance, hnonce⟩
      rw [post_setAccount]
      refine ⟨fun _ => hread, ?_, fun x hx => ?_⟩
      · rw [book_withAccount, book_congr hsame.account]
        ext x
        · simp only [Book.deposit, credit, U128.toNat_saturatingAdd, hbalance]
          rfl
        · simp only [Book.deposit, credit, hnonce, Function.update_eq_self]
      · rw [account_withAccount, Function.update_of_ne hx, hsame.account]
    · rintro e sm₁ ⟨hsame, hread⟩
      exact ⟨hpos, hread, hsame⟩
    · rintro sm₁ ⟨-, hfalse⟩
      exact hfalse.elim
  · have hnone : toGenesis.toNat = 0 := by
      rw [BitVec.lt_def] at hzero
      exact Nat.eq_zero_of_not_pos hzero
    refine ⟨fun hpos => absurd hpos hzero, ?_, fun _ _ => rfl⟩
    have hcap : min (sm.book.balance genesisVaultAddress + 0) maxU128 =
        sm.book.balance genesisVaultAddress := min_eq_left (balance_le sm _)
    rw [hnone, Book.deposit, hcap, Function.update_eq_self]
    rfl

omit [LawfulStorage σ] in
/-- The accounts of a transfer are written. -/
theorem writeAccounts_run («from» «to» : Address) (accounts : Account × Account)
    [Storage σ] (sm : StateManager σ) :
    writeAccounts «from» «to» accounts sm =
      (.ok (), (sm.withAccount «from» accounts.1).withAccount «to» accounts.2) := rfl

/-- A transfer as a payment. -/
def transferPayment («from» «to» : Address) (amount fee : U128) : Payment Address where
  src := «from»
  dst := «to»
  amount := amount.toNat
  fee := fee.toNat
  serial := 0

/-- What was paid when all accounts are written: `toGenesis` to the genesis vault, then the
payment between the two parties. -/
structure Paid («from» «to» : Address) (amount fee toGenesis : U128)
    (sm sm' : StateManager σ) : Prop where
  book : sm'.book = Book.payOver maxU128 maxU64 genesisVaultAddress toGenesis.toNat
    (transferPayment «from» «to» amount fee) sm.book
  others : ∀ x, x ≠ «from» → x ≠ «to» → x ≠ genesisVaultAddress → sm'.account x = sm.account x
  covered : Book.cost maxU128 (transferPayment «from» «to» amount fee) ≤ sm.book.balance «from»
  nonce : sm.book.nonce «from» < maxU64

/-- The accounts that were prepared are written after the genesis vault was credited. -/
theorem Prepared.paid {«from» «to» : Address} {amount fee toGenesis : U128}
    {sm sm₁ : StateManager σ} {accounts : Account × Account} {fa ta : Account}
    (h : Prepared «from» «to» amount fee sm accounts fa ta)
    (hbook : sm₁.book = sm.book.deposit maxU128 genesisVaultAddress toGenesis.toNat)
    (hothers : ∀ x, x ≠ genesisVaultAddress → sm₁.account x = sm.account x) :
    Paid «from» «to» amount fee toGenesis sm
      ((sm₁.withAccount «from» accounts.1).withAccount «to» accounts.2) := by
  have hbalance : sm.book.balance «from» = fa.balance.toNat := by
    simp [StateManager.book, h.sender]
  have hnonce : sm.book.nonce «from» = fa.nonce.toNat := by
    simp [StateManager.book, h.sender]
  obtain ⟨htbal, htnon⟩ := h.recipient.book
  have hcost : (U128.saturatingAdd amount fee).toNat =
      Book.cost maxU128 (transferPayment «from» «to» amount fee) :=
    U128.toNat_saturatingAdd amount fee
  have hlast := h.nonce
  refine ⟨?_, fun x hf ht hg => ?_, ?_, ?_⟩
  · rw [book_withAccount, book_withAccount, hbook]
    have hfrom : accounts.1.balance.toNat =
        sm.book.balance «from» - Book.cost maxU128 (transferPayment «from» «to» amount fee) := by
      rw [h.fromBalance, BitVec.toNat_sub_of_le (BitVec.le_def.mpr h.funds), hbalance, hcost]
    have hto : accounts.2.balance.toNat = min (sm.book.balance «to» + amount.toNat) maxU128 := by
      rw [h.toBalance, U128.toNat_saturatingAdd, htbal]
      rfl
    have hnext : accounts.1.nonce.toNat = min (sm.book.nonce «from» + 1) maxU64 := by
      rw [h.fromNonce, toNat_add_of_fits hlast, hnonce, maxU64]
      exact (Nat.min_eq_left (Nat.le_sub_one_of_lt hlast)).symm
    rw [hfrom, hto, hnext, h.toNonce, htnon]
    rfl
  · rw [account_withAccount, Function.update_of_ne ht, account_withAccount,
      Function.update_of_ne hf, hothers x hg]
  · rw [← hcost, hbalance]
    exact h.funds
  · rw [hnonce]
    exact Nat.lt_sub_of_add_lt hlast

end Writes

/-! ## The counters -/

section Counters

/-- The guards of a vault manager replaced. -/
def withGuards (vm : VaultManager σ) (g : Guards VaultLock) : VaultManager σ :=
  { vm with guards := g }

/-- What is computed of the supply without changing the state. -/
theorem withSupply_run {f : U128 → Exec PacyteError (VaultManager σ) α} {vm : VaultManager σ}
    {o : Outcome PacyteError α} (h : ∀ s, f vm.totalSupply s = (o, s)) :
    withSupply f vm = (o, vm.withGuards (vm.guards.touch .totalSupply .read)) := by
  have hbody : (Exec.get >>= fun vm => f vm.totalSupply)
      (vm.withGuards (vm.guards.acquire .totalSupply .read)) =
        (o, vm.withGuards (vm.guards.acquire .totalSupply .read)) := h _
  exact congrArg (fun r => (r.1, withGuards r.2 ⟨vm.guards.held, r.2.guards.clash⟩)) hbody

theorem currentPhase_run (vm : VaultManager σ) :
    currentPhase vm = (.ok (SupplyPhase.fromSupply vm.totalSupply),
      vm.withGuards (vm.guards.touch .totalSupply .read)) := withSupply_run fun _ => rfl

/-- The supply after a burn in a transfer. -/
def withSupplyBurned (vm : VaultManager σ) (burned : U128) : VaultManager σ :=
  { vm with totalSupply := U128.saturatingSub vm.totalSupply burned }

theorem countBurned_run (amount : U128) (vm : VaultManager σ) :
    countBurned amount vm =
      if vm.totalBurned.toNat + amount.toNat < 2 ^ 128 then
        (.ok (), { vm with
          totalBurned := vm.totalBurned + amount
          guards := vm.guards.touch .totalBurned .write })
      else (.panic, { vm with guards := vm.guards.touch .totalBurned .write }) := by
  unfold countBurned locked
  rw [run_guarded]
  simp only [run_bind, run_get, addU128]
  split_ifs <;> rfl

/-- **A burn in a transfer** asks for the supply while it holds a guard of it. -/
theorem burnFee_run (burned : U128) (vm : VaultManager σ) :
    burnFee burned vm =
      if 0 < burned then
        countBurned burned ((vm.withSupplyBurned burned).withGuards ⟨vm.guards.held, true⟩)
      else (.ok (), vm) := by
  unfold burnFee
  split_ifs with hpos
  · have hassign : locked .totalSupply .read (do
          let vm ← Exec.get
          let value := U128.saturatingSub vm.totalSupply burned
          locked .totalSupply .write (Exec.modify fun vm => { vm with totalSupply := value })) vm =
        ((.ok () : Outcome PacyteError Unit),
          (vm.withSupplyBurned burned).withGuards ⟨vm.guards.held, true⟩) := by
      simp only [locked, run_guarded, run_bind, run_get, run_modify]
      have hclash : ((vm.guards.acquire .totalSupply .read).acquire .totalSupply .write).clash =
          true := by
        simp [Guards.acquire, Guards.blocks, Mode.conflicts]
      rw [hclash]
      rfl
    exact run_bind_of_ok hassign
  · rfl

/-- The counters of fees and of transfers. -/
theorem countTransfer_run (fee : U128) (vm : VaultManager σ) :
    countTransfer fee vm =
      if vm.totalFeesCollected.toNat + fee.toNat < 2 ^ 128 then
        if vm.totalTransfers.toNat + 1 < 2 ^ 64 then
          (.ok (), { vm with
            totalFeesCollected := vm.totalFeesCollected + fee
            totalTransfers := vm.totalTransfers + 1
            guards := (vm.guards.touch .totalFeesCollected .write).touch .totalTransfers .write })
        else
          (.panic, { vm with
            totalFeesCollected := vm.totalFeesCollected + fee
            guards := (vm.guards.touch .totalFeesCollected .write).touch .totalTransfers .write })
      else (.panic, { vm with guards := vm.guards.touch .totalFeesCollected .write }) := by
  unfold countTransfer locked
  rw [run_bind]
  simp only [run_guarded, run_bind, run_get, addU128, addU64]
  have hone : (1 : UInt64).toNat = 1 := rfl
  by_cases hfees : vm.totalFeesCollected.toNat + fee.toNat < 2 ^ 128
  · rw [if_pos hfees, if_pos hfees]
    by_cases htransfers : vm.totalTransfers.toNat + 1 < 2 ^ 64
    · rw [if_pos htransfers]
      dsimp only [run_pure, run_modify]
      rw [hone, if_pos htransfers]
      rfl
    · rw [if_neg htransfers]
      dsimp only [run_pure, run_modify]
      rw [hone, if_neg htransfers]
      rfl
  · rw [if_neg hfees, if_neg hfees]
    rfl

end Counters

/-! ## The whole call -/

section Ends

variable [LawfulStorage σ] (F : Type) [FloatOps F]

/-- The part of a fee that is burned at a supply. -/
def burnShare (supply fee : U128) : U128 :=
  toU128 (ofU128 fee * (SupplyPhase.burnValue supply : F))

/-- The part of a fee that goes to the genesis vault in a transfer. -/
def genesisShare (supply fee : U128) : U128 :=
  toU128 (ofU128 fee * (SupplyPhase.genesisValue supply : F))

/-- What a call has burned is gone from the supply, down to zero, and is counted. -/
structure Burned (vm vm' : VaultManager σ) (burned : U128) : Prop where
  supply : vm'.totalSupply = U128.saturatingSub vm.totalSupply burned
  counted : vm'.totalBurned.toNat = vm.totalBurned.toNat + burned.toNat

/-- The counters of fees and transfers do not overflow. -/
def CountersFit (fee : U128) (vm : VaultManager σ) : Prop :=
  vm.totalFeesCollected.toNat + fee.toNat < 2 ^ 128 ∧ vm.totalTransfers.toNat + 1 < 2 ^ 64

/-- The guards after a call that burns `burned` in a transfer; no guard is held before. -/
def GuardsAfter (vm vm' : VaultManager σ) (burned : U128) : Prop :=
  vm.guards.held = [] → vm'.guards = ⟨[], vm.guards.clash || decide (0 < burned)⟩

/-- How a transfer can end.  The conditions on the state before exclude each other. -/
inductive TransferEnd («from» «to» : Address) (amount fee : U128) (vm : VaultManager σ) :
    Outcome PacyteError TransferResult → VaultManager σ → Prop
  /-- A check of the first part fails. -/
  | refused {o : Outcome PacyteError TransferResult} {vm' : VaultManager σ} :
      ¬ Admits «from» «to» amount fee vm.stateManager → ¬ o.IsOk →
      SameLedger vm.stateManager vm'.stateManager →
      vm' = { vm with stateManager := vm'.stateManager } →
      TransferEnd «from» «to» amount fee vm o vm'
  /-- The supply is above the cap, so a rate underflows. -/
  | overCap {vm' : VaultManager σ} :
      Admits «from» «to» amount fee vm.stateManager →
      ¬ vm.totalSupply.toNat ≤ totalSupplyCap.toNat →
      SameLedger vm.stateManager vm'.stateManager →
      vm'.totalSupply = vm.totalSupply → vm'.totalBurned = vm.totalBurned →
      GuardsAfter vm vm' 0 → TransferEnd «from» «to» amount fee vm .panic vm'
  /-- The counter of what was burned overflows. -/
  | burnedOverflow {vm' : VaultManager σ} :
      Admits «from» «to» amount fee vm.stateManager →
      vm.totalSupply.toNat ≤ totalSupplyCap.toNat →
      ¬ vm.totalBurned.toNat + (burnShare F vm.totalSupply fee).toNat < 2 ^ 128 →
      SameLedger vm.stateManager vm'.stateManager →
      vm'.totalSupply = U128.saturatingSub vm.totalSupply (burnShare F vm.totalSupply fee) →
      GuardsAfter vm vm' (burnShare F vm.totalSupply fee) →
      TransferEnd «from» «to» amount fee vm .panic vm'
  /-- The fee is burned, then the account of the genesis vault cannot be read. -/
  | genesisUnread {e : PacyteError} {vm' : VaultManager σ} :
      Admits «from» «to» amount fee vm.stateManager →
      vm.totalSupply.toNat ≤ totalSupplyCap.toNat →
      vm.totalBurned.toNat + (burnShare F vm.totalSupply fee).toNat < 2 ^ 128 →
      0 < genesisShare F vm.totalSupply fee →
      ¬ Readable [«from», «to», genesisVaultAddress] vm.stateManager →
      SameLedger vm.stateManager vm'.stateManager →
      Burned vm vm' (burnShare F vm.totalSupply fee) →
      GuardsAfter vm vm' (burnShare F vm.totalSupply fee) →
      TransferEnd «from» «to» amount fee vm (.err e) vm'
  /-- Everything is paid, then a counter overflows. -/
  | countersFull {vm' : VaultManager σ} :
      Admits «from» «to» amount fee vm.stateManager →
      vm.totalSupply.toNat ≤ totalSupplyCap.toNat →
      vm.totalBurned.toNat + (burnShare F vm.totalSupply fee).toNat < 2 ^ 128 →
      ¬ CountersFit fee vm →
      Paid «from» «to» amount fee (genesisShare F vm.totalSupply fee) vm.stateManager
        vm'.stateManager →
      Burned vm vm' (burnShare F vm.totalSupply fee) →
      GuardsAfter vm vm' (burnShare F vm.totalSupply fee) →
      TransferEnd «from» «to» amount fee vm .panic vm'
  | settled {r : TransferResult} {vm' : VaultManager σ} :
      Admits «from» «to» amount fee vm.stateManager →
      vm.totalSupply.toNat ≤ totalSupplyCap.toNat →
      vm.totalBurned.toNat + (burnShare F vm.totalSupply fee).toNat < 2 ^ 128 →
      (0 < genesisShare F vm.totalSupply fee →
        Readable [«from», «to», genesisVaultAddress] vm.stateManager) →
      CountersFit fee vm →
      Paid «from» «to» amount fee (genesisShare F vm.totalSupply fee) vm.stateManager
        vm'.stateManager →
      Burned vm vm' (burnShare F vm.totalSupply fee) →
      GuardsAfter vm vm' (burnShare F vm.totalSupply fee) →
      r.feeBurned = burnShare F vm.totalSupply fee →
      r.feeToGenesis = genesisShare F vm.totalSupply fee →
      r.feeToValidator = U128.saturatingSub (U128.saturatingSub fee r.feeBurned) r.feeToGenesis →
      r.fromBalanceAfter.toNat = vm'.stateManager.book.balance «from» →
      r.toBalanceAfter.toNat = vm'.stateManager.book.balance «to» →
      TransferEnd «from» «to» amount fee vm (.ok r) vm'

omit [LawfulStorage σ] in
theorem post_onState (m : Exec PacyteError (StateManager σ) α) (vm : VaultManager σ)
    (Q : Outcome PacyteError α → VaultManager σ → Prop) :
    Post (onState m) vm Q ↔
      Post m vm.stateManager fun o sm => Q o { vm with stateManager := sm } := Iff.rfl

omit [LawfulStorage σ] in
theorem onState_run (m : Exec PacyteError (StateManager σ) α) (vm : VaultManager σ) :
    onState m vm = ((m vm.stateManager).1, { vm with stateManager := (m vm.stateManager).2 }) :=
  rfl

omit [LawfulStorage σ] in
/-- Where no guard is held, asking for one leaves no trace. -/
theorem touch_of_idle {g : Guards VaultLock} (h : g.held = []) (l : VaultLock) (m : Mode) :
    g.touch l m = g := by
  obtain ⟨held, clash⟩ := g
  cases h
  simp [Guards.touch, Guards.blocks]

/-- The rates of a transfer are computed of one supply. -/
theorem executeTransfer_rates {«from» «to» : Address} {amount fee : U128} {vm : VaultManager σ}
    {accounts : Account × Account} {sm : StateManager σ}
    (hprep : prepareTransfer «from» «to» amount fee vm.stateManager = (.ok accounts, sm)) :
    executeTransfer F «from» «to» amount fee vm =
      if vm.totalSupply.toNat ≤ totalSupplyCap.toNat then
        settleTransfer «from» «to» fee accounts (burnShare F vm.totalSupply fee)
          (genesisShare F vm.totalSupply fee)
          { vm with stateManager := sm, guards := vm.guards.touch .totalSupply .read }
      else (.panic,
        { vm with stateManager := sm, guards := vm.guards.touch .totalSupply .read }) := by
  have hstate : onState (prepareTransfer «from» «to» amount fee) vm =
      (.ok accounts, { vm with stateManager := sm }) := by
    rw [onState_run, hprep]
  have hread : ∀ (g : Guards VaultLock) {β : Type} {f : U128 → Exec PacyteError (VaultManager σ) β}
      {o : Outcome PacyteError β}, (∀ s, f vm.totalSupply s = (o, s)) →
      withSupply f { vm with stateManager := sm, guards := g } =
        (o, { vm with stateManager := sm, guards := g.touch .totalSupply .read }) :=
    fun g _ _ _ h => withSupply_run h
  have htwice := Guards.touch_touch vm.guards VaultLock.totalSupply .read
  have hphase := hread vm.guards (f := fun supply => pure (SupplyPhase.fromSupply supply))
    fun _ => rfl
  unfold executeTransfer
  rw [run_bind_of_ok hstate, currentPhase, run_bind_of_ok hphase]
  split_ifs with hcap
  · rw [run_bind_of_ok (hread _ fun s =>
        congrFun (SupplyPhase.burnRate_of_le (F := F) (ε := PacyteError) hcap) s), htwice,
      run_bind_of_ok (hread _ fun s =>
        congrFun (SupplyPhase.genesisRate_of_le (F := F) (ε := PacyteError) hcap) s), htwice]
    rfl
  · rw [run_bind_of_panic (hread _ fun s =>
        SupplyPhase.burnRate_of_gt (F := F) (ε := PacyteError) hcap s), htwice]

omit [LawfulStorage σ] in
/-- The burn of a transfer: a zero amount changes nothing. -/
theorem burnFee_spec (burned : U128) (vm : VaultManager σ) :
    Post (burnFee burned) vm fun o vm' =>
      (vm'.stateManager = vm.stateManager ∧
        vm'.totalFeesCollected = vm.totalFeesCollected ∧ vm'.totalTransfers = vm.totalTransfers) ∧
      GuardsAfter vm vm' burned ∧
      vm'.totalSupply = U128.saturatingSub vm.totalSupply burned ∧
        match o with
        | .ok () => vm.totalBurned.toNat + burned.toNat < 2 ^ 128 ∧
            vm'.totalBurned.toNat = vm.totalBurned.toNat + burned.toNat
        | .err _ => False
        | .panic => ¬ vm.totalBurned.toNat + burned.toNat < 2 ^ 128 := by
  rw [Post, burnFee_run]
  split_ifs with hpos
  · rw [countBurned_run]
    have hguards : ∀ vm' : VaultManager σ,
        vm'.guards = (⟨vm.guards.held, true⟩ : Guards VaultLock).touch .totalBurned .write →
          GuardsAfter vm vm' burned := by
      intro vm' h hidle
      rw [h, hidle, touch_of_idle rfl, decide_eq_true hpos, Bool.or_true]
    split_ifs with hfits
    · exact ⟨⟨rfl, rfl, rfl⟩, hguards _ rfl, rfl, hfits, by
        rw [BitVec.toNat_add]
        exact Nat.mod_eq_of_lt hfits⟩
    · exact ⟨⟨rfl, rfl, rfl⟩, hguards _ rfl, rfl, hfits⟩
  · have hzero : burned.toNat = 0 := by
      rw [BitVec.lt_def] at hpos
      exact Nat.eq_zero_of_not_pos hpos
    refine ⟨⟨rfl, rfl, rfl⟩, fun hidle => ?_, ?_, ?_, ?_⟩
    · rw [decide_eq_false hpos, Bool.or_false, ← hidle]
    · apply BitVec.eq_of_toNat_eq
      rw [U128.toNat_saturatingSub, hzero, Nat.sub_zero]
    · rw [hzero]
      exact vm.totalBurned.isLt
    · rw [hzero, Nat.add_zero]

omit [LawfulStorage σ] in
/-- After all accounts were written, the transfer is counted, or a counter overflows. -/
theorem countTransfer_spec (fee : U128) (vm : VaultManager σ) :
    Post (countTransfer fee) vm fun o vm' =>
      (vm'.stateManager = vm.stateManager ∧ vm'.totalSupply = vm.totalSupply ∧
        vm'.totalBurned = vm.totalBurned) ∧
      (vm.guards.held = [] → vm'.guards = vm.guards) ∧
        match o with
        | .ok () => CountersFit fee vm
        | .err _ => False
        | .panic => ¬ CountersFit fee vm := by
  rw [Post, countTransfer_run]
  split_ifs with hfees htransfers
  · refine ⟨⟨rfl, rfl, rfl⟩, fun hidle => ?_, hfees, htransfers⟩
    dsimp only
    rw [touch_of_idle hidle, touch_of_idle hidle]
  · refine ⟨⟨rfl, rfl, rfl⟩, fun hidle => ?_, fun h => htransfers h.2⟩
    dsimp only
    rw [touch_of_idle hidle, touch_of_idle hidle]
  · exact ⟨⟨rfl, rfl, rfl⟩, fun hidle => touch_of_idle hidle _ _, fun h => hfees h.1⟩

/-- The balances that a transfer returns are those of the accounts it wrote. -/
theorem balances_written («from» «to» : Address) (accounts : Account × Account)
    (sm : StateManager σ) :
    ∃ fromBalance toBalance : U128,
      getBalance «from» ((sm.withAccount «from» accounts.1).withAccount «to» accounts.2) =
        (.ok fromBalance, (sm.withAccount «from» accounts.1).withAccount «to» accounts.2) ∧
      getBalance «to» ((sm.withAccount «from» accounts.1).withAccount «to» accounts.2) =
        (.ok toBalance, (sm.withAccount «from» accounts.1).withAccount «to» accounts.2) ∧
      fromBalance.toNat =
        ((sm.withAccount «from» accounts.1).withAccount «to» accounts.2).book.balance «from» ∧
      toBalance.toNat =
        ((sm.withAccount «from» accounts.1).withAccount «to» accounts.2).book.balance «to» := by
  have hcached : ∀ a acc, (((sm.withAccount «from» accounts.1).withAccount «to» accounts.2)
      ).accountCache.lookup a = some acc →
      getBalance a ((sm.withAccount «from» accounts.1).withAccount «to» accounts.2) =
        (.ok acc.balance, (sm.withAccount «from» accounts.1).withAccount «to» accounts.2) ∧
      acc.balance.toNat =
        ((sm.withAccount «from» accounts.1).withAccount «to» accounts.2).book.balance a := by
    intro a acc h
    refine ⟨getBalance_of_cached h, ?_⟩
    simp [StateManager.book, StateManager.account, h]
  have hto := hcached «to» accounts.2 (by simp [StateManager.withAccount])
  by_cases heq : «from» = «to»
  · subst heq
    exact ⟨_, _, hto.1, hto.1, hto.2, hto.2⟩
  · have hfrom := hcached «from» accounts.1 (by
      simp [StateManager.withAccount, AList.lookup_insert_ne heq])
    exact ⟨_, _, hfrom.1, hto.1, hfrom.2, hto.2⟩

/-- **How a transfer ends.** -/
theorem executeTransfer_spec («from» «to» : Address) (amount fee : U128) (vm : VaultManager σ) :
    Post (executeTransfer F «from» «to» amount fee) vm
      (TransferEnd F «from» «to» amount fee vm) := by
  have hprep := prepareTransfer_spec «from» «to» amount fee vm.stateManager
  rcases hrun : prepareTransfer «from» «to» amount fee vm.stateManager with ⟨accounts | e | _, sm₁⟩
  · -- the checks were passed: the rates, then the writes one after the other
    rw [Post, hrun] at hprep
    obtain ⟨hsame₁, hadmits, ⟨fa, ta, hprepared⟩, hreads⟩ := hprep
    rw [Post, executeTransfer_rates F hrun]
    split_ifs with hcap
    · change Post (settleTransfer _ _ _ _ _ _) _ _
      unfold settleTransfer
      refine (burnFee_spec _ _).seq ?_ ?_ ?_
      · rintro ⟨⟩ vm₂ ⟨⟨hstate₂, hfees₂, htransfers₂⟩, hguards₂, hsupply₂, hfits, hburned₂⟩
        have hidle₂ : GuardsAfter vm vm₂ (burnShare F vm.totalSupply fee) := by
          intro hidle
          have htouch := touch_of_idle hidle .totalSupply .read
          have h := hguards₂ (by rw [htouch]; exact hidle)
          rw [h, htouch]
        rw [post_bind, post_onState, hstate₂]
        refine Post.mono (creditGenesis_spec (genesisShare F vm.totalSupply fee) sm₁) ?_
        rintro (⟨⟩ | e | _) sm₂ hcredit
        · obtain ⟨hread, hbook, hothers⟩ := hcredit
          rw [book_congr hsame₁.account] at hbook
          simp only [hsame₁.account] at hothers
          have hpaid := hprepared.paid hbook hothers
          dsimp only
          rw [post_bind, post_onState, Post, writeAccounts_run]
          dsimp only
          refine (countTransfer_spec fee _).seq ?_ ?_ ?_
          · rintro ⟨⟩ vm₃ ⟨⟨hstate₃, hsupply₃, hcount₃⟩, hguards₃, hcounters⟩
            obtain ⟨fromBalance, toBalance, hfromRun, htoRun, hfrom, hto⟩ :=
              balances_written «from» «to» accounts sm₂
            rw [post_bind, post_onState, hstate₃, Post, hfromRun]
            dsimp only
            rw [post_bind, post_onState, Post, htoRun]
            refine TransferEnd.settled hadmits hcap hfits (fun hpos => (hreads _).mp (hread hpos))
              ⟨hfees₂ ▸ hcounters.1, htransfers₂ ▸ hcounters.2⟩ hpaid
              ⟨hsupply₃.trans hsupply₂, ?_⟩ (fun hidle => ?_) rfl rfl rfl hfrom hto
            · exact (congrArg BitVec.toNat hcount₃).trans hburned₂
            · exact (hguards₃ (by rw [hidle₂ hidle])).trans (hidle₂ hidle)
          · rintro e vm₃ ⟨-, -, hfalse⟩
            exact hfalse.elim
          · rintro vm₃ ⟨⟨hstate₃, hsupply₃, hcount₃⟩, hguards₃, hcounters⟩
            refine TransferEnd.countersFull hadmits hcap hfits
              (fun h => hcounters ⟨hfees₂ ▸ h.1, htransfers₂ ▸ h.2⟩) (hstate₃ ▸ hpaid)
              ⟨hsupply₃.trans hsupply₂, ?_⟩ fun hidle => ?_
            · exact (congrArg BitVec.toNat hcount₃).trans hburned₂
            · exact (hguards₃ (by rw [hidle₂ hidle])).trans (hidle₂ hidle)
        · obtain ⟨hpos, hread, hsame₂⟩ := hcredit
          exact TransferEnd.genesisUnread hadmits hcap hfits hpos
            (fun h => hread ((hreads _).mpr h)) (hsame₁.trans hsame₂) ⟨hsupply₂, hburned₂⟩
            hidle₂
        · exact hcredit.elim
      · rintro e vm₂ ⟨-, -, -, hfalse⟩
        exact hfalse.elim
      · rintro vm₂ ⟨⟨hstate₂, -, -⟩, hguards₂, hsupply₂, hfull⟩
        refine TransferEnd.burnedOverflow hadmits hcap hfull (hstate₂ ▸ hsame₁) hsupply₂ ?_
        intro hidle
        have htouch := touch_of_idle hidle .totalSupply .read
        have h := hguards₂ (by rw [htouch]; exact hidle)
        rw [h, htouch]
    · refine TransferEnd.overCap hadmits hcap hsame₁ rfl rfl fun hidle => ?_
      rw [touch_of_idle hidle, decide_eq_false (by decide), Bool.or_false, ← hidle]
  · rw [Post, hrun] at hprep
    have hcall : executeTransfer F «from» «to» amount fee vm =
        (.err e, { vm with stateManager := sm₁ }) := by
      unfold executeTransfer
      exact run_bind_of_err (by rw [onState_run, hrun])
    rw [Post, hcall]
    exact TransferEnd.refused hprep.2 id hprep.1 rfl
  · rw [Post, hrun] at hprep
    have hcall : executeTransfer F «from» «to» amount fee vm =
        (.panic, { vm with stateManager := sm₁ }) := by
      unfold executeTransfer
      exact run_bind_of_panic (by rw [onState_run, hrun])
    rw [Post, hcall]
    exact TransferEnd.refused hprep.2 id hprep.1 rfl

end Ends

end VaultManager
