/-
# Transfers of the vault and transfers of the state manager

What a successful `transfer` of `src/vault/manager.rs` does to the money of all accounts,
which calls of the vault wait for themselves, and how `transfer` differs from
`apply_transfer` of the state manager.

* `transfer_conserves_iff`: the credit of the genesis vault is lost when the vault is a party
  of the transfer.
* `vaultOp_clash_iff`: a transfer that burns asks for the supply under a guard of the supply.
* `transfers_agree_iff`: `apply_transfer` does not look at dormancy, and its nonce saturates.
-/
import Pacyte.VaultRuns

open Locks Exec

/-! ## Payments over a deposit -/

namespace Book

variable {A : Type} [DecidableEq A] (M N : ℕ)

/-- What the caps forgive and take is the same. -/
def CapsEven (p : Payment A) (b : Book A) : Prop :=
  (p.amount + p.fee ≤ M ∧ b.balance p.dst + p.amount ≤ M) ∨
    (M < p.amount + p.fee ∧ b.balance p.dst = p.fee)

omit [DecidableEq A] in
theorem capsEven_iff (p : Payment A) (b : Book A) :
    CapsEven M p b ↔ loss M p b = excess M p := by
  unfold CapsEven loss excess
  omega

variable [Fintype A]

/-- **The total after a payment over a deposit.**  The deposit arrives and the total goes down
by the rest of the fee if and only if the deposit is nothing, or goes to a third party and is
not capped, and the caps take as much as they forgive. -/
theorem payOver_conserves_iff (a : A) (x : ℕ) (p : Payment A) (b : Book A)
    (hne : p.src ≠ p.dst) (hcov : cost M p ≤ b.balance p.src) (hx : x ≤ p.fee)
    (hcap : ∀ y, b.balance y ≤ M) :
    (total (payOver M N a x p b) + (p.fee - x) = total b ∧
        (payOver M N a x p b).balance a = (pay M N p b).balance a + x) ↔
      (x = 0 ∨ (p.src ≠ a ∧ p.dst ≠ a ∧ b.balance a + x ≤ M)) ∧ CapsEven M p b := by
  rw [capsEven_iff M p b]
  by_cases hparty : p.src = a ∨ p.dst = a
  · rw [payOver_of_eq M N hparty]
    have htotal := total_pay M N p b hne hcov
    constructor
    · rintro ⟨hsum, hdeposit⟩
      exact ⟨Or.inl (by omega), by omega⟩
    · rintro ⟨hdeposit, heven⟩
      have hzero : x = 0 := by
        rcases hdeposit with hzero | ⟨hsrc, hdst, -⟩
        · exact hzero
        · exact absurd hparty (by simp [hsrc, hdst])
      omega
  · obtain ⟨hsrc, hdst⟩ := not_or.mp hparty
    rw [payOver_of_ne M N hsrc hdst]
    have hcov' : cost M p ≤ (deposit M a x b).balance p.src := by
      rw [deposit_balance_of_ne M hsrc]
      exact hcov
    have htotal := total_pay M N p (deposit M a x b) hne hcov'
    have hloss : loss M p (deposit M a x b) = loss M p b := by
      unfold loss
      rw [deposit_balance_of_ne M hdst]
    have hsum := total_deposit M a x b
    have hnew : (pay M N p (deposit M a x b)).balance a = min (b.balance a + x) M := by
      rw [balance_pay, if_neg hdst, if_neg hsrc, deposit_balance_self]
    have hold : (pay M N p b).balance a = b.balance a := by
      rw [balance_pay, if_neg hdst, if_neg hsrc]
    have hle := hcap a
    rw [hnew, hold]
    rw [hloss] at htotal
    constructor
    · rintro ⟨htot, hdeposit⟩
      exact ⟨Or.inr ⟨hsrc, hdst, by omega⟩, by omega⟩
    · rintro ⟨hdeposit, heven⟩
      have hfits : b.balance a + x ≤ M := by
        rcases hdeposit with hzero | ⟨-, -, hfits⟩
        · omega
        · exact hfits
      omega

end Book

namespace VaultManager

open StateManager FloatOps

variable {σ : Type} [LawfulStorage σ] (F : Type) [FloatOps F]

/-! ## Conservation -/

/-- A transfer that returned `r` conserves money: the balances go down by what was burned and
by what is for the validators, the genesis vault has its credit besides what the payment
itself leaves it, and the balances that are reported are those of the accounts. -/
structure ConservesMoney («from» «to» : Address) (amount fee : U128) (r : TransferResult)
    (sm sm' : StateManager σ) : Prop where
  total : sm'.book.total + (r.feeBurned.toNat + r.feeToValidator.toNat) = sm.book.total
  genesis : sm'.book.balance genesisVaultAddress =
    (Book.pay maxU128 maxU64 (transferPayment «from» «to» amount fee) sm.book).balance
      genesisVaultAddress + r.feeToGenesis.toNat
  fromBalance : r.fromBalanceAfter.toNat = sm'.book.balance «from»
  toBalance : r.toBalanceAfter.toNat = sm'.book.balance «to»

omit [LawfulStorage σ] in
/-- A transfer that returns a value has passed the checks on its arguments. -/
theorem transfer_of_ok [Storage σ] {«from» «to» : Address} {amount fee : U128}
    {vm : VaultManager σ} (h : (transfer F «from» «to» amount fee vm).1.IsOk) :
    minBalance ≤ amount ∧ «from» ≠ «to» ∧
      transfer F «from» «to» amount fee vm = executeTransfer F «from» «to» amount fee vm := by
  unfold transfer at h ⊢
  split_ifs at h ⊢ with hsmall hself
  · exact h.elim
  · exact h.elim
  · exact ⟨BitVec.not_lt.mp hsmall, hself, rfl⟩

/-- **A transfer conserves money unless the genesis vault is a party of it.**  For any values
of the two products that fit into the fee: money is conserved if and only if nothing goes to
the genesis vault, or the vault is neither sender nor recipient and its balance does not
saturate, and the saturated cost and the saturated balance of the recipient even out. -/
theorem transfer_conserves_iff {«from» «to» : Address} {amount fee : U128} {vm : VaultManager σ}
    {r : TransferResult} (h : (transfer F «from» «to» amount fee vm).1 = .ok r)
    (hshares : r.feeBurned.toNat + r.feeToGenesis.toNat ≤ fee.toNat) :
    ConservesMoney «from» «to» amount fee r vm.stateManager
        (transfer F «from» «to» amount fee vm).2.stateManager ↔
      (r.feeToGenesis = 0 ∨ («from» ≠ genesisVaultAddress ∧ «to» ≠ genesisVaultAddress ∧
        vm.stateManager.book.balance genesisVaultAddress + r.feeToGenesis.toNat ≤ maxU128)) ∧
      ((amount.toNat + fee.toNat ≤ maxU128 ∧
          vm.stateManager.book.balance «to» + amount.toNat ≤ maxU128) ∨
        (maxU128 < amount.toNat + fee.toNat ∧
          vm.stateManager.book.balance «to» = fee.toNat)) := by
  obtain ⟨-, hne, hrun⟩ := transfer_of_ok F (by rw [h]; trivial)
  rw [hrun] at h ⊢
  have hend := executeTransfer_spec F «from» «to» amount fee vm
  rw [Post, h] at hend
  generalize (executeTransfer F «from» «to» amount fee vm).2 = vm' at hend ⊢
  cases hend with
  | refused hadmits hok => exact absurd trivial hok
  | settled hadmits hcap hfits hread hcounters hpaid hburned hguards hfeeBurned hfeeToGenesis
      hfeeToValidator hfrom hto =>
      have hconserves := Book.payOver_conserves_iff maxU128 maxU64 genesisVaultAddress
        r.feeToGenesis.toNat (transferPayment «from» «to» amount fee) vm.stateManager.book hne
        hpaid.covered (by show _ ≤ fee.toNat; omega) (balance_le vm.stateManager)
      have hbook := hpaid.book
      rw [← hfeeToGenesis] at hbook
      rw [← hbook] at hconserves
      have hrest : r.feeBurned.toNat + r.feeToValidator.toNat =
          fee.toNat - r.feeToGenesis.toNat := by
        rw [hfeeToValidator, U128.toNat_saturatingSub, U128.toNat_saturatingSub]
        omega
      have hzero : r.feeToGenesis = 0 ↔ r.feeToGenesis.toNat = 0 :=
        ⟨fun h => by rw [h]; rfl, fun h => BitVec.eq_of_toNat_eq h⟩
      rw [hzero]
      refine Iff.trans ?_ hconserves
      constructor
      · intro hmoney
        exact ⟨hrest ▸ hmoney.total, hmoney.genesis⟩
      · rintro ⟨htotal, hgenesis⟩
        exact ⟨by rw [hrest]; exact htotal, hgenesis, hfrom, hto⟩

/-! ## Waiting for oneself -/

/-- The calls of the vault that take the locks of the supply. -/
inductive VaultOp : Type where
  | transfer («from» «to» : Address) (amount fee : U128)
  | distributeFees (totalFee : U128)
  | burn (amount : U128)
  | totalSupply
  | currentPhase
  deriving DecidableEq, Repr

/-- The state after a call. -/
def runOp (vm : VaultManager σ) : VaultOp → VaultManager σ
  | .transfer «from» «to» amount fee => (transfer F «from» «to» amount fee vm).2
  | .distributeFees totalFee => (distributeFees F totalFee vm).2
  | .burn amount => (burn amount vm).2
  | .totalSupply => (readTotalSupply vm).2
  | .currentPhase => (currentPhase vm).2

/-- The call is a transfer that passes the checks and burns a part of its fee. -/
def BurnsInTransfer (vm : VaultManager σ) : VaultOp → Prop
  | .transfer «from» «to» amount fee =>
      (minBalance ≤ amount ∧ «from» ≠ «to» ∧ Admits «from» «to» amount fee vm.stateManager) ∧
        vm.totalSupply.toNat ≤ totalSupplyCap.toNat ∧ 0 < burnShare F vm.totalSupply fee
  | _ => False

/-- A transfer meets its own guard if and only if it burns. -/
theorem clash_transfer_iff («from» «to» : Address) (amount fee : U128) {vm : VaultManager σ}
    (h : vm.guards = Guards.free) :
    (transfer F «from» «to» amount fee vm).2.guards.clash = false ↔
      ¬ BurnsInTransfer F vm (.transfer «from» «to» amount fee) := by
  unfold transfer BurnsInTransfer
  split_ifs with hsmall hself
  · exact iff_of_true (congrArg Guards.clash h)
      fun hburns => absurd hsmall (BitVec.not_lt.mpr hburns.1.1)
  · exact iff_of_true (congrArg Guards.clash h) fun hburns => absurd hself hburns.1.2.1
  · have hend := executeTransfer_spec F «from» «to» amount fee vm
    have hidle : vm.guards.held = [] := congrArg Guards.held h
    have hnone : vm.guards.clash = false := congrArg Guards.clash h
    rw [Post] at hend
    generalize executeTransfer F «from» «to» amount fee vm = run at hend ⊢
    obtain ⟨o, vm'⟩ := run
    have hpassed : Admits «from» «to» amount fee vm.stateManager →
        vm.totalSupply.toNat ≤ totalSupplyCap.toNat →
        GuardsAfter vm vm' (burnShare F vm.totalSupply fee) →
        (vm'.guards.clash = false ↔
          ¬ ((minBalance ≤ amount ∧ «from» ≠ «to» ∧ Admits «from» «to» amount fee
            vm.stateManager) ∧ vm.totalSupply.toNat ≤ totalSupplyCap.toNat ∧
              0 < burnShare F vm.totalSupply fee)) := by
      intro hadmits hcap hguards
      rw [hguards hidle, hnone, Bool.false_or, decide_eq_false_iff_not]
      constructor
      · exact fun hzero hburns => hzero hburns.2.2
      · exact fun hstays hpos => hstays ⟨⟨BitVec.not_lt.mp hsmall, hself, hadmits⟩, hcap, hpos⟩
    cases hend with
    | refused hadmits hok hsame hstate =>
        refine iff_of_true ?_ fun hburns => absurd hburns.1.2.2 hadmits
        dsimp only at hstate ⊢
        rw [hstate]
        exact hnone
    | overCap hadmits hcap hsame hsupply hburned hguards =>
        refine iff_of_true ?_ fun hburns => absurd hburns.2.1 hcap
        rw [hguards hidle, hnone]
        rfl
    | burnedOverflow hadmits hcap hfull hsame hsupply hguards =>
        exact hpassed hadmits hcap hguards
    | genesisUnread hadmits hcap hfits hpos hread hsame hburned hguards =>
        exact hpassed hadmits hcap hguards
    | countersFull hadmits hcap hfits hcounters hpaid hburned hguards =>
        exact hpassed hadmits hcap hguards
    | settled hadmits hcap hfits hread hcounters hpaid hburned hguards =>
        exact hpassed hadmits hcap hguards

/-- **A call of the vault waits for itself exactly when it is a transfer that burns.** -/
theorem vaultOp_clash_iff (op : VaultOp) {vm : VaultManager σ} (h : vm.guards = Guards.free) :
    (runOp F vm op).guards.clash = false ↔ ¬ BurnsInTransfer F vm op := by
  have hidle : vm.guards.held = [] := congrArg Guards.held h
  have hnone : vm.guards.clash = false := congrArg Guards.clash h
  cases op with
  | transfer «from» «to» amount fee => exact clash_transfer_iff F «from» «to» amount fee h
  | distributeFees totalFee =>
      refine iff_of_true ?_ not_false
      show (distributeFees F totalFee vm).2.guards.clash = false
      rw [(distributeFees_spec F totalFee vm).1 hidle, hnone]
  | burn amount =>
      refine iff_of_true ?_ not_false
      show (burn amount vm).2.guards.clash = false
      rw [(burn_spec amount vm).2.1 hidle, hnone]
  | totalSupply =>
      refine iff_of_true ?_ not_false
      show (readTotalSupply vm).2.guards.clash = false
      rw [readTotalSupply, withSupply_run fun _ => rfl]
      exact (congrArg Guards.clash (touch_of_idle hidle _ _)).trans hnone
  | currentPhase =>
      refine iff_of_true ?_ not_false
      show (currentPhase vm).2.guards.clash = false
      rw [currentPhase_run]
      exact (congrArg Guards.clash (touch_of_idle hidle _ _)).trans hnone

/-! ## Two implementations of a transfer -/

/-- The checks that `apply_transfer` makes. -/
structure Affordable («from» «to» : Address) (amount fee : U128) (sm : StateManager σ) :
    Prop where
  readable : Readable [«from», «to»] sm
  sender : ∃ fa, sm.account «from» = some fa ∧
    (U128.saturatingAdd amount fee).toNat ≤ fa.balance.toNat

/-- `apply_transfer` makes no other checks. -/
theorem applyTransfer_isOk_iff («from» «to» : Address) (amount fee : U128)
    (sm : StateManager σ) :
    (applyTransfer «from» «to» amount fee sm).1.IsOk ↔ Affordable «from» «to» amount fee sm := by
  have hpost : Post (applyTransfer «from» «to» amount fee) sm fun o _ =>
      o.IsOk ↔ Affordable «from» «to» amount fee sm := by
    unfold applyTransfer
    refine (getAccount_spec «from» sm).run.seq ?_ ?_ ?_
    · rintro r sm₁ ⟨hrun, -, -, hr⟩
      cases r with
      | none =>
          refine iff_of_false id fun hafford => ?_
          obtain ⟨fa, hfa, -⟩ := hafford.sender
          rw [← hr] at hfa
          cases hfa
      | some fa =>
          simp only [post_ite]
          refine ⟨fun hless => iff_of_false id fun hafford => ?_, fun hfunds => ?_⟩
          · obtain ⟨fa', hfa', hfunds⟩ := hafford.sender
            rw [← hr] at hfa'
            cases hfa'
            have hless' := BitVec.lt_def.mp hless
            omega
          · rw [BitVec.not_lt, BitVec.le_def] at hfunds
            simp only [post_bind, post_now, post_setAccount]
            refine Post.mono (getAccountOrNew_readable «to» _) ?_
            rintro (ta | e | _) sm₂ ⟨-, hread⟩
            · refine iff_of_true trivial ⟨?_, fa, hr.symm, hfunds⟩
              rw [readable_cons_of_ok hrun]
              exact (readable_clock _ sm₁ _).mp ((hread.2 []).mp trivial)
            · refine iff_of_false id fun hafford => hread [] ?_
              have htail := (readable_cons_of_ok hrun).mp hafford.readable
              exact (readable_clock _ sm₁ _).mpr htail
            · exact hread.elim
    · rintro e sm₁ ⟨hrun, -⟩
      exact iff_of_false id fun hafford => not_readable_cons_of_err hrun hafford.readable
    · rintro sm₁ ⟨-, -, -, hfalse⟩
      exact hfalse.elim
  exact hpost

/-- A transfer of the state manager is a payment. -/
theorem applyTransfer_book {«from» «to» : Address} {amount fee : U128} {sm : StateManager σ}
    (h : (applyTransfer «from» «to» amount fee sm).1.IsOk) :
    (applyTransfer «from» «to» amount fee sm).2.book =
      Book.pay maxU128 maxU64 (transferPayment «from» «to» amount fee) sm.book := by
  have hspec := applyTransfer_spec «from» «to» amount fee sm
  rw [Post] at hspec
  generalize applyTransfer «from» «to» amount fee sm = run at h hspec ⊢
  obtain ⟨o, sm'⟩ := run
  cases o with
  | ok u =>
      obtain ⟨fa, ta, i, j, htransferred⟩ := hspec
      set tx : Transaction := ⟨«from», «to», amount, fee, 0, [], 0⟩
      have htx : Transferred tx.from tx.to tx.amount tx.fee sm sm' fa ta i j := htransferred
      exact htx.book.1
  | err e => exact h.elim
  | panic => exact h.elim

/-- What only the vault asks for: an account that is not dormant and whose nonce can be
counted up, counters that do not overflow, and the account of the genesis vault. -/
structure VaultReady («from» «to» : Address) (fee : U128) (vm : VaultManager σ) : Prop where
  sender : ∃ fa, vm.stateManager.account «from» = some fa ∧ fa.isDormant = false ∧
    fa.nonce.toNat + 1 < 2 ^ 64
  cap : vm.totalSupply.toNat ≤ totalSupplyCap.toNat
  burned : vm.totalBurned.toNat + (burnShare F vm.totalSupply fee).toNat < 2 ^ 128
  genesis : 0 < genesisShare F vm.totalSupply fee →
    Readable [«from», «to», genesisVaultAddress] vm.stateManager
  counters : CountersFit fee vm

/-- The vault accepts what `apply_transfer` accepts when it is ready. -/
theorem transfer_isOk_iff {«from» «to» : Address} {amount : U128} (fee : U128)
    (vm : VaultManager σ) (hne : «from» ≠ «to») (hamount : minBalance ≤ amount) :
    (transfer F «from» «to» amount fee vm).1.IsOk ↔
      Affordable «from» «to» amount fee vm.stateManager ∧ VaultReady F «from» «to» fee vm := by
  have hrun : transfer F «from» «to» amount fee vm =
      executeTransfer F «from» «to» amount fee vm := by
    unfold transfer
    rw [if_neg (BitVec.not_lt.mpr hamount), if_neg hne]
  have hadmits : Affordable «from» «to» amount fee vm.stateManager ∧
      VaultReady F «from» «to» fee vm → Admits «from» «to» amount fee vm.stateManager := by
    rintro ⟨hafford, hready⟩
    obtain ⟨fa, hfa, hfunds⟩ := hafford.sender
    obtain ⟨fa', hfa', hactive, hnonce⟩ := hready.sender
    cases hfa.symm.trans hfa'
    exact ⟨hafford.readable, fa, hfa, hactive, hfunds, hnonce⟩
  have hend := executeTransfer_spec F «from» «to» amount fee vm
  rw [hrun]
  rw [Post] at hend
  generalize executeTransfer F «from» «to» amount fee vm = run at hend ⊢
  obtain ⟨o, vm'⟩ := run
  dsimp only at hend ⊢
  cases hend with
  | refused hnot hok => exact iff_of_false hok fun h => hnot (hadmits h)
  | overCap _ hcap => exact iff_of_false id fun h => hcap h.2.cap
  | burnedOverflow _ _ hfull => exact iff_of_false id fun h => hfull h.2.burned
  | genesisUnread _ _ _ hpos hread => exact iff_of_false id fun h => hread (h.2.genesis hpos)
  | countersFull _ _ _ hfull => exact iff_of_false id fun h => hfull h.2.counters
  | settled hadm hcap hfits hread hcounters =>
      obtain ⟨fa, hfa, hactive, hfunds, hnonce⟩ := hadm.sender
      exact iff_of_true trivial ⟨⟨hadm.readable, fa, hfa, hfunds⟩,
        ⟨fa, hfa, hactive, hnonce⟩, hcap, hfits, hread, hcounters⟩

/-- Both routines accept the same request, and, when neither party is the genesis vault,
leave both parties with the same balances and nonces. -/
structure TransfersAgree («from» «to» : Address) (amount fee : U128) (vm : VaultManager σ) :
    Prop where
  accept : (applyTransfer «from» «to» amount fee vm.stateManager).1.IsOk ↔
    (transfer F «from» «to» amount fee vm).1.IsOk
  parties : (applyTransfer «from» «to» amount fee vm.stateManager).1.IsOk →
    (transfer F «from» «to» amount fee vm).1.IsOk →
    «from» ≠ genesisVaultAddress → «to» ≠ genesisVaultAddress →
    ∀ a, a = «from» ∨ a = «to» →
      (applyTransfer «from» «to» amount fee vm.stateManager).2.book.balance a =
        (transfer F «from» «to» amount fee vm).2.stateManager.book.balance a ∧
      (applyTransfer «from» «to» amount fee vm.stateManager).2.book.nonce a =
        (transfer F «from» «to» amount fee vm).2.stateManager.book.nonce a

/-- The accounts after a transfer of the vault. -/
theorem transfer_paid {«from» «to» : Address} {amount fee : U128} {vm : VaultManager σ}
    (h : (transfer F «from» «to» amount fee vm).1.IsOk) :
    Paid «from» «to» amount fee (genesisShare F vm.totalSupply fee) vm.stateManager
      (transfer F «from» «to» amount fee vm).2.stateManager := by
  obtain ⟨-, -, hrun⟩ := transfer_of_ok F h
  rw [hrun] at h ⊢
  have hend := executeTransfer_spec F «from» «to» amount fee vm
  rw [Post] at hend
  generalize executeTransfer F «from» «to» amount fee vm = run at h hend ⊢
  obtain ⟨o, vm'⟩ := run
  dsimp only at h hend ⊢
  cases hend with
  | refused _ hok => exact absurd h hok
  | overCap => exact h.elim
  | burnedOverflow => exact h.elim
  | genesisUnread => exact h.elim
  | countersFull => exact h.elim
  | settled _ _ _ _ _ hpaid => exact hpaid

/-- **The two implementations of a transfer agree unless the vault refuses what the state
manager accepts**: for a dormant sender, at the last nonce, at its own limits, or when the
account of the genesis vault cannot be read. -/
theorem transfers_agree_iff {«from» «to» : Address} {amount : U128} (fee : U128)
    (vm : VaultManager σ) (hne : «from» ≠ «to») (hamount : minBalance ≤ amount) :
    TransfersAgree F «from» «to» amount fee vm ↔
      (Affordable «from» «to» amount fee vm.stateManager → VaultReady F «from» «to» fee vm) := by
  have happly := applyTransfer_isOk_iff «from» «to» amount fee vm.stateManager
  have hvault := transfer_isOk_iff F fee vm hne hamount
  constructor
  · intro hagree hafford
    exact (hvault.mp (hagree.accept.mp (happly.mpr hafford))).2
  · intro hready
    refine ⟨?_, ?_⟩
    · rw [happly, hvault]
      exact ⟨fun h => ⟨h, hready h⟩, fun h => h.1⟩
    · intro hok hok' hfrom hto a ha
      have hparty : a ≠ genesisVaultAddress := by
        rcases ha with rfl | rfl
        · exact hfrom
        · exact hto
      rw [applyTransfer_book hok, (transfer_paid F hok').book,
        Book.payOver_of_ne maxU128 maxU64 hfrom hto]
      refine ⟨?_, rfl⟩
      rw [Book.balance_pay, Book.balance_pay, Book.deposit_balance_of_ne maxU128 hparty]

end VaultManager

/-! ## Transfers to the genesis vault, under a guard, and from a dormant account -/

section Example

open scoped Sample

open VaultManager

/-- The genesis vault is paid 2000, and its part of the fee is lost. -/
theorem genesis_credit_lost :
    (transfer ℚ (sampleAddress 1) genesisVaultAddress 2000 1000 sampleVault).1 =
        .ok ⟨true, 997000, 2000, 600, 360, 40⟩ ∧
      ¬ ConservesMoney (sampleAddress 1) genesisVaultAddress 2000 1000
        ⟨true, 997000, 2000, 600, 360, 40⟩ sampleVault.stateManager
        (transfer ℚ (sampleAddress 1) genesisVaultAddress 2000 1000 sampleVault).2.stateManager := by
  refine ⟨by decide +kernel, fun hmoney => ?_⟩
  have hbalance : (transfer ℚ (sampleAddress 1) genesisVaultAddress 2000 1000
      sampleVault).2.stateManager.book.balance genesisVaultAddress = 2000 := by decide +kernel
  have hpay : (Book.pay maxU128 maxU64
      (transferPayment (sampleAddress 1) genesisVaultAddress 2000 1000)
      sampleVault.stateManager.book).balance genesisVaultAddress = 2000 := by decide
  have hgenesis := hmoney.genesis
  rw [hbalance, hpay] at hgenesis
  exact absurd hgenesis (by decide)

/-- A transfer between two other accounts conserves money. -/
theorem transfer_conserves_money :
    ConservesMoney (sampleAddress 1) (sampleAddress 2) 2000 1000
      ⟨true, 997000, 2000, 600, 360, 40⟩ sampleVault.stateManager
      (transfer ℚ (sampleAddress 1) (sampleAddress 2) 2000 1000 sampleVault).2.stateManager := by
  have hrun : (transfer ℚ (sampleAddress 1) (sampleAddress 2) 2000 1000 sampleVault).1 =
      .ok ⟨true, 997000, 2000, 600, 360, 40⟩ := by decide +kernel
  refine (transfer_conserves_iff ℚ hrun (by decide)).mpr ⟨Or.inr ⟨by decide, by decide, ?_⟩,
    Or.inl ⟨by decide, ?_⟩⟩
  · decide
  · decide

/-- A transfer with a fee asks for the supply while it holds a guard of it. -/
theorem transfer_waits_for_itself :
    sampleVault.guards = Guards.free ∧
      (runOp ℚ sampleVault (.transfer (sampleAddress 1) (sampleAddress 2) 2000 1000)).guards.clash =
        true := ⟨rfl, by decide +kernel⟩

/-- A transfer without a fee does not. -/
theorem free_transfer_does_not_wait :
    (runOp ℚ sampleVault (.transfer (sampleAddress 1) (sampleAddress 2) 2000 0)).guards.clash =
      false := by
  refine (vaultOp_clash_iff ℚ _ (show sampleVault.guards = Guards.free from rfl)).mpr fun hburns => ?_
  exact absurd hburns.2.2 (by decide +kernel)

/-- A vault where the only account is dormant. -/
def dormantVault : VaultManager MemoryStorage :=
  VaultManager.new (StateManager.new
    ((MemoryStorage.new fun _ => 0).putAccount (sampleAddress 1)
      (some { Account.new (sampleAddress 1) 1000000 0 with isDormant := true })) fun _ => 1)

/-- The state manager makes a transfer from a dormant account, the vault refuses it. -/
theorem dormant_sender_disagrees :
    (StateManager.applyTransfer (sampleAddress 1) (sampleAddress 2) 2000 1000
        dormantVault.stateManager).1 = .ok () ∧
      (transfer ℚ (sampleAddress 1) (sampleAddress 2) 2000 1000 dormantVault).1 =
        .err (.dormantAccount 6) ∧
      ¬ TransfersAgree ℚ (sampleAddress 1) (sampleAddress 2) 2000 1000 dormantVault := by
  have hstate : (StateManager.applyTransfer (sampleAddress 1) (sampleAddress 2) 2000 1000
      dormantVault.stateManager).1 = .ok () := by decide
  have hvault : (transfer ℚ (sampleAddress 1) (sampleAddress 2) 2000 1000 dormantVault).1 =
      .err (.dormantAccount 6) := by decide
  refine ⟨hstate, hvault, fun hagree => ?_⟩
  have haccept := hagree.accept
  rw [hstate, hvault] at haccept
  exact haccept.mp trivial

/-- Both make a transfer from an active account. -/
theorem active_sender_agrees :
    TransfersAgree ℚ (sampleAddress 1) (sampleAddress 2) 2000 1000 sampleVault :=
  (transfers_agree_iff ℚ 1000 sampleVault (by decide) (by decide)).mpr fun _ =>
    { sender := ⟨Account.new (sampleAddress 1) 1000000 0, by decide, rfl, by decide⟩
      cap := by decide
      burned := by decide +kernel
      genesis := fun _ => ⟨by decide, by decide, by decide, trivial⟩
      counters := ⟨by decide, by decide⟩ }

end Example
