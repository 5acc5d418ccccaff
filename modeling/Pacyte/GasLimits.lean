/-
# The gas limit of the caller

The check of a transaction raises a gas limit that is below the intrinsic gas instead of refusing
it, and divides by the limit (`validateTransaction_spec`).  Nothing after the check changes the
limit, so that of the caller is respected exactly if the check does not have to raise it
(`gas_limit_kept_iff`).
-/
import Pacyte.ExecutorGas

open Exec

/-- A maximum that is the first number. -/
theorem UInt64.max_eq_of_le {a b : UInt64} (h : b ≤ a) : max a b = a := by
  have hmax : max a b = if a ≤ b then b else a := rfl
  rw [hmax]
  split_ifs with hle
  · exact UInt64.le_antisymm h hle
  · rfl

theorem UInt64.right_le_max (a b : UInt64) : b ≤ max a b := by
  have hmax : max a b = if a ≤ b then b else a := rfl
  rw [hmax]
  split_ifs with hle
  · exact UInt64.le_refl b
  · exact UInt64.le_of_lt (UInt64.not_le.mp hle)

/-! ## What leaves the limit alone -/

namespace Execution

open TransactionExecutor

variable {σ κ : Type} [LawfulStorage σ] [CodeStorage κ]

/-- The gas limit is the same. -/
def SameLimit (s s' : Execution σ κ) : Prop := s'.context.gasLimit = s.context.gasLimit

omit [LawfulStorage σ] [CodeStorage κ] in
instance : Std.Refl (SameLimit (σ := σ) (κ := κ)) := ⟨fun _ => rfl⟩

omit [LawfulStorage σ] [CodeStorage κ] in
instance : IsTrans (Execution σ κ) SameLimit := ⟨fun _ _ _ h h' => Eq.trans h' h⟩

omit [LawfulStorage σ] [CodeStorage κ] in
theorem sameLimit_onExecutor {α : Type} (m : Exec PacyteError (TransactionExecutor σ κ) α) :
    Within SameLimit (onExecutor m) := fun _ => rfl

omit [LawfulStorage σ] [CodeStorage κ] in
theorem sameLimit_intrinsicGas (calculator : GasCalculator) (tx : Transaction)
    (isContractCreation : Bool) : Within SameLimit
      (calculator.intrinsicGas tx isContractCreation : Exec PacyteError (Execution σ κ) UInt64) := by
  intro s
  obtain ⟨hok, hpanic⟩ :=
    calculator.intrinsicGas_run (ε := PacyteError) tx isContractCreation s
  by_cases hfits : calculator.intrinsic tx isContractCreation < 2 ^ 64
  · obtain ⟨gas, -, hrun⟩ := hok hfits
    rw [hrun]
    exact refl_of SameLimit s
  · rw [hpanic hfits]
    exact refl_of SameLimit s

omit [LawfulStorage σ] [CodeStorage κ] in
theorem sameLimit_useGas (amount : UInt64) : Within SameLimit
    (onContext (ExecutionContext.useGas amount) : Exec PacyteError (Execution σ κ) Bool) := by
  intro s
  rw [onContext, run_onPart, ExecutionContext.useGas_run]
  split_ifs <;> rfl

omit [LawfulStorage σ] [CodeStorage κ] in
theorem sameLimit_payIntrinsic (tx : Transaction) (isContractCreation : Bool)
    {body : Exec PacyteError (Execution σ κ) ExecutionResult} (h : Within SameLimit body) :
    Within SameLimit (payIntrinsic tx isContractCreation body) :=
  Within.bind Within.get fun _ => Within.bind (sameLimit_intrinsicGas _ _ _) fun gas =>
    Within.bind (sameLimit_useGas gas) fun _ =>
      Within.ite h (Within.bind Within.get fun _ => Within.pure _)

omit [LawfulStorage σ] [CodeStorage κ] in
theorem sameLimit_runCode [Keccak256] (code : Bytes) :
    Within SameLimit (onContext (runCode code) :
      Exec PacyteError (Execution σ κ) (Except ExecutionError Bytes)) := by
  intro s
  rw [onContext, run_onPart]
  unfold runCode SameLimit
  rw [run_bind, run_get]
  dsimp only
  rcases VM.run (VM.new code s.context.remainingGas) with ⟨data | e | _, vm⟩
  · dsimp only
    rw [run_bind, ExecutionContext.useGas_run]
    split_ifs <;> rfl
  · dsimp only
    rw [run_bind, ExecutionContext.useGas_run]
    split_ifs <;> rfl
  · rfl

section Kinds

variable (F : Type) [FloatOps F]

omit [CodeStorage κ] in
theorem sameLimit_executeTransfer (tx : Transaction) : Within SameLimit
    (executeTransfer F tx : Exec PacyteError (Execution σ κ) ExecutionResult) :=
  sameLimit_payIntrinsic tx false <|
    Within.bind (sameLimit_onExecutor _) fun _ => Within.bind (sameLimit_onExecutor _) fun _ =>
      Within.bind Within.get fun _ => Within.pure _

variable [Keccak256]

theorem sameLimit_executeContractCall (tx : Transaction) : Within SameLimit
    (executeContractCall F tx : Exec PacyteError (Execution σ κ) ExecutionResult) := by
  refine Within.bind Within.get fun s => ?_
  cases CodeStorage.getCode tx.to s.executor.codeStorage with
  | none => exact Within.throw _
  | some code =>
      refine sameLimit_payIntrinsic tx false ?_
      refine Within.bind (Within.ite
        (Within.bind (sameLimit_onExecutor _) fun _ => Within.pure _) (Within.pure _)) fun _ => ?_
      refine Within.bind (sameLimit_runCode code) fun r => ?_
      cases r with
      | ok returnData =>
          exact Within.bind (sameLimit_onExecutor _) fun _ =>
            Within.bind Within.get fun _ => Within.pure _
      | error e => exact Within.bind Within.get fun _ => Within.pure _

theorem sameLimit_executeContractCreation (tx : Transaction) : Within SameLimit
    (executeContractCreation tx : Exec PacyteError (Execution σ κ) ExecutionResult) := by
  refine sameLimit_payIntrinsic tx true (Within.bind (sameLimit_runCode _) fun r => ?_)
  cases r with
  | ok runtimeCode =>
      exact Within.bind (sameLimit_onExecutor _) fun _ => Within.bind (sameLimit_onExecutor _)
        fun _ => Within.bind (sameLimit_onExecutor _) fun _ => Within.bind Within.get fun _ =>
          Within.bind (sameLimit_onExecutor _) fun _ => Within.bind Within.get fun _ =>
            Within.pure _
  | error e => exact Within.bind Within.get fun _ => Within.pure _

end Kinds

/-! ## The check of a transaction -/

/-- The sender's account is found, its nonce is not beyond that of the transaction, and its balance
covers the amount and the fee. -/
def SenderPasses (tx : Transaction) (s : Execution σ κ) : Prop :=
  ∃ account, (getAccount tx.from s.executor).1 = .ok (some account) ∧
    account.nonce ≤ tx.nonce ∧ U128.saturatingAdd tx.amount tx.fee ≤ account.balance

/-- What reading an account leaves alone. -/
structure Reads (executor executor' : TransactionExecutor σ κ) : Prop where
  codeStorage : executor'.codeStorage = executor.codeStorage
  gasCalculator : executor'.gasCalculator = executor.gasCalculator

omit [LawfulStorage σ] [CodeStorage κ] in
theorem post_onState {α : Type} (m : Exec PacyteError (StateManager σ) α)
    (executor : TransactionExecutor σ κ)
    (Q : Outcome PacyteError α → TransactionExecutor σ κ → Prop) :
    Post (onState m) executor Q ↔ Post m executor.vaultManager.stateManager fun o sm =>
      Q o { executor with vaultManager :=
        { executor.vaultManager with stateManager := sm } } := Iff.rfl

omit [CodeStorage κ] in
/-- An account is read without a panic. -/
theorem getAccount_reads (address : Address) (executor : TransactionExecutor σ κ) :
    Post (getAccount address) executor fun o executor' =>
      Reads executor executor' ∧ o ≠ .panic := by
  unfold TransactionExecutor.getAccount
  rw [post_bind, post_get]
  dsimp only
  cases executor.accountCache.lookup address with
  | some account => exact ⟨⟨rfl, rfl⟩, nofun⟩
  | none =>
      dsimp only
      rw [post_bind, post_onState]
      refine Post.mono (StateManager.getAccount_spec address
        executor.vaultManager.stateManager) ?_
      rintro ((_ | account) | e | _) sm ⟨-, -, h⟩
      · exact ⟨⟨rfl, rfl⟩, nofun⟩
      · exact ⟨⟨rfl, rfl⟩, nofun⟩
      · exact ⟨⟨rfl, rfl⟩, nofun⟩
      · exact h.elim

omit [CodeStorage κ] in
/-- The first part of the check. -/
theorem validateSender_spec (tx : Transaction) (s : Execution σ κ) :
    Post (validateSender tx) s fun o s' =>
      s'.context = s.context ∧ Reads s.executor s'.executor ∧
        match o with
        | .ok _ => SenderPasses tx s
        | .err _ => ¬ SenderPasses tx s
        | .panic => False := by
  have hreads := getAccount_reads tx.from s.executor
  rcases hrun : getAccount tx.from s.executor with ⟨o, executor'⟩
  rw [Post, hrun] at hreads
  have hread : onExecutor (getAccount tx.from) s = (o, { s with executor := executor' }) := by
    rw [onExecutor, run_onPart, hrun]
  have hpasses : ∀ r, o = .ok r → (SenderPasses tx s ↔ ∃ account, r = some account ∧
      account.nonce ≤ tx.nonce ∧ U128.saturatingAdd tx.amount tx.fee ≤ account.balance) := by
    rintro r rfl
    unfold SenderPasses
    rw [hrun]
    exact exists_congr fun account => and_congr_left fun _ =>
      ⟨fun h => Outcome.ok.inj h, fun h => congrArg _ h⟩
  unfold validateSender
  rcases o with (_ | account) | e | _
  · have hnot : ¬ SenderPasses tx s := fun h => by
      obtain ⟨account, haccount, -⟩ := (hpasses none rfl).mp h
      cases haccount
    rw [Post, run_bind_of_ok hread]
    exact ⟨rfl, hreads.1, hnot⟩
  · have hiff := hpasses (some account) rfl
    rw [Post, run_bind_of_ok hread]
    dsimp only
    split_ifs with hlow hless
    · refine ⟨rfl, hreads.1, fun h => ?_⟩
      obtain ⟨account', haccount', hnonce, -⟩ := hiff.mp h
      cases haccount'
      exact absurd hlow (UInt64.not_lt.mpr hnonce)
    · refine ⟨rfl, hreads.1, fun h => ?_⟩
      obtain ⟨account', haccount', -, hfunds⟩ := hiff.mp h
      cases haccount'
      exact absurd hless (BitVec.not_lt.mpr hfunds)
    · exact ⟨rfl, hreads.1,
        hiff.mpr ⟨account, rfl, UInt64.not_lt.mp hlow, BitVec.not_lt.mp hless⟩⟩
  · have hnot : ¬ SenderPasses tx s := by
      rintro ⟨account, haccount, -⟩
      rw [hrun] at haccount
      cases haccount
    rw [Post, run_bind_of_err hread]
    exact ⟨rfl, hreads.1, hnot⟩
  · exact absurd rfl hreads.2

/-- The intrinsic gas that the check asks for: a transaction to a contract is taken for a
creation. -/
def validationGas (tx : Transaction) (s : Execution σ κ) : ℕ :=
  s.executor.gasCalculator.intrinsic tx (CodeStorage.codeExists tx.to s.executor.codeStorage)

/-- The transaction creates a contract. -/
def Creates (tx : Transaction) (s : Execution σ κ) : Prop :=
  CodeStorage.codeExists tx.to s.executor.codeStorage = false ∧ tx.to = zero32

instance (tx : Transaction) (s : Execution σ κ) : Decidable (Creates tx s) :=
  inferInstanceAs (Decidable (_ ∧ _))

/-- The intrinsic gas of the path that the transaction takes. -/
def pathGas (tx : Transaction) (s : Execution σ κ) : ℕ :=
  s.executor.gasCalculator.intrinsic tx (decide (Creates tx s))

omit [LawfulStorage σ] in
/-- **The second part of the check** divides by the limit, and raises it. -/
theorem validateGas_run (tx : Transaction) (s : Execution σ κ) :
    (validationGas tx s < 2 ^ 64 → s.context.gasLimit ≠ 0 → ∃ gas : UInt64,
      gas.toNat = validationGas tx s ∧ validateGas tx s =
        (.ok (), { s with context := { s.context with gasLimit := max s.context.gasLimit gas } })) ∧
    (¬ validationGas tx s < 2 ^ 64 ∨ s.context.gasLimit = 0 →
      validateGas tx s = (.panic, s)) := by
  obtain ⟨hok, hpanic⟩ := s.executor.gasCalculator.intrinsicGas_run (ε := PacyteError) tx
    (CodeStorage.codeExists tx.to s.executor.codeStorage) s
  unfold validateGas
  rw [run_bind, run_get]
  dsimp only
  by_cases hfits : validationGas tx s < 2 ^ 64
  · obtain ⟨gas, hgas, hrun⟩ := hok hfits
    rw [run_bind_of_ok hrun, run_bind, gasPriceTooLow]
    by_cases hzero : s.context.gasLimit = 0
    · rw [if_pos hzero]
      exact ⟨fun _ hne => absurd hzero hne, fun _ => rfl⟩
    · rw [if_neg hzero]
      exact ⟨fun _ _ => ⟨gas, hgas, rfl⟩, fun h => absurd h (not_or.mpr ⟨not_not_intro hfits, hzero⟩)⟩
  · rw [run_bind_of_panic (hpanic hfits)]
    exact ⟨fun h => absurd h hfits, fun _ => rfl⟩

/-- **How the check of a transaction ends.** -/
inductive Validated (tx : Transaction) (s : Execution σ κ) :
    Outcome PacyteError Unit → Execution σ κ → Prop
  | refused (e : PacyteError) (s' : Execution σ κ) : ¬ SenderPasses tx s →
      s'.context = s.context → Validated tx s (.err e) s'
  | panicked (s' : Execution σ κ) : SenderPasses tx s →
      ¬ validationGas tx s < 2 ^ 64 ∨ s.context.gasLimit = 0 →
      s'.context = s.context → Validated tx s .panic s'
  | passed (s' : Execution σ κ) (gas : UInt64) : SenderPasses tx s →
      validationGas tx s < 2 ^ 64 → s.context.gasLimit ≠ 0 → gas.toNat = validationGas tx s →
      Reads s.executor s'.executor →
      s'.context = { s.context with gasLimit := max s.context.gasLimit gas } →
      Validated tx s (.ok ()) s'

theorem validateTransaction_spec (tx : Transaction) (s : Execution σ κ) :
    Post (validateTransaction tx) s (Validated tx s) := by
  refine (validateSender_spec tx s).seq ?_ ?_ ?_
  · rintro _ s₁ ⟨hcontext, hreads, hpasses⟩
    have hgas : validationGas tx s₁ = validationGas tx s := by
      unfold validationGas
      rw [hreads.codeStorage, hreads.gasCalculator]
    obtain ⟨hok, hpanic⟩ := validateGas_run tx s₁
    rw [hgas, hcontext] at hok hpanic
    by_cases hfails : ¬ validationGas tx s < 2 ^ 64 ∨ s.context.gasLimit = 0
    · rw [Post, hpanic hfails]
      exact .panicked s₁ hpasses hfails hcontext
    · rw [not_or, not_not] at hfails
      obtain ⟨gas, htoNat, hrun⟩ := hok hfails.1 hfails.2
      rw [Post, hrun]
      exact .passed _ gas hpasses hfails.1 hfails.2 htoNat hreads rfl
  · rintro e s₁ ⟨hcontext, -, hfails⟩
    exact .refused e s₁ hfails hcontext
  · rintro s₁ ⟨-, -, hfalse⟩
    exact hfalse.elim

section Kinds

variable (F : Type) [FloatOps F] [Keccak256]

/-- The result is `OutOfGas`, or an error is returned. -/
def ReportsOutOfGas : Outcome PacyteError ExecutionResult → Prop
  | .ok result => ∃ used limit, result.error = some (.outOfGas used limit)
  | .err _ => True
  | .panic => False

/-- The gas limit that the caller has set is respected. -/
structure GasLimitKept (tx : Transaction) (s : Execution σ κ) : Prop where
  /-- The limit is not raised. -/
  limit : (executeTransaction F tx s).2.context.gasLimit ≤ s.context.gasLimit
  /-- What costs more is refused. -/
  refused : s.context.gasLimit.toNat < pathGas tx s →
    ReportsOutOfGas (executeTransaction F tx s).1
  /-- The check panics only where the intrinsic gas has more than 64 bits: it does not divide by
  zero. -/
  divides : (validateTransaction tx s).1 = .panic → 2 ^ 64 ≤ validationGas tx s

/-- The condition on the limit, once the sender has passed. -/
def LimitSuffices (tx : Transaction) (s : Execution σ κ) : Prop :=
  if validationGas tx s < 2 ^ 64 then
    s.context.gasLimit ≠ 0 ∧ validationGas tx s ≤ s.context.gasLimit.toNat ∧
      (s.context.gasLimit.toNat < pathGas tx s →
        s.context.gasUsed.toNat + pathGas tx s < 2 ^ 64)
  else pathGas tx s ≤ s.context.gasLimit.toNat

/-- What is executed after the check. -/
def executePath (tx : Transaction) (s : Execution σ κ) :
    Outcome PacyteError ExecutionResult × Execution σ κ :=
  if CodeStorage.codeExists tx.to s.executor.codeStorage then executeContractCall F tx s
  else if tx.to = zero32 then executeContractCreation tx s
  else executeTransfer F tx s

theorem executeTransaction_of_ok {tx : Transaction} {s s' : Execution σ κ}
    (h : validateTransaction tx s = (.ok (), s')) :
    executeTransaction F tx s = executePath F tx s' := by
  unfold executeTransaction executePath
  rw [run_bind_of_ok h, run_bind, run_get]
  dsimp only
  split_ifs <;> rfl

theorem sameLimit_executePath (tx : Transaction) (s : Execution σ κ) :
    (executePath F tx s).2.context.gasLimit = s.context.gasLimit := by
  unfold executePath
  split_ifs
  · exact sameLimit_executeContractCall F tx s
  · exact sameLimit_executeContractCreation tx s
  · exact sameLimit_executeTransfer F tx s

omit [LawfulStorage σ] [Keccak256] in
/-- A path that costs more than the check has asked for is that of a creation. -/
theorem creates_of_lt {tx : Transaction} {s : Execution σ κ}
    (h : validationGas tx s < pathGas tx s) : Creates tx s := by
  by_contra hnot
  unfold validationGas pathGas at h
  rw [decide_eq_false hnot] at h
  exact absurd (s.executor.gasCalculator.intrinsic_le tx _) (Nat.not_le_of_lt h)

theorem executePath_of_creates {tx : Transaction} {s : Execution σ κ} (h : Creates tx s) :
    executePath F tx s = executeContractCreation tx s := by
  unfold executePath
  rw [h.1, if_neg Bool.false_ne_true, if_pos h.2]

/-- **When the gas limit is respected**: for a transaction whose sender passes, if it is not zero
and the check does not ask for more, and if what a creation costs beyond that can be added up. -/
theorem gas_limit_kept_iff (tx : Transaction) (s : Execution σ κ) :
    GasLimitKept F tx s ↔ (SenderPasses tx s → LimitSuffices tx s) := by
  have hspec := validateTransaction_spec tx s
  rcases hvalid : validateTransaction tx s with ⟨o, s₁⟩
  rw [Post, hvalid] at hspec
  unfold LimitSuffices
  cases hspec with
  | refused e _ hfails hcontext =>
      refine iff_of_true ?_ fun h => absurd h hfails
      have hrun : executeTransaction F tx s = (.err e, s₁) := run_bind_of_err hvalid
      refine ⟨?_, fun _ => ?_, fun hpanic => ?_⟩
      · rw [hrun, hcontext]
        exact UInt64.le_refl _
      · rw [hrun]
        trivial
      · rw [hvalid] at hpanic
        cases hpanic
  | panicked _ hpasses hpanics hcontext =>
      have hrun : executeTransaction F tx s = (.panic, s₁) := run_bind_of_panic hvalid
      constructor
      · intro hkept _
        have hbits := hkept.divides (congrArg Prod.fst hvalid)
        rw [if_neg (Nat.not_lt_of_le hbits)]
        by_contra hbeyond
        have hreport := hkept.refused (Nat.lt_of_not_le hbeyond)
        rw [hrun] at hreport
        exact hreport
      · intro hsuffices
        have h := hsuffices hpasses
        split_ifs at h with hbits
        · exact absurd hpanics (not_or.mpr ⟨not_not_intro hbits, h.1⟩)
        · refine ⟨?_, fun hbeyond => absurd h (Nat.not_le_of_lt hbeyond), fun _ =>
            Nat.le_of_not_lt hbits⟩
          rw [hrun, hcontext]
          exact UInt64.le_refl _
  | passed _ gas hpasses hbits hne hgas hreads hcontext =>
      have hrun : executeTransaction F tx s = executePath F tx s₁ :=
        executeTransaction_of_ok F hvalid
      have hlimit : (executeTransaction F tx s).2.context.gasLimit =
          max s.context.gasLimit gas := by
        rw [hrun, sameLimit_executePath, hcontext]
      -- within the limit the context is unchanged, and a creation is the only path that may not fit
      have hsame : validationGas tx s ≤ s.context.gasLimit.toNat → s₁.context = s.context := by
        intro hle
        rw [hcontext]
        dsimp only
        rw [UInt64.max_eq_of_le (UInt64.le_iff_toNat_le.mpr (hgas.trans_le hle))]
      have hcreation : validationGas tx s ≤ s.context.gasLimit.toNat →
          s.context.gasLimit.toNat < pathGas tx s → Creates tx s₁ ∧
            s₁.executor.gasCalculator.intrinsic tx true = pathGas tx s := by
        intro hle hbeyond
        have hcreates := creates_of_lt (Nat.lt_of_le_of_lt hle hbeyond)
        unfold pathGas
        rw [decide_eq_true hcreates, hreads.gasCalculator]
        exact ⟨⟨(congrArg _ hreads.codeStorage).trans hcreates.1, hcreates.2⟩, rfl⟩
      rw [if_pos hbits]
      constructor
      · intro hkept _
        have hle : validationGas tx s ≤ s.context.gasLimit.toNat := by
          have hmax := hkept.limit
          rw [hlimit] at hmax
          rw [← hgas]
          exact UInt64.le_iff_toNat_le.mp (UInt64.le_trans (UInt64.right_le_max _ _) hmax)
        refine ⟨hne, hle, fun hbeyond => ?_⟩
        by_contra hfull
        obtain ⟨hcreates, hcost⟩ := hcreation hle hbeyond
        have hreport := hkept.refused hbeyond
        have hpanic : executeContractCreation tx s₁ = (.panic, s₁) := by
          refine (payIntrinsic_run tx true _ s₁).2.2 ?_
          rw [hcost, hsame hle]
          exact hfull
        rw [hrun, executePath_of_creates F hcreates, hpanic] at hreport
        exact hreport
      · intro hsuffices
        obtain ⟨-, hle, hsum⟩ := hsuffices hpasses
        refine ⟨?_, fun hbeyond => ?_, fun hpanic => ?_⟩
        · rw [hlimit, UInt64.max_eq_of_le (UInt64.le_iff_toNat_le.mpr (hgas.trans_le hle))]
          exact UInt64.le_refl _
        · obtain ⟨hcreates, hcost⟩ := hcreation hle hbeyond
          have hrefused : executeContractCreation tx s₁ = (.ok (.outOfGas s₁.context), s₁) := by
            refine (payIntrinsic_run tx true _ s₁).2.1 ?_ ?_
            · rw [hcost, hsame hle]
              exact Nat.lt_of_lt_of_le hbeyond (Nat.le_add_left _ _)
            · rw [hcost, hsame hle]
              exact hsum hbeyond
          rw [hrun, executePath_of_creates F hcreates, hrefused]
          exact ⟨_, _, rfl⟩
        · rw [hvalid] at hpanic
          cases hpanic

end Kinds

end Execution

/-! ## Limits that are raised, and one that is divided by -/

section Example

open scoped Sample VmSample ExecutorSample

open Execution

/-- A limit below the intrinsic gas is raised to it, and the transfer succeeds; by the limit zero
the check divides. -/
theorem gas_limit_raised :
    ((executeTransaction ℚ (sampleTx 2 2000 0 0) (sampleExecution 10)).1 =
        .ok (.ofSuccess 21000 []) ∧
      (executeTransaction ℚ (sampleTx 2 2000 0 0) (sampleExecution 10)).2.context.gasLimit =
        21000 ∧
      ¬ GasLimitKept ℚ (sampleTx 2 2000 0 0) (sampleExecution 10)) ∧
    (validateTransaction (sampleTx 2 2000 0 0) (sampleExecution 0)).1 = .panic ∧
      ¬ GasLimitKept ℚ (sampleTx 2 2000 0 0) (sampleExecution 0) := by
  have hraised : (executeTransaction ℚ (sampleTx 2 2000 0 0)
      (sampleExecution 10)).2.context.gasLimit = 21000 := by decide +kernel
  have hzero : (validateTransaction (sampleTx 2 2000 0 0) (sampleExecution 0)).1 = .panic := by
    decide
  refine ⟨⟨by decide +kernel, hraised, fun hkept => ?_⟩, hzero, fun hkept => ?_⟩
  · have hlimit := hkept.limit
    rw [hraised] at hlimit
    revert hlimit
    decide
  · have hbits := hkept.divides hzero
    revert hbits
    decide

end Example
