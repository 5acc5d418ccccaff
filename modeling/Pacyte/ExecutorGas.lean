/-
# The gas of a transaction

A transaction pays its intrinsic gas, which is a sum over its data, and then the gas of the code
that it runs; both are taken from the gas of the context.

The machine runs with what is left, so the second payment always succeeds, and the two meters stay
in step (`gas_accounting`).
-/
import Pacyte.Executor
import Pacyte.VmPanics

open Exec

/-! ## Intrinsic gas -/

namespace GasCalculator

variable {ε σ : Type} (calculator : GasCalculator)

/-- The gas of the data. -/
def dataGas (data : Bytes) : ℕ :=
  (data.map fun byte =>
    (if byte = 0 then calculator.txDataZeroGas else calculator.txDataNonZeroGas).toNat).sum

/-- The intrinsic gas of a transaction, without a bound. -/
def intrinsic (tx : Transaction) (isContractCreation : Bool) : ℕ :=
  calculator.txBaseGas.toNat + calculator.dataGas tx.signature +
    if isContractCreation then calculator.contractCreationGas.toNat else 0

theorem addData_run (data : Bytes) (gas : UInt64) (s : σ) :
    (gas.toNat + calculator.dataGas data < 2 ^ 64 → ∃ total : UInt64,
      total.toNat = gas.toNat + calculator.dataGas data ∧
        (calculator.addData data gas : Exec ε σ UInt64) s = (.ok total, s)) ∧
    (¬ gas.toNat + calculator.dataGas data < 2 ^ 64 →
      (calculator.addData data gas : Exec ε σ UInt64) s = (.panic, s)) := by
  induction data generalizing gas with
  | nil =>
      have hlt : gas.toNat + calculator.dataGas [] < 2 ^ 64 := gas.toNat_lt
      exact ⟨fun _ => ⟨gas, rfl, rfl⟩, fun h => absurd hlt h⟩
  | cons byte data ih =>
      obtain ⟨price, hprice⟩ : ∃ price : UInt64, price =
          if byte = 0 then calculator.txDataZeroGas else calculator.txDataNonZeroGas := ⟨_, rfl⟩
      have hcons : calculator.dataGas (byte :: data) = price.toNat + calculator.dataGas data := by
        unfold dataGas
        rw [List.map_cons, List.sum_cons, ← hprice]
      rw [hcons, addData, ← hprice, run_bind, addU64]
      by_cases hfits : gas.toNat + price.toNat < 2 ^ 64
      · obtain ⟨hok, hpanic⟩ := ih (gas + price)
        rw [toNat_add_of_fits hfits, Nat.add_assoc] at hok hpanic
        rw [if_pos hfits]
        exact ⟨hok, hpanic⟩
      · rw [if_neg hfits]
        exact ⟨fun h => by omega, fun _ => rfl⟩

/-- **The intrinsic gas**, if it has 64 bits. -/
theorem intrinsicGas_run (tx : Transaction) (isContractCreation : Bool) (s : σ) :
    (calculator.intrinsic tx isContractCreation < 2 ^ 64 → ∃ gas : UInt64,
      gas.toNat = calculator.intrinsic tx isContractCreation ∧
        (calculator.intrinsicGas tx isContractCreation : Exec ε σ UInt64) s = (.ok gas, s)) ∧
    (¬ calculator.intrinsic tx isContractCreation < 2 ^ 64 →
      (calculator.intrinsicGas tx isContractCreation : Exec ε σ UInt64) s = (.panic, s)) := by
  obtain ⟨hok, hpanic⟩ :=
    calculator.addData_run (ε := ε) tx.signature calculator.txBaseGas s
  unfold intrinsicGas intrinsic
  cases isContractCreation with
  | false =>
      constructor
      · intro hfits
        obtain ⟨gas, hgas, hrun⟩ := hok hfits
        exact ⟨gas, hgas, run_bind_of_ok hrun⟩
      · intro hfull
        exact run_bind_of_panic (hpanic hfull)
  | true =>
      constructor
      · intro hfits
        obtain ⟨gas, hgas, hrun⟩ := hok (Nat.lt_of_le_of_lt (Nat.le_add_right _ _) hfits)
        have hsum : gas.toNat + calculator.contractCreationGas.toNat < 2 ^ 64 := by
          rw [hgas]
          exact hfits
        refine ⟨gas + calculator.contractCreationGas, ?_, ?_⟩
        · rw [toNat_add_of_fits hsum, hgas]
          rfl
        · rw [run_bind_of_ok hrun]
          exact congrFun (if_pos hsum) s
      · intro hfull
        by_cases hdata : calculator.txBaseGas.toNat + calculator.dataGas tx.signature < 2 ^ 64
        · obtain ⟨gas, hgas, hrun⟩ := hok hdata
          have hsum : ¬ gas.toNat + calculator.contractCreationGas.toNat < 2 ^ 64 := by
            rw [hgas]
            exact hfull
          rw [run_bind_of_ok hrun]
          exact congrFun (if_neg hsum) s
        · exact run_bind_of_panic (hpanic hdata)

/-- A creation costs at least as much. -/
theorem intrinsic_le (tx : Transaction) (isContractCreation : Bool) :
    calculator.intrinsic tx false ≤ calculator.intrinsic tx isContractCreation :=
  Nat.add_le_add_left (Nat.zero_le _) _

end GasCalculator

/-! ## The two meters -/

namespace ExecutionContext

/-- The context after gas was used. -/
def charged (context : ExecutionContext) (amount : UInt64) : ExecutionContext :=
  { context with gasUsed := context.gasUsed + amount }

theorem useGas_run {ε : Type} (amount : UInt64) (context : ExecutionContext) :
    (useGas amount : Exec ε ExecutionContext Bool) context =
      if context.gasUsed.toNat + amount.toNat < 2 ^ 64 then
        if context.gasUsed.toNat + amount.toNat ≤ context.gasLimit.toNat then
          (.ok true, context.charged amount)
        else (.ok false, context)
      else (.panic, context) := by
  unfold useGas
  simp only [run_bind, run_get]
  by_cases hfits : context.gasUsed.toNat + amount.toNat < 2 ^ 64
  · have hadd : (addU64 context.gasUsed amount : Exec ε ExecutionContext UInt64) context =
        (.ok (context.gasUsed + amount), context) := by
      rw [addU64, if_pos hfits]
      rfl
    have hlt : context.gasLimit < context.gasUsed + amount ↔
        ¬ context.gasUsed.toNat + amount.toNat ≤ context.gasLimit.toNat := by
      rw [UInt64.lt_iff_toNat_lt, toNat_add_of_fits hfits, not_le]
    rw [if_pos hfits, hadd]
    dsimp only
    by_cases hpays : context.gasUsed.toNat + amount.toNat ≤ context.gasLimit.toNat
    · rw [if_pos hpays, if_neg (fun h => hlt.mp h hpays), run_bind, hadd]
      rfl
    · rw [if_neg hpays, if_pos (hlt.mpr hpays)]
      rfl
  · have hadd : (addU64 context.gasUsed amount : Exec ε ExecutionContext UInt64) context =
        (.panic, context) := by
      rw [addU64, if_neg hfits]
      rfl
    rw [if_neg hfits, hadd]

theorem toNat_remainingGas {context : ExecutionContext} (h : context.gasUsed ≤ context.gasLimit) :
    context.remainingGas.toNat = context.gasLimit.toNat - context.gasUsed.toNat := by
  unfold remainingGas
  rw [if_pos h, UInt64.toNat_sub_of_le _ _ h]

end ExecutionContext

namespace VM

/-- The gas limit stays, and the gas used stays within it. -/
def GasWithin (vm vm' : VM) : Prop :=
  vm'.gasMeter.gasLimit = vm.gasMeter.gasLimit ∧
    (vm.gasMeter.gasUsed ≤ vm.gasMeter.gasLimit → vm'.gasMeter.gasUsed ≤ vm'.gasMeter.gasLimit)

instance : Std.Refl GasWithin := ⟨fun _ => ⟨rfl, id⟩⟩

instance : IsTrans VM GasWithin :=
  ⟨fun _ _ _ h h' => ⟨h'.1.trans h.1, fun hle => h'.2 (h.2 hle)⟩⟩

theorem gasWithin_useGas (amount : UInt64) : Within GasWithin (useGas amount) := by
  intro vm
  rw [useGas_run]
  split_ifs with hfits hpays
  · refine ⟨rfl, fun _ => ?_⟩
    rw [UInt64.le_iff_toNat_le]
    dsimp only
    rw [toNat_add_of_fits hfits]
    exact hpays
  · exact refl_of GasWithin vm
  · exact refl_of GasWithin vm

variable [Keccak256]

theorem gasWithin_execute (opcode : Opcode) : Within GasWithin (execute opcode) := by
  intro vm
  have h := within_execute opcode vm
  unfold GasWithin
  rw [h.gasMeter]
  exact ⟨rfl, id⟩

theorem gasWithin_step : Within GasWithin step := by
  refine Within.bind Within.get fun vm => ?_
  cases vm.code[vm.pc]? with
  | none => exact fun vm => refl_of GasWithin vm
  | some byte =>
      dsimp only
      cases Opcode.fromU8 byte with
      | none => exact Within.throw _
      | some opcode =>
          refine Within.bind (gasWithin_useGas _) fun paid => ?_
          refine Within.ite ?_ (Within.throw _)
          exact Within.bind (Within.modify fun _ => ⟨rfl, id⟩) fun _ => gasWithin_execute opcode

theorem gasWithin_loop (n : ℕ) : Within GasWithin (loop n) := by
  induction n with
  | zero =>
      exact Within.bind Within.get fun _ => Within.ite (Within.pure _) (Within.pure _)
  | succ n ih =>
      exact Within.bind Within.get fun _ =>
        Within.ite (Within.bind gasWithin_step fun _ => ih) (Within.pure _)

/-- **A run never uses more gas than its limit**, however it ends. -/
theorem gasUsed_run_le (code : Bytes) (gasLimit : UInt64) :
    (run (new code gasLimit)).2.gasUsed ≤ gasLimit := by
  have hrun : Within GasWithin run := by
    refine Within.bind Within.get fun vm => Within.bind (gasWithin_loop vm.fuel) fun result => ?_
    cases result with
    | none => exact fun vm => refl_of GasWithin vm
    | some data => exact Within.pure _
  obtain ⟨hlimit, hused⟩ := hrun (new code gasLimit)
  have hle := hused UInt64.zero_le
  rw [hlimit] at hle
  exact hle

end VM

/-! ## The gas of a call and of a creation -/

namespace Execution

open TransactionExecutor

variable {σ κ : Type} [Storage σ] [CodeStorage κ] [Keccak256]

/-- The state after gas was used. -/
def charged (s : Execution σ κ) (amount : UInt64) : Execution σ κ :=
  { s with context := s.context.charged amount }

omit [Storage σ] [CodeStorage κ] [Keccak256] in
/-- **Paying the intrinsic gas.** -/
theorem payIntrinsic_run (tx : Transaction) (isContractCreation : Bool)
    (body : Exec PacyteError (Execution σ κ) ExecutionResult) (s : Execution σ κ) :
    (s.context.gasUsed.toNat + s.executor.gasCalculator.intrinsic tx isContractCreation ≤
        s.context.gasLimit.toNat → ∃ gas : UInt64,
      gas.toNat = s.executor.gasCalculator.intrinsic tx isContractCreation ∧
        payIntrinsic tx isContractCreation body s = body (s.charged gas)) ∧
    (s.context.gasLimit.toNat <
        s.context.gasUsed.toNat + s.executor.gasCalculator.intrinsic tx isContractCreation →
      s.context.gasUsed.toNat + s.executor.gasCalculator.intrinsic tx isContractCreation < 2 ^ 64 →
      payIntrinsic tx isContractCreation body s = (.ok (.outOfGas s.context), s)) ∧
    (¬ s.context.gasUsed.toNat + s.executor.gasCalculator.intrinsic tx isContractCreation < 2 ^ 64 →
      payIntrinsic tx isContractCreation body s = (.panic, s)) := by
  have hlimit := s.context.gasLimit.toNat_lt
  obtain ⟨hok, hpanic⟩ := s.executor.gasCalculator.intrinsicGas_run (ε := PacyteError) tx
    isContractCreation s
  have hpay : ∀ gas : UInt64, gas.toNat =
      s.executor.gasCalculator.intrinsic tx isContractCreation →
      (s.executor.gasCalculator.intrinsicGas tx isContractCreation :
        Exec PacyteError (Execution σ κ) UInt64) s = (.ok gas, s) →
      payIntrinsic tx isContractCreation body s =
        if s.context.gasUsed.toNat + gas.toNat < 2 ^ 64 then
          if s.context.gasUsed.toNat + gas.toNat ≤ s.context.gasLimit.toNat then
            body (s.charged gas)
          else (.ok (.outOfGas s.context), s)
        else (.panic, s) := by
    intro gas _ hrun
    unfold payIntrinsic
    rw [run_bind, run_get]
    dsimp only
    rw [run_bind_of_ok hrun, run_bind, onContext, run_onPart, ExecutionContext.useGas_run]
    split_ifs <;> rfl
  refine ⟨fun hfits => ?_, fun hbeyond hlt => ?_, fun hfull => ?_⟩
  · obtain ⟨gas, hgas, hrun⟩ := hok (by omega)
    refine ⟨gas, hgas, ?_⟩
    rw [hpay gas hgas hrun, hgas, if_pos (by omega), if_pos hfits]
  · obtain ⟨gas, hgas, hrun⟩ := hok (by omega)
    rw [hpay gas hgas hrun, hgas, if_pos hlt, if_neg (by omega)]
  · by_cases hbits : s.executor.gasCalculator.intrinsic tx isContractCreation < 2 ^ 64
    · obtain ⟨gas, hgas, hrun⟩ := hok hbits
      rw [hpay gas hgas hrun, hgas, if_neg hfull]
    · unfold payIntrinsic
      rw [run_bind, run_get]
      dsimp only
      exact run_bind_of_panic (hpanic hbits)

/-- The gas that a machine with the code meters, run with the gas that is left. -/
def vmGas (code : Bytes) (context : ExecutionContext) : UInt64 :=
  (VM.run (VM.new code context.remainingGas)).2.gasUsed

omit [Storage σ] [CodeStorage κ] in
/-- **The second payment succeeds**, whatever the code does. -/
theorem useGas_vmGas {context : ExecutionContext} (hle : context.gasUsed ≤ context.gasLimit)
    (code : Bytes) {ε : Type} :
    (ExecutionContext.useGas (vmGas code context) : Exec ε ExecutionContext Bool) context =
        (.ok true, context.charged (vmGas code context)) ∧
      (context.charged (vmGas code context)).gasUsed.toNat =
        context.gasUsed.toNat + (vmGas code context).toNat ∧
      (context.charged (vmGas code context)).gasUsed ≤ context.gasLimit := by
  have hvm : vmGas code context ≤ context.remainingGas := VM.gasUsed_run_le code _
  have hlt := context.gasLimit.toNat_lt
  rw [UInt64.le_iff_toNat_le, ExecutionContext.toNat_remainingGas hle] at hvm
  rw [UInt64.le_iff_toNat_le] at hle
  have hfits : context.gasUsed.toNat + (vmGas code context).toNat < 2 ^ 64 := by omega
  have hsum : (context.charged (vmGas code context)).gasUsed.toNat =
      context.gasUsed.toNat + (vmGas code context).toNat := toNat_add_of_fits hfits
  rw [ExecutionContext.useGas_run, if_pos hfits, if_pos (by omega)]
  refine ⟨rfl, hsum, ?_⟩
  rw [UInt64.le_iff_toNat_le, hsum]
  omega

omit [Storage σ] [CodeStorage κ] in
/-- **Running the code** charges its gas, whether it returns or fails. -/
theorem runCode_run {context : ExecutionContext} (hle : context.gasUsed ≤ context.gasLimit)
    (code : Bytes) :
    (∀ data, (VM.run (VM.new code context.remainingGas)).1 = .ok data →
      runCode code context = (.ok (.ok data), context.charged (vmGas code context))) ∧
    (∀ e, (VM.run (VM.new code context.remainingGas)).1 = .err e →
      runCode code context = (.ok (.error e), context.charged (vmGas code context))) ∧
    ((VM.run (VM.new code context.remainingGas)).1 = .panic →
      runCode code context = (.panic, context)) := by
  have hpay := (useGas_vmGas hle code (ε := PacyteError)).1
  rcases hrun : VM.run (VM.new code context.remainingGas) with ⟨data | e | _, vm⟩
  · have hgas : vmGas code context = vm.gasUsed := by rw [vmGas, hrun]
    have hcall : runCode code context = (do
        let _ ← ExecutionContext.useGas vm.gasUsed
        return .ok data : Exec PacyteError ExecutionContext _) context := by
      unfold runCode
      rw [run_bind, run_get]
      dsimp only
      rw [hrun]
    rw [hgas] at hpay ⊢
    rw [hcall, run_bind_of_ok hpay]
    exact ⟨fun data' h => by cases h; rfl, nofun, nofun⟩
  · have hgas : vmGas code context = vm.gasUsed := by rw [vmGas, hrun]
    have hcall : runCode code context = (do
        let _ ← ExecutionContext.useGas vm.gasUsed
        return .error e : Exec PacyteError ExecutionContext _) context := by
      unfold runCode
      rw [run_bind, run_get]
      dsimp only
      rw [hrun]
    rw [hgas] at hpay ⊢
    rw [hcall, run_bind_of_ok hpay]
    exact ⟨nofun, fun e' h => by cases h; rfl, nofun⟩
  · have hcall : runCode code context = (.panic, context) := by
      unfold runCode
      rw [run_bind, run_get]
      dsimp only
      rw [hrun]
      rfl
    exact ⟨nofun, nofun, fun _ => hcall⟩

omit [Storage σ] [CodeStorage κ] in
theorem runCode_post {context : ExecutionContext} (hle : context.gasUsed ≤ context.gasLimit)
    (code : Bytes) :
    Post (runCode code) context fun o context' =>
      match o with
      | .ok _ => context' = context.charged (vmGas code context)
      | .err _ => False
      | .panic => context' = context := by
  obtain ⟨hok, herr, hpanic⟩ := runCode_run hle code
  rcases h : (VM.run (VM.new code context.remainingGas)).1 with data | e | _
  · rw [Post, hok data h]
  · rw [Post, herr e h]
  · rw [Post, hpanic h]

/-- The context is the same. -/
def SameContext (s s' : Execution σ κ) : Prop := s'.context = s.context

omit [Storage σ] [CodeStorage κ] [Keccak256] in
theorem sameContext_onExecutor {α : Type}
    (m : Exec PacyteError (TransactionExecutor σ κ) α) :
    Within SameContext (onExecutor m) := fun _ => rfl

instance : Std.Refl (SameContext (σ := σ) (κ := κ)) := ⟨fun _ => rfl⟩

instance : IsTrans (Execution σ κ) SameContext := ⟨fun _ _ _ h h' => Eq.trans h' h⟩

/-- What the gas of a call or of a creation with the code is: after the intrinsic gas was paid the
context is `paid`, and after the code was run it is `spent`. -/
structure Metered (paid : ExecutionContext) (code : Bytes) (o : Outcome PacyteError ExecutionResult)
    (context : ExecutionContext) : Prop where
  stage : context = paid ∨ context = paid.charged (vmGas code paid)
  reported : ∀ result, o = .ok result → context = paid.charged (vmGas code paid) ∧
    result.gasUsed = (paid.charged (vmGas code paid)).gasUsed

omit [Storage σ] [CodeStorage κ] in
/-- After the code was run, what the executor does leaves the context alone. -/
theorem metered_bind {α : Type} {s : Execution σ κ} {paid : ExecutionContext} {code : Bytes}
    {m : Exec PacyteError (Execution σ κ) α}
    {k : α → Exec PacyteError (Execution σ κ) ExecutionResult} (hm : Within SameContext m)
    (hs : s.context = paid.charged (vmGas code paid))
    (hk : ∀ a s', s'.context = paid.charged (vmGas code paid) →
      Post (k a) s' fun o s'' => Metered paid code o s''.context) :
    Post (m >>= k) s fun o s' => Metered paid code o s'.context := by
  refine (hm.post s).seq ?_ ?_ ?_
  · exact fun a s' hsame => hk a s' (Eq.trans hsame hs)
  · exact fun _ s' hsame => ⟨Or.inr (Eq.trans hsame hs), fun _ h => nomatch h⟩
  · exact fun s' hsame => ⟨Or.inr (Eq.trans hsame hs), fun _ h => nomatch h⟩

omit [Storage σ] [CodeStorage κ] in
/-- The result of a success. -/
theorem metered_succeed {s : Execution σ κ} {paid : ExecutionContext} {code : Bytes}
    (returnData : Bytes) (hs : s.context = paid.charged (vmGas code paid)) :
    Post (succeed returnData) s fun o s' => Metered paid code o s'.context := by
  refine ⟨Or.inr hs, fun result hresult => ⟨hs, ?_⟩⟩
  cases hresult
  exact congrArg ExecutionContext.gasUsed hs

omit [Storage σ] [CodeStorage κ] in
/-- The code is run, and then the executor writes what the outcome asks for. -/
theorem metered_runCode {s : Execution σ κ} (hle : s.context.gasUsed ≤ s.context.gasLimit)
    {code : Bytes} {k : Except ExecutionError Bytes → Exec PacyteError (Execution σ κ)
      ExecutionResult}
    (hk : ∀ r s', s'.context = s.context.charged (vmGas code s.context) →
      Post (k r) s' fun o s'' => Metered s.context code o s''.context) :
    Post (onContext (runCode code) >>= k) s fun o s' => Metered s.context code o s'.context := by
  rw [post_bind, onContext, post_onPart]
  refine (runCode_post hle code).mono ?_
  rintro (r | e | _) context' h
  · exact hk r _ h
  · exact h.elim
  · exact ⟨Or.inl h, fun _ h => nomatch h⟩

omit [Storage σ] [CodeStorage κ] in
/-- A machine that has failed. -/
theorem metered_fail {s : Execution σ κ} {paid : ExecutionContext} {code : Bytes}
    (e : ExecutionError) (hs : s.context = paid.charged (vmGas code paid)) :
    Post (fail e) s fun o s' => Metered paid code o s'.context := by
  refine ⟨Or.inr hs, fun result hresult => ⟨hs, ?_⟩⟩
  cases hresult
  exact congrArg ExecutionContext.gasUsed hs

section Kinds

variable (F : Type) [FloatOps F]

omit [CodeStorage κ] [Keccak256] in
theorem sameContext_transferValue (tx : Transaction) :
    Within SameContext (transferValue F tx : Exec PacyteError (Execution σ κ) Unit) :=
  Within.ite (Within.bind (sameContext_onExecutor _) fun _ => Within.pure _) (Within.pure _)

/-- The gas of a call or creation that has ended in `r`: the intrinsic gas is refused or paid; if it
is paid, the second payment, for what the machine has metered with the rest, succeeds. -/
structure GasExact (intrinsic : ℕ) (code : Bytes) (s : Execution σ κ)
    (r : Outcome PacyteError ExecutionResult × Execution σ κ) : Prop where
  refused : s.context.gasLimit.toNat < s.context.gasUsed.toNat + intrinsic →
    r = (.ok (.outOfGas s.context), s)
  paid : s.context.gasUsed.toNat + intrinsic ≤ s.context.gasLimit.toNat → ∃ gas : UInt64,
    gas.toNat = intrinsic ∧
      (ExecutionContext.useGas (vmGas code (s.context.charged gas)) :
        Exec PacyteError ExecutionContext Bool) (s.context.charged gas) =
        (.ok true, (s.context.charged gas).charged (vmGas code (s.context.charged gas))) ∧
      ∀ result, r.1 = .ok result →
        result.gasUsed.toNat = s.context.gasUsed.toNat + intrinsic +
          (vmGas code (s.context.charged gas)).toNat ∧
        r.2.context.gasUsed = result.gasUsed
  within : r.2.context.gasLimit = s.context.gasLimit ∧
    r.2.context.gasUsed ≤ r.2.context.gasLimit

omit [Storage σ] [CodeStorage κ] in
/-- A program that pays the intrinsic gas and then runs code. -/
theorem gasExact_of_metered {tx : Transaction} {isContractCreation : Bool} {code : Bytes}
    {body : Exec PacyteError (Execution σ κ) ExecutionResult} {s : Execution σ κ}
    (hle : s.context.gasUsed ≤ s.context.gasLimit)
    (hsum : s.context.gasUsed.toNat + s.executor.gasCalculator.intrinsic tx isContractCreation <
      2 ^ 64)
    (hbody : ∀ s₁ : Execution σ κ, s₁.context.gasUsed ≤ s₁.context.gasLimit →
      Post body s₁ fun o s' => Metered s₁.context code o s'.context) :
    GasExact (s.executor.gasCalculator.intrinsic tx isContractCreation) code s
      (payIntrinsic tx isContractCreation body s) := by
  obtain ⟨hpays, hrefused, -⟩ := payIntrinsic_run tx isContractCreation body s
  by_cases hfits : s.context.gasUsed.toNat +
      s.executor.gasCalculator.intrinsic tx isContractCreation ≤ s.context.gasLimit.toNat
  · obtain ⟨gas, hgas, hrun⟩ := hpays hfits
    have hused : (s.charged gas).context.gasUsed.toNat = s.context.gasUsed.toNat + gas.toNat :=
      toNat_add_of_fits (by rw [hgas]; exact hsum)
    have hle₁ : (s.charged gas).context.gasUsed ≤ (s.charged gas).context.gasLimit := by
      rw [UInt64.le_iff_toNat_le, hused, hgas]
      exact hfits
    have hmetered := hbody (s.charged gas) hle₁
    obtain ⟨hsecond, htotal, hwithin⟩ := useGas_vmGas hle₁ code (ε := PacyteError)
    rw [Post, ← hrun] at hmetered
    refine ⟨fun hbeyond => absurd hfits (Nat.not_le_of_lt hbeyond), fun _ => ?_, ?_⟩
    · refine ⟨gas, hgas, hsecond, fun result hresult => ?_⟩
      obtain ⟨hcontext, hreported⟩ := hmetered.reported result hresult
      rw [hcontext, hreported, htotal, hused, hgas]
      exact ⟨rfl, rfl⟩
    · rcases hmetered.stage with hstage | hstage
      · rw [hstage]
        exact ⟨rfl, hle₁⟩
      · rw [hstage]
        exact ⟨rfl, hwithin⟩
  · have hout := hrefused (Nat.lt_of_not_le hfits) hsum
    refine ⟨fun _ => hout, fun h => absurd h hfits, ?_⟩
    rw [hout]
    exact ⟨rfl, hle⟩

/-- The gas of a contract call. -/
theorem gasExact_call {tx : Transaction} {s : Execution σ κ} {code : Bytes}
    (hle : s.context.gasUsed ≤ s.context.gasLimit)
    (hsum : s.context.gasUsed.toNat + s.executor.gasCalculator.intrinsic tx false < 2 ^ 64)
    (hcode : CodeStorage.getCode tx.to s.executor.codeStorage = some code) :
    GasExact (s.executor.gasCalculator.intrinsic tx false) code s
      (executeContractCall F tx s) := by
  unfold executeContractCall
  rw [run_bind, run_get]
  dsimp only
  rw [hcode]
  refine gasExact_of_metered hle hsum fun s₁ hle₁ => ?_
  -- the value is transferred before the code is run
  refine ((sameContext_transferValue F tx).post s₁).seq ?_ ?_ ?_
  · intro _ s₂ hsame
    have hcontext : s₂.context = s₁.context := hsame
    rw [← hcontext] at hle₁ ⊢
    refine metered_runCode hle₁ fun r s₃ hs₃ => ?_
    cases r with
    | ok returnData =>
        exact metered_bind (sameContext_onExecutor _) hs₃ fun _ s₄ hs₄ => metered_succeed _ hs₄
    | error e => exact metered_fail e hs₃
  · exact fun _ s₂ hsame => ⟨Or.inl hsame, fun _ h => nomatch h⟩
  · exact fun s₂ hsame => ⟨Or.inl hsame, fun _ h => nomatch h⟩

/-- The gas of a contract creation. -/
theorem gasExact_creation {tx : Transaction} {s : Execution σ κ}
    (hle : s.context.gasUsed ≤ s.context.gasLimit)
    (hsum : s.context.gasUsed.toNat + s.executor.gasCalculator.intrinsic tx true < 2 ^ 64) :
    GasExact (s.executor.gasCalculator.intrinsic tx true) tx.signature s
      (executeContractCreation tx s) := by
  unfold executeContractCreation
  refine gasExact_of_metered hle hsum fun s₁ hle₁ => ?_
  refine metered_runCode hle₁ fun r s₂ hs₂ => ?_
  cases r with
  | ok runtimeCode =>
      refine metered_bind (sameContext_onExecutor _) hs₂ fun _ s₃ hs₃ => ?_
      refine metered_bind (sameContext_onExecutor _) hs₃ fun fromAccount s₄ hs₄ => ?_
      refine metered_bind (sameContext_onExecutor _) hs₄ fun _ s₅ hs₅ => ?_
      refine metered_bind Within.get hs₅ fun _ s₆ hs₆ => ?_
      exact metered_bind (sameContext_onExecutor _) hs₆ fun _ s₇ hs₇ => metered_succeed _ hs₇
  | error e => exact metered_fail e hs₂

/-- **The gas of calls and creations is exact.** -/
theorem gas_accounting (tx : Transaction) (s : Execution σ κ)
    (hle : s.context.gasUsed ≤ s.context.gasLimit) (hlimit : s.context.gasLimit.toNat ≤ 2 ^ 62) :
    (∀ code, CodeStorage.getCode tx.to s.executor.codeStorage = some code →
      s.executor.gasCalculator.intrinsic tx false < 2 ^ 62 →
      GasExact (s.executor.gasCalculator.intrinsic tx false) code s
        (executeContractCall F tx s)) ∧
    (s.executor.gasCalculator.intrinsic tx true < 2 ^ 62 →
      GasExact (s.executor.gasCalculator.intrinsic tx true) tx.signature s
        (executeContractCreation tx s)) := by
  rw [UInt64.le_iff_toNat_le] at hle
  refine ⟨fun code hcode hsmall => ?_, fun hsmall => ?_⟩
  · exact gasExact_call F (UInt64.le_iff_toNat_le.mpr hle) (by omega) hcode
  · exact gasExact_creation (UInt64.le_iff_toNat_le.mpr hle) (by omega)

end Kinds

end Execution

/-! ## A call and a creation -/

namespace ExecutorSample

/-- A storage of contract code. -/
scoped instance codes : CodeStorage (Map Address Bytes) where
  getCode address codes := codes.lookup address
  setCode address code codes := codes.insert address code
  codeExists address codes := (codes.lookup address).isSome

end ExecutorSample

section Example

open scoped Sample VmSample ExecutorSample

open Execution

/-- A transaction of the first account without data. -/
def sampleTx (payee : UInt8) (amount fee : U128) (nonce : UInt64) : Transaction where
  «from» := sampleAddress 1
  «to» := sampleAddress payee
  amount := amount
  fee := fee
  nonce := nonce
  signature := []
  timestamp := 0

/-- An executor with one account and with the code `PC` at the third address. -/
def sampleExecutor : TransactionExecutor MemoryStorage (Map Address Bytes) :=
  .new (VaultManager.new (sampleState [(sampleAddress 1, 1000000)]))
    ((∅ : Map Address Bytes).insert (sampleAddress 3) [0x58])

/-- The executor with a gas limit. -/
def sampleExecution (gasLimit : UInt64) : Execution MemoryStorage (Map Address Bytes) :=
  ⟨sampleExecutor, ⟨0, gasLimit, 0⟩⟩

/-- A call of `PC` costs two units beside its intrinsic gas. -/
theorem gas_accounting_sample :
    GasExact 21000 [0x58] (sampleExecution 30000)
        (executeContractCall ℚ (sampleTx 3 0 0 0) (sampleExecution 30000)) ∧
      GasExact 53000 [] (sampleExecution 30000)
        (executeContractCreation (sampleTx 3 0 0 0) (sampleExecution 30000)) ∧
      (executeContractCall ℚ (sampleTx 3 0 0 0) (sampleExecution 30000)).1 =
        .ok (.ofSuccess 21002 []) := by
  have hgas := gas_accounting ℚ (sampleTx 3 0 0 0) (sampleExecution 30000) (by decide) (by decide)
  exact ⟨hgas.1 [0x58] (by decide) (by decide), hgas.2 (by decide), by decide⟩

end Example
