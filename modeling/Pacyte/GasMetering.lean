/-
# Gas meters that wrap

`use_gas` of `GasMeter` and of `ExecutionContext` in a build whose 64-bit sums wrap.  Both are the
same function of a limit and of what was used (`Meter.useGas`).

A sum that wraps is always below the limit, so such an amount is accepted
(`Meter.accepted_of_wraps`), and what was accepted before is forgotten.  The accepted amounts add
up to the gas used, within the limit, exactly as long as no offered amount wraps
(`gas_metering_iff`).
-/
import Pacyte.Executor
import Pacyte.Runs

/-! ## A limit and what was used of it -/

/-- Where a state keeps its limit and what was used. -/
structure Meter (σ : Type) where
  limit : σ → UInt64
  used : σ → UInt64
  setUsed : UInt64 → σ → σ
  limit_setUsed : ∀ used s, limit (setUsed used s) = limit s
  used_setUsed : ∀ n s, used (setUsed n s) = n

namespace Meter

variable {σ : Type} (meter : Meter σ)

/-- `use_gas` with wrapping sums: whether the amount is accepted, and the state after it. -/
def useGas (amount : UInt64) (s : σ) : Bool × σ :=
  if meter.limit s < meter.used s + amount then (false, s)
  else (true, meter.setUsed (meter.used s + amount) s)

/-- The state after an amount was offered. -/
def offer (amount : UInt64) (s : σ) : σ := (meter.useGas amount s).2

/-- The sum of the amounts that are accepted, as a natural number. -/
def acceptedSum : σ → List UInt64 → ℕ
  | _, [] => 0
  | s, amount :: rest =>
    (if (meter.useGas amount s).1 then amount.toNat else 0) + acceptedSum (meter.offer amount s) rest

/-- The sum does not wrap. -/
def NoWrap (s : σ) (amount : UInt64) : Prop := (meter.used s).toNat + amount.toNat < 2 ^ 64

instance (s : σ) (amount : UInt64) : Decidable (meter.NoWrap s amount) :=
  inferInstanceAs (Decidable (_ < _))

/-- What the meter is for: from nothing used, the accepted amounts are what is used, within the
limit, and a refused amount changes nothing. -/
structure Sound (s : σ) (amounts : List UInt64) : Prop where
  sum : meter.acceptedSum s amounts = (meter.used (Runs.run meter.offer s amounts)).toNat
  limit : meter.acceptedSum s amounts ≤ (meter.limit s).toNat
  refused : Runs.Along meter.offer
    (fun s amount => (meter.useGas amount s).1 = false → meter.offer amount s = s) s amounts

variable {meter}

theorem limit_offer (amount : UInt64) (s : σ) :
    meter.limit (meter.offer amount s) = meter.limit s := by
  unfold offer useGas
  split_ifs
  · rfl
  · exact meter.limit_setUsed _ _

/-- A refused amount changes nothing. -/
theorem offer_of_refused {amount : UInt64} {s : σ} (h : (meter.useGas amount s).1 = false) :
    meter.offer amount s = s := by
  unfold offer useGas at *
  split_ifs at h ⊢
  rfl

/-- An amount whose sum does not wrap is accepted if it fits. -/
theorem useGas_of_noWrap {amount : UInt64} {s : σ} (h : meter.NoWrap s amount) :
    ((meter.useGas amount s).1 = true ↔
      (meter.used s).toNat + amount.toNat ≤ (meter.limit s).toNat) ∧
    ((meter.useGas amount s).1 = true →
      (meter.used (meter.offer amount s)).toNat = (meter.used s).toNat + amount.toNat) := by
  have hsum : (meter.used s + amount).toNat = (meter.used s).toNat + amount.toNat :=
    Exec.toNat_add_of_fits h
  unfold offer useGas
  by_cases hlt : meter.limit s < meter.used s + amount
  · rw [if_pos hlt]
    rw [UInt64.lt_iff_toNat_lt, hsum] at hlt
    exact ⟨iff_of_false Bool.false_ne_true (Nat.not_le_of_lt hlt), fun h => nomatch h⟩
  · rw [if_neg hlt]
    rw [UInt64.lt_iff_toNat_lt, hsum] at hlt
    refine ⟨iff_of_true rfl (Nat.le_of_not_lt hlt), fun _ => ?_⟩
    dsimp only
    rw [meter.used_setUsed, hsum]

/-- **A sum that wraps is accepted**, if what was used is within the limit. -/
theorem accepted_of_wraps {amount : UInt64} {s : σ} (hle : meter.used s ≤ meter.limit s)
    (h : ¬ meter.NoWrap s amount) : (meter.useGas amount s).1 = true := by
  have hwrap : (meter.used s + amount).toNat = (meter.used s).toNat + amount.toNat - 2 ^ 64 := by
    have hused := (meter.used s).toNat_lt
    have hamount := amount.toNat_lt
    unfold NoWrap at h
    rw [UInt64.toNat_add]
    omega
  have hnot : ¬ meter.limit s < meter.used s + amount := by
    have hamount := amount.toNat_lt
    rw [UInt64.le_iff_toNat_le] at hle
    rw [UInt64.lt_iff_toNat_lt, hwrap]
    omega
  unfold useGas
  rw [if_neg hnot]

/-- Amounts that do not wrap keep what is used within the limit, and add up. -/
theorem acceptedSum_of_noWrap {s : σ} {amounts : List UInt64} (hle : meter.used s ≤ meter.limit s)
    (h : Runs.Along meter.offer meter.NoWrap s amounts) :
    (meter.used s).toNat + meter.acceptedSum s amounts =
        (meter.used (Runs.run meter.offer s amounts)).toNat ∧
      meter.used (Runs.run meter.offer s amounts) ≤ meter.limit s := by
  induction amounts generalizing s with
  | nil => exact ⟨rfl, hle⟩
  | cons amount amounts ih =>
      obtain ⟨hfirst, hrest⟩ := h
      obtain ⟨haccept, hsum⟩ := useGas_of_noWrap hfirst
      rw [acceptedSum, Runs.run_cons]
      cases haccepted : (meter.useGas amount s).1 with
      | false =>
          rw [offer_of_refused haccepted] at hrest ⊢
          rw [if_neg Bool.false_ne_true, Nat.zero_add]
          exact ih hle hrest
      | true =>
          have hused := hsum haccepted
          have hle' : meter.used (meter.offer amount s) ≤ meter.limit (meter.offer amount s) := by
            rw [UInt64.le_iff_toNat_le, hused, limit_offer]
            exact haccept.mp haccepted
          have hih := ih hle' hrest
          rw [limit_offer] at hih
          rw [if_pos rfl]
          refine ⟨?_, hih.2⟩
          have hadd := hih.1
          omega

/-- After a sum that wraps, the accepted amounts exceed every limit. -/
theorem acceptedSum_of_wraps {s : σ} {amounts : List UInt64} (hle : meter.used s ≤ meter.limit s)
    (h : ¬ Runs.Along meter.offer meter.NoWrap s amounts) :
    2 ^ 64 ≤ (meter.used s).toNat + meter.acceptedSum s amounts := by
  induction amounts generalizing s with
  | nil => exact absurd trivial h
  | cons amount amounts ih =>
      rw [acceptedSum]
      by_cases hfirst : meter.NoWrap s amount
      · obtain ⟨haccept, hsum⟩ := useGas_of_noWrap hfirst
        have hrest : ¬ Runs.Along meter.offer meter.NoWrap (meter.offer amount s) amounts :=
          fun hrest => h ⟨hfirst, hrest⟩
        cases haccepted : (meter.useGas amount s).1 with
        | false =>
            rw [offer_of_refused haccepted] at hrest ⊢
            rw [if_neg Bool.false_ne_true, Nat.zero_add]
            exact ih hle hrest
        | true =>
            have hused := hsum haccepted
            have hle' : meter.used (meter.offer amount s) ≤ meter.limit (meter.offer amount s) := by
              rw [UInt64.le_iff_toNat_le, hused, limit_offer]
              exact haccept.mp haccepted
            have hih := ih hle' hrest
            rw [if_pos rfl]
            omega
      · rw [if_pos (accepted_of_wraps hle hfirst)]
        unfold NoWrap at hfirst
        omega

/-- **When a meter is sound**: as long as no sum wraps. -/
theorem sound_iff {s : σ} (hzero : meter.used s = 0) (amounts : List UInt64) :
    meter.Sound s amounts ↔ Runs.Along meter.offer meter.NoWrap s amounts := by
  have hle : meter.used s ≤ meter.limit s := by
    rw [hzero]
    exact UInt64.zero_le
  have hnone : (meter.used s).toNat = 0 := congrArg UInt64.toNat hzero
  constructor
  · intro hsound
    by_contra hwraps
    have hbeyond := acceptedSum_of_wraps hle hwraps
    have hlimit := hsound.limit
    have hlt := (meter.limit s).toNat_lt
    omega
  · intro hfits
    obtain ⟨hsum, hbound⟩ := acceptedSum_of_noWrap hle hfits
    rw [hnone, Nat.zero_add] at hsum
    refine ⟨hsum, ?_, Runs.along_of_forall fun _ _ _ _ h => offer_of_refused h⟩
    rw [hsum]
    exact UInt64.le_iff_toNat_le.mp hbound

end Meter

/-! ## The two meters of the code -/

/-- `GasMeter`, with `GasMeter::use_gas` as `Meter.useGas`. -/
def GasMeter.meter : Meter GasMeter where
  limit := (·.gasLimit)
  used := (·.gasUsed)
  setUsed used meter := { meter with gasUsed := used }
  limit_setUsed _ _ := rfl
  used_setUsed _ _ := rfl

/-- `ExecutionContext`, with `ExecutionContext::use_gas` as `Meter.useGas`. -/
def ExecutionContext.meter : Meter ExecutionContext where
  limit := (·.gasLimit)
  used := (·.gasUsed)
  setUsed used context := { context with gasUsed := used }
  limit_setUsed _ _ := rfl
  used_setUsed _ _ := rfl

/-- `GasMeter::new`. -/
def GasMeter.new (gasLimit : UInt64) : GasMeter := ⟨gasLimit, 0⟩

/-- `ExecutionContext::new`. -/
def ExecutionContext.new (blockTimestamp : Timestamp) (gasLimit : UInt64) : ExecutionContext :=
  ⟨blockTimestamp, gasLimit, 0⟩

/-- **When gas metering is sound**: exactly as long as every amount that is offered has a sum with
the gas used below `2 ^ 64`. -/
theorem gas_metering_iff (gasLimit : UInt64) (now : Timestamp) (amounts : List UInt64) :
    (GasMeter.meter.Sound (.new gasLimit) amounts ↔
      Runs.Along GasMeter.meter.offer GasMeter.meter.NoWrap (.new gasLimit) amounts) ∧
    (ExecutionContext.meter.Sound (.new now gasLimit) amounts ↔
      Runs.Along ExecutionContext.meter.offer ExecutionContext.meter.NoWrap (.new now gasLimit)
        amounts) :=
  ⟨Meter.sound_iff rfl amounts, Meter.sound_iff rfl amounts⟩

/-- Gas is used, and with an amount next to `2 ^ 64` it is given back. -/
theorem gas_metering_wraps :
    Runs.run GasMeter.meter.offer (.new 10) [1, 0xffffffffffffffff] = .new 10 ∧
      GasMeter.meter.acceptedSum (.new 10) [1, 0xffffffffffffffff] = 2 ^ 64 ∧
      ¬ GasMeter.meter.Sound (.new 10) [1, 0xffffffffffffffff] ∧
      ¬ ExecutionContext.meter.Sound (.new 0 10) [1, 0xffffffffffffffff] := by
  have hmeter : GasMeter.meter.acceptedSum (.new 10) [1, 0xffffffffffffffff] = 2 ^ 64 := by decide
  have hcontext : ExecutionContext.meter.acceptedSum (.new 0 10) [1, 0xffffffffffffffff] =
      2 ^ 64 := by decide
  refine ⟨by decide, hmeter, fun hsound => ?_, fun hsound => ?_⟩
  · have hlimit := hsound.limit
    rw [hmeter] at hlimit
    revert hlimit
    decide
  · have hlimit := hsound.limit
    rw [hcontext] at hlimit
    revert hlimit
    decide
