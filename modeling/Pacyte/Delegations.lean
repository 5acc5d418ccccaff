/-
# Delegated stake

The delegations of a `ValidatorRecord` of `src/consensus/validator.rs`: a validator's own stake and
what others delegated to it are one number, from which withdrawals and slashes are taken.

From sound accounts a call leads to sound accounts exactly where it is `Careful`
(`staysSound_iff`): a slash must leave the delegations covered, because it takes nothing from their
entries, and a withdrawal must leave an active validator its minimum, because only a slash reviews
the status.
-/
import Pacyte.MapEntries
import Pacyte.Runs
import Pacyte.ValidatorRuns

open Exec

/-- A `ValidatorRecord` with its `delegators`. -/
structure DelegatedValidator where
  record : ValidatorRecord
  delegators : Map Address U128

namespace DelegatedValidator

/-! ## The calls -/

/-- `ValidatorRecord::new`. -/
def new (id : UInt64) (address : Address) (publicKey : Bytes) (stake : U128)
    (hardware : Hardware) : DelegatedValidator :=
  ⟨ValidatorRecord.new id address publicKey stake hardware, ∅⟩

/-- The stake is replaced, and the voting power follows (`update_voting_power`). -/
def withStake (v : DelegatedValidator) (stake : U128) : DelegatedValidator :=
  { v with record := { v.record with
      stake := stake
      votingPower := ValidatorRecord.calculateVotingPower stake } }

/-- The entry of a delegator. -/
def delegated (v : DelegatedValidator) (delegator : Address) : U128 :=
  (v.delegators.lookup delegator).getD 0

/-- `add_delegation`. -/
def addDelegation (delegator : Address) (amount : U128) : Exec PacyteError DelegatedValidator Unit :=
  Exec.modify fun v =>
    { v.withStake (U128.saturatingAdd v.record.stake amount) with
      delegators := v.delegators.insert delegator (U128.saturatingAdd (v.delegated delegator) amount) }

/-- `remove_delegation`. -/
def removeDelegation (delegator : Address) (amount : U128) :
    Exec PacyteError DelegatedValidator U128 := do
  let v ← Exec.get
  match v.delegators.lookup delegator with
  | none => Exec.throw (.accountNotFound (debugBytes delegator.toList))
  | some entry =>
    if entry < amount then
      Exec.throw (.insufficientBalance amount entry)
    else
      Exec.modify fun v =>
        { v.withStake (U128.saturatingSub v.record.stake amount) with
          delegators := v.delegators.insert delegator (entry - amount) }
      return amount

/-- `slash`. -/
def slash (amount : U128) : Exec PacyteError DelegatedValidator Unit :=
  Exec.onPart (·.record) (fun record v => { v with record := record })
    (ValidatorRecord.slash amount)

/-- The calls that move stake. -/
inductive Call : Type where
  | addDelegation (delegator : Address) (amount : U128)
  | removeDelegation (delegator : Address) (amount : U128)
  | slash (amount : U128)

/-- A call, without its result. -/
def Call.run : Call → DelegatedValidator → Outcome PacyteError Unit × DelegatedValidator
  | .addDelegation delegator amount => DelegatedValidator.addDelegation delegator amount
  | .removeDelegation delegator amount => fun v =>
    ((DelegatedValidator.removeDelegation delegator amount v).1.discard,
      (DelegatedValidator.removeDelegation delegator amount v).2)
  | .slash amount => DelegatedValidator.slash amount

end DelegatedValidator

open DelegatedValidator

/-! ## Accounts -/

/-- A validator with its first stake and with what was delegated and withdrawn in all. -/
structure StakeAccounts where
  validator : DelegatedValidator
  initial : ℕ
  delegations : ℕ
  withdrawals : ℕ

namespace StakeAccounts

/-- What a withdrawal pays, by its outcome. -/
def paid (amount : U128) : Outcome PacyteError Unit → ℕ
  | .ok _ => amount.toNat
  | _ => 0

/-- The accounts after a call. -/
def after (call : Call) (s : StakeAccounts) : StakeAccounts :=
  match call with
  | .addDelegation _ amount =>
    ⟨(call.run s.validator).2, s.initial, s.delegations + amount.toNat, s.withdrawals⟩
  | .removeDelegation _ amount =>
    ⟨(call.run s.validator).2, s.initial, s.delegations,
      s.withdrawals + paid amount (call.run s.validator).1⟩
  | .slash _ => ⟨(call.run s.validator).2, s.initial, s.delegations, s.withdrawals⟩

/-- The sum of the entries of the delegators. -/
def entries (s : StakeAccounts) : ℕ := Map.total BitVec.toNat s.validator.delegators

/-- The accounts agree with the record, and the record with itself. -/
structure Sound (s : StakeAccounts) : Prop where
  balance : s.validator.record.stake.toNat + s.validator.record.slashedAmount.toNat +
    s.withdrawals = s.initial + s.delegations
  covered : s.entries ≤ s.validator.record.stake.toNat
  power : s.validator.record.votingPower.toNat = s.validator.record.stake.toNat / 1000000
  active : s.validator.record.status = .active →
    minValidatorStake.toNat ≤ s.validator.record.stake.toNat

/-- The call leaves sound accounts, and it changes nothing if it returns an error. -/
structure StaysSound (s : StakeAccounts) (call : Call) : Prop where
  sound : Sound (s.after call)
  unchanged : ∀ e, (call.run s.validator).1 = .err e → (call.run s.validator).2 = s.validator

/-- No saturating operation of the call saturates. -/
def NoSaturation (s : StakeAccounts) : Call → Prop
  | .addDelegation delegator amount =>
    (s.validator.delegated delegator).toNat + amount.toNat < 2 ^ 128 ∧
      s.validator.record.stake.toNat + amount.toNat < 2 ^ 128
  | .removeDelegation delegator amount => ∀ entry ∈ s.validator.delegators.lookup delegator,
      ¬ entry < amount → amount.toNat ≤ s.validator.record.stake.toNat
  | .slash _ => True

/-- The condition on a call: the power of the larger stake is a 64-bit number, an active validator
keeps its minimum, and a slash leaves the delegations covered. -/
def Careful (s : StakeAccounts) : Call → Prop
  | .addDelegation _ amount => (s.validator.record.stake.toNat + amount.toNat) / 1000000 < 2 ^ 64
  | .removeDelegation delegator amount => ∀ entry ∈ s.validator.delegators.lookup delegator,
      ¬ entry < amount → s.validator.record.status = .active →
        minValidatorStake.toNat + amount.toNat ≤ s.validator.record.stake.toNat
  | .slash amount => ¬ s.validator.record.stake < amount →
      s.validator.record.slashedAmount.toNat + amount.toNat < 2 ^ 128 ∧
        s.entries + amount.toNat ≤ s.validator.record.stake.toNat

/-! ## One call -/

theorem toNat_calculateVotingPower {stake : U128} :
    (ValidatorRecord.calculateVotingPower stake).toNat = stake.toNat / 1000000 ↔
      stake.toNat / 1000000 < 2 ^ 64 := by
  unfold ValidatorRecord.calculateVotingPower
  rw [UInt64.toNat_ofNat']
  constructor
  · intro h
    rw [← h]
    exact Nat.mod_lt _ (by decide)
  · exact Nat.mod_eq_of_lt

variable {s : StakeAccounts}

/-- The power that fits stays in the bound when the stake shrinks. -/
theorem Sound.power_lt (h : Sound s) {stake : ℕ} (hle : stake ≤ s.validator.record.stake.toNat) :
    stake / 1000000 < 2 ^ 64 := by
  have hlt := UInt64.toNat_lt s.validator.record.votingPower
  rw [h.power] at hlt
  exact (Nat.div_le_div_right hle).trans_lt hlt

/-- The total after the entry of a delegator was replaced. -/
theorem total_insert_delegated (m : Map Address U128) (delegator : Address) (v : U128) :
    Map.total BitVec.toNat (m.insert delegator v) + ((m.lookup delegator).getD 0).toNat =
      Map.total BitVec.toNat m + v.toNat := by
  cases hlookup : m.lookup delegator with
  | none =>
      rw [Map.total_insert_new BitVec.toNat m v hlookup, Option.getD_none]
      have hzero : (0 : U128).toNat = 0 := rfl
      omega
  | some w => exact Map.total_insert_old BitVec.toNat m v hlookup

/-- Delegations keep sound accounts if the power is a 64-bit number. -/
theorem addDelegation_staysSound (h : Sound s) {delegator : Address} {amount : U128}
    (hsat : NoSaturation s (.addDelegation delegator amount)) :
    StaysSound s (.addDelegation delegator amount) ↔
      Careful s (.addDelegation delegator amount) := by
  obtain ⟨hentry, hstake⟩ := hsat
  have hnewStake : (U128.saturatingAdd s.validator.record.stake amount).toNat =
      s.validator.record.stake.toNat + amount.toNat := by
    rw [U128.toNat_saturatingAdd]
    omega
  have hnewEntry : (U128.saturatingAdd (s.validator.delegated delegator) amount).toNat =
      (s.validator.delegated delegator).toNat + amount.toNat := by
    rw [U128.toNat_saturatingAdd]
    omega
  have htotal := total_insert_delegated s.validator.delegators delegator
    (U128.saturatingAdd (s.validator.delegated delegator) amount)
  rw [hnewEntry] at htotal
  have hbalance := h.balance
  have hcovered := h.covered
  have hpower : (ValidatorRecord.calculateVotingPower
      (U128.saturatingAdd s.validator.record.stake amount)).toNat =
        (U128.saturatingAdd s.validator.record.stake amount).toNat / 1000000 ↔
      (U128.saturatingAdd s.validator.record.stake amount).toNat / 1000000 < 2 ^ 64 :=
    toNat_calculateVotingPower
  rw [hnewStake] at hpower
  constructor
  · intro hstays
    have hpower' : (ValidatorRecord.calculateVotingPower
        (U128.saturatingAdd s.validator.record.stake amount)).toNat =
        (U128.saturatingAdd s.validator.record.stake amount).toNat / 1000000 := hstays.sound.power
    rw [hnewStake] at hpower'
    exact hpower.mp hpower'
  · intro hcareful
    refine ⟨⟨?_, ?_, ?_, fun hactive => ?_⟩, fun e he => nomatch he⟩
    · show (U128.saturatingAdd s.validator.record.stake amount).toNat +
        s.validator.record.slashedAmount.toNat + s.withdrawals =
          s.initial + (s.delegations + amount.toNat)
      omega
    · show Map.total BitVec.toNat (s.validator.delegators.insert delegator
        (U128.saturatingAdd (s.validator.delegated delegator) amount)) ≤
        (U128.saturatingAdd s.validator.record.stake amount).toNat
      unfold entries at hcovered
      unfold DelegatedValidator.delegated at htotal hnewEntry ⊢
      omega
    · show (ValidatorRecord.calculateVotingPower
        (U128.saturatingAdd s.validator.record.stake amount)).toNat =
        (U128.saturatingAdd s.validator.record.stake amount).toNat / 1000000
      rw [hnewStake]
      exact hpower.mpr hcareful
    · have hmin := h.active hactive
      show minValidatorStake.toNat ≤ (U128.saturatingAdd s.validator.record.stake amount).toNat
      omega

/-- The ways in which a withdrawal can end. -/
theorem run_removeDelegation (delegator : Address) (amount : U128) (v : DelegatedValidator) :
    (Call.removeDelegation delegator amount).run v = match v.delegators.lookup delegator with
      | none => (.err (.accountNotFound (debugBytes delegator.toList)), v)
      | some entry =>
        if entry < amount then (.err (.insufficientBalance amount entry), v)
        else (.ok (),
          { v.withStake (U128.saturatingSub v.record.stake amount) with
            delegators := v.delegators.insert delegator (entry - amount) }) := by
  unfold Call.run
  dsimp only
  unfold DelegatedValidator.removeDelegation
  rw [run_bind, run_get]
  dsimp only
  cases v.delegators.lookup delegator with
  | none => rfl
  | some entry =>
      dsimp only
      split_ifs <;> rfl

theorem after_removeDelegation (delegator : Address) (amount : U128) (s : StakeAccounts) :
    s.after (.removeDelegation delegator amount) =
      ⟨((Call.removeDelegation delegator amount).run s.validator).2, s.initial, s.delegations,
        s.withdrawals + paid amount ((Call.removeDelegation delegator amount).run s.validator).1⟩ :=
  rfl

/-- A call that changes nothing keeps sound accounts. -/
theorem staysSound_of_err (h : Sound s) {delegator : Address} {amount : U128} {e : PacyteError}
    (hrun : (Call.removeDelegation delegator amount).run s.validator = (.err e, s.validator)) :
    StaysSound s (.removeDelegation delegator amount) := by
  refine ⟨?_, fun _ _ => by rw [hrun]⟩
  have hafter : s.after (.removeDelegation delegator amount) = s := by
    rw [after_removeDelegation, hrun]
    rfl
  rw [hafter]
  exact h

/-- Withdrawals keep sound accounts if an active validator keeps its minimum. -/
theorem removeDelegation_staysSound (h : Sound s) {delegator : Address} {amount : U128}
    (hsat : NoSaturation s (.removeDelegation delegator amount)) :
    StaysSound s (.removeDelegation delegator amount) ↔
      Careful s (.removeDelegation delegator amount) := by
  have hrun := run_removeDelegation delegator amount s.validator
  cases hlookup : s.validator.delegators.lookup delegator with
  | none =>
      rw [hlookup] at hrun
      refine iff_of_true (staysSound_of_err h hrun) fun entry hentry => ?_
      rw [hlookup] at hentry
      cases hentry
  | some entry =>
      rw [hlookup] at hrun
      dsimp only at hrun
      by_cases hless : entry < amount
      · rw [if_pos hless] at hrun
        refine iff_of_true (staysSound_of_err h hrun) fun entry' hentry hnot => ?_
        obtain rfl : entry = entry' := Option.some.inj (hlookup.symm.trans hentry)
        exact absurd hless hnot
      · rw [if_neg hless] at hrun
        have hstake := hsat entry hlookup hless
        have hle : amount.toNat ≤ entry.toNat := Nat.le_of_not_lt hless
        have hnewStake : (U128.saturatingSub s.validator.record.stake amount).toNat =
            s.validator.record.stake.toNat - amount.toNat := U128.toNat_saturatingSub _ _
        have hnewEntry : (entry - amount).toNat = entry.toNat - amount.toNat :=
          BitVec.toNat_sub_of_le (BitVec.le_def.mpr hle)
        have htotal := Map.total_insert_old BitVec.toNat s.validator.delegators
          (entry - amount) hlookup
        have hbalance := h.balance
        have hcovered := h.covered
        have hafter : s.after (.removeDelegation delegator amount) =
            ⟨{ s.validator.withStake (U128.saturatingSub s.validator.record.stake amount) with
                delegators := s.validator.delegators.insert delegator (entry - amount) },
              s.initial, s.delegations, s.withdrawals + amount.toNat⟩ := by
          rw [after_removeDelegation, hrun]
          rfl
        constructor
        · intro hstays entry' hentry _ hactive
          have hsound := hstays.sound
          rw [hafter] at hsound
          have hmin : minValidatorStake.toNat ≤
              (U128.saturatingSub s.validator.record.stake amount).toNat := hsound.active hactive
          omega
        · intro hcareful
          refine ⟨?_, fun e he => ?_⟩
          · rw [hafter]
            refine ⟨?_, ?_, ?_, fun hactive => ?_⟩
            · show (U128.saturatingSub s.validator.record.stake amount).toNat +
                s.validator.record.slashedAmount.toNat + (s.withdrawals + amount.toNat) =
                  s.initial + s.delegations
              omega
            · show Map.total BitVec.toNat (s.validator.delegators.insert delegator
                (entry - amount)) ≤ (U128.saturatingSub s.validator.record.stake amount).toNat
              unfold entries at hcovered
              omega
            · exact (toNat_calculateVotingPower.mpr (h.power_lt (by omega)))
            · have hmin := hcareful entry hlookup hless hactive
              show minValidatorStake.toNat ≤
                (U128.saturatingSub s.validator.record.stake amount).toNat
              omega
          · rw [hrun] at he
            cases he

/-- The ways in which a slash can end. -/
theorem run_slash (amount : U128) (v : DelegatedValidator) :
    (Call.slash amount).run v =
      if v.record.stake < amount then (.err (.insufficientBalance amount v.record.stake), v)
      else if v.record.slashedAmount.toNat + amount.toNat < 2 ^ 128 then
        (.ok (), { v with record := v.record.slashedBy amount })
      else (.panic, { v with record := { v.record with stake := v.record.stake - amount } }) := by
  show (DelegatedValidator.slash amount) v = _
  unfold DelegatedValidator.slash
  rw [run_onPart, ValidatorRecord.slash_run]
  split_ifs <;> rfl

theorem after_slash (amount : U128) (s : StakeAccounts) :
    s.after (.slash amount) = ⟨((Call.slash amount).run s.validator).2, s.initial, s.delegations,
      s.withdrawals⟩ := rfl

/-- A slash keeps sound accounts if it leaves the delegations covered. -/
theorem slash_staysSound (h : Sound s) (amount : U128) :
    StaysSound s (.slash amount) ↔ Careful s (.slash amount) := by
  have hrun := run_slash amount s.validator
  have hbalance := h.balance
  have hcovered := h.covered
  by_cases hless : s.validator.record.stake < amount
  · rw [if_pos hless] at hrun
    refine iff_of_true ⟨?_, fun _ _ => by rw [hrun]⟩ fun hnot => absurd hless hnot
    rw [after_slash, hrun]
    exact h
  · rw [if_neg hless] at hrun
    have hle : amount.toNat ≤ s.validator.record.stake.toNat := Nat.le_of_not_lt hless
    have hleft : (s.validator.record.stake - amount).toNat =
        s.validator.record.stake.toNat - amount.toNat :=
      BitVec.toNat_sub_of_le (BitVec.le_def.mpr hle)
    by_cases hfits : s.validator.record.slashedAmount.toNat + amount.toNat < 2 ^ 128
    · rw [if_pos hfits] at hrun
      have hslashed : (s.validator.record.slashedAmount + amount).toNat =
          s.validator.record.slashedAmount.toNat + amount.toNat := BitVec.toNat_add_of_lt hfits
      constructor
      · intro hstays _
        have hsound := hstays.sound
        rw [after_slash, hrun] at hsound
        have hstill : s.entries ≤ (s.validator.record.stake - amount).toNat := hsound.covered
        exact ⟨hfits, by omega⟩
      · intro hcareful
        obtain ⟨-, hcover⟩ := hcareful hless
        refine ⟨?_, fun e he => ?_⟩
        · rw [after_slash, hrun]
          refine ⟨?_, ?_, ?_, fun hactive => ?_⟩
          · show (s.validator.record.stake - amount).toNat +
              (s.validator.record.slashedAmount + amount).toNat + s.withdrawals =
                s.initial + s.delegations
            omega
          · show s.entries ≤ (s.validator.record.stake - amount).toNat
            omega
          · exact toNat_calculateVotingPower.mpr (h.power_lt (by omega))
          · -- The status is reviewed with the stake that is left.
            change (if s.validator.record.stake - amount < minValidatorStake then
              ValidatorStatus.inactive else s.validator.record.status) = .active at hactive
            split_ifs at hactive with hmin
            exact Nat.le_of_not_lt hmin
        · rw [hrun] at he
          cases he
    · rw [if_neg hfits] at hrun
      refine iff_of_false (fun hstays => ?_) fun hcareful => hfits (hcareful hless).1
      have hsound := hstays.sound
      rw [after_slash, hrun] at hsound
      have hlost : (s.validator.record.stake - amount).toNat +
          s.validator.record.slashedAmount.toNat + s.withdrawals = s.initial + s.delegations :=
        hsound.balance
      have hword := s.validator.record.slashedAmount.isLt
      omega

/-- One call, from sound accounts. -/
theorem staysSound_iff (h : Sound s) (call : Call) (hsat : NoSaturation s call) :
    StaysSound s call ↔ Careful s call := by
  cases call with
  | addDelegation delegator amount => exact addDelegation_staysSound h hsat
  | removeDelegation delegator amount => exact removeDelegation_staysSound h hsat
  | slash amount => exact slash_staysSound h amount

/-! ## Runs -/

/-- The accounts of a new validator. -/
def opened (id : UInt64) (address : Address) (publicKey : Bytes) (stake : U128)
    (hardware : Hardware) : StakeAccounts :=
  ⟨DelegatedValidator.new id address publicKey stake hardware, stake.toNat, 0, 0⟩

theorem sound_opened (id : UInt64) (address : Address) (publicKey : Bytes) {stake : U128}
    (hardware : Hardware) (hmin : minValidatorStake.toNat ≤ stake.toNat) :
    Sound (opened id address publicKey stake hardware) ↔ stake.toNat / 1000000 < 2 ^ 64 := by
  constructor
  · intro h
    exact toNat_calculateVotingPower.mp h.power
  · intro hpower
    exact ⟨rfl, Nat.zero_le _, toNat_calculateVotingPower.mpr hpower, fun _ => hmin⟩

theorem along_staysSound_iff (h : Sound s) (calls : List Call)
    (hsat : Runs.Along after NoSaturation s calls) :
    Runs.Along after StaysSound s calls ↔
      Runs.Along after Careful s calls := by
  induction calls generalizing s with
  | nil => exact Iff.rfl
  | cons call rest ih =>
      rw [Runs.along_cons] at hsat ⊢
      rw [Runs.along_cons]
      constructor
      · rintro ⟨hstays, hrest⟩
        exact ⟨(staysSound_iff h call hsat.1).mp hstays, (ih hstays.sound hsat.2).mp hrest⟩
      · rintro ⟨hcareful, hrest⟩
        have hstays := (staysSound_iff h call hsat.1).mpr hcareful
        exact ⟨hstays, (ih hstays.sound hsat.2).mpr hrest⟩

/-- **When the stake of a validator adds up**: in a run without saturation the accounts are sound
from the beginning on exactly if the first voting power is a 64-bit number and every call is
careful. -/
theorem stake_adds_up_iff (id : UInt64) (address : Address) (publicKey : Bytes) {stake : U128}
    (hardware : Hardware) (hmin : minValidatorStake.toNat ≤ stake.toNat) (calls : List Call)
    (hsat : Runs.Along after NoSaturation
      (opened id address publicKey stake hardware) calls) :
    (Sound (opened id address publicKey stake hardware) ∧
        Runs.Along after StaysSound
          (opened id address publicKey stake hardware) calls) ↔
      stake.toNat / 1000000 < 2 ^ 64 ∧
        Runs.Along after Careful
          (opened id address publicKey stake hardware) calls := by
  have hopened := sound_opened id address publicKey hardware hmin
  constructor
  · rintro ⟨hsound, hstays⟩
    exact ⟨hopened.mp hsound, (along_staysSound_iff hsound calls hsat).mp hstays⟩
  · rintro ⟨hpower, hcareful⟩
    have hsound := hopened.mpr hpower
    exact ⟨hsound, (along_staysSound_iff hsound calls hsat).mpr hcareful⟩

end StakeAccounts

/-! ## A slash that reaches the delegations -/

section Example

open StakeAccounts

/-- A validator with the minimum stake. -/
def minimalAccounts : StakeAccounts := opened 1 zero32 [] minValidatorStake ⟨true, true⟩

/-- A delegation of the minimum, a slash of all but one, and the delegation is no longer covered. -/
theorem slash_uncovers : ¬ Runs.Along StakeAccounts.after StaysSound
    minimalAccounts [.addDelegation zero32 minValidatorStake, .slash 1000000000001] := by
  rintro ⟨-, hslash, -⟩
  exact absurd hslash.sound.covered (by decide)

/-- A delegation can be withdrawn again. -/
theorem delegation_adds_up :
    (Sound minimalAccounts ∧ Runs.Along StakeAccounts.after StaysSound
        minimalAccounts [.addDelegation zero32 5, .removeDelegation zero32 5]) ↔
      minValidatorStake.toNat / 1000000 < 2 ^ 64 ∧
        Runs.Along StakeAccounts.after Careful minimalAccounts
          [.addDelegation zero32 5, .removeDelegation zero32 5] := by
  refine stake_adds_up_iff 1 zero32 [] ⟨true, true⟩ le_rfl _ ⟨⟨by decide, by decide⟩, ?_, trivial⟩
  intro entry _ _
  decide

end Example
