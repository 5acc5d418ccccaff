/-
# Runs of the validator manager

The operations of the validator manager as equations: what each of them returns, the
records and the set it leaves behind, and the locks it has asked for.

A set is built from the first active records in the order of their stakes (`elected`).
The only way to fail is the sum of the stakes.
-/
import Pacyte.Validators

open Locks

/-! ## Building a set -/

/-- The sum of some stakes. -/
def totalStakeOf (l : List ValidatorRecord) : ℕ := (l.map fun v => v.stake.toNat).sum

theorem ValidatorSet.addAll_run {ε σ : Type} (l : List ValidatorRecord) (set : ValidatorSet)
    (s : σ) :
    (addAll l set : Exec ε σ ValidatorSet) s =
      if set.totalStake.toNat + totalStakeOf l < 2 ^ 128 then
        (.ok { set with
          validators := set.validators ++ l.map ValidatorRecord.info
          totalStake := BitVec.ofNat 128 (set.totalStake.toNat + totalStakeOf l) }, s)
      else (.panic, s) := by
  induction l generalizing set with
  | nil =>
      have hfits : set.totalStake.toNat + 0 < 2 ^ 128 := set.totalStake.isLt
      rw [totalStakeOf, List.map_nil, List.sum_nil, if_pos hfits, List.map_nil, List.append_nil,
        Nat.add_zero, BitVec.ofNat_toNat, BitVec.setWidth_eq]
      rfl
  | cons v rest ih =>
      have hsum : totalStakeOf (v :: rest) = v.stake.toNat + totalStakeOf rest := rfl
      have hinfo : v.info.stake = v.stake := rfl
      rw [addAll, Exec.run_bind, addValidator, Exec.run_bind, Exec.addU128, hsum, hinfo]
      by_cases hfits : set.totalStake.toNat + v.stake.toNat < 2 ^ 128
      · have htotal : (set.totalStake + v.stake).toNat = set.totalStake.toNat + v.stake.toNat := by
          rw [BitVec.toNat_add]
          exact Nat.mod_eq_of_lt hfits
        rw [if_pos hfits, Exec.run_pure]
        dsimp only
        rw [Exec.run_pure]
        dsimp only
        rw [ih]
        dsimp only
        rw [htotal, Nat.add_assoc, List.append_assoc]
        rfl
      · rw [if_neg hfits, Exec.run_abort]
        dsimp only
        rw [if_neg (by omega)]

namespace ValidatorManager

/-- The records that the next set is built from. -/
def elected (vm : ValidatorManager) : List ValidatorRecord :=
  (sortByStake (((vm.orders 0).list vm.records).filter
    fun v => v.isActive && v.avx512Supported)).take maxValidators

/-- The set that is built next. -/
def nextSet (vm : ValidatorManager) : ValidatorSet where
  validators := vm.elected.map ValidatorRecord.info
  totalStake := BitVec.ofNat 128 (totalStakeOf vm.elected)
  epoch := vm.epoch

/-- The state after an iteration over the records. -/
def iterated (vm : ValidatorManager) : ValidatorManager :=
  { vm with orders := fun k => vm.orders (k + 1) }

/-- The state with other guards. -/
def withGuards (vm : ValidatorManager) (g : Guards ValidatorLock) : ValidatorManager :=
  { vm with guards := g }

@[simp] theorem elected_withGuards (vm : ValidatorManager) (g : Guards ValidatorLock) :
    (vm.withGuards g).elected = vm.elected := rfl

@[simp] theorem activeRecords_withGuards (vm : ValidatorManager) (g : Guards ValidatorLock) :
    (vm.withGuards g).activeRecords = vm.activeRecords := rfl

theorem guarded_run {α : Type} (l : ValidatorLock) (m : Mode)
    (body : Exec PacyteError ValidatorManager α) (vm : ValidatorManager) :
    guarded l m body vm =
      ((body (vm.withGuards (vm.guards.acquire l m))).1,
        (body (vm.withGuards (vm.guards.acquire l m))).2.withGuards
          ⟨vm.guards.held, (body (vm.withGuards (vm.guards.acquire l m))).2.guards.clash⟩) := rfl

/-- The locks that building a set asks for. -/
def updateGuards (g : Guards ValidatorLock) : Guards ValidatorLock :=
  ((g.touch .validators .read).touch .epoch .read).touch .currentSet .write

/-- The outcome of building the set, and the state before it is stored. -/
theorem rebuildSet_run (vm : ValidatorManager) :
    rebuildSet vm =
      if totalStakeOf vm.elected < 2 ^ 128 then
        (.ok (), { vm.iterated with
          currentSet := vm.nextSet
          guards := (vm.guards.touch .epoch .read).touch .currentSet .write })
      else (.panic, vm.iterated.withGuards (vm.guards.touch .epoch .read)) := by
  have hepoch : readEpoch vm = (.ok vm.epoch, vm.withGuards (vm.guards.touch .epoch .read)) := rfl
  set vm' := vm.withGuards (vm.guards.touch .epoch .read)
  have hvalues : values vm' = (.ok ((vm.orders 0).list vm.records), vm'.iterated) := rfl
  have hset := ValidatorSet.addAll_run (ε := PacyteError) vm.elected
    { ValidatorSet.new with epoch := vm.epoch } vm'.iterated
  have hzero : ValidatorSet.new.totalStake.toNat = 0 := rfl
  rw [hzero, Nat.zero_add] at hset
  unfold rebuildSet
  rw [Exec.run_bind_of_ok hepoch, Exec.run_bind_of_ok hvalues]
  by_cases hfits : totalStakeOf vm.elected < 2 ^ 128
  · rw [if_pos hfits] at hset ⊢
    exact (Exec.run_bind_of_ok hset).trans rfl
  · rw [if_neg hfits] at hset ⊢
    exact Exec.run_bind_of_panic hset

/-- **Building the set.** -/
theorem updateValidatorSet_run (vm : ValidatorManager) :
    updateValidatorSet vm =
      if totalStakeOf vm.elected < 2 ^ 128 then
        (.ok (), { vm.iterated with
          currentSet := vm.nextSet
          guards := updateGuards vm.guards })
      else (.panic, vm.iterated.withGuards
        ((vm.guards.touch .validators .read).touch .epoch .read)) := by
  unfold updateValidatorSet
  rw [guarded_run, rebuildSet_run, elected_withGuards]
  split_ifs with hfits
  · rfl
  · rfl

/-! ## New records -/

/-- The state with a new record under the next number. -/
def installed (address : Address) (publicKey : Bytes) (stake : U128) (vm : ValidatorManager) :
    ValidatorManager :=
  { vm with
    validators := vm.validators.insert vm.nextValidatorId
      (ValidatorRecord.new vm.nextValidatorId address publicKey stake vm.hardware)
    addressToId := vm.addressToId.insert address vm.nextValidatorId
    nextValidatorId := vm.nextValidatorId + 1 }

theorem takeId_run (vm : ValidatorManager) :
    takeId vm =
      if vm.nextValidatorId.toNat + 1 < 2 ^ 64 then
        (.ok vm.nextValidatorId, { vm with
          nextValidatorId := vm.nextValidatorId + 1
          guards := vm.guards.touch .nextValidatorId .write })
      else (.panic, vm.withGuards (vm.guards.touch .nextValidatorId .write)) := by
  by_cases hfits : vm.nextValidatorId.toNat + 1 < 2 ^ 64
  · have hadd : (Exec.addU64 vm.nextValidatorId 1 : Exec PacyteError ValidatorManager UInt64)
        = pure (vm.nextValidatorId + 1) := if_pos hfits
    rw [if_pos hfits, takeId, guarded_run]
    simp only [Exec.run_bind, Exec.run_get, withGuards, hadd]
    rfl
  · have hadd : (Exec.addU64 vm.nextValidatorId 1 : Exec PacyteError ValidatorManager UInt64)
        = Exec.abort := if_neg hfits
    rw [if_neg hfits, takeId, guarded_run]
    simp only [Exec.run_bind, Exec.run_get, withGuards, hadd]
    rfl

/-- The number of a new record, or the failure to build the set. -/
def answer (id : UInt64) : Outcome PacyteError Unit → Outcome PacyteError UInt64
  | .ok _ => .ok id
  | .err e => .err e
  | .panic => .panic

/-- The locks that are asked for before a new record is inserted. -/
def addGuards (g : Guards ValidatorLock) : Guards ValidatorLock :=
  ((g.touch .nextValidatorId .write).touch .validators .write).touch .addressToId .write

/-- **A new record**, and a new set with it. -/
theorem addValidator_run (address : Address) (publicKey : Bytes) (stake : U128)
    (vm : ValidatorManager) :
    addValidator address publicKey stake vm =
      if vm.nextValidatorId.toNat + 1 < 2 ^ 64 then
        (answer vm.nextValidatorId (updateValidatorSet
          ((vm.installed address publicKey stake).withGuards (addGuards vm.guards))).1,
        (updateValidatorSet
          ((vm.installed address publicKey stake).withGuards (addGuards vm.guards))).2)
      else (.panic, vm.withGuards (vm.guards.touch .nextValidatorId .write)) := by
  have htake := takeId_run vm
  unfold addValidator
  by_cases hfits : vm.nextValidatorId.toNat + 1 < 2 ^ 64
  · rw [if_pos hfits] at htake ⊢
    rw [Exec.run_bind_of_ok htake]
    change (updateValidatorSet >>= fun _ => pure vm.nextValidatorId)
      ((vm.installed address publicKey stake).withGuards (addGuards vm.guards)) = _
    rw [Exec.run_bind]
    rcases updateValidatorSet ((vm.installed address publicKey stake).withGuards
      (addGuards vm.guards)) with ⟨_ | _ | _, vm'⟩ <;> rfl
  · rw [if_neg hfits] at htake ⊢
    exact Exec.run_bind_of_panic htake

/-- The weakest of the active records in the order of the next iteration. -/
def weakest (vm : ValidatorManager) : Option ValidatorRecord :=
  minByStake (((vm.orders 0).list vm.records).filter (·.isActive))

/-- The state after the weakest record was replaced, before the set is built. -/
def replacedState (address : Address) (publicKey : Bytes) (stake : U128) (weak : ValidatorRecord)
    (vm : ValidatorManager) : ValidatorManager :=
  installed address publicKey stake (deactivate weak.id vm.iterated)

/-- The locks that are asked for before a record takes the place of another one. -/
def replaceGuards (g : Guards ValidatorLock) : Guards ValidatorLock :=
  (g.touch .nextValidatorId .write).touch .addressToId .write

/-- The replacement, while the records are locked. -/
theorem replaceWeakest_run (address : Address) (publicKey : Bytes) (stake : U128)
    (vm : ValidatorManager) :
    replaceWeakest address publicKey stake vm =
      match vm.weakest with
      | none => (.err .validatorSetFull, vm.iterated)
      | some weak =>
        if weak.stake < stake then
          if vm.nextValidatorId.toNat + 1 < 2 ^ 64 then
            (answer vm.nextValidatorId (updateValidatorSet
              ((vm.replacedState address publicKey stake weak).withGuards
                (replaceGuards vm.guards))).1,
            (updateValidatorSet ((vm.replacedState address publicKey stake weak).withGuards
              (replaceGuards vm.guards))).2)
          else (.panic, (deactivate weak.id vm.iterated).withGuards
            (vm.guards.touch .nextValidatorId .write))
        else (.err .validatorSetFull, vm.iterated) := by
  have hvalues : values vm = (.ok ((vm.orders 0).list vm.records), vm.iterated) := rfl
  unfold replaceWeakest
  rw [Exec.run_bind_of_ok hvalues]
  change (match vm.weakest with
    | none => _
    | some minV => _ : Exec PacyteError ValidatorManager UInt64) vm.iterated = _
  cases hweak : vm.weakest with
  | none => rfl
  | some weak =>
      dsimp only
      by_cases hless : weak.stake < stake
      · rw [if_pos hless, if_pos hless, Exec.run_bind, Exec.run_modify]
        dsimp only
        have htake := takeId_run (deactivate weak.id vm.iterated)
        change takeId _ = if vm.nextValidatorId.toNat + 1 < 2 ^ 64 then _ else _ at htake
        by_cases hfits : vm.nextValidatorId.toNat + 1 < 2 ^ 64
        · rw [if_pos hfits] at htake ⊢
          rw [Exec.run_bind_of_ok htake]
          change (updateValidatorSet >>= fun _ => pure vm.nextValidatorId)
            ((vm.replacedState address publicKey stake weak).withGuards (replaceGuards vm.guards)) = _
          rw [Exec.run_bind]
          rcases updateValidatorSet ((vm.replacedState address publicKey stake weak).withGuards
            (replaceGuards vm.guards)) with ⟨_ | _ | _, vm'⟩ <;> rfl
        · rw [if_neg hfits] at htake ⊢
          exact Exec.run_bind_of_panic htake
      · rw [if_neg hless, if_neg hless]
        rfl

/-- The block that counts the active records. -/
theorem replaceIfFull_run (address : Address) (publicKey : Bytes) (stake : U128)
    (vm : ValidatorManager) :
    replaceIfFull address publicKey stake vm =
      guarded .validators .read (if maxValidators ≤ vm.activeRecords then
        replaceValidator address publicKey stake >>= fun id => pure (some id)
      else pure none) vm := rfl

/-- **Registering a validator**, case by case. -/
theorem registerValidator_run (address : Address) (publicKey : Bytes) (stake : U128)
    (vm : ValidatorManager) :
    registerValidator address publicKey stake vm =
      if !vm.hardware.avx512Supported then (.err .hardwareInsufficient, vm)
      else if stake < minValidatorStake then
        (.err (.insufficientStake stake minValidatorStake), vm)
      else if (vm.addressToId.lookup address).isSome then
        (.err .validatorAlreadyExists, vm.withGuards (vm.guards.touch .addressToId .read))
      else if maxValidators ≤ vm.activeRecords then
        guarded .validators .read (replaceValidator address publicKey stake)
          (vm.withGuards (vm.guards.touch .addressToId .read))
      else addValidator address publicKey stake
        (vm.withGuards ((vm.guards.touch .addressToId .read).touch .validators .read)) := by
  have hknown : isKnown address vm = (.ok (vm.addressToId.lookup address).isSome,
      vm.withGuards (vm.guards.touch .addressToId .read)) := rfl
  unfold registerValidator
  rw [Exec.run_bind, Exec.run_get]
  dsimp only
  split_ifs with hhardware hstake hexists hfull
  · rfl
  · rfl
  · rw [Exec.run_bind_of_ok hknown, if_pos hexists]
    rfl
  · rw [Exec.run_bind_of_ok hknown, if_neg hexists, Exec.run_bind, replaceIfFull_run,
      activeRecords_withGuards, if_pos hfull, guarded_run, guarded_run, Exec.run_bind]
    rcases replaceValidator address publicKey stake
      ((vm.withGuards (vm.guards.touch .addressToId .read)).withGuards
        ((vm.withGuards (vm.guards.touch .addressToId .read)).guards.acquire .validators .read))
      with ⟨_ | _ | _, vm'⟩ <;> rfl
  · have hnone : replaceIfFull address publicKey stake
        (vm.withGuards (vm.guards.touch .addressToId .read)) = (.ok none,
          vm.withGuards ((vm.guards.touch .addressToId .read).touch .validators .read)) := by
      rw [replaceIfFull_run, activeRecords_withGuards, if_neg hfull]
      rfl
    rw [Exec.run_bind_of_ok hknown, if_neg hexists, Exec.run_bind_of_ok hnone]

end ValidatorManager

/-! ## Slashing -/

/-- The record after a slash that succeeds. -/
def ValidatorRecord.slashedBy (amount : U128) (v : ValidatorRecord) : ValidatorRecord :=
  { v with
    stake := v.stake - amount
    slashedAmount := v.slashedAmount + amount
    votingPower := calculateVotingPower (v.stake - amount)
    status := if v.stake - amount < minValidatorStake then .inactive else v.status }

theorem ValidatorRecord.slash_run (amount : U128) (v : ValidatorRecord) :
    slash amount v =
      if v.stake < amount then (.err (.insufficientBalance amount v.stake), v)
      else if v.slashedAmount.toNat + amount.toNat < 2 ^ 128 then (.ok (), v.slashedBy amount)
      else (.panic, { v with stake := v.stake - amount }) := by
  unfold slash
  rw [Exec.run_bind, Exec.run_get]
  dsimp only
  split_ifs with hless hfits
  · rfl
  · have hadd : (Exec.addU128 v.slashedAmount amount : Exec PacyteError ValidatorRecord U128)
        = pure (v.slashedAmount + amount) := if_pos hfits
    simp only [Exec.run_bind, Exec.run_modify, hadd, Exec.run_pure]
    unfold slashedBy
    by_cases hmin : v.stake - amount < minValidatorStake
    · simp only [if_pos hmin]
    · simp only [if_neg hmin]
  · have hadd : (Exec.addU128 v.slashedAmount amount : Exec PacyteError ValidatorRecord U128)
        = Exec.abort := if_neg hfits
    simp only [Exec.run_bind, Exec.run_modify, hadd, Exec.run_abort]

namespace ValidatorManager

/-- The state with another record under a number. -/
def withRecord (vm : ValidatorManager) (id : UInt64) (v : ValidatorRecord) : ValidatorManager :=
  { vm with validators := vm.validators.insert id v }

theorem lookup_withRecord (vm : ValidatorManager) (id : UInt64) (v : ValidatorRecord) :
    (vm.withRecord id v).validators.lookup id = some v := AList.lookup_insert _

/-- **Slashing a validator**, case by case, while its records are locked. -/
theorem slashLocked_run (id : UInt64) (amount : U128) (vm : ValidatorManager) :
    slashLocked id amount vm =
      match vm.validators.lookup id with
      | none => (.err (.validatorNotFound id), vm)
      | some v =>
        if v.stake < amount then
          (.err (.insufficientBalance amount v.stake), vm.withRecord id v)
        else if v.slashedAmount.toNat + amount.toNat < 2 ^ 128 then
          if (v.slashedBy amount).status = .inactive then
            updateValidatorSet (vm.withRecord id (v.slashedBy amount))
          else (.ok (), vm.withRecord id (v.slashedBy amount))
        else (.panic, vm.withRecord id { v with stake := v.stake - amount }) := by
  unfold slashLocked
  rw [Exec.run_bind, onRecord]
  cases hlookup : vm.validators.lookup id with
  | none => rfl
  | some v =>
      dsimp only
      rw [ValidatorRecord.slash_run]
      split_ifs with hless hfits hstatus
      · rfl
      · dsimp only
        rw [Exec.run_bind, Exec.run_get]
        have hany : ((vm.validators.insert id (v.slashedBy amount)).lookup id).any
            (fun v => decide (v.status = .inactive)) = true := by
          rw [AList.lookup_insert]
          exact decide_eq_true hstatus
        dsimp only
        rw [if_pos hany]
        rfl
      · dsimp only
        rw [Exec.run_bind, Exec.run_get]
        have hany : ¬ ((vm.validators.insert id (v.slashedBy amount)).lookup id).any
            (fun v => decide (v.status = .inactive)) = true := by
          rw [AList.lookup_insert]
          simpa using hstatus
        dsimp only
        rw [if_neg hany]
        rfl
      · rfl

/-- What is taken for a double signature. -/
def penalty (v : ValidatorRecord) : U128 := BitVec.ofNat 128 (v.stake.toNat / 20)

/-- The record after a double signature. -/
def punished (v : ValidatorRecord) : ValidatorRecord :=
  { v.slashedBy (penalty v) with status := .slashed }

/-- A twentieth of the stake can always be taken. -/
theorem penalty_le (v : ValidatorRecord) : ¬ v.stake < penalty v := by
  have hlt : v.stake.toNat / 20 < 2 ^ 128 := lt_of_le_of_lt (Nat.div_le_self _ _) v.stake.isLt
  rw [penalty, BitVec.lt_def, BitVec.toNat_ofNat, Nat.mod_eq_of_lt hlt]
  omega

theorem punish_run (v : ValidatorRecord) :
    punish v =
      if v.slashedAmount.toNat + (penalty v).toNat < 2 ^ 128 then (.ok (), punished v)
      else (.panic, { v with stake := v.stake - penalty v }) := by
  have hslash := ValidatorRecord.slash_run (penalty v) v
  rw [if_neg (penalty_le v)] at hslash
  unfold punish
  rw [Exec.run_bind, Exec.run_get]
  dsimp only
  split_ifs with hfits
  · rw [if_pos hfits] at hslash
    exact Exec.run_bind_of_ok hslash
  · rw [if_neg hfits] at hslash
    exact Exec.run_bind_of_panic hslash

/-- **Slashing for a double signature**, while the records are locked. -/
theorem slashDoubleSign_run (id : UInt64) (vm : ValidatorManager) :
    (onRecord id punish >>= fun _ => updateValidatorSet) vm =
      match vm.validators.lookup id with
      | none => (.err (.validatorNotFound id), vm)
      | some v =>
        if v.slashedAmount.toNat + (penalty v).toNat < 2 ^ 128 then
          updateValidatorSet (vm.withRecord id (punished v))
        else (.panic, vm.withRecord id { v with stake := v.stake - penalty v }) := by
  rw [Exec.run_bind, onRecord]
  cases hlookup : vm.validators.lookup id with
  | none => rfl
  | some v =>
      dsimp only
      rw [punish_run]
      split_ifs with hfits
      · rfl
      · rfl

end ValidatorManager
