/-
# Steps of the validator manager

What a call of `register_validator`, `slash` or `slash_double_sign` can do, when the locks
are treated as reentrant: it returns an error and leaves everything as it was, it changes
the records and builds the set from them (`Rebuilt`), it changes a record and keeps the
set (`Kept`), or it panics.  One lemma for each of the three calls says which.
-/
import Pacyte.ValidatorRuns

open Locks

/-- A call that changes the validators. -/
inductive RegistryOp : Type where
  | register (address : Address) (publicKey : Bytes) (stake : U128)
  | slash (id : UInt64) (amount : U128)
  | slashDoubleSign (id : UInt64)

namespace ValidatorManager

/-! ## What stays the same -/

/-- Nothing but guards and the orders to come differs. -/
structure Kept (vm vm' : ValidatorManager) : Prop where
  validators : vm'.validators = vm.validators
  addressToId : vm'.addressToId = vm.addressToId
  nextValidatorId : vm'.nextValidatorId = vm.nextValidatorId
  epoch : vm'.epoch = vm.epoch
  hardware : vm'.hardware = vm.hardware
  currentSet : vm'.currentSet = vm.currentSet

/-- The set was built from the records, in the order that came next; nothing else differs
but guards and the orders to come. -/
structure Rebuilt (vm vm' : ValidatorManager) : Prop where
  validators : vm'.validators = vm.validators
  addressToId : vm'.addressToId = vm.addressToId
  nextValidatorId : vm'.nextValidatorId = vm.nextValidatorId
  epoch : vm'.epoch = vm.epoch
  hardware : vm'.hardware = vm.hardware
  currentSet : vm'.currentSet = vm.nextSet
  fits : totalStakeOf vm.elected < 2 ^ 128

/-- Building the set, seen from outside. -/
theorem updateValidatorSet_cases (vm : ValidatorManager) (g : Guards ValidatorLock) :
    ((updateValidatorSet (vm.withGuards g)).1 = .ok () ∧
      Rebuilt vm (updateValidatorSet (vm.withGuards g)).2) ∨
    ((updateValidatorSet (vm.withGuards g)).1 = .panic ∧ ¬ totalStakeOf vm.elected < 2 ^ 128) := by
  rw [updateValidatorSet_run, elected_withGuards]
  split_ifs with hfits
  · exact Or.inl ⟨rfl, ⟨rfl, rfl, rfl, rfl, rfl, rfl, hfits⟩⟩
  · exact Or.inr ⟨rfl, hfits⟩

/-- A guard around a program does not change what is kept. -/
theorem Kept.of_withGuards {vm vm' : ValidatorManager} (g : Guards ValidatorLock)
    (h : Kept vm vm') : Kept vm (vm'.withGuards g) :=
  ⟨h.validators, h.addressToId, h.nextValidatorId, h.epoch, h.hardware, h.currentSet⟩

theorem Rebuilt.of_withGuards {vm vm' : ValidatorManager} (g : Guards ValidatorLock)
    (h : Rebuilt vm vm') : Rebuilt vm (vm'.withGuards g) :=
  ⟨h.validators, h.addressToId, h.nextValidatorId, h.epoch, h.hardware, h.currentSet, h.fits⟩

/-! ## Registering -/

/-- The checks of `register_validator` before the set is looked at. -/
def Admits (vm : ValidatorManager) (address : Address) (stake : U128) : Prop :=
  vm.hardware.avx512Supported = true ∧ minValidatorStake ≤ stake ∧
    vm.addressToId.lookup address = none

instance (vm : ValidatorManager) (address : Address) (stake : U128) :
    Decidable (vm.Admits address stake) := inferInstanceAs (Decidable (_ ∧ _ ∧ _))

/-- Replacing a validator, seen from outside. -/
theorem replaceWeakest_cases (address : Address) (publicKey : Bytes) (stake : U128)
    (vm : ValidatorManager) (g : Guards ValidatorLock) :
    (∃ e, (replaceWeakest address publicKey stake (vm.withGuards g)).1 = .err e ∧
      Kept vm (replaceWeakest address publicKey stake (vm.withGuards g)).2) ∨
    (∃ weak, vm.weakest = some weak ∧ weak.stake < stake ∧
      vm.nextValidatorId.toNat + 1 < 2 ^ 64 ∧
      (replaceWeakest address publicKey stake (vm.withGuards g)).1 = .ok vm.nextValidatorId ∧
      Rebuilt (vm.replacedState address publicKey stake weak)
        (replaceWeakest address publicKey stake (vm.withGuards g)).2) ∨
    (∃ weak, vm.weakest = some weak ∧ weak.stake < stake ∧
      (replaceWeakest address publicKey stake (vm.withGuards g)).1 = .panic ∧
      ¬ (vm.nextValidatorId.toNat + 1 < 2 ^ 64 ∧
        totalStakeOf (vm.replacedState address publicKey stake weak).elected < 2 ^ 128)) := by
  rw [replaceWeakest_run, show (vm.withGuards g).weakest = vm.weakest from rfl]
  cases hweak : vm.weakest with
  | none => exact Or.inl ⟨.validatorSetFull, rfl, rfl, rfl, rfl, rfl, rfl, rfl⟩
  | some weak =>
      dsimp only
      split_ifs with hless hfits
      · have hupdate := updateValidatorSet_cases (vm.replacedState address publicKey stake weak)
          (replaceGuards (vm.withGuards g).guards)
        rcases hupdate with ⟨hok, hrebuilt⟩ | ⟨hpanic, hover⟩
        · exact Or.inr (Or.inl ⟨weak, rfl, hless, hfits, congrArg (answer vm.nextValidatorId) hok,
            hrebuilt⟩)
        · exact Or.inr (Or.inr ⟨weak, rfl, hless, congrArg (answer vm.nextValidatorId) hpanic,
            fun hand => hover hand.2⟩)
      · exact Or.inr (Or.inr ⟨weak, rfl, hless, rfl, fun hand => hfits hand.1⟩)
      · exact Or.inl ⟨.validatorSetFull, rfl, rfl, rfl, rfl, rfl, rfl, rfl⟩

/-- **What `register_validator` can do.** -/
theorem registerValidator_cases (address : Address) (publicKey : Bytes) (stake : U128)
    (vm : ValidatorManager) :
    (∃ e, (registerValidator address publicKey stake vm).1 = .err e ∧
      Kept vm (registerValidator address publicKey stake vm).2) ∨
    (vm.Admits address stake ∧ vm.activeRecords < maxValidators ∧
      (((registerValidator address publicKey stake vm).1 = .ok vm.nextValidatorId ∧
        vm.nextValidatorId.toNat + 1 < 2 ^ 64 ∧
        Rebuilt (vm.installed address publicKey stake)
          (registerValidator address publicKey stake vm).2) ∨
      ((registerValidator address publicKey stake vm).1 = .panic ∧
        ¬ (vm.nextValidatorId.toNat + 1 < 2 ^ 64 ∧
          totalStakeOf (vm.installed address publicKey stake).elected < 2 ^ 128)))) ∨
    (vm.Admits address stake ∧ maxValidators ≤ vm.activeRecords ∧
      ∃ weak, vm.weakest = some weak ∧ weak.stake < stake ∧
        (((registerValidator address publicKey stake vm).1 = .ok vm.nextValidatorId ∧
          vm.nextValidatorId.toNat + 1 < 2 ^ 64 ∧
          Rebuilt (vm.replacedState address publicKey stake weak)
            (registerValidator address publicKey stake vm).2) ∨
        ((registerValidator address publicKey stake vm).1 = .panic ∧
          ¬ (vm.nextValidatorId.toNat + 1 < 2 ^ 64 ∧
            totalStakeOf (vm.replacedState address publicKey stake weak).elected < 2 ^ 128)))) := by
  rw [registerValidator_run]
  split_ifs with hhardware hstake hknown hfull
  · exact Or.inl ⟨.hardwareInsufficient, rfl, rfl, rfl, rfl, rfl, rfl, rfl⟩
  · exact Or.inl ⟨_, rfl, rfl, rfl, rfl, rfl, rfl, rfl⟩
  · exact Or.inl ⟨.validatorAlreadyExists, rfl, rfl, rfl, rfl, rfl, rfl, rfl⟩
  · have hadmits : vm.Admits address stake :=
      ⟨by simpa using hhardware, BitVec.not_lt.mp hstake, by simpa using hknown⟩
    -- two guards are around the replacement
    set g := ((vm.guards.touch .addressToId .read).acquire .validators .read).acquire
      .validators .write
    have hcases := replaceWeakest_cases address publicKey stake vm g
    rw [guarded_run, replaceValidator, guarded_run]
    dsimp only
    change (∃ e, (replaceWeakest address publicKey stake (vm.withGuards g)).1 = .err e ∧ _) ∨
      (_ ∧ _ ∧ _) ∨ (_ ∧ _ ∧ ∃ weak, _ ∧ _ ∧
        ((replaceWeakest address publicKey stake (vm.withGuards g)).1 = _ ∧ _ ∧ _ ∨
        (replaceWeakest address publicKey stake (vm.withGuards g)).1 = _ ∧ _))
    rcases hcases with ⟨e, herr, hkept⟩ | ⟨weak, hweak, hless, hfits, hok, hrebuilt⟩ |
      ⟨weak, hweak, hless, hpanic, hover⟩
    · exact Or.inl ⟨e, herr, (hkept.of_withGuards _).of_withGuards _⟩
    · exact Or.inr (Or.inr ⟨hadmits, hfull, weak, hweak, hless,
        Or.inl ⟨hok, hfits, (hrebuilt.of_withGuards _).of_withGuards _⟩⟩)
    · exact Or.inr (Or.inr ⟨hadmits, hfull, weak, hweak, hless, Or.inr ⟨hpanic, hover⟩⟩)
  · have hadmits : vm.Admits address stake :=
      ⟨by simpa using hhardware, BitVec.not_lt.mp hstake, by simpa using hknown⟩
    refine Or.inr (Or.inl ⟨hadmits, not_le.mp hfull, ?_⟩)
    set g := (vm.guards.touch .addressToId .read).touch .validators .read
    rw [addValidator_run, show (vm.withGuards g).nextValidatorId = vm.nextValidatorId from rfl]
    split_ifs with hfits
    · have hupdate := updateValidatorSet_cases (vm.installed address publicKey stake)
        (addGuards g)
      rcases hupdate with ⟨hok, hrebuilt⟩ | ⟨hpanic, hover⟩
      · exact Or.inl ⟨congrArg (answer vm.nextValidatorId) hok, hfits, hrebuilt⟩
      · exact Or.inr ⟨congrArg (answer vm.nextValidatorId) hpanic, fun hand => hover hand.2⟩
    · exact Or.inr ⟨rfl, fun hand => hfits hand.1⟩

/-! ## Slashing -/

/-- **What `slash` can do.** -/
theorem slash_cases (id : UInt64) (amount : U128) (vm : ValidatorManager) :
    (vm.validators.lookup id = none ∧ (slash id amount vm).1 = .err (.validatorNotFound id) ∧
      Kept vm (slash id amount vm).2) ∨
    ∃ v, vm.validators.lookup id = some v ∧
      ((v.stake < amount ∧ (slash id amount vm).1 = .err (.insufficientBalance amount v.stake) ∧
        Kept (vm.withRecord id v) (slash id amount vm).2) ∨
      (amount ≤ v.stake ∧ v.slashedAmount.toNat + amount.toNat < 2 ^ 128 ∧
        (v.slashedBy amount).status = .inactive ∧
        (((slash id amount vm).1 = .ok () ∧
          Rebuilt (vm.withRecord id (v.slashedBy amount)) (slash id amount vm).2) ∨
        ((slash id amount vm).1 = .panic ∧
          ¬ totalStakeOf (vm.withRecord id (v.slashedBy amount)).elected < 2 ^ 128))) ∨
      (amount ≤ v.stake ∧ v.slashedAmount.toNat + amount.toNat < 2 ^ 128 ∧
        (v.slashedBy amount).status ≠ .inactive ∧ (slash id amount vm).1 = .ok () ∧
        Kept (vm.withRecord id (v.slashedBy amount)) (slash id amount vm).2) ∨
      (amount ≤ v.stake ∧ (slash id amount vm).1 = .panic ∧
        ¬ v.slashedAmount.toNat + amount.toNat < 2 ^ 128)) := by
  set g := vm.guards.acquire .validators .write
  have hrun : slash id amount vm = ((slashLocked id amount (vm.withGuards g)).1,
      (slashLocked id amount (vm.withGuards g)).2.withGuards
        ⟨vm.guards.held, (slashLocked id amount (vm.withGuards g)).2.guards.clash⟩) := rfl
  rw [hrun, slashLocked_run, show (vm.withGuards g).validators = vm.validators from rfl]
  cases hlookup : vm.validators.lookup id with
  | none => exact Or.inl ⟨rfl, rfl, rfl, rfl, rfl, rfl, rfl, rfl⟩
  | some v =>
      refine Or.inr ⟨v, rfl, ?_⟩
      dsimp only
      split_ifs with hless hfits hstatus
      · exact Or.inl ⟨hless, rfl, rfl, rfl, rfl, rfl, rfl, rfl⟩
      · refine Or.inr (Or.inl ⟨BitVec.not_lt.mp hless, hfits, hstatus, ?_⟩)
        have hupdate := updateValidatorSet_cases (vm.withRecord id (v.slashedBy amount)) g
        rcases hupdate with ⟨hok, hrebuilt⟩ | ⟨hpanic, hover⟩
        · exact Or.inl ⟨hok, hrebuilt.of_withGuards _⟩
        · exact Or.inr ⟨hpanic, hover⟩
      · exact Or.inr (Or.inr (Or.inl ⟨BitVec.not_lt.mp hless, hfits, hstatus, rfl,
          rfl, rfl, rfl, rfl, rfl, rfl⟩))
      · exact Or.inr (Or.inr (Or.inr ⟨BitVec.not_lt.mp hless, rfl, hfits⟩))

/-- A slash leaves the other records as they are, however it ends. -/
theorem slash_lookup_of_ne {id id' : UInt64} (h : id' ≠ id) (amount : U128)
    (vm : ValidatorManager) :
    (slash id amount vm).2.validators.lookup id' = vm.validators.lookup id' := by
  set g := vm.guards.acquire .validators .write
  have hrecord : ∀ v : ValidatorRecord,
      (vm.withRecord id v).validators.lookup id' = vm.validators.lookup id' :=
    fun v => AList.lookup_insert_ne h
  show (slashLocked id amount (vm.withGuards g)).2.validators.lookup id' = _
  rw [slashLocked_run, show (vm.withGuards g).validators = vm.validators from rfl]
  cases hlookup : vm.validators.lookup id with
  | none => rfl
  | some v =>
      dsimp only
      split_ifs
      · exact hrecord v
      · rw [updateValidatorSet_run]
        split_ifs
        · exact hrecord _
        · exact hrecord _
      · exact hrecord _
      · exact hrecord _

/-- **What `slash_double_sign` can do.** -/
theorem slashDoubleSign_cases (id : UInt64) (vm : ValidatorManager) :
    (vm.validators.lookup id = none ∧
      (slashDoubleSign id vm).1 = .err (.validatorNotFound id) ∧
      Kept vm (slashDoubleSign id vm).2) ∨
    ∃ v, vm.validators.lookup id = some v ∧
      (((slashDoubleSign id vm).1 = .ok () ∧
        Rebuilt (vm.withRecord id (punished v)) (slashDoubleSign id vm).2) ∨
      ((slashDoubleSign id vm).1 = .panic ∧
        ¬ (v.slashedAmount.toNat + (penalty v).toNat < 2 ^ 128 ∧
          totalStakeOf (vm.withRecord id (punished v)).elected < 2 ^ 128))) := by
  set g := vm.guards.acquire .validators .write
  set m : Exec PacyteError ValidatorManager Unit := onRecord id punish >>= fun _ => updateValidatorSet
  have hrun : slashDoubleSign id vm = ((m (vm.withGuards g)).1,
      (m (vm.withGuards g)).2.withGuards
        ⟨vm.guards.held, (m (vm.withGuards g)).2.guards.clash⟩) := rfl
  rw [hrun, show m (vm.withGuards g) = _ from slashDoubleSign_run id (vm.withGuards g),
    show (vm.withGuards g).validators = vm.validators from rfl]
  cases hlookup : vm.validators.lookup id with
  | none => exact Or.inl ⟨rfl, rfl, rfl, rfl, rfl, rfl, rfl, rfl⟩
  | some v =>
      refine Or.inr ⟨v, rfl, ?_⟩
      dsimp only
      split_ifs with hfits
      · have hupdate := updateValidatorSet_cases (vm.withRecord id (punished v)) g
        rcases hupdate with ⟨hok, hrebuilt⟩ | ⟨hpanic, hover⟩
        · exact Or.inl ⟨hok, hrebuilt.of_withGuards _⟩
        · exact Or.inr ⟨hpanic, fun hand => hover hand.2⟩
      · exact Or.inr ⟨rfl, fun hand => hfits hand.1⟩

end ValidatorManager

namespace RegistryOp

open ValidatorManager

/-- The outcome of a call, without the number that `register_validator` returns. -/
def outcome (op : RegistryOp) (vm : ValidatorManager) : Outcome PacyteError Unit :=
  match op with
  | register address publicKey stake => (registerValidator address publicKey stake vm).1.discard
  | slash id amount => (ValidatorManager.slash id amount vm).1
  | slashDoubleSign id => (ValidatorManager.slashDoubleSign id vm).1

/-- The state after a call. -/
def after (op : RegistryOp) (vm : ValidatorManager) : ValidatorManager :=
  match op with
  | register address publicKey stake => (registerValidator address publicKey stake vm).2
  | slash id amount => (ValidatorManager.slash id amount vm).2
  | slashDoubleSign id => (ValidatorManager.slashDoubleSign id vm).2

end RegistryOp
