/-
# The active set mirrors the records

`current_set` is a copy that some calls refresh.  A `slash` that leaves its validator active
does not: the set keeps the old stake and voting power.  In runs without such a slash, and
without a stake that makes the sum overflow, the set is what the records say
(`mirrors_run`).
-/
import Pacyte.ValidatorRegistry

namespace ValidatorManager

/-! ## The invariant -/

/-- The active set mirrors the records. -/
structure Mirrors (vm : ValidatorManager) : Prop where
  registered : Registered vm
  hardware : vm.hardware.avx512Supported = true
  count : vm.activeRecords ≤ maxValidators
  set : ∃ l, Lists vm l ∧ vm.currentSet.validators = l.map ValidatorRecord.info ∧
    vm.currentSet.totalStake.toNat = totalStakeOf l

/-- The same records under the same numbers and addresses, and the same set. -/
structure Unchanged (vm vm' : ValidatorManager) : Prop where
  validators : ∀ id, vm'.validators.lookup id = vm.validators.lookup id
  addressToId : ∀ address, vm'.addressToId.lookup address = vm.addressToId.lookup address
  nextValidatorId : vm'.nextValidatorId = vm.nextValidatorId
  hardware : vm'.hardware = vm.hardware
  currentSet : vm'.currentSet = vm.currentSet

theorem Kept.unchanged {vm vm' : ValidatorManager} (h : Kept vm vm') : Unchanged vm vm' := by
  refine ⟨fun id => ?_, fun address => ?_, h.nextValidatorId, h.hardware, h.currentSet⟩
  · rw [h.validators]
  · rw [h.addressToId]

/-- A record that is written back as it was. -/
theorem Kept.unchanged_of_same {vm vm' : ValidatorManager} {id : UInt64} {v : ValidatorRecord}
    (hlookup : vm.validators.lookup id = some v) (h : Kept (vm.withRecord id v) vm') :
    Unchanged vm vm' := by
  refine ⟨fun id' => ?_, fun address => ?_, h.nextValidatorId, h.hardware, h.currentSet⟩
  · rw [h.validators]
    by_cases hid : id' = id
    · subst hid
      rw [lookup_withRecord, hlookup]
    · exact lookup_withRecord_ne vm v hid
  · rw [h.addressToId]
    rfl

theorem activeIds_congr {vm vm' : ValidatorManager}
    (h : ∀ id, vm'.validators.lookup id = vm.validators.lookup id) :
    vm'.activeIds = vm.activeIds := by
  ext id
  rw [mem_activeIds, mem_activeIds, h]

theorem Registered.congr {vm vm' : ValidatorManager} (hvm : Registered vm)
    (hrecords : ∀ id, vm'.validators.lookup id = vm.validators.lookup id)
    (haddresses : ∀ address, vm'.addressToId.lookup address = vm.addressToId.lookup address)
    (hnext : vm'.nextValidatorId = vm.nextValidatorId) : Registered vm' := by
  refine ⟨fun id r hr => ?_, fun id r hr => ?_, fun id r hr => ?_, fun id r hr => ?_,
    fun id r hr => ?_, fun address id => ?_⟩
  · exact hvm.ids id r ((hrecords id).symm.trans hr)
  · rw [hnext]
    exact hvm.fresh id r ((hrecords id).symm.trans hr)
  · exact hvm.supported id r ((hrecords id).symm.trans hr)
  · exact hvm.bounded id r ((hrecords id).symm.trans hr)
  · exact hvm.power id r ((hrecords id).symm.trans hr)
  · rw [haddresses, hvm.addresses, hrecords]

theorem Lists.congr {vm vm' : ValidatorManager} {l : List ValidatorRecord} (h : Lists vm l)
    (hrecords : ∀ id, vm'.validators.lookup id = vm.validators.lookup id) : Lists vm' l := by
  refine ⟨h.nodup, fun r => ?_, h.sorted⟩
  rw [hrecords]
  exact h.mem r

theorem Unchanged.mirrors {vm vm' : ValidatorManager} (h : Unchanged vm vm') (hvm : Mirrors vm) :
    Mirrors vm' := by
  obtain ⟨l, hlists, hset, htotal⟩ := hvm.set
  refine ⟨hvm.registered.congr h.validators h.addressToId h.nextValidatorId, ?_, ?_, l,
    hlists.congr h.validators, ?_, ?_⟩
  · rw [h.hardware]
    exact hvm.hardware
  · rw [activeRecords_eq_card, activeIds_congr h.validators, ← activeRecords_eq_card]
    exact hvm.count
  · rw [h.currentSet]
    exact hset
  · rw [h.currentSet]
    exact htotal

/-- A set that was built from the records mirrors them. -/
theorem Rebuilt.mirrors {vm vm' : ValidatorManager} (h : Rebuilt vm vm') (hvm : Registered vm)
    (hhardware : vm.hardware.avx512Supported = true) (hcount : vm.activeRecords ≤ maxValidators) :
    Mirrors vm' := by
  have hrecords : ∀ id, vm'.validators.lookup id = vm.validators.lookup id := by
    intro id
    rw [h.validators]
  have hlists := hvm.elected_lists hcount
  refine ⟨hvm.congr hrecords (fun address => ?_) h.nextValidatorId, ?_, ?_, vm.elected,
    hlists.congr hrecords, ?_, ?_⟩
  · rw [h.addressToId]
  · rw [h.hardware]
    exact hhardware
  · rw [activeRecords_eq_card, activeIds_congr hrecords, ← activeRecords_eq_card]
    exact hcount
  · rw [h.currentSet]
    rfl
  · rw [h.currentSet]
    show (BitVec.ofNat 128 (totalStakeOf vm.elected)).toNat = _
    rw [BitVec.toNat_ofNat]
    exact Nat.mod_eq_of_lt h.fits

/-- The stakes of the active records fit into 128 bits. -/
theorem Mirrors.activeStake_lt {vm : ValidatorManager} (hvm : Mirrors vm) :
    vm.activeStake < 2 ^ 128 := by
  obtain ⟨l, hlists, -, htotal⟩ := hvm.set
  rw [← hlists.total hvm.registered, ← htotal]
  exact vm.currentSet.totalStake.isLt

theorem mirrors_new (hardware : Hardware) (orders : ℕ → Listing ValidatorRecord)
    (h : hardware.avx512Supported = true) : Mirrors (new hardware orders) := by
  have hnone : ∀ id, (new hardware orders).validators.lookup id = none := fun _ => rfl
  refine ⟨⟨?_, ?_, ?_, ?_, ?_, ?_⟩, h, Nat.zero_le _, [], ⟨List.nodup_nil, ?_, List.Pairwise.nil⟩,
    rfl, rfl⟩
  · intro id r hr
    cases (hnone id).symm.trans hr
  · intro id r hr
    cases (hnone id).symm.trans hr
  · intro id r hr
    cases (hnone id).symm.trans hr
  · intro id r hr
    cases (hnone id).symm.trans hr
  · intro id r hr
    cases (hnone id).symm.trans hr
  · intro address id
    refine iff_of_false (fun hid => (nomatch hid)) ?_
    rintro ⟨r, hr, -⟩
    cases (hnone id).symm.trans hr
  · intro r
    refine iff_of_false List.not_mem_nil ?_
    rintro ⟨hr, -⟩
    cases (hnone r.id).symm.trans hr

/-! ## Registering -/

/-- There is a number for the new record, and the stakes with the new one fit into 128
bits. -/
def Room (vm : ValidatorManager) (stake : U128) : Prop :=
  vm.nextValidatorId.toNat + 1 < 2 ^ 64 ∧ vm.activeStake + stake.toNat < 2 ^ 128

/-- A set with room for one more. -/
theorem Mirrors.installed {vm : ValidatorManager} (hvm : Mirrors vm) {address : Address}
    (publicKey : Bytes) {stake : U128} (hadmits : vm.Admits address stake)
    (hroom : vm.Room stake) (hcount : vm.activeRecords < maxValidators) :
    Registered (vm.installed address publicKey stake) ∧
      (vm.installed address publicKey stake).activeRecords ≤ maxValidators ∧
      totalStakeOf (vm.installed address publicKey stake).elected < 2 ^ 128 := by
  have hreg := hvm.registered.installed publicKey hadmits hroom.1
  have hle := le_trans (hvm.registered.activeRecords_installed_le address publicKey stake) hcount
  refine ⟨hreg, hle, ?_⟩
  rw [(hreg.elected_lists hle).total hreg, hvm.registered.activeStake_installed, Nat.add_comm]
  exact hroom.2

/-- A full set, in which the weakest record gives way. -/
theorem Mirrors.replaced {vm : ValidatorManager} (hvm : Mirrors vm) {address : Address}
    (publicKey : Bytes) {stake : U128} (hadmits : vm.Admits address stake)
    (hroom : vm.Room stake) {weak : ValidatorRecord} (hweak : vm.weakest = some weak) :
    Registered (vm.replacedState address publicKey stake weak) ∧
      (vm.replacedState address publicKey stake weak).activeRecords ≤ maxValidators ∧
      totalStakeOf (vm.replacedState address publicKey stake weak).elected < 2 ^ 128 := by
  obtain ⟨hreg, hcount, hstake⟩ := hvm.registered.replaced publicKey hadmits hroom.1 hweak
  have hle := le_trans hcount hvm.count
  refine ⟨hreg, hle, ?_⟩
  rw [(hreg.elected_lists hle).total hreg]
  exact lt_of_le_of_lt hstake hroom.2

/-! ## Slashing -/

/-- A record that was changed, and a set that is built after it. -/
theorem Mirrors.revised {vm : ValidatorManager} (hvm : Mirrors vm) {id : UInt64}
    {v v' : ValidatorRecord} (hlookup : vm.validators.lookup id = some v) (h : Revises v v') :
    Registered (vm.withRecord id v') ∧ (vm.withRecord id v').activeRecords ≤ maxValidators ∧
      totalStakeOf (vm.withRecord id v').elected < 2 ^ 128 := by
  have hreg := hvm.registered.withRecord hlookup h
  have hle := le_trans (activeRecords_withRecord_le hlookup h) hvm.count
  refine ⟨hreg, hle, ?_⟩
  rw [(hreg.elected_lists hle).total hreg]
  exact lt_of_le_of_lt (activeStake_withRecord_le hlookup h) hvm.activeStake_lt

/-- A record that was not active and is not: the set need not be built again. -/
theorem Mirrors.of_inactive {vm vm' : ValidatorManager} (hvm : Mirrors vm) {id : UInt64}
    {v v' : ValidatorRecord} (hlookup : vm.validators.lookup id = some v) (h : Revises v v')
    (hv : ¬ v.isActive = true) (hkept : Kept (vm.withRecord id v') vm') : Mirrors vm' := by
  obtain ⟨hreg, hle, -⟩ := hvm.revised hlookup h
  obtain ⟨l, hlists, hset, htotal⟩ := hvm.set
  have hv' : ¬ v'.isActive = true := fun hactive => hv (h.active hactive)
  refine hkept.unchanged.mirrors ⟨hreg, hvm.hardware, hle, l, ⟨hlists.nodup, fun r => ?_,
    hlists.sorted⟩, hset, htotal⟩
  rw [hlists.mem]
  by_cases hid : r.id = id
  · subst hid
    rw [hlookup, lookup_withRecord]
    refine iff_of_false ?_ ?_
    · rintro ⟨hr, hactive⟩
      cases hr
      exact hv hactive
    · rintro ⟨hr, hactive⟩
      cases hr
      exact hv' hactive
  · rw [lookup_withRecord_ne vm v' hid]

/-- The slash takes something away from an active validator and leaves it active. -/
def LeavesStale (vm : ValidatorManager) (id : UInt64) (amount : U128) : Prop :=
  ∃ v, vm.validators.lookup id = some v ∧ v.isActive = true ∧ 0 < amount.toNat ∧
    amount ≤ v.stake ∧ minValidatorStake ≤ v.stake - amount

/-- A slash by nothing. -/
theorem Registered.slashedBy_zero {vm : ValidatorManager} (hvm : Registered vm) {id : UInt64}
    {v : ValidatorRecord} (hlookup : vm.validators.lookup id = some v) {amount : U128}
    (hzero : amount.toNat = 0) (hstatus : (v.slashedBy amount).status ≠ .inactive) :
    v.slashedBy amount = v := by
  have hamount : amount = 0 := BitVec.eq_of_toNat_eq hzero
  subst hamount
  have hstake : v.stake - 0 = v.stake := BitVec.sub_zero _
  have hslashed : v.slashedAmount + 0 = v.slashedAmount := BitVec.add_zero _
  unfold ValidatorRecord.slashedBy at hstatus ⊢
  rw [hstake] at hstatus ⊢
  rw [hslashed, ← hvm.power id v hlookup]
  split_ifs at hstatus ⊢ with hmin
  · exact absurd rfl hstatus
  · rfl

/-! ## Runs -/

/-- The call keeps the set fresh: a new validator for which there is room, or a slash that
does not leave an active validator with less stake. -/
def Refreshes (vm : ValidatorManager) : RegistryOp → Prop
  | .register _ _ stake => vm.Room stake
  | .slash id amount => ¬ vm.LeavesStale id amount
  | .slashDoubleSign _ => True

/-- **One call** keeps the set in line with the records. -/
theorem Mirrors.after {vm : ValidatorManager} (hvm : Mirrors vm) (op : RegistryOp)
    (h : vm.Refreshes op) : Mirrors (op.after vm) := by
  cases op with
  | register address publicKey stake =>
      rcases registerValidator_cases address publicKey stake vm with ⟨e, -, hkept⟩ |
        ⟨hadmits, hcount, hcase⟩ | ⟨hadmits, -, weak, hweak, -, hcase⟩
      · exact hkept.unchanged.mirrors hvm
      · obtain ⟨hreg, hle, hfits⟩ := hvm.installed publicKey hadmits h hcount
        rcases hcase with ⟨-, -, hrebuilt⟩ | ⟨-, hover⟩
        · exact hrebuilt.mirrors hreg hvm.hardware hle
        · exact absurd ⟨h.1, hfits⟩ hover
      · obtain ⟨hreg, hle, hfits⟩ := hvm.replaced publicKey hadmits h hweak
        rcases hcase with ⟨-, -, hrebuilt⟩ | ⟨-, hover⟩
        · exact hrebuilt.mirrors hreg hvm.hardware hle
        · exact absurd ⟨h.1, hfits⟩ hover
  | slash id amount =>
      rcases slash_cases id amount vm with ⟨-, -, hkept⟩ | ⟨v, hlookup, hcase⟩
      · exact hkept.unchanged.mirrors hvm
      · have hbounded := hvm.registered.bounded id v hlookup
        rcases hcase with ⟨-, -, hkept⟩ | ⟨hle, hfits, -, hcase⟩ | ⟨hle, hfits, hstatus, -, hkept⟩ |
          ⟨hle, -, hover⟩
        · exact (hkept.unchanged_of_same hlookup).mirrors hvm
        · obtain ⟨hreg, hcount, htotal⟩ := hvm.revised hlookup (revises_slashedBy hle hfits)
          rcases hcase with ⟨-, hrebuilt⟩ | ⟨-, hover⟩
          · exact hrebuilt.mirrors hreg hvm.hardware hcount
          · exact absurd htotal hover
        · by_cases hactive : v.isActive = true
          · -- an active record stays active: nothing was taken away
            have hmin : minValidatorStake ≤ v.stake - amount := by
              rw [← BitVec.not_lt]
              intro hless
              apply hstatus
              unfold ValidatorRecord.slashedBy
              rw [if_pos hless]
            have hzero : amount.toNat = 0 := by
              by_contra hpos
              exact h ⟨v, hlookup, hactive, Nat.pos_of_ne_zero hpos, hle, hmin⟩
            rw [hvm.registered.slashedBy_zero hlookup hzero hstatus] at hkept
            exact (hkept.unchanged_of_same hlookup).mirrors hvm
          · exact hvm.of_inactive hlookup (revises_slashedBy hle hfits) hactive hkept
        · have hnat := BitVec.le_def.mp hle
          exact absurd (show v.slashedAmount.toNat + amount.toNat < 2 ^ 128 by omega) hover
  | slashDoubleSign id =>
      rcases slashDoubleSign_cases id vm with ⟨-, -, hkept⟩ | ⟨v, hlookup, hcase⟩
      · exact hkept.unchanged.mirrors hvm
      · have hbounded := hvm.registered.bounded id v hlookup
        have hnat := BitVec.le_def.mp (BitVec.not_lt.mp (penalty_le v))
        have hfits : v.slashedAmount.toNat + (penalty v).toNat < 2 ^ 128 := by omega
        obtain ⟨hreg, hcount, htotal⟩ := hvm.revised hlookup (revises_punished hfits)
        rcases hcase with ⟨-, hrebuilt⟩ | ⟨-, hover⟩
        · exact hrebuilt.mirrors hreg hvm.hardware hcount
        · exact absurd ⟨hfits, htotal⟩ hover

/-- A call that returns an error changes nothing. -/
theorem unchanged_of_err (vm : ValidatorManager) (op : RegistryOp) {e : PacyteError}
    (h : op.outcome vm = .err e) : Unchanged vm (op.after vm) := by
  cases op with
  | register address publicKey stake =>
      change (registerValidator address publicKey stake vm).1.discard = .err e at h
      rcases registerValidator_cases address publicKey stake vm with ⟨e, -, hkept⟩ |
        ⟨-, -, hcase⟩ | ⟨-, -, weak, -, -, hcase⟩
      · exact hkept.unchanged
      · rcases hcase with ⟨hok, -⟩ | ⟨hpanic, -⟩
        · rw [hok] at h
          cases h
        · rw [hpanic] at h
          cases h
      · rcases hcase with ⟨hok, -⟩ | ⟨hpanic, -⟩
        · rw [hok] at h
          cases h
        · rw [hpanic] at h
          cases h
  | slash id amount =>
      change (slash id amount vm).1 = .err e at h
      rcases slash_cases id amount vm with ⟨-, -, hkept⟩ | ⟨v, hlookup, hcase⟩
      · exact hkept.unchanged
      · rcases hcase with ⟨-, -, hkept⟩ | ⟨-, -, -, hcase⟩ | ⟨-, -, -, hok, -⟩ | ⟨-, hpanic, -⟩
        · exact hkept.unchanged_of_same hlookup
        · rcases hcase with ⟨hok, -⟩ | ⟨hpanic, -⟩
          · rw [hok] at h
            cases h
          · rw [hpanic] at h
            cases h
        · rw [hok] at h
          cases h
        · rw [hpanic] at h
          cases h
  | slashDoubleSign id =>
      change (slashDoubleSign id vm).1 = .err e at h
      rcases slashDoubleSign_cases id vm with ⟨-, -, hkept⟩ | ⟨v, -, hcase⟩
      · exact hkept.unchanged
      · rcases hcase with ⟨hok, -⟩ | ⟨hpanic, -⟩
        · rw [hok] at h
          cases h
        · rw [hpanic] at h
          cases h

/-- **The active set mirrors the records.**  In every run of `register_validator`, `slash`
and `slash_double_sign` from a new manager on sufficient hardware, in which each registered
stake has room and no slash takes a part of the stake of a validator that stays active: at
most 21 records are active, every address leads to the one record that has it, the set has
exactly the active records with their stakes and powers, the strongest first, and its total
is the sum of the stakes.  A call that returns an error changes nothing of this. -/
theorem mirrors_run (hardware : Hardware) (orders : ℕ → Listing ValidatorRecord)
    (hhardware : hardware.avx512Supported = true) (ops : List RegistryOp)
    (hops : Runs.Along RegistryOp.after Refreshes (new hardware orders) ops) :
    let vm := Runs.run RegistryOp.after (new hardware orders) ops
    vm.activeRecords ≤ maxValidators ∧
      (∀ address id, vm.addressToId.lookup address = some id ↔
        ∃ r, vm.validators.lookup id = some r ∧ r.address = address) ∧
      (∃ l : List ValidatorRecord, l.Nodup ∧
        (∀ r, r ∈ l ↔ vm.validators.lookup r.id = some r ∧ r.isActive = true) ∧
        l.Pairwise (fun a b => b.stake ≤ a.stake) ∧
        vm.currentSet.validators = l.map ValidatorRecord.info ∧
        vm.currentSet.totalStake.toNat = totalStakeOf l) ∧
      ∀ (op : RegistryOp) (e : PacyteError), op.outcome vm = .err e →
        Unchanged vm (op.after vm) := by
  intro vm
  have hvm : Mirrors vm :=
    hops.invariant (fun _ op hvm h => hvm.after op h) (mirrors_new hardware orders hhardware)
  obtain ⟨l, hlists, hset, htotal⟩ := hvm.set
  exact ⟨hvm.count, hvm.registered.addresses,
    ⟨l, hlists.nodup, hlists.mem, hlists.sorted, hset, htotal⟩,
    fun op e h => unchanged_of_err vm op h⟩

end ValidatorManager

section Example

open Sample ValidatorManager

/-- A slash of a millionth: the record has less stake and power, the set has the old
ones. -/
theorem small_slash_leaves_set_stale :
    let vm := Runs.run RegistryOp.after (new processor inOrder)
      [.register (Vector.replicate 32 1) [] 2000000000000, .slash 1 1000000]
    (vm.validators.lookup 1).map (fun r => (r.stake, r.votingPower, r.status))
        = some (1999999000000, 1999999, .active) ∧
      vm.currentSet.validators.map (fun v => (v.stake, v.votingPower)) = [(2000000000000, 2000000)] ∧
      vm.currentSet.totalStake = 2000000000000 := by
  intro vm
  refine ⟨?_, ?_, ?_⟩
  · decide +kernel
  · decide +kernel
  · decide +kernel

/-- Three validators register. -/
def Sample.threeRegistered : List RegistryOp :=
  [.register (Vector.replicate 32 1) [] 3000000000000,
    .register (Vector.replicate 32 2) [] 2000000000000,
    .register (Vector.replicate 32 3) [] 4000000000000]

/-- One of them loses all of its stake: the set mirrors the two that are left, the stronger one
first. -/
theorem full_slash_refreshes :
    let vm := Runs.run RegistryOp.after (new processor inOrder)
      (threeRegistered ++ [.slash 2 2000000000000])
    vm.currentSet.validators.map (fun v => (v.id, v.stake))
        = [(3, 4000000000000), (1, 3000000000000)] ∧
      ∃ l : List ValidatorRecord, l.Nodup ∧
        (∀ r, r ∈ l ↔ vm.validators.lookup r.id = some r ∧ r.isActive = true) ∧
        l.Pairwise (fun a b => b.stake ≤ a.stake) ∧
        vm.currentSet.validators = l.map ValidatorRecord.info ∧
        vm.currentSet.totalStake.toNat = totalStakeOf l := by
  have hops : Runs.Along RegistryOp.after Refreshes (new processor inOrder)
      (threeRegistered ++ [.slash 2 2000000000000]) := by
    rw [Runs.along_append]
    refine ⟨⟨⟨?_, ?_⟩, ⟨?_, ?_⟩, ⟨?_, ?_⟩, trivial⟩, ?_, trivial⟩
    · decide +kernel
    · decide +kernel
    · decide +kernel
    · decide +kernel
    · decide +kernel
    · decide +kernel
    · rintro ⟨v, hlookup, -, -, -, hmin⟩
      have hrecord : ((Runs.run RegistryOp.after (new processor inOrder)
          threeRegistered).validators.lookup 2).map (fun v => v.stake)
          = some 2000000000000 := by decide +kernel
      rw [hlookup, Option.map_some, Option.some.injEq] at hrecord
      rw [hrecord] at hmin
      exact absurd hmin (by decide)
  refine ⟨by decide +kernel, ?_⟩
  exact (mirrors_run processor inOrder rfl _ hops).2.2.1

end Example
