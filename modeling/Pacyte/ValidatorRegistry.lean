/-
# The records and the active set

In every state of the validator manager the records carry their own numbers, all numbers are
below the next one, and the addresses lead to them (`Registered`).

The set that is built from the records does not depend on the order in which the map lists
them, except among equal stakes: it has exactly the active records, the strongest first
(`Lists`, `elected_lists`).
-/
import Pacyte.ValidatorSteps
import Pacyte.Runs

namespace ValidatorManager

/-! ## Records -/

/-- What holds of the records in every reachable state. -/
structure Registered (vm : ValidatorManager) : Prop where
  ids : ∀ id r, vm.validators.lookup id = some r → r.id = id
  fresh : ∀ id r, vm.validators.lookup id = some r → id.toNat < vm.nextValidatorId.toNat
  supported : ∀ id r, vm.validators.lookup id = some r → r.avx512Supported = true
  bounded : ∀ id r, vm.validators.lookup id = some r →
    r.slashedAmount.toNat + r.stake.toNat < 2 ^ 128
  power : ∀ id r, vm.validators.lookup id = some r →
    r.votingPower = ValidatorRecord.calculateVotingPower r.stake
  addresses : ∀ address id, vm.addressToId.lookup address = some id ↔
    ∃ r, vm.validators.lookup id = some r ∧ r.address = address

theorem mem_records_iff (vm : ValidatorManager) (r : ValidatorRecord) :
    r ∈ vm.records ↔ ∃ id, vm.validators.lookup id = some r := by
  unfold records
  rw [List.mem_map]
  constructor
  · rintro ⟨⟨id, r'⟩, hmem, rfl⟩
    exact ⟨id, (Map.mem_toPairs _ _ _).mp hmem⟩
  · rintro ⟨id, hlookup⟩
    exact ⟨(id, r), (Map.mem_toPairs _ _ _).mpr hlookup, rfl⟩

theorem Registered.mem_records {vm : ValidatorManager} (hvm : Registered vm) (r : ValidatorRecord) :
    r ∈ vm.records ↔ vm.validators.lookup r.id = some r := by
  rw [mem_records_iff]
  constructor
  · rintro ⟨id, hlookup⟩
    rwa [hvm.ids id r hlookup]
  · intro hlookup
    exact ⟨r.id, hlookup⟩

theorem Registered.nodup_records {vm : ValidatorManager} (hvm : Registered vm) :
    vm.records.Nodup := by
  have hids : vm.records.map ValidatorRecord.id = vm.validators.toPairs.map Prod.fst := by
    unfold records
    rw [List.map_map]
    apply List.map_congr_left
    rintro ⟨id, r⟩ hmem
    exact hvm.ids id r ((Map.mem_toPairs _ _ _).mp hmem)
  apply List.Nodup.of_map ValidatorRecord.id
  rw [hids, Map.map_fst_toPairs]
  exact vm.validators.keys_nodup

/-! ## Active records -/

/-- The numbers of the active records. -/
def activeIds (vm : ValidatorManager) : Finset UInt64 :=
  ((vm.validators.toPairs.filter fun e => e.2.isActive).map Prod.fst).toFinset

theorem mem_activeIds (vm : ValidatorManager) (id : UInt64) :
    id ∈ vm.activeIds ↔ ∃ r, vm.validators.lookup id = some r ∧ r.isActive = true := by
  unfold activeIds
  rw [List.mem_toFinset, List.mem_map]
  constructor
  · rintro ⟨⟨id, r⟩, hmem, rfl⟩
    obtain ⟨hmem, hactive⟩ := List.mem_filter.mp hmem
    exact ⟨r, (Map.mem_toPairs _ _ _).mp hmem, hactive⟩
  · rintro ⟨r, hlookup, hactive⟩
    exact ⟨(id, r), List.mem_filter.mpr ⟨(Map.mem_toPairs _ _ _).mpr hlookup, hactive⟩, rfl⟩

/-- The count of `register_validator`. -/
theorem activeRecords_eq_card (vm : ValidatorManager) : vm.activeRecords = vm.activeIds.card := by
  have hnodup : ((vm.validators.toPairs.filter fun e => e.2.isActive).map Prod.fst).Nodup := by
    refine List.Nodup.sublist (List.Sublist.map Prod.fst List.filter_sublist) ?_
    rw [Map.map_fst_toPairs]
    exact vm.validators.keys_nodup
  rw [activeIds, List.toFinset_card_of_nodup hnodup, List.length_map,
    ← List.countP_eq_length_filter, activeRecords, records, List.countP_map]
  rfl

/-- The stake of a validator. -/
def stakeAt (vm : ValidatorManager) (id : UInt64) : ℕ :=
  ((vm.validators.lookup id).map fun r => r.stake.toNat).getD 0

/-- The sum of the stakes of the active records. -/
def activeStake (vm : ValidatorManager) : ℕ := ∑ id ∈ vm.activeIds, vm.stakeAt id

/-! ## The set -/

/-- The list has exactly the active records, the strongest first. -/
structure Lists (vm : ValidatorManager) (l : List ValidatorRecord) : Prop where
  nodup : l.Nodup
  mem : ∀ r, r ∈ l ↔ vm.validators.lookup r.id = some r ∧ r.isActive = true
  sorted : l.Pairwise fun a b => b.stake ≤ a.stake

/-- The numbers of a list of the active records. -/
theorem Lists.ids {vm : ValidatorManager} {l : List ValidatorRecord} (h : Lists vm l) :
    (l.map ValidatorRecord.id).Nodup ∧
      (Registered vm → (l.map ValidatorRecord.id).toFinset = vm.activeIds) := by
  constructor
  · apply List.Nodup.map_on _ h.nodup
    intro a ha b hb hid
    have hlookup := ((h.mem a).mp ha).1
    rw [hid, ((h.mem b).mp hb).1] at hlookup
    exact (Option.some.inj hlookup).symm
  · intro hvm
    ext id
    rw [List.mem_toFinset, List.mem_map, mem_activeIds]
    constructor
    · rintro ⟨r, hr, rfl⟩
      exact ⟨r, (h.mem r).mp hr⟩
    · rintro ⟨r, hlookup, hactive⟩
      have hid := hvm.ids id r hlookup
      refine ⟨r, (h.mem r).mpr ⟨?_, hactive⟩, hid⟩
      rwa [hid]

/-- The stakes of a list of the active records. -/
theorem Lists.total {vm : ValidatorManager} (hvm : Registered vm)
    {l : List ValidatorRecord} (h : Lists vm l) : totalStakeOf l = vm.activeStake := by
  have hstakes : l.map (fun r => r.stake.toNat) = (l.map ValidatorRecord.id).map vm.stakeAt := by
    rw [List.map_map]
    apply List.map_congr_left
    intro r hr
    rw [Function.comp_apply, stakeAt, ((h.mem r).mp hr).1]
    rfl
  unfold totalStakeOf
  rw [hstakes, activeStake, ← h.ids.2 hvm,
    List.sum_toFinset vm.stakeAt h.ids.1]

instance : Std.Total fun a b : ValidatorRecord => b.stake ≤ a.stake :=
  ⟨fun a b => BitVec.le_total b.stake a.stake⟩

instance : IsTrans ValidatorRecord fun a b => b.stake ≤ a.stake :=
  ⟨fun _ _ _ hab hbc => BitVec.le_trans hbc hab⟩

/-- **The set that is built next has exactly the active records.** -/
theorem Registered.elected_lists {vm : ValidatorManager} (hvm : Registered vm)
    (hcount : vm.activeRecords ≤ maxValidators) : Lists vm vm.elected := by
  set candidates := ((vm.orders 0).list vm.records).filter fun v => v.isActive && v.avx512Supported
  have hperm : candidates.Perm (vm.records.filter fun v => v.isActive && v.avx512Supported) :=
    ((vm.orders 0).perm vm.records).filter _
  have hsort : (sortByStake candidates).Perm candidates := List.perm_insertionSort _ _
  have hmem : ∀ r, r ∈ candidates ↔ vm.validators.lookup r.id = some r ∧ r.isActive = true := by
    intro r
    rw [hperm.mem_iff, List.mem_filter, hvm.mem_records, Bool.and_eq_true]
    constructor
    · rintro ⟨hlookup, hactive, -⟩
      exact ⟨hlookup, hactive⟩
    · rintro ⟨hlookup, hactive⟩
      exact ⟨hlookup, hactive, hvm.supported _ r hlookup⟩
  -- the cut after 21 validators does not cut anything
  have hlength : (sortByStake candidates).length ≤ maxValidators := by
    rw [hsort.length_eq, hperm.length_eq]
    refine le_trans ?_ hcount
    rw [activeRecords, List.countP_eq_length_filter]
    apply List.Sublist.length_le
    apply List.monotone_filter_right
    intro r hr
    exact (Bool.and_eq_true_iff.mp hr).1
  have helected : vm.elected = sortByStake candidates := List.take_of_length_le hlength
  rw [helected]
  refine ⟨?_, fun r => ?_, List.pairwise_insertionSort _ _⟩
  · rw [hsort.nodup_iff, hperm.nodup_iff]
    exact hvm.nodup_records.filter _
  · rw [hsort.mem_iff, hmem]

/-! ## Changing a record -/

/-- What a call may do to a record: it takes stake away and does not activate. -/
structure Revises (v v' : ValidatorRecord) : Prop where
  id : v'.id = v.id
  address : v'.address = v.address
  supported : v'.avx512Supported = v.avx512Supported
  stake : v'.stake.toNat ≤ v.stake.toNat
  total : v'.slashedAmount.toNat + v'.stake.toNat = v.slashedAmount.toNat + v.stake.toNat
  power : v'.votingPower = ValidatorRecord.calculateVotingPower v'.stake
  active : v'.isActive = true → v.isActive = true

theorem revises_slashedBy {v : ValidatorRecord} {amount : U128} (hle : amount ≤ v.stake)
    (hfits : v.slashedAmount.toNat + amount.toNat < 2 ^ 128) : Revises v (v.slashedBy amount) := by
  have hnat : amount.toNat ≤ v.stake.toNat := BitVec.le_def.mp hle
  have hstake : (v.stake - amount).toNat = v.stake.toNat - amount.toNat :=
    BitVec.toNat_sub_of_le hle
  have hslashed : (v.slashedAmount + amount).toNat = v.slashedAmount.toNat + amount.toNat := by
    rw [BitVec.toNat_add]
    exact Nat.mod_eq_of_lt hfits
  refine ⟨rfl, rfl, rfl, ?_, ?_, rfl, ?_⟩
  · show (v.stake - amount).toNat ≤ v.stake.toNat
    omega
  · show (v.slashedAmount + amount).toNat + (v.stake - amount).toNat = _
    omega
  · unfold ValidatorRecord.isActive ValidatorRecord.slashedBy
    dsimp only
    split_ifs
    · intro h
      exact absurd (of_decide_eq_true h) (by decide)
    · exact id

theorem revises_punished {v : ValidatorRecord}
    (hfits : v.slashedAmount.toNat + (penalty v).toNat < 2 ^ 128) : Revises v (punished v) := by
  have hslash := revises_slashedBy (BitVec.not_lt.mp (penalty_le v)) hfits
  refine ⟨hslash.id, hslash.address, hslash.supported, hslash.stake, hslash.total, hslash.power, ?_⟩
  intro h
  exact absurd (of_decide_eq_true h) (show ¬ ValidatorStatus.slashed = .active by decide)

theorem Registered.revises_inactive {vm : ValidatorManager} (hvm : Registered vm) {id : UInt64}
    {v : ValidatorRecord} (h : vm.validators.lookup id = some v) :
    Revises v { v with status := .inactive } := by
  refine ⟨rfl, rfl, rfl, le_refl _, rfl, hvm.power id v h, ?_⟩
  intro hactive
  exact absurd (of_decide_eq_true hactive) (show ¬ ValidatorStatus.inactive = .active by decide)

theorem lookup_withRecord_ne (vm : ValidatorManager) {id id' : UInt64} (v : ValidatorRecord)
    (h : id' ≠ id) : (vm.withRecord id v).validators.lookup id' = vm.validators.lookup id' :=
  AList.lookup_insert_ne h

/-- Lookups in a state with a changed record. -/
theorem lookup_withRecord_cases {vm : ValidatorManager} {id id' : UInt64} {v r : ValidatorRecord}
    (h : (vm.withRecord id v).validators.lookup id' = some r) :
    (id' = id ∧ r = v) ∨ (id' ≠ id ∧ vm.validators.lookup id' = some r) := by
  by_cases hid : id' = id
  · subst hid
    rw [lookup_withRecord] at h
    exact Or.inl ⟨rfl, (Option.some.inj h).symm⟩
  · rw [lookup_withRecord_ne vm v hid] at h
    exact Or.inr ⟨hid, h⟩

/-- A changed record keeps the records in order. -/
theorem Registered.withRecord {vm : ValidatorManager} (hvm : Registered vm) {id : UInt64}
    {v v' : ValidatorRecord} (hlookup : vm.validators.lookup id = some v) (h : Revises v v') :
    Registered (vm.withRecord id v') := by
  refine ⟨fun id' r hr => ?_, fun id' r hr => ?_, fun id' r hr => ?_, fun id' r hr => ?_,
    fun id' r hr => ?_, fun address id' => ?_⟩
  · rcases lookup_withRecord_cases hr with ⟨rfl, rfl⟩ | ⟨-, hold⟩
    · rw [h.id, hvm.ids _ v hlookup]
    · exact hvm.ids id' r hold
  · rcases lookup_withRecord_cases hr with ⟨rfl, -⟩ | ⟨-, hold⟩
    · exact hvm.fresh _ v hlookup
    · exact hvm.fresh id' r hold
  · rcases lookup_withRecord_cases hr with ⟨rfl, rfl⟩ | ⟨-, hold⟩
    · rw [h.supported]
      exact hvm.supported _ v hlookup
    · exact hvm.supported id' r hold
  · rcases lookup_withRecord_cases hr with ⟨rfl, rfl⟩ | ⟨-, hold⟩
    · rw [h.total]
      exact hvm.bounded _ v hlookup
    · exact hvm.bounded id' r hold
  · rcases lookup_withRecord_cases hr with ⟨rfl, rfl⟩ | ⟨-, hold⟩
    · exact h.power
    · exact hvm.power id' r hold
  · show vm.addressToId.lookup address = some id' ↔ _
    rw [hvm.addresses]
    by_cases hid : id' = id
    · subst hid
      rw [lookup_withRecord, hlookup]
      constructor
      · rintro ⟨r, hr, haddress⟩
        cases hr
        exact ⟨v', rfl, h.address.trans haddress⟩
      · rintro ⟨r, hr, haddress⟩
        cases hr
        exact ⟨v, rfl, h.address.symm.trans haddress⟩
    · rw [lookup_withRecord_ne vm v' hid]

/-- A changed record does not become active. -/
theorem activeIds_withRecord_subset {vm : ValidatorManager} {id : UInt64} {v v' : ValidatorRecord}
    (hlookup : vm.validators.lookup id = some v) (h : Revises v v') :
    (vm.withRecord id v').activeIds ⊆ vm.activeIds := by
  intro id' hid'
  obtain ⟨r, hr, hactive⟩ := (mem_activeIds _ _).mp hid'
  rw [mem_activeIds]
  rcases lookup_withRecord_cases hr with ⟨rfl, rfl⟩ | ⟨-, hold⟩
  · exact ⟨v, hlookup, h.active hactive⟩
  · exact ⟨r, hold, hactive⟩

/-- The stakes do not grow with a changed record. -/
theorem activeStake_withRecord_le {vm : ValidatorManager} {id : UInt64} {v v' : ValidatorRecord}
    (hlookup : vm.validators.lookup id = some v) (h : Revises v v') :
    (vm.withRecord id v').activeStake ≤ vm.activeStake := by
  have hpoint : ∀ id', (vm.withRecord id v').stakeAt id' ≤ vm.stakeAt id' := by
    intro id'
    unfold stakeAt
    by_cases hid : id' = id
    · subst hid
      rw [lookup_withRecord, hlookup]
      exact h.stake
    · rw [lookup_withRecord_ne vm v' hid]
  calc (vm.withRecord id v').activeStake
      ≤ ∑ id ∈ (vm.withRecord id v').activeIds, vm.stakeAt id :=
        Finset.sum_le_sum fun id' _ => hpoint id'
    _ ≤ vm.activeStake :=
        Finset.sum_le_sum_of_subset (activeIds_withRecord_subset hlookup h)

/-! ## A new record -/

theorem Registered.lookup_next {vm : ValidatorManager} (hvm : Registered vm) :
    vm.validators.lookup vm.nextValidatorId = none := by
  cases hlookup : vm.validators.lookup vm.nextValidatorId with
  | none => rfl
  | some r => exact absurd (hvm.fresh _ r hlookup) (lt_irrefl _)

theorem lookup_installed_cases {vm : ValidatorManager} {address : Address} {publicKey : Bytes}
    {stake : U128} {id : UInt64} {r : ValidatorRecord}
    (h : (vm.installed address publicKey stake).validators.lookup id = some r) :
    (id = vm.nextValidatorId ∧
      r = ValidatorRecord.new vm.nextValidatorId address publicKey stake vm.hardware) ∨
    (id ≠ vm.nextValidatorId ∧ vm.validators.lookup id = some r) :=
  lookup_withRecord_cases h

theorem lookup_installed (vm : ValidatorManager) (address : Address) (publicKey : Bytes)
    (stake : U128) :
    (vm.installed address publicKey stake).validators.lookup vm.nextValidatorId
      = some (ValidatorRecord.new vm.nextValidatorId address publicKey stake vm.hardware) :=
  AList.lookup_insert _

theorem lookup_installed_ne (vm : ValidatorManager) (address : Address) (publicKey : Bytes)
    (stake : U128) {id : UInt64} (h : id ≠ vm.nextValidatorId) :
    (vm.installed address publicKey stake).validators.lookup id = vm.validators.lookup id :=
  AList.lookup_insert_ne h

/-- A new record under the next number, for a new address. -/
theorem Registered.installed {vm : ValidatorManager} (hvm : Registered vm) {address : Address}
    (publicKey : Bytes) {stake : U128} (hadmits : vm.Admits address stake)
    (hnext : vm.nextValidatorId.toNat + 1 < 2 ^ 64) :
    Registered (vm.installed address publicKey stake) := by
  have hword : (vm.nextValidatorId + 1).toNat = vm.nextValidatorId.toNat + 1 :=
    Exec.toNat_add_of_fits (b := 1) hnext
  refine ⟨fun id r hr => ?_, fun id r hr => ?_, fun id r hr => ?_, fun id r hr => ?_,
    fun id r hr => ?_, fun address' id => ?_⟩
  · rcases lookup_installed_cases hr with ⟨rfl, rfl⟩ | ⟨-, hold⟩
    · rfl
    · exact hvm.ids id r hold
  · show id.toNat < (vm.nextValidatorId + 1).toNat
    rw [hword]
    rcases lookup_installed_cases hr with ⟨rfl, -⟩ | ⟨-, hold⟩
    · exact Nat.lt_succ_self _
    · exact Nat.lt_succ_of_lt (hvm.fresh id r hold)
  · rcases lookup_installed_cases hr with ⟨rfl, rfl⟩ | ⟨-, hold⟩
    · exact hadmits.1
    · exact hvm.supported id r hold
  · rcases lookup_installed_cases hr with ⟨rfl, rfl⟩ | ⟨-, hold⟩
    · show 0 + stake.toNat < 2 ^ 128
      rw [Nat.zero_add]
      exact stake.isLt
    · exact hvm.bounded id r hold
  · rcases lookup_installed_cases hr with ⟨rfl, rfl⟩ | ⟨-, hold⟩
    · rfl
    · exact hvm.power id r hold
  · -- the new address leads to the new number, the others to what they led to
    show (vm.addressToId.insert address vm.nextValidatorId).lookup address' = some id ↔ _
    have hnone : ∀ r, vm.validators.lookup id = some r → r.address ≠ address := by
      intro r hr haddress
      have hknown := (hvm.addresses address id).mpr ⟨r, hr, haddress⟩
      rw [hadmits.2.2] at hknown
      cases hknown
    by_cases haddress : address' = address
    · subst haddress
      rw [AList.lookup_insert]
      constructor
      · intro hid
        cases hid
        exact ⟨_, lookup_installed vm address' publicKey stake, rfl⟩
      · rintro ⟨r, hr, hr'⟩
        rcases lookup_installed_cases hr with ⟨rfl, -⟩ | ⟨-, hold⟩
        · rfl
        · exact absurd hr' (hnone r hold)
    · rw [AList.lookup_insert_ne haddress, hvm.addresses]
      constructor
      · rintro ⟨r, hr, hr'⟩
        have hne : id ≠ vm.nextValidatorId := by
          rintro rfl
          rw [hvm.lookup_next] at hr
          cases hr
        exact ⟨r, (lookup_installed_ne vm address publicKey stake hne).trans hr, hr'⟩
      · rintro ⟨r, hr, hr'⟩
        rcases lookup_installed_cases hr with ⟨-, rfl⟩ | ⟨-, hold⟩
        · exact absurd hr'.symm haddress
        · exact ⟨r, hold, hr'⟩

theorem Registered.activeIds_installed {vm : ValidatorManager} (hvm : Registered vm)
    (address : Address) (publicKey : Bytes) (stake : U128) :
    (vm.installed address publicKey stake).activeIds = insert vm.nextValidatorId vm.activeIds := by
  ext id
  rw [Finset.mem_insert, mem_activeIds, mem_activeIds]
  constructor
  · rintro ⟨r, hr, hactive⟩
    rcases lookup_installed_cases hr with ⟨rfl, -⟩ | ⟨-, hold⟩
    · exact Or.inl rfl
    · exact Or.inr ⟨r, hold, hactive⟩
  · rintro (rfl | ⟨r, hr, hactive⟩)
    · exact ⟨_, lookup_installed vm address publicKey stake, rfl⟩
    · have hne : id ≠ vm.nextValidatorId := by
        rintro rfl
        rw [hvm.lookup_next] at hr
        cases hr
      exact ⟨r, (lookup_installed_ne vm address publicKey stake hne).trans hr, hactive⟩

theorem Registered.next_notMem_activeIds {vm : ValidatorManager} (hvm : Registered vm) :
    vm.nextValidatorId ∉ vm.activeIds := by
  rw [mem_activeIds]
  rintro ⟨r, hr, -⟩
  rw [hvm.lookup_next] at hr
  cases hr

theorem Registered.activeStake_installed {vm : ValidatorManager} (hvm : Registered vm)
    (address : Address) (publicKey : Bytes) (stake : U128) :
    (vm.installed address publicKey stake).activeStake = stake.toNat + vm.activeStake := by
  unfold activeStake
  rw [hvm.activeIds_installed, Finset.sum_insert hvm.next_notMem_activeIds]
  congr 1
  · unfold stakeAt
    rw [lookup_installed]
    rfl
  · apply Finset.sum_congr rfl
    intro id hid
    have hne : id ≠ vm.nextValidatorId := by
      rintro rfl
      exact hvm.next_notMem_activeIds hid
    unfold stakeAt
    rw [lookup_installed_ne vm address publicKey stake hne]

/-! ## The weakest record -/

/-- `min_by_key` finds a smallest element of the list. -/
theorem minByStake_spec {l : List ValidatorRecord} {m : ValidatorRecord}
    (h : minByStake l = some m) : m ∈ l ∧ ∀ r ∈ l, m.stake ≤ r.stake := by
  cases l with
  | nil => cases h
  | cons first rest =>
      -- the fold keeps the smallest of what it has seen
      have hfold : ∀ (rest : List ValidatorRecord) (m₀ : ValidatorRecord),
          let m := rest.foldl (fun m w => if w.stake < m.stake then w else m) m₀
          (m = m₀ ∨ m ∈ rest) ∧ m.stake ≤ m₀.stake ∧ ∀ r ∈ rest, m.stake ≤ r.stake := by
        intro rest
        induction rest with
        | nil => exact fun m₀ => ⟨Or.inl rfl, BitVec.le_refl _, fun r hr => absurd hr List.not_mem_nil⟩
        | cons w rest ih =>
            intro m₀
            obtain ⟨hmem, hle, hall⟩ := ih (if w.stake < m₀.stake then w else m₀)
            rw [List.foldl_cons]
            refine ⟨?_, ?_, fun r hr => ?_⟩
            · rcases hmem with hmem | hmem
              · rw [hmem]
                split_ifs
                · exact Or.inr List.mem_cons_self
                · exact Or.inl rfl
              · exact Or.inr (List.mem_cons_of_mem _ hmem)
            · refine BitVec.le_trans hle ?_
              split_ifs with hless
              · exact BitVec.le_of_lt hless
              · exact BitVec.le_refl _
            · rcases List.mem_cons.mp hr with rfl | hr
              · refine BitVec.le_trans hle ?_
                split_ifs with hless
                · exact BitVec.le_refl _
                · exact BitVec.not_lt.mp hless
              · exact hall r hr
      obtain ⟨hmem, hle, hall⟩ := hfold rest first
      cases h
      refine ⟨?_, fun r hr => ?_⟩
      · rcases hmem with hmem | hmem
        · rw [hmem]
          exact List.mem_cons_self
        · exact List.mem_cons_of_mem _ hmem
      · rcases List.mem_cons.mp hr with rfl | hr
        · exact hle
        · exact hall r hr

/-- The weakest record is an active one, and no active record has less stake. -/
theorem Registered.weakest_spec {vm : ValidatorManager} (hvm : Registered vm)
    {weak : ValidatorRecord} (h : vm.weakest = some weak) :
    vm.validators.lookup weak.id = some weak ∧ weak.isActive = true ∧
      ∀ id r, vm.validators.lookup id = some r → r.isActive = true → weak.stake ≤ r.stake := by
  obtain ⟨hmem, hle⟩ := minByStake_spec h
  have hperm := ((vm.orders 0).perm vm.records).filter fun v => v.isActive
  rw [hperm.mem_iff, List.mem_filter, hvm.mem_records] at hmem
  refine ⟨hmem.1, hmem.2, fun id r hr hactive => hle r ?_⟩
  rw [hperm.mem_iff, List.mem_filter]
  exact ⟨(mem_records_iff vm r).mpr ⟨id, hr⟩, hactive⟩

/-- The state before the new record is installed in place of the weakest one. -/
theorem replacedState_eq {vm : ValidatorManager} (address : Address) (publicKey : Bytes)
    (stake : U128) {weak : ValidatorRecord} (h : vm.validators.lookup weak.id = some weak) :
    vm.replacedState address publicKey stake weak
      = (vm.iterated.withRecord weak.id { weak with status := .inactive }).installed address
          publicKey stake := by
  have hdeactivate : deactivate weak.id vm.iterated
      = vm.iterated.withRecord weak.id { weak with status := .inactive } := by
    unfold deactivate
    rw [show vm.iterated.validators.lookup weak.id = some weak from h]
    rfl
  rw [replacedState, hdeactivate]

/-- The weakest record is no longer active after it gave way. -/
theorem activeIds_deactivated (vm : ValidatorManager) (id : UInt64) (v : ValidatorRecord) :
    (vm.withRecord id { v with status := .inactive }).activeIds = vm.activeIds.erase id := by
  ext id'
  rw [Finset.mem_erase, mem_activeIds, mem_activeIds]
  constructor
  · rintro ⟨r, hr, hactive⟩
    rcases lookup_withRecord_cases hr with ⟨-, rfl⟩ | ⟨hne, hold⟩
    · exact absurd (of_decide_eq_true hactive) (show ¬ ValidatorStatus.inactive = .active by decide)
    · exact ⟨hne, r, hold, hactive⟩
  · rintro ⟨hne, r, hr, hactive⟩
    exact ⟨r, (lookup_withRecord_ne vm _ hne).trans hr, hactive⟩

/-! ## Counting the active records -/

/-- A changed record does not add to the active ones. -/
theorem activeRecords_withRecord_le {vm : ValidatorManager} {id : UInt64} {v v' : ValidatorRecord}
    (hlookup : vm.validators.lookup id = some v) (h : Revises v v') :
    (vm.withRecord id v').activeRecords ≤ vm.activeRecords := by
  rw [activeRecords_eq_card, activeRecords_eq_card]
  exact Finset.card_le_card (activeIds_withRecord_subset hlookup h)

/-- A new record is one more. -/
theorem Registered.activeRecords_installed_le {vm : ValidatorManager} (hvm : Registered vm)
    (address : Address) (publicKey : Bytes) (stake : U128) :
    (vm.installed address publicKey stake).activeRecords ≤ vm.activeRecords + 1 := by
  rw [activeRecords_eq_card, activeRecords_eq_card, hvm.activeIds_installed]
  exact Finset.card_insert_le _ _

/-- **Replacing the weakest record**: the records stay in order, their number is the same,
and the stakes grow by the new one at most. -/
theorem Registered.replaced {vm : ValidatorManager} (hvm : Registered vm) {address : Address}
    (publicKey : Bytes) {stake : U128} (hadmits : vm.Admits address stake)
    (hnext : vm.nextValidatorId.toNat + 1 < 2 ^ 64) {weak : ValidatorRecord}
    (hweak : vm.weakest = some weak) :
    Registered (vm.replacedState address publicKey stake weak) ∧
      (vm.replacedState address publicKey stake weak).activeRecords ≤ vm.activeRecords ∧
      (vm.replacedState address publicKey stake weak).activeStake
        ≤ vm.activeStake + stake.toNat := by
  obtain ⟨hlookup, hactive, -⟩ := hvm.weakest_spec hweak
  have hrevises := hvm.revises_inactive hlookup
  set vm₁ := vm.iterated.withRecord weak.id { weak with status := .inactive }
  have hiterated : Registered vm.iterated :=
    ⟨hvm.ids, hvm.fresh, hvm.supported, hvm.bounded, hvm.power, hvm.addresses⟩
  have hreg : Registered vm₁ :=
    hiterated.withRecord hlookup hrevises
  have herase : vm₁.activeIds = vm.activeIds.erase weak.id :=
    activeIds_deactivated vm.iterated weak.id weak
  have hstake : vm₁.activeStake ≤ vm.activeStake :=
    activeStake_withRecord_le (show vm.iterated.validators.lookup weak.id = some weak from hlookup)
      hrevises
  have hmem : weak.id ∈ vm.activeIds := (mem_activeIds vm weak.id).mpr ⟨weak, hlookup, hactive⟩
  rw [replacedState_eq address publicKey stake hlookup]
  refine ⟨hreg.installed publicKey hadmits hnext, ?_, ?_⟩
  · calc (vm₁.installed address publicKey stake).activeRecords
        ≤ vm₁.activeRecords + 1 := hreg.activeRecords_installed_le address publicKey stake
      _ = vm.activeRecords := by
        rw [activeRecords_eq_card, activeRecords_eq_card, herase, Finset.card_erase_add_one hmem]
  · rw [hreg.activeStake_installed]
    omega

end ValidatorManager
