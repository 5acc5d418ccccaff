/-
# Agreement on the proposer

Two nodes that process the same calls have the same records, but their hash maps list them
in different orders.  The order decides among validators with equal stakes: who is first in
the set, and who gives way to a new one.  While no two active validators have the same
stake, the sets are the same (`same_proposer`).
-/
import Pacyte.ActiveSet

namespace ValidatorManager

/-! ## Two managers with the same records -/

/-- A record without what the processor's brand has decided. -/
def face (r : ValidatorRecord) : ValidatorRecord := { r with hardwareVerified := false }

/-- The records, addresses and sets of two managers are the same. -/
structure Alike (vm vm' : ValidatorManager) : Prop where
  validators : ∀ id, (vm.validators.lookup id).map face = (vm'.validators.lookup id).map face
  addressToId : ∀ address, vm.addressToId.lookup address = vm'.addressToId.lookup address
  nextValidatorId : vm.nextValidatorId = vm'.nextValidatorId
  currentSet : vm.currentSet.validators = vm'.currentSet.validators

/-- No two active validators have the same stake. -/
def Distinct (vm : ValidatorManager) : Prop :=
  ∀ id id' r r', vm.validators.lookup id = some r → vm.validators.lookup id' = some r' →
    r.isActive = true → r'.isActive = true → r.stake = r'.stake → id = id'

/-- The records are in order, and there are not too many active ones. -/
structure Orderly (vm : ValidatorManager) : Prop where
  registered : Registered vm
  hardware : vm.hardware.avx512Supported = true
  count : vm.activeRecords ≤ maxValidators

/-- A record of one manager is found in the other one. -/
theorem Alike.lookup {vm vm' : ValidatorManager}
    (h : ∀ id, (vm.validators.lookup id).map face = (vm'.validators.lookup id).map face)
    {id : UInt64} {r : ValidatorRecord} (hr : vm.validators.lookup id = some r) :
    ∃ r', vm'.validators.lookup id = some r' ∧ face r = face r' := by
  have hface := h id
  rw [hr, Option.map_some] at hface
  obtain ⟨r', hr', hsame⟩ := Option.map_eq_some_iff.mp hface.symm
  exact ⟨r', hr', hsame.symm⟩

theorem isActive_of_face {r r' : ValidatorRecord} (h : face r = face r') :
    r.isActive = r'.isActive := by
  show (face r).isActive = (face r').isActive
  rw [h]

theorem stake_of_face {r r' : ValidatorRecord} (h : face r = face r') : r.stake = r'.stake := by
  show (face r).stake = (face r').stake
  rw [h]

theorem id_of_face {r r' : ValidatorRecord} (h : face r = face r') : r.id = r'.id :=
  by
  show (face r).id = (face r').id
  rw [h]

theorem activeRecords_of_alike {vm vm' : ValidatorManager}
    (h : ∀ id, (vm.validators.lookup id).map face = (vm'.validators.lookup id).map face) :
    vm.activeRecords = vm'.activeRecords := by
  rw [activeRecords_eq_card, activeRecords_eq_card]
  congr 1
  ext id
  rw [mem_activeIds, mem_activeIds]
  constructor
  · rintro ⟨r, hr, hactive⟩
    obtain ⟨r', hr', hface⟩ := Alike.lookup h hr
    exact ⟨r', hr', (isActive_of_face hface).symm.trans hactive⟩
  · rintro ⟨r, hr, hactive⟩
    obtain ⟨r', hr', hface⟩ := Alike.lookup (fun id => (h id).symm) hr
    exact ⟨r', hr', (isActive_of_face hface).symm.trans hactive⟩

/-! ## The order of the set -/

/-- **Without ties the order of the map does not matter.** -/
theorem info_of_lists {vm vm' : ValidatorManager}
    (h : ∀ id, (vm.validators.lookup id).map face = (vm'.validators.lookup id).map face)
    (hdistinct : Distinct vm) {l l' : List ValidatorRecord} (hl : Lists vm l)
    (hl' : Lists vm' l') : l.map ValidatorRecord.info = l'.map ValidatorRecord.info := by
  -- the faces are the same list: both are sorted, and equal stakes are equal records
  have hnodup : ∀ {vm : ValidatorManager} {l : List ValidatorRecord}, Lists vm l →
      (l.map face).Nodup := by
    intro vm l hl
    apply List.Nodup.of_map ValidatorRecord.id
    rw [List.map_map]
    exact hl.ids.1
  have hmem : ∀ {vm vm' : ValidatorManager} {l l' : List ValidatorRecord},
      (∀ id, (vm.validators.lookup id).map face = (vm'.validators.lookup id).map face) →
      Lists vm l → Lists vm' l' → ∀ a ∈ l.map face, a ∈ l'.map face := by
    intro vm vm' l l' h hl hl' a ha
    obtain ⟨r, hr, rfl⟩ := List.mem_map.mp ha
    obtain ⟨hlookup, hactive⟩ := (hl.mem r).mp hr
    obtain ⟨r', hr', hface⟩ := Alike.lookup h hlookup
    refine List.mem_map.mpr ⟨r', (hl'.mem r').mpr ⟨?_, ?_⟩, hface.symm⟩
    · rwa [← id_of_face hface]
    · rwa [← isActive_of_face hface]
  have hperm : (l.map face).Perm (l'.map face) := by
    rw [List.perm_ext_iff_of_nodup (hnodup hl) (hnodup hl')]
    exact fun a => ⟨hmem h hl hl' a, hmem (fun id => (h id).symm) hl' hl a⟩
  have hfaces : l.map face = l'.map face := by
    have hantisymm : ∀ a b, a ∈ l.map face → b ∈ l'.map face → b.stake ≤ a.stake →
        a.stake ≤ b.stake → a = b := by
      intro a b ha hb hab hba
      have ha' := hmem (fun id => (h id).symm) hl' hl b hb
      obtain ⟨r, hr, rfl⟩ := List.mem_map.mp ha
      obtain ⟨r', hr', rfl⟩ := List.mem_map.mp ha'
      obtain ⟨hlookup, hactive⟩ := (hl.mem r).mp hr
      obtain ⟨hlookup', hactive'⟩ := (hl.mem r').mp hr'
      have hstake : r.stake = r'.stake := BitVec.le_antisymm hba hab
      have hid := hdistinct _ _ r r' hlookup hlookup' hactive hactive' hstake
      rw [hid, hlookup'] at hlookup
      rw [Option.some.inj hlookup]
    have hsorted : (l.map face).Pairwise fun a b => b.stake ≤ a.stake :=
      List.pairwise_map.mpr hl.sorted
    have hsorted' : (l'.map face).Pairwise fun a b => b.stake ≤ a.stake :=
      List.pairwise_map.mpr hl'.sorted
    exact hperm.eq_of_pairwise hantisymm hsorted hsorted'
  have hinfo : ∀ l : List ValidatorRecord,
      l.map ValidatorRecord.info = (l.map face).map ValidatorRecord.info := by
    intro l
    rw [List.map_map]
    rfl
  rw [hinfo l, hinfo l', hfaces]

/-- Without ties the weakest record is the same one. -/
theorem weakest_of_alike {vm vm' : ValidatorManager}
    (h : ∀ id, (vm.validators.lookup id).map face = (vm'.validators.lookup id).map face)
    (hvm : Registered vm) (hvm' : Registered vm') (hdistinct : Distinct vm)
    {weak weak' : ValidatorRecord} (hweak : vm.weakest = some weak)
    (hweak' : vm'.weakest = some weak') : face weak = face weak' := by
  obtain ⟨hlookup, hactive, hle⟩ := hvm.weakest_spec hweak
  obtain ⟨hlookup', hactive', hle'⟩ := hvm'.weakest_spec hweak'
  obtain ⟨r, hr, hface⟩ := Alike.lookup h hlookup
  obtain ⟨r', hr', hface'⟩ := Alike.lookup (fun id => (h id).symm) hlookup'
  have hrActive : r.isActive = true := (isActive_of_face hface).symm.trans hactive
  have hrActive' : r'.isActive = true := (isActive_of_face hface').symm.trans hactive'
  have hstake : weak.stake = r'.stake := by
    apply BitVec.le_antisymm (hle _ r' hr' hrActive')
    rw [stake_of_face hface, ← stake_of_face hface']
    exact hle' _ r hr hrActive
  have hid := hdistinct _ _ weak r' hlookup hr' hactive hrActive' hstake
  rw [hid, hr'] at hlookup
  rw [← Option.some.inj hlookup, hface']

/-! ## One call on both managers -/

/-- The sets that are built from the same records without ties. -/
theorem Rebuilt.alike {vm vm' after after' : ValidatorManager} (h : Rebuilt vm after)
    (h' : Rebuilt vm' after')
    (hrecords : ∀ id, (vm.validators.lookup id).map face = (vm'.validators.lookup id).map face)
    (haddresses : ∀ address, vm.addressToId.lookup address = vm'.addressToId.lookup address)
    (hnext : vm.nextValidatorId = vm'.nextValidatorId) (hvm : Registered vm)
    (hvm' : Registered vm') (hcount : vm.activeRecords ≤ maxValidators)
    (hcount' : vm'.activeRecords ≤ maxValidators) (hdistinct : Distinct after) :
    Alike after after' := by
  have hdistinct₁ : Distinct vm := by
    unfold Distinct at hdistinct
    rwa [h.validators] at hdistinct
  refine ⟨fun id => ?_, fun address => ?_, ?_, ?_⟩
  · rw [h.validators, h'.validators, hrecords]
  · rw [h.addressToId, h'.addressToId, haddresses]
  · rw [h.nextValidatorId, h'.nextValidatorId, hnext]
  · rw [h.currentSet, h'.currentSet]
    exact info_of_lists hrecords hdistinct₁ (hvm.elected_lists hcount) (hvm'.elected_lists hcount')

/-- A record that was changed in the same way on both sides. -/
theorem lookups_withRecord {vm vm' : ValidatorManager}
    (h : ∀ id, (vm.validators.lookup id).map face = (vm'.validators.lookup id).map face)
    (id : UInt64) {v v' : ValidatorRecord} (hface : face v = face v') :
    ∀ id', ((vm.withRecord id v).validators.lookup id').map face
      = ((vm'.withRecord id v').validators.lookup id').map face := by
  intro id'
  by_cases hid : id' = id
  · subst hid
    rw [lookup_withRecord, lookup_withRecord, Option.map_some, Option.map_some, hface]
  · rw [lookup_withRecord_ne vm v hid, lookup_withRecord_ne vm' v' hid, h]

/-- A new record on both sides. -/
theorem lookups_installed {vm vm' : ValidatorManager}
    (h : ∀ id, (vm.validators.lookup id).map face = (vm'.validators.lookup id).map face)
    (hnext : vm.nextValidatorId = vm'.nextValidatorId)
    (hhardware : vm.hardware.avx512Supported = vm'.hardware.avx512Supported)
    (address : Address) (publicKey : Bytes) (stake : U128) :
    ∀ id, ((vm.installed address publicKey stake).validators.lookup id).map face
      = ((vm'.installed address publicKey stake).validators.lookup id).map face := by
  have hface : face (ValidatorRecord.new vm.nextValidatorId address publicKey stake vm.hardware)
      = face (ValidatorRecord.new vm'.nextValidatorId address publicKey stake vm'.hardware) := by
    unfold face ValidatorRecord.new
    rw [hnext, hhardware]
  have hrecord := lookups_withRecord h vm.nextValidatorId hface
  intro id
  have hid := hrecord id
  unfold installed
  rw [← hnext]
  rw [← hnext] at hid
  exact hid

theorem addresses_installed {vm vm' : ValidatorManager}
    (h : ∀ address, vm.addressToId.lookup address = vm'.addressToId.lookup address)
    (hnext : vm.nextValidatorId = vm'.nextValidatorId) (address : Address) (publicKey : Bytes)
    (stake : U128) :
    ∀ address', (vm.installed address publicKey stake).addressToId.lookup address'
      = (vm'.installed address publicKey stake).addressToId.lookup address' := by
  intro address'
  show (vm.addressToId.insert address vm.nextValidatorId).lookup address'
    = (vm'.addressToId.insert address vm'.nextValidatorId).lookup address'
  rw [hnext]
  by_cases haddress : address' = address
  · rw [haddress, AList.lookup_insert, AList.lookup_insert]
  · rw [AList.lookup_insert_ne haddress, AList.lookup_insert_ne haddress, h]

theorem face_slashedBy {v v' : ValidatorRecord} (h : face v = face v') (amount : U128) :
    face (v.slashedBy amount) = face (v'.slashedBy amount) := by
  show (face v).slashedBy amount = (face v').slashedBy amount
  rw [h]

theorem face_punished {v v' : ValidatorRecord} (h : face v = face v') :
    face (punished v) = face (punished v') := by
  show punished (face v) = punished (face v')
  rw [h]

theorem Orderly.rebuilt {vm after : ValidatorManager} (h : Rebuilt vm after)
    (hvm : Registered vm) (hhardware : vm.hardware.avx512Supported = true)
    (hcount : vm.activeRecords ≤ maxValidators) : Orderly after := by
  have hmirrors := h.mirrors hvm hhardware hcount
  exact ⟨hmirrors.registered, hmirrors.hardware, hmirrors.count⟩

theorem Orderly.kept {vm after : ValidatorManager} (h : Kept vm after) (hvm : Registered vm)
    (hhardware : vm.hardware.avx512Supported = true)
    (hcount : vm.activeRecords ≤ maxValidators) : Orderly after := by
  refine ⟨hvm.congr h.unchanged.validators h.unchanged.addressToId h.nextValidatorId, ?_, ?_⟩
  · rw [h.hardware]
    exact hhardware
  · rw [activeRecords_eq_card, activeIds_congr h.unchanged.validators, ← activeRecords_eq_card]
    exact hcount

/-- What a successful registration does, in a set with room and in a full one. -/
theorem Orderly.register_ok {vm : ValidatorManager} (hvm : Orderly vm) {address : Address}
    {publicKey : Bytes} {stake : U128}
    (hok : (RegistryOp.register address publicKey stake).outcome vm = .ok ()) :
    ∃ vm₁, Registered vm₁ ∧ vm₁.hardware = vm.hardware ∧ vm₁.activeRecords ≤ maxValidators ∧
      Rebuilt vm₁ ((RegistryOp.register address publicKey stake).after vm) ∧
      ((vm.activeRecords < maxValidators ∧ vm₁ = vm.installed address publicKey stake) ∨
      (maxValidators ≤ vm.activeRecords ∧ ∃ weak, vm.weakest = some weak ∧
        vm.validators.lookup weak.id = some weak ∧
        vm₁ = (vm.iterated.withRecord weak.id { weak with status := .inactive }).installed address
          publicKey stake)) := by
  change (registerValidator address publicKey stake vm).1.discard = .ok () at hok
  rcases registerValidator_cases address publicKey stake vm with ⟨e, herr, -⟩ |
    ⟨hadmits, hcount, ⟨-, hnext, hrebuilt⟩ | ⟨hpanic, -⟩⟩ |
    ⟨hadmits, hfull, weak, hweak, -, ⟨-, hnext, hrebuilt⟩ | ⟨hpanic, -⟩⟩
  · rw [herr] at hok
    cases hok
  · exact ⟨_, hvm.registered.installed publicKey hadmits hnext, rfl,
      le_trans (hvm.registered.activeRecords_installed_le address publicKey stake) hcount, hrebuilt,
      Or.inl ⟨hcount, rfl⟩⟩
  · rw [hpanic] at hok
    cases hok
  · obtain ⟨hreg, hle, -⟩ := hvm.registered.replaced publicKey hadmits hnext hweak
    have hlookup := (hvm.registered.weakest_spec hweak).1
    rw [replacedState_eq address publicKey stake hlookup] at hreg hle hrebuilt
    exact ⟨_, hreg, rfl, le_trans hle hvm.count, hrebuilt, Or.inr ⟨hfull, weak, hweak, hlookup, rfl⟩⟩
  · rw [hpanic] at hok
    cases hok

/-- What a successful slash does. -/
theorem Orderly.slash_ok {vm : ValidatorManager} (hvm : Orderly vm) {id : UInt64} {amount : U128}
    (hok : (RegistryOp.slash id amount).outcome vm = .ok ()) :
    ∃ v, vm.validators.lookup id = some v ∧ Registered (vm.withRecord id (v.slashedBy amount)) ∧
      (vm.withRecord id (v.slashedBy amount)).activeRecords ≤ maxValidators ∧
      (((v.slashedBy amount).status = .inactive ∧ Rebuilt (vm.withRecord id (v.slashedBy amount))
        ((RegistryOp.slash id amount).after vm)) ∨
      ((v.slashedBy amount).status ≠ .inactive ∧ Kept (vm.withRecord id (v.slashedBy amount))
        ((RegistryOp.slash id amount).after vm))) := by
  change (slash id amount vm).1 = .ok () at hok
  rcases slash_cases id amount vm with ⟨-, herr, -⟩ | ⟨v, hlookup, hcase⟩
  · rw [herr] at hok
    cases hok
  · rcases hcase with ⟨-, herr, -⟩ | ⟨hle, hfits, hstatus, hcase⟩ | ⟨hle, hfits, hstatus, -, hkept⟩ |
      ⟨-, hpanic, -⟩
    · rw [herr] at hok
      cases hok
    · have hrevises := revises_slashedBy hle hfits
      refine ⟨v, hlookup, hvm.registered.withRecord hlookup hrevises,
        le_trans (activeRecords_withRecord_le hlookup hrevises) hvm.count, ?_⟩
      rcases hcase with ⟨-, hrebuilt⟩ | ⟨hpanic, -⟩
      · exact Or.inl ⟨hstatus, hrebuilt⟩
      · rw [hpanic] at hok
        cases hok
    · have hrevises := revises_slashedBy hle hfits
      exact ⟨v, hlookup, hvm.registered.withRecord hlookup hrevises,
        le_trans (activeRecords_withRecord_le hlookup hrevises) hvm.count,
        Or.inr ⟨hstatus, hkept⟩⟩
    · rw [hpanic] at hok
      cases hok

/-- What a successful slash for a double signature does. -/
theorem Orderly.slashDoubleSign_ok {vm : ValidatorManager} (hvm : Orderly vm) {id : UInt64}
    (hok : (RegistryOp.slashDoubleSign id).outcome vm = .ok ()) :
    ∃ v, vm.validators.lookup id = some v ∧ Registered (vm.withRecord id (punished v)) ∧
      (vm.withRecord id (punished v)).activeRecords ≤ maxValidators ∧
      Rebuilt (vm.withRecord id (punished v)) ((RegistryOp.slashDoubleSign id).after vm) := by
  change (slashDoubleSign id vm).1 = .ok () at hok
  rcases slashDoubleSign_cases id vm with ⟨-, herr, -⟩ | ⟨v, hlookup, ⟨-, hrebuilt⟩ | ⟨hpanic, -⟩⟩
  · rw [herr] at hok
    cases hok
  · have hbounded := hvm.registered.bounded id v hlookup
    have hnat := BitVec.le_def.mp (BitVec.not_lt.mp (penalty_le v))
    have hrevises := revises_punished
      (show v.slashedAmount.toNat + (penalty v).toNat < 2 ^ 128 by omega)
    exact ⟨v, hlookup, hvm.registered.withRecord hlookup hrevises,
      le_trans (activeRecords_withRecord_le hlookup hrevises) hvm.count, hrebuilt⟩
  · rw [hpanic] at hok
    cases hok

/-- **One successful call** keeps two managers alike, if there are no ties before and
after. -/
theorem Alike.after {vm vm' : ValidatorManager} (h : Alike vm vm') (hvm : Orderly vm)
    (hvm' : Orderly vm') (hdistinct : Distinct vm) (op : RegistryOp)
    (hok : op.outcome vm = .ok ()) (hok' : op.outcome vm' = .ok ())
    (hdistinct' : Distinct (op.after vm)) :
    Alike (op.after vm) (op.after vm') ∧ Orderly (op.after vm) ∧ Orderly (op.after vm') := by
  have hhardware : vm.hardware.avx512Supported = vm'.hardware.avx512Supported :=
    hvm.hardware.trans hvm'.hardware.symm
  cases op with
  | register address publicKey stake =>
      obtain ⟨vm₁, hreg, hhw, hcount, hrebuilt, hcase⟩ := hvm.register_ok hok
      obtain ⟨vm₁', hreg', hhw', hcount', hrebuilt', hcase'⟩ := hvm'.register_ok hok'
      have horderly := Orderly.rebuilt hrebuilt hreg (by rw [hhw]; exact hvm.hardware) hcount
      have horderly' := Orderly.rebuilt hrebuilt' hreg' (by rw [hhw']; exact hvm'.hardware) hcount'
      have hactive := activeRecords_of_alike h.validators
      refine ⟨?_, horderly, horderly'⟩
      rcases hcase with ⟨hroom, rfl⟩ | ⟨hfull, weak, hweak, hlookup, rfl⟩
      · rcases hcase' with ⟨-, rfl⟩ | ⟨hfull', -⟩
        · exact hrebuilt.alike hrebuilt'
            (lookups_installed h.validators h.nextValidatorId hhardware address publicKey stake)
            (addresses_installed h.addressToId h.nextValidatorId address publicKey stake)
            (congrArg (· + 1) h.nextValidatorId) hreg hreg' hcount hcount' hdistinct'
        · rw [← hactive] at hfull'
          exact absurd hroom (not_lt.mpr hfull')
      · rcases hcase' with ⟨hroom', -⟩ | ⟨-, weak', hweak', hlookup', rfl⟩
        · rw [← hactive] at hroom'
          exact absurd hroom' (not_lt.mpr hfull)
        · have hface := weakest_of_alike h.validators hvm.registered hvm'.registered hdistinct hweak
            hweak'
          have hinactive : face { weak with status := .inactive }
              = face { weak' with status := .inactive } := by
            show { face weak with status := .inactive } = { face weak' with status := .inactive }
            rw [hface]
          have hlookups : ∀ id, (vm.iterated.validators.lookup id).map face =
              (vm'.iterated.validators.lookup id).map face := h.validators
          have hrecords := lookups_withRecord hlookups weak.id hinactive
          rw [id_of_face hface] at hrecords hrebuilt hreg hcount
          exact hrebuilt.alike hrebuilt'
            (lookups_installed hrecords h.nextValidatorId hhardware address publicKey stake)
            (addresses_installed h.addressToId h.nextValidatorId address publicKey stake)
            (congrArg (· + 1) h.nextValidatorId) hreg hreg' hcount hcount' hdistinct'
  | slash id amount =>
      obtain ⟨v, hlookup, hreg, hcount, hcase⟩ := hvm.slash_ok hok
      obtain ⟨v', hlookup', hreg', hcount', hcase'⟩ := hvm'.slash_ok hok'
      have hface : face v = face v' := by
        have hv := h.validators id
        rw [hlookup, hlookup'] at hv
        exact Option.some.inj hv
      have hface' := face_slashedBy hface amount
      have hstatus : (v.slashedBy amount).status = (v'.slashedBy amount).status := by
        show (face (v.slashedBy amount)).status = (face (v'.slashedBy amount)).status
        rw [hface']
      have hrecords := lookups_withRecord h.validators id hface'
      rcases hcase with ⟨hinactive, hrebuilt⟩ | ⟨hne, hkept⟩
      · rcases hcase' with ⟨-, hrebuilt'⟩ | ⟨hne', -⟩
        · exact ⟨hrebuilt.alike hrebuilt' hrecords h.addressToId h.nextValidatorId hreg hreg'
            hcount hcount' hdistinct', Orderly.rebuilt hrebuilt hreg hvm.hardware hcount,
            Orderly.rebuilt hrebuilt' hreg' hvm'.hardware hcount'⟩
        · exact absurd (hstatus.symm.trans hinactive) hne'
      · rcases hcase' with ⟨hinactive', -⟩ | ⟨-, hkept'⟩
        · exact absurd (hstatus.trans hinactive') hne
        · refine ⟨⟨fun id' => ?_, fun address => ?_, ?_, ?_⟩,
            Orderly.kept hkept hreg hvm.hardware hcount,
            Orderly.kept hkept' hreg' hvm'.hardware hcount'⟩
          · rw [hkept.validators, hkept'.validators, hrecords]
          · rw [hkept.addressToId, hkept'.addressToId]
            exact h.addressToId address
          · rw [hkept.nextValidatorId, hkept'.nextValidatorId]
            exact h.nextValidatorId
          · rw [hkept.currentSet, hkept'.currentSet]
            exact h.currentSet
  | slashDoubleSign id =>
      obtain ⟨v, hlookup, hreg, hcount, hrebuilt⟩ := hvm.slashDoubleSign_ok hok
      obtain ⟨v', hlookup', hreg', hcount', hrebuilt'⟩ := hvm'.slashDoubleSign_ok hok'
      have hface : face v = face v' := by
        have hv := h.validators id
        rw [hlookup, hlookup'] at hv
        exact Option.some.inj hv
      exact ⟨hrebuilt.alike hrebuilt' (lookups_withRecord h.validators id (face_punished hface))
        h.addressToId h.nextValidatorId hreg hreg' hcount hcount' hdistinct',
        Orderly.rebuilt hrebuilt hreg hvm.hardware hcount,
        Orderly.rebuilt hrebuilt' hreg' hvm'.hardware hcount'⟩

/-! ## Whole runs -/

/-- The call succeeds, and leaves no two active validators with the same stake. -/
def Untied (vm : ValidatorManager) (op : RegistryOp) : Prop :=
  op.outcome vm = .ok () ∧ Distinct (op.after vm)

/-- The call succeeds. -/
def Succeeds (vm : ValidatorManager) (op : RegistryOp) : Prop := op.outcome vm = .ok ()

/-- The condition can be checked on the list of the records. -/
theorem distinct_of_pairwise {vm : ValidatorManager}
    (h : vm.validators.toPairs.Pairwise fun a b => a.2.stake ≠ b.2.stake) : Distinct vm := by
  intro id id' r r' hr hr' _ _ hstake
  by_contra hne
  have hsymm : Std.Symm fun a b : UInt64 × ValidatorRecord => a.2.stake ≠ b.2.stake :=
    ⟨fun _ _ hab => Ne.symm hab⟩
  refine h.forall ((Map.mem_toPairs _ _ _).mpr hr) ((Map.mem_toPairs _ _ _).mpr hr') ?_ hstake
  intro heq
  exact hne (congrArg Prod.fst heq)

/-- **Whole runs** keep two managers alike. -/
theorem Alike.run {vm vm' : ValidatorManager} (h : Alike vm vm') (hvm : Orderly vm)
    (hvm' : Orderly vm') (hdistinct : Distinct vm) {ops : List RegistryOp}
    (hops : Runs.Along RegistryOp.after Untied vm ops)
    (hops' : Runs.Along RegistryOp.after Succeeds vm' ops) :
    Alike (Runs.run RegistryOp.after vm ops) (Runs.run RegistryOp.after vm' ops) := by
  induction ops generalizing vm vm' with
  | nil => exact h
  | cons op ops ih =>
      obtain ⟨⟨hok, htied⟩, hrest⟩ := hops
      obtain ⟨hok', hrest'⟩ := hops'
      obtain ⟨hstep, horderly, horderly'⟩ := h.after hvm hvm' hdistinct op hok hok' htied
      exact ih hstep horderly horderly' htied hrest hrest'

/-- The proposer depends on the list of the set only. -/
theorem getProposer_fst (height : BlockHeight) (round : UInt64) (vm : ValidatorManager) :
    (getProposer height round vm).1 =
      if vm.currentSet.validators.isEmpty then .ok none
      else if height.toNat + round.toNat < 2 ^ 64 then
        .ok ((vm.currentSet.validators[(height + round).toNat %
          vm.currentSet.validators.length]?).map fun v => v.id)
      else .panic := by
  unfold getProposer
  rw [guarded_run, Exec.run_bind, Exec.run_get]
  dsimp only
  rw [show (vm.withGuards (vm.guards.acquire .currentSet .read)).currentSet = vm.currentSet from rfl]
  unfold ValidatorSet.getProposer
  split_ifs with hempty hfits
  · rfl
  · rw [Exec.run_bind, Exec.run_bind, Exec.addU64, if_pos hfits]
    rfl
  · rw [Exec.run_bind, Exec.run_bind, Exec.addU64, if_neg hfits]
    rfl

/-- Asking for the proposer changes nothing. -/
theorem getProposer_snd (height : BlockHeight) (round : UInt64) (vm : ValidatorManager) :
    (getProposer height round vm).2 = vm.withGuards (vm.guards.touch .currentSet .read) := by
  have hset : ∀ set : ValidatorSet, Exec.Within (· = ·)
      (set.getProposer height round : Exec PacyteError ValidatorManager (Option ValidatorInfo)) := by
    intro set
    unfold ValidatorSet.getProposer
    split_ifs
    · exact Exec.Within.pure none
    · exact Exec.Within.bind (Exec.Within.addU64 _ _) fun _ => Exec.Within.pure _
  have hbody : Exec.Within (· = ·) (do
      let vm ← (Exec.get : Exec PacyteError ValidatorManager ValidatorManager)
      let proposer ← vm.currentSet.getProposer height round
      return proposer.map fun v => v.id) :=
    Exec.Within.bind Exec.Within.get fun vm => Exec.Within.bind (hset _) fun _ => Exec.Within.pure _
  unfold getProposer
  rw [guarded_run]
  dsimp only
  rw [← hbody (vm.withGuards (vm.guards.acquire .currentSet .read))]
  rfl

/-- **All nodes agree on the proposer**, if no call leaves two active validators with the
same stake: two managers on sufficient hardware that processed the same successful calls
return the same proposer for every height and round, in whatever order their maps are
iterated. -/
theorem same_proposer (hardware hardware' : Hardware) (orders orders' : ℕ → Listing ValidatorRecord)
    (hhardware : hardware.avx512Supported = true) (hhardware' : hardware'.avx512Supported = true)
    (ops : List RegistryOp)
    (hops : Runs.Along RegistryOp.after Untied (new hardware orders) ops)
    (hops' : Runs.Along RegistryOp.after Succeeds (new hardware' orders') ops)
    (height : BlockHeight) (round : UInt64) :
    (getProposer height round (Runs.run RegistryOp.after (new hardware orders) ops)).1
      = (getProposer height round (Runs.run RegistryOp.after (new hardware' orders') ops)).1 := by
  have hstart := mirrors_new hardware orders hhardware
  have hstart' := mirrors_new hardware' orders' hhardware'
  have hdistinct : Distinct (new hardware orders) := by
    intro id id' r r' hr
    cases hr
  have hnew : Alike (new hardware orders) (new hardware' orders') :=
    ⟨fun _ => rfl, fun _ => rfl, rfl, rfl⟩
  have halike := hnew.run ⟨hstart.registered, hstart.hardware, hstart.count⟩
    ⟨hstart'.registered, hstart'.hardware, hstart'.count⟩ hdistinct hops hops'
  rw [getProposer_fst, getProposer_fst, halike.currentSet]

end ValidatorManager

namespace Sample

/-- Iterations follow the order of the map backwards. -/
def reversed : ℕ → Listing ValidatorRecord := fun _ => ⟨List.reverse, List.reverse_perm⟩

end Sample

section Example

open Sample ValidatorManager

/-- Two validators with the same stake: one node has the second of them as the proposer at
height 0, the other node the first. -/
theorem tie_splits_proposer :
    let ops := [RegistryOp.register (Vector.replicate 32 1) [] 1000000000000,
      .register (Vector.replicate 32 2) [] 1000000000000]
    Runs.Along RegistryOp.after Succeeds (new processor inOrder) ops ∧
      Runs.Along RegistryOp.after Succeeds (new processor reversed) ops ∧
      (getProposer 0 0 (Runs.run RegistryOp.after (new processor inOrder) ops)).1
        ≠ (getProposer 0 0 (Runs.run RegistryOp.after (new processor reversed) ops)).1 := by
  intro ops
  refine ⟨⟨?_, ?_, trivial⟩, ⟨?_, ?_, trivial⟩, ?_⟩
  · show RegistryOp.outcome _ _ = _
    decide +kernel
  · show RegistryOp.outcome _ _ = _
    decide +kernel
  · show RegistryOp.outcome _ _ = _
    decide +kernel
  · show RegistryOp.outcome _ _ = _
    decide +kernel
  · decide +kernel

/-- With different stakes the two nodes agree. -/
theorem different_stakes_agree :
    let ops := [RegistryOp.register (Vector.replicate 32 1) [] 1000000000000,
      .register (Vector.replicate 32 2) [] 2000000000000]
    (getProposer 0 0 (Runs.run RegistryOp.after (new processor inOrder) ops)).1
      = (getProposer 0 0 (Runs.run RegistryOp.after (new processor reversed) ops)).1 := by
  intro ops
  refine same_proposer processor processor inOrder reversed rfl rfl ops ⟨⟨?_, ?_⟩, ⟨?_, ?_⟩, trivial⟩
    ⟨?_, ?_, trivial⟩ 0 0
  · decide +kernel
  · apply distinct_of_pairwise
    decide +kernel
  · decide +kernel
  · apply distinct_of_pairwise
    decide +kernel
  · show RegistryOp.outcome _ _ = _
    decide +kernel
  · show RegistryOp.outcome _ _ = _
    decide +kernel

end Example
