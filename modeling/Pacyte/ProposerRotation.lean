/-
# The rotation of the proposers

`get_proposer` goes round robin through the active set, and the slot of a height and a round
is their sum.  A proposer that fails is passed over by the next round, so the slots that
follow one another are what counts, not the heights.

* `n` consecutive numbers meet every remainder modulo `n` once, so a walk through a list
  without repetitions meets every element once (`Rotation`).
* A record is stored under its own number and no validator is in the set twice (`Numbered`).
  This holds in every state that the calls lead to, also where one of them panics half way.

So each validator of the set, and nobody else, proposes in exactly one of as many consecutive
slots as there are validators (`proposers_rotate`).
-/
import Pacyte.ProposerAgreement

/-! ## Round robin -/

namespace Rotation

/-- Consecutive numbers meet every remainder once. -/
theorem existsUnique_remainder {n : ℕ} (start : ℕ) {r : ℕ} (hr : r < n) :
    ∃! i : Fin n, (start + i) % n = r := by
  have hn : 0 < n := Nat.lt_of_le_of_lt (Nat.zero_le r) hr
  have hstart : n * (start / n) + start % n = start := Nat.div_add_mod start n
  have hlt : start % n < n := Nat.mod_lt start hn
  -- from the remainder of `start` up to `n`, and on to `r`
  refine ⟨⟨(r + (n - start % n)) % n, Nat.mod_lt _ hn⟩, ?_, ?_⟩
  · have hsum : start + (r + (n - start % n)) = r + n * (start / n + 1) := by
      rw [Nat.mul_add, Nat.mul_one]
      omega
    show (start + (r + (n - start % n)) % n) % n = r
    rw [Nat.add_mod_mod, hsum, Nat.add_mul_mod_self_left, Nat.mod_eq_of_lt hr]
  · intro i hi
    apply Fin.ext
    show i.val = (r + (n - start % n)) % n
    have hsum : start + i + (n - start % n) = i + n * (start / n + 1) := by
      rw [Nat.mul_add, Nat.mul_one]
      omega
    have hmod := Nat.mod_add_mod (start + i) n (n - start % n)
    rw [hi] at hmod
    rw [hmod, hsum, Nat.add_mul_mod_self_left, Nat.mod_eq_of_lt i.isLt]

variable {α : Type}

/-- **Round robin is fair.**  A walk through a list without repetitions, as long as the list,
meets every element once. -/
theorem existsUnique_turn {l : List α} (hl : l.Nodup) (start : ℕ) {a : α} (ha : a ∈ l) :
    ∃! i : Fin l.length, l[(start + i) % l.length]? = some a := by
  obtain ⟨r, hr, rfl⟩ := List.getElem_of_mem ha
  have hturn : ∀ i : Fin l.length,
      l[(start + i) % l.length]? = some l[r] ↔ (start + i) % l.length = r := by
    intro i
    have hlt : (start + i) % l.length < l.length := Nat.mod_lt _ (Nat.zero_lt_of_lt hr)
    rw [List.getElem?_eq_getElem hlt, Option.some.injEq, hl.getElem_inj_iff]
  simp only [hturn]
  exact existsUnique_remainder start hr

end Rotation

/-! ## Numbers -/

/-- A 128-bit sum leaves the state alone. -/
theorem Exec.Within.addU128 {ε σ : Type} {R : σ → σ → Prop} [Std.Refl R] (a b : U128) :
    Exec.Within R (Exec.addU128 a b : Exec ε σ U128) := by
  unfold Exec.addU128
  split_ifs
  · exact Exec.Within.pure _
  · exact fun s => refl_of R s

namespace ValidatorManager

open Exec Locks

/-- The numbers of the validators of the active set. -/
def seats (vm : ValidatorManager) : List UInt64 := vm.currentSet.validators.map fun v => v.id

/-- A record is stored under its own number, and the active set has at most 21 validators
with different numbers. -/
structure Numbered (vm : ValidatorManager) : Prop where
  ids : ∀ id r, vm.validators.lookup id = some r → r.id = id
  nodup : vm.seats.Nodup
  count : vm.seats.length ≤ maxValidators

/-- The second state is numbered if the first one is. -/
def StaysNumbered (vm vm' : ValidatorManager) : Prop := Numbered vm → Numbered vm'

instance : Std.Refl StaysNumbered := ⟨fun _ h => h⟩

instance : IsTrans ValidatorManager StaysNumbered := ⟨fun _ _ _ h h' hvm => h' (h hvm)⟩

theorem numbered_new (hardware : Hardware) (orders : ℕ → Listing ValidatorRecord) :
    Numbered (new hardware orders) := by
  refine ⟨fun id r h => ?_, List.nodup_nil, Nat.zero_le _⟩
  cases h

/-- Other fields do not matter. -/
theorem Numbered.of_eq {vm vm' : ValidatorManager} (h : Numbered vm)
    (hvalidators : vm'.validators = vm.validators) (hset : vm'.currentSet = vm.currentSet) :
    Numbered vm' := by
  refine ⟨fun id r hlookup => ?_, ?_, ?_⟩
  · rw [hvalidators] at hlookup
    exact h.ids id r hlookup
  · rw [seats, hset]
    exact h.nodup
  · rw [seats, hset]
    exact h.count

/-- A record stored under its own number. -/
theorem Numbered.insert {vm : ValidatorManager} (h : Numbered vm) {id : UInt64}
    {r : ValidatorRecord} (hid : r.id = id) : Numbered (vm.withRecord id r) := by
  refine ⟨fun id' r' hlookup => ?_, h.nodup, h.count⟩
  rcases lookup_withRecord_cases hlookup with ⟨rfl, rfl⟩ | ⟨-, hold⟩
  · exact hid
  · exact h.ids id' r' hold

/-- Numbered records have different numbers. -/
theorem Numbered.nodup_records {vm : ValidatorManager} (h : Numbered vm) :
    (vm.records.map ValidatorRecord.id).Nodup := by
  have hids : vm.records.map ValidatorRecord.id = vm.validators.toPairs.map Prod.fst := by
    unfold records
    rw [List.map_map]
    apply List.map_congr_left
    rintro ⟨id, r⟩ hmem
    exact h.ids id r ((Map.mem_toPairs _ _ _).mp hmem)
  rw [hids, Map.map_fst_toPairs]
  exact vm.validators.keys_nodup

/-- **No validator is elected twice**, in whatever order the map is listed. -/
theorem Numbered.nodup_elected {vm : ValidatorManager} (h : Numbered vm) :
    (vm.elected.map ValidatorRecord.id).Nodup := by
  have hlisted : (((vm.orders 0).list vm.records).map ValidatorRecord.id).Nodup := by
    rw [(((vm.orders 0).perm vm.records).map ValidatorRecord.id).nodup_iff]
    exact h.nodup_records
  have hsorted : ∀ l : List ValidatorRecord, (l.map ValidatorRecord.id).Nodup →
      ((sortByStake l).map ValidatorRecord.id).Nodup := by
    intro l hl
    have hperm : (sortByStake l).Perm l := List.perm_insertionSort _ _
    rwa [(hperm.map ValidatorRecord.id).nodup_iff]
  refine List.Nodup.sublist (List.Sublist.map _ (List.take_sublist _ _)) ?_
  exact hsorted _ (hlisted.sublist (List.Sublist.map _ List.filter_sublist))

/-! ## Calls -/

theorem guarded_staysNumbered {α : Type} (l : ValidatorLock) (m : Mode)
    {body : Exec PacyteError ValidatorManager α} (h : Within StaysNumbered body) :
    Within StaysNumbered (guarded l m body) := by
  intro vm hvm
  rw [guarded_run]
  have hbody := h (vm.withGuards (vm.guards.acquire l m)) (hvm.of_eq rfl rfl)
  exact hbody.of_eq rfl rfl

theorem values_staysNumbered : Within StaysNumbered values := fun _ hvm => hvm.of_eq rfl rfl

theorem takeId_staysNumbered : Within StaysNumbered takeId := by
  apply guarded_staysNumbered
  refine Within.bind Within.get fun vm => Within.bind (Within.addU64 _ _) fun next => ?_
  exact Within.bind (Within.modify fun _ hvm => hvm.of_eq rfl rfl) fun _ => Within.pure _

/-- A set that does not fit is not stored. -/
theorem rebuildSet_staysNumbered : Within StaysNumbered rebuildSet := by
  intro vm hvm
  rw [rebuildSet_run]
  split_ifs
  · have hseats : vm.nextSet.validators.map (fun v => v.id)
        = vm.elected.map ValidatorRecord.id := by
      rw [nextSet, List.map_map]
      rfl
    refine ⟨hvm.ids, ?_, ?_⟩
    · show (vm.nextSet.validators.map fun v => v.id).Nodup
      rw [hseats]
      exact hvm.nodup_elected
    · show (vm.nextSet.validators.map fun v => v.id).length ≤ maxValidators
      rw [hseats, List.length_map]
      exact List.length_take_le _ _
  · exact hvm.of_eq rfl rfl

theorem updateValidatorSet_staysNumbered : Within StaysNumbered updateValidatorSet :=
  guarded_staysNumbered _ _ rebuildSet_staysNumbered

theorem insertRecord_staysNumbered (id : UInt64) (address : Address) (publicKey : Bytes)
    (stake : U128) : Within StaysNumbered (insertRecord id address publicKey stake) :=
  Within.modify fun _ hvm => hvm.insert rfl

theorem insertAddress_staysNumbered (address : Address) (id : UInt64) :
    Within StaysNumbered (insertAddress address id) :=
  guarded_staysNumbered _ _ (Within.modify fun _ hvm => hvm.of_eq rfl rfl)

theorem deactivate_staysNumbered (id : UInt64) (vm : ValidatorManager) :
    StaysNumbered vm (deactivate id vm) := by
  intro hvm
  cases hlookup : vm.validators.lookup id with
  | none =>
      apply hvm.of_eq
      · simp only [deactivate, hlookup]
      · rfl
  | some v =>
      have hchanged : deactivate id vm = vm.withRecord id { v with status := .inactive } := by
        simp only [deactivate, withRecord, hlookup]
      rw [hchanged]
      exact hvm.insert (hvm.ids id v hlookup)

/-- A new record, and the set that is built from the records. -/
theorem replaceWeakest_staysNumbered (address : Address) (publicKey : Bytes) (stake : U128) :
    Within StaysNumbered (replaceWeakest address publicKey stake) := by
  refine Within.bind values_staysNumbered fun all => ?_
  cases minByStake (all.filter (·.isActive)) with
  | none => exact Within.throw _
  | some weak =>
      refine Within.ite ?_ (Within.throw _)
      refine Within.bind (Within.modify (deactivate_staysNumbered weak.id)) fun _ => ?_
      refine Within.bind takeId_staysNumbered fun id => ?_
      refine Within.bind (insertRecord_staysNumbered _ _ _ _) fun _ => ?_
      refine Within.bind (insertAddress_staysNumbered _ _) fun _ => ?_
      exact Within.bind updateValidatorSet_staysNumbered fun _ => Within.pure _

theorem addValidator_staysNumbered (address : Address) (publicKey : Bytes) (stake : U128) :
    Within StaysNumbered (addValidator address publicKey stake) := by
  refine Within.bind takeId_staysNumbered fun id => ?_
  refine Within.bind (guarded_staysNumbered _ _ (insertRecord_staysNumbered _ _ _ _)) fun _ => ?_
  refine Within.bind (insertAddress_staysNumbered _ _) fun _ => ?_
  exact Within.bind updateValidatorSet_staysNumbered fun _ => Within.pure _

theorem registerValidator_staysNumbered (address : Address) (publicKey : Bytes) (stake : U128) :
    Within StaysNumbered (registerValidator address publicKey stake) := by
  have hknown : Within StaysNumbered (isKnown address) :=
    guarded_staysNumbered _ _ (Within.bind Within.get fun _ => Within.pure _)
  have hreplaced : Within StaysNumbered (replaceIfFull address publicKey stake) := by
    apply guarded_staysNumbered
    refine Within.bind Within.get fun vm => Within.ite ?_ (Within.pure _)
    refine Within.bind ?_ fun _ => Within.pure _
    exact guarded_staysNumbered _ _ (replaceWeakest_staysNumbered _ _ _)
  refine Within.bind Within.get fun vm => Within.ite (Within.throw _) ?_
  refine Within.ite (Within.throw _) (Within.bind hknown fun known => ?_)
  refine Within.ite (Within.throw _) (Within.bind hreplaced fun replaced => ?_)
  cases replaced with
  | none => exact addValidator_staysNumbered address publicKey stake
  | some id => exact Within.pure id

/-- No slash changes the number of a record, however it ends. -/
def KeepsId (v v' : ValidatorRecord) : Prop := v'.id = v.id

instance : Std.Refl KeepsId := ⟨fun _ => rfl⟩

instance : IsTrans ValidatorRecord KeepsId := ⟨fun _ _ _ h h' => Eq.trans h' h⟩

theorem slashRecord_keepsId (amount : U128) : Within KeepsId (ValidatorRecord.slash amount) := by
  refine Within.bind Within.get fun v => Within.ite (Within.throw _) ?_
  refine Within.bind (Within.modify fun _ => rfl) fun _ => ?_
  refine Within.bind (Within.addU128 _ _) fun _ => Within.bind (Within.modify fun _ => rfl) fun _ => ?_
  refine Within.modify fun v => ?_
  unfold KeepsId
  split_ifs <;> rfl

theorem punish_keepsId : Within KeepsId punish :=
  Within.bind Within.get fun _ => Within.bind (slashRecord_keepsId _) fun _ =>
    Within.modify fun _ => rfl

theorem onRecord_staysNumbered (id : UInt64) {m : Exec PacyteError ValidatorRecord Unit}
    (h : Within KeepsId m) : Within StaysNumbered (onRecord id m) := by
  intro vm hvm
  unfold onRecord
  cases hlookup : vm.validators.lookup id with
  | none => exact hvm
  | some v => exact hvm.insert (Eq.trans (h v) (hvm.ids id v hlookup))

theorem slash_staysNumbered (id : UInt64) (amount : U128) :
    Within StaysNumbered (slash id amount) := by
  apply guarded_staysNumbered
  refine Within.bind (onRecord_staysNumbered id (slashRecord_keepsId amount)) fun _ => ?_
  refine Within.bind Within.get fun vm => ?_
  exact Within.ite updateValidatorSet_staysNumbered (Within.pure _)

theorem slashDoubleSign_staysNumbered (id : UInt64) :
    Within StaysNumbered (slashDoubleSign id) :=
  guarded_staysNumbered _ _
    (Within.bind (onRecord_staysNumbered id punish_keepsId) fun _ =>
      updateValidatorSet_staysNumbered)

/-- **Every call keeps the numbers**, also one that panics half way. -/
theorem after_staysNumbered (vm : ValidatorManager) (op : RegistryOp) :
    StaysNumbered vm (op.after vm) := by
  cases op with
  | register address publicKey stake => exact registerValidator_staysNumbered _ _ _ vm
  | slash id amount => exact slash_staysNumbered id amount vm
  | slashDoubleSign id => exact slashDoubleSign_staysNumbered id vm

/-! ## Proposers -/

/-- The proposer of a slot whose sum fits. -/
theorem getProposer_seats {height : BlockHeight} {round : UInt64}
    (hfits : height.toNat + round.toNat < 2 ^ 64) (vm : ValidatorManager) :
    (getProposer height round vm).1
      = .ok vm.seats[(height.toNat + round.toNat) % vm.seats.length]? := by
  rw [getProposer_fst, if_pos hfits, toNat_add_of_fits hfits]
  split_ifs with hempty
  · have hnil : vm.seats = [] := by
      rw [seats, List.isEmpty_iff.mp hempty]
      rfl
    rw [hnil]
    rfl
  · simp only [seats, List.length_map, List.getElem?_map]

/-- **The proposers rotate.**  After any calls on any hardware, in whatever order the map is
listed and whichever calls fail or panic: the set has at most 21 validators, only they
propose, and in as many consecutive slots as there are validators each of them proposes
once. -/
theorem proposers_rotate (hardware : Hardware) (orders : ℕ → Listing ValidatorRecord)
    (ops : List RegistryOp) :
    let vm := Runs.run RegistryOp.after (new hardware orders) ops
    vm.seats.length ≤ maxValidators ∧
      (∀ height round id, (getProposer height round vm).1 = .ok (some id) → id ∈ vm.seats) ∧
      ∀ (start : ℕ) (slot : Fin vm.seats.length → BlockHeight × UInt64),
        (∀ i, (slot i).1.toNat + (slot i).2.toNat = start + i) →
        start + vm.seats.length ≤ 2 ^ 64 →
        ∀ id ∈ vm.seats, ∃! i, (getProposer (slot i).1 (slot i).2 vm).1 = .ok (some id) := by
  intro vm
  have hnumbered : Numbered vm :=
    Runs.invariant after_staysNumbered (numbered_new hardware orders) ops
  refine ⟨hnumbered.count, ?_, ?_⟩
  · intro height round id hproposer
    by_cases hfits : height.toNat + round.toNat < 2 ^ 64
    · rw [getProposer_seats hfits] at hproposer
      exact List.mem_of_getElem? (Outcome.ok.inj hproposer)
    · rw [getProposer_fst, if_neg hfits] at hproposer
      split_ifs at hproposer
      cases Outcome.ok.inj hproposer
  · intro start slot hslot hfits id hid
    have hturn : ∀ i, (getProposer (slot i).1 (slot i).2 vm).1 = .ok (some id) ↔
        vm.seats[(start + i) % vm.seats.length]? = some id := by
      intro i
      have hlt : (slot i).1.toNat + (slot i).2.toNat < 2 ^ 64 := by
        have hi := i.isLt
        rw [hslot i]
        omega
      rw [getProposer_seats hlt, hslot i, Outcome.ok.injEq]
    simp only [hturn]
    exact Rotation.existsUnique_turn hnumbered.nodup start hid

end ValidatorManager

section Example

open Sample ValidatorManager

/-- Two registrations. -/
def Sample.enrolments : List RegistryOp :=
  [.register (Vector.replicate 32 1) [] 1000000000000,
    .register (Vector.replicate 32 2) [] 2000000000000]

/-- Two validators and two rounds of the fifth height. -/
theorem two_validators_rotate :
    let vm := Runs.run RegistryOp.after (new processor inOrder) enrolments
    vm.seats = [2, 1] ∧
      ∃! i : Fin vm.seats.length, (getProposer 5 (UInt64.ofNat i) vm).1 = .ok (some 1) := by
  have hseats : (Runs.run RegistryOp.after (new processor inOrder) enrolments).seats = [2, 1] := by
    decide +kernel
  have hrotate := (proposers_rotate processor inOrder enrolments).2.2
  dsimp only
  generalize Runs.run RegistryOp.after (new processor inOrder) enrolments = vm at hseats hrotate ⊢
  have hlength : vm.seats.length = 2 := congrArg List.length hseats
  refine ⟨hseats, hrotate 5 (fun i => (5, UInt64.ofNat i)) (fun i => ?_) ?_ 1 ?_⟩
  · have hi : i.val < 2 ^ 64 := by
      have := i.isLt
      omega
    show 5 + (UInt64.ofNat i).toNat = 5 + i
    rw [UInt64.toNat_ofNat_of_lt' hi]
  · omega
  · rw [hseats]
    decide

end Example
