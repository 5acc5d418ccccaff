/-
# The price of memory

The machine charges an opcode the price of a table, before it looks at its operands.  Only `MSTORE`
and `MSTORE8` enlarge the memory, to the end of what they write (`execute_memory`), and their price
does not depend on how far that is.

A step pays for the growth of the memory exactly if the price of its opcode covers it
(`growth_paid_iff`).  Along steps that do, the price of the whole memory is at most the gas used
(`memory_bounded`).
-/
import Pacyte.JumpDestinations

/-! ## The price of a growth -/

/-- Overflow-checked multiplication of 64-bit numbers. -/
def mulU64 (a b : ℕ) : Option ℕ := if a * b < 2 ^ 64 then some (a * b) else none

/-- `MEMORY_GAS`. -/
def memoryGas : ℕ := 3

/-- The number of words that the bytes take. -/
def memoryWords (size : ℕ) : ℕ := (size + 31) / 32

/-- The gas of a square of words. -/
def squareGas (words : ℕ) : Option ℕ := do
  let square ← mulU64 words words
  let gas ← mulU64 square memoryGas
  return gas / 512

/-- `GasCalculator::memory_expansion_gas`. -/
def memoryExpansionGas (currentSize newSize : ℕ) : Option ℕ :=
  if newSize ≤ currentSize then some 0
  else do
    let newGas ← squareGas (memoryWords newSize)
    let currentGas ← squareGas (memoryWords currentSize)
    if currentGas ≤ newGas then return newGas - currentGas else none

/-- The gas of a memory of some size, without a bound. -/
def memoryPrice (size : ℕ) : ℕ := memoryWords size * memoryWords size * memoryGas / 512

theorem squareGas_eq {words gas : ℕ} (h : squareGas words = some gas) :
    gas = words * words * memoryGas / 512 := by
  unfold squareGas mulU64 at h
  split_ifs at h
  · dsimp only [Option.bind_eq_bind, Option.bind_some] at h
    split_ifs at h
    · exact (Option.some.inj h).symm
    · cases h
  · cases h

/-- **What is paid for a growth makes up the price of the larger memory.** -/
theorem memoryPrice_le_add {currentSize newSize gas : ℕ} (hle : currentSize ≤ newSize)
    (h : memoryExpansionGas currentSize newSize = some gas) :
    memoryPrice newSize ≤ memoryPrice currentSize + gas := by
  unfold memoryExpansionGas at h
  split_ifs at h with hsame
  · obtain rfl : newSize = currentSize := Nat.le_antisymm hsame hle
    exact Nat.le_add_right _ _
  · rcases hnew : squareGas (memoryWords newSize) with _ | newGas
    · rw [hnew] at h
      cases h
    · rcases hcurrent : squareGas (memoryWords currentSize) with _ | currentGas
      · rw [hnew, hcurrent] at h
        cases h
      · rw [hnew, hcurrent] at h
        dsimp only [Option.bind_eq_bind, Option.bind_some] at h
        split_ifs at h
        have hgas := Option.some.inj h
        have hprice : newGas = memoryPrice newSize := squareGas_eq hnew
        have hprice' : currentGas = memoryPrice currentSize := squareGas_eq hcurrent
        omega

namespace VM

open Exec

/-! ## The memory after an opcode -/

/-- The memory is the same. -/
def SameMemory (vm vm' : VM) : Prop := vm'.memory = vm.memory

instance : Std.Refl SameMemory := ⟨fun _ => rfl⟩

instance : IsTrans VM SameMemory := ⟨fun _ _ _ h h' => Eq.trans h' h⟩

theorem sameMemory_pop : Within SameMemory pop := by
  refine Within.bind Within.get fun vm => ?_
  cases vm.stack with
  | nil => exact Within.throw _
  | cons value rest => exact Within.bind (Within.modify fun _ => rfl) fun _ => Within.pure _

theorem sameMemory_push (value : Word) : Within SameMemory (push value) :=
  Within.bind Within.get fun _ => Within.ite (Within.throw _) (Within.modify fun _ => rfl)

theorem sameMemory_popUsize : Within SameMemory popUsize :=
  Within.bind sameMemory_pop fun _ => Within.pure _

theorem sameMemory_binary (f : Word → Word → Word) : Within SameMemory (binary f) :=
  Within.bind sameMemory_pop fun _ => Within.bind sameMemory_pop fun _ => sameMemory_push _

theorem sameMemory_unary (f : Word → Word) : Within SameMemory (unary f) :=
  Within.bind sameMemory_pop fun _ => sameMemory_push _

/-- A program that does not change the state. -/
theorem sameMemory_of_fixed {α : Type} {m : Machine α} (h : ∀ vm, (m vm).2 = vm) :
    Within SameMemory m := fun vm => congrArg VM.memory (h vm)

theorem sameMemory_readMemory (offset size : ℕ) : Within SameMemory (readMemory offset size) :=
  Within.bind Within.get fun vm => sameMemory_of_fixed (snd_read vm.memory offset size)

theorem sameMemory_jumpTo (dest : ℕ) : Within SameMemory (jumpTo dest) :=
  Within.bind Within.get fun _ => Within.ite (Within.modify fun _ => rfl) (Within.throw _)

theorem sameMemory_mul (a b : Word) : Within SameMemory (Word.mul a b : Machine Word) := by
  refine sameMemory_of_fixed fun vm => ?_
  unfold Word.mul
  split_ifs <;> rfl

/-- The size of the memory after an opcode. -/
def memoryAfter (size : ℕ) : Opcode → List Word → ℕ
  | .mstore, offset :: _ => max size (offset.toUsize + 32)
  | .mstore8, offset :: _ => max size (offset.toUsize + 1)
  | _, _ => size

theorem le_memoryAfter (size : ℕ) (opcode : Opcode) (stack : List Word) :
    size ≤ memoryAfter size opcode stack := by
  unfold memoryAfter
  split
  · exact Nat.le_max_left _ _
  · exact Nat.le_max_left _ _
  · exact Nat.le_refl _

/-- A write ends at the end of the bytes, or with the memory. -/
theorem length_write {ε σ : Type} {data data' : Bytes} {offset : ℕ} {bytes : Bytes} {s s' : σ}
    (h : (Memory.write .succeeds data offset bytes : Exec ε σ Bytes) s = (.ok data', s')) :
    data'.length = max data.length (offset + bytes.length) := by
  unfold Memory.write at h
  rw [run_bind, snd_addUsize] at h
  split_ifs at h
  · dsimp only at h
    rw [run_bind, resize_run] at h
    cases h
    simp only [List.length_append, List.length_take, List.length_drop, List.length_replicate]
    omega
  · cases h

/-- Two operands are taken from the stack. -/
theorem pops_ok {α : Type} {f : ℕ → Word → Machine α} {vm : VM} {a : α} {vm' : VM}
    (h : (popUsize >>= fun offset => pop >>= f offset) vm = (.ok a, vm')) :
    ∃ offset value rest, vm.stack = offset :: value :: rest ∧
      f offset.toUsize value { vm with stack := rest } = (.ok a, vm') := by
  have hassoc : (popUsize >>= fun offset => pop >>= f offset) =
      pop >>= fun offset => pop >>= f offset.toUsize :=
    Exec.bind_assoc pop (fun word => pure word.toUsize) fun offset => pop >>= f offset
  rw [hassoc] at h
  rcases hstack : vm.stack with _ | ⟨offset, _ | ⟨value, rest⟩⟩
  · have hpop : pop vm = (.err .stackUnderflow, vm) := by
      unfold pop
      rw [run_bind, run_get]
      dsimp only
      rw [hstack]
      rfl
    rw [run_bind, hpop] at h
    cases h
  · have hpop : pop { vm with stack := [] } = (.err .stackUnderflow, { vm with stack := [] }) := rfl
    rw [run_bind, run_pop hstack] at h
    dsimp only at h
    rw [run_bind, hpop] at h
    cases h
  · rw [run_pop_pop hstack] at h
    exact ⟨offset, value, rest, rfl, h⟩

/-- What is written to the memory. -/
theorem writeMemory_ok {offset : ℕ} {bytes : Bytes} {vm vm' : VM}
    (h : writeMemory offset bytes vm = (.ok (), vm')) :
    vm'.memory.length = max vm.memory.length (offset + bytes.length) := by
  unfold writeMemory at h
  rw [run_bind, run_get] at h
  dsimp only at h
  rw [run_bind] at h
  rcases hwrite : (Memory.write .succeeds vm.memory offset bytes : Machine Bytes) vm with ⟨data | e | _, vm₁⟩
  · rw [hwrite] at h
    cases h
    exact length_write hwrite
  · rw [hwrite] at h
    cases h
  · rw [hwrite] at h
    cases h

variable [Keccak256]

/-- The opcodes that do not write to the memory. -/
theorem sameMemory_execute {opcode : Opcode} (hmstore : opcode ≠ .mstore)
    (hmstore8 : opcode ≠ .mstore8) : Within SameMemory (execute opcode) := by
  cases opcode with
  | mstore => exact absurd rfl hmstore
  | mstore8 => exact absurd rfl hmstore8
  | stop => exact Within.modify fun _ => rfl
  | add => exact sameMemory_binary _
  | mul =>
      exact Within.bind sameMemory_pop fun a => Within.bind sameMemory_pop fun b =>
        Within.bind (sameMemory_mul a b) fun _ => sameMemory_push _
  | sub => exact sameMemory_binary _
  | div => exact sameMemory_binary _
  | lt => exact sameMemory_binary _
  | gt => exact sameMemory_binary _
  | eq => exact sameMemory_binary _
  | isZero => exact sameMemory_unary _
  | and => exact sameMemory_binary _
  | or => exact sameMemory_binary _
  | xor => exact sameMemory_binary _
  | not => exact sameMemory_unary _
  | pop => exact Within.bind sameMemory_pop fun _ => Within.pure _
  | mload =>
      exact Within.bind sameMemory_popUsize fun offset => Within.bind Within.get fun vm =>
        Within.bind (sameMemory_of_fixed (snd_readWord vm.memory offset)) fun _ =>
          sameMemory_push _
  | jump => exact Within.bind sameMemory_popUsize fun _ => sameMemory_jumpTo _
  | jumpI =>
      exact Within.bind sameMemory_popUsize fun _ => Within.bind sameMemory_pop fun _ =>
        Within.ite (Within.pure _) (sameMemory_jumpTo _)
  | pc => exact Within.bind Within.get fun _ => sameMemory_push _
  | gas => exact Within.bind Within.get fun _ => sameMemory_push _
  | sha3 =>
      exact Within.bind sameMemory_popUsize fun _ => Within.bind sameMemory_popUsize fun _ =>
        Within.bind (sameMemory_readMemory _ _) fun _ => sameMemory_push _
  | «return» =>
      exact Within.bind sameMemory_popUsize fun _ => Within.bind sameMemory_popUsize fun _ =>
        Within.bind (sameMemory_readMemory _ _) fun _ =>
          Within.bind (Within.modify fun _ => rfl) fun _ => Within.modify fun _ => rfl
  | revert =>
      exact Within.bind sameMemory_popUsize fun _ => Within.bind sameMemory_popUsize fun _ =>
        Within.bind (sameMemory_readMemory _ _) fun _ => Within.throw _
  | invalid => exact Within.throw _
  | _ => exact Within.pure _

/-- **The memory after an opcode.** -/
theorem execute_memory {opcode : Opcode} {vm vm' : VM} (h : execute opcode vm = (.ok (), vm')) :
    vm'.memory.length = memoryAfter vm.memory.length opcode vm.stack := by
  by_cases hmstore : opcode = .mstore
  · subst hmstore
    obtain ⟨offset, value, rest, hstack, hwrite⟩ := pops_ok h
    have hlength := writeMemory_ok hwrite
    rw [Vector.length_toList] at hlength
    rw [hstack]
    exact hlength
  · by_cases hmstore8 : opcode = .mstore8
    · subst hmstore8
      obtain ⟨offset, value, rest, hstack, hwrite⟩ := pops_ok h
      rw [hstack]
      exact writeMemory_ok hwrite
    · have hsame := sameMemory_execute hmstore hmstore8 vm
      rw [h] at hsame
      have hafter : memoryAfter vm.memory.length opcode vm.stack = vm.memory.length := by
        unfold memoryAfter
        split
        · exact absurd rfl hmstore
        · exact absurd rfl hmstore8
        · rfl
      rw [hafter]
      exact congrArg List.length hsame

/-! ## Paid growth -/

/-- What the step has charged is at least the price of the growth. -/
def GrowthPaid (vm vm' : VM) : Prop :=
  ∃ gas, memoryExpansionGas vm.memory.length vm'.memory.length = some gas ∧
    vm.gasMeter.gasUsed.toNat + gas ≤ vm'.gasMeter.gasUsed.toNat

/-- The price of the opcode covers the growth of the memory, which its first operand decides. -/
def Covers (vm : VM) (opcode : Opcode) : Prop :=
  ∃ gas, memoryExpansionGas vm.memory.length (memoryAfter vm.memory.length opcode vm.stack) =
    some gas ∧ gas ≤ (vm.cost opcode).toNat

/-- **A step pays for the growth** exactly if the price of its opcode covers it. -/
theorem growthPaid_iff {vm vm' : VM} {opcode : Opcode} (hat : vm.At opcode)
    (h : step vm = (.ok (), vm')) : GrowthPaid vm vm' ↔ Covers vm opcode := by
  obtain ⟨haffords, hrun⟩ := affords_of_ok hat h
  have hmemory : vm'.memory.length =
      memoryAfter (vm.paid opcode).memory.length opcode (vm.paid opcode).stack :=
    execute_memory hrun
  have hpaid : memoryAfter (vm.paid opcode).memory.length opcode (vm.paid opcode).stack =
      memoryAfter vm.memory.length opcode vm.stack := rfl
  obtain ⟨opcode', hstep⟩ := step_ok h
  obtain rfl := hat.unique hstep.at_opcode
  have hgas := hstep.gasUsed
  unfold GrowthPaid Covers
  rw [hmemory, hpaid]
  refine exists_congr fun gas => and_congr_right fun _ => ?_
  omega

omit [Keccak256] in
/-- A step that pays for the growth leaves the price of the memory below the gas used, if it was. -/
theorem GrowthPaid.memoryPrice_le {vm vm' : VM} (h : GrowthPaid vm vm')
    (hle : vm.memory.length ≤ vm'.memory.length) :
    memoryPrice vm'.memory.length + vm.gasMeter.gasUsed.toNat ≤
      memoryPrice vm.memory.length + vm'.gasMeter.gasUsed.toNat := by
  obtain ⟨gas, hgas, hcharge⟩ := h
  have hprice := memoryPrice_le_add hle hgas
  omega

/-- Along steps that cover the growth, the gas used goes up at least as the price of the memory. -/
theorem Steps.memoryPrice_le {n : ℕ} {vm vm' : VM} (h : Steps n vm vm')
    (hcovers : ∀ k < n, ∀ vm₁ opcode, Steps k vm vm₁ → vm₁.At opcode → Covers vm₁ opcode) :
    memoryPrice vm'.memory.length + vm.gasMeter.gasUsed.toNat ≤
      memoryPrice vm.memory.length + vm'.gasMeter.gasUsed.toNat := by
  induction h with
  | refl vm => exact Nat.le_refl _
  | @step n vm vm₁ vm₂ hrunning hstep _ ih =>
      have hrest := ih fun k hk vm₃ opcode hsteps =>
        hcovers (k + 1) (Nat.succ_lt_succ hk) vm₃ opcode (.step hrunning hstep hsteps)
      obtain ⟨opcode, hat⟩ := at_of_ok hstep
      have hpaid := (growthPaid_iff hat hstep).mpr
        (hcovers 0 (Nat.succ_pos n) vm opcode (.refl vm) hat)
      have hgrows : vm.memory.length ≤ vm₁.memory.length := by
        have hrun := (affords_of_ok hat hstep).2
        rw [execute_memory hrun]
        exact le_memoryAfter _ _ _
      have hfirst := hpaid.memoryPrice_le hgrows
      omega

/-- The gas limit stays, and the gas used stays below it. -/
theorem Steps.gasUsed_le {n : ℕ} {vm vm' : VM} (h : Steps n vm vm')
    (hle : vm.gasMeter.gasUsed ≤ vm.gasMeter.gasLimit) :
    vm'.gasMeter.gasUsed ≤ vm'.gasMeter.gasLimit ∧
      vm'.gasMeter.gasLimit = vm.gasMeter.gasLimit := by
  induction h with
  | refl vm => exact ⟨hle, rfl⟩
  | @step n vm vm₁ vm₂ hrunning hstep _ ih =>
      obtain ⟨opcode, hstepped⟩ := step_ok hstep
      have haffords := hstepped.affords
      unfold Affords at haffords
      have hle₁ : vm₁.gasMeter.gasUsed ≤ vm₁.gasMeter.gasLimit := by
        rw [UInt64.le_iff_toNat_le, hstepped.gasUsed, hstepped.gasLimit]
        exact haffords
      obtain ⟨hle₂, hlimit⟩ := ih hle₁
      exact ⟨hle₂, hlimit.trans hstepped.gasLimit⟩

omit [Keccak256] in
/-- A memory that costs at most some gas has a bounded size. -/
theorem size_bound {size gas : ℕ} (h : memoryPrice size ≤ gas) :
    3 * size ^ 2 < 2 ^ 19 * (gas + 1) := by
  unfold memoryPrice memoryGas at h
  have hsize : size ≤ 32 * memoryWords size := by
    unfold memoryWords
    omega
  have hwords : memoryWords size * memoryWords size * 3 < 512 * (gas + 1) := by omega
  calc 3 * size ^ 2 ≤ 3 * (32 * memoryWords size) ^ 2 :=
        Nat.mul_le_mul_left 3 (Nat.pow_le_pow_left hsize 2)
    _ = 1024 * (memoryWords size * memoryWords size * 3) := by ring
    _ < 2 ^ 19 * (gas + 1) := by omega

/-- **When memory growth is paid for.**  A step pays for what it adds to the memory exactly if the
price of its opcode covers it.  If all steps of a run do, the price of the memory is at most the
gas used, and the gas limit bounds the size of the memory. -/
theorem memory_growth_iff :
    (∀ (vm vm' : VM) (opcode : Opcode), vm.At opcode → step vm = (.ok (), vm') →
      (GrowthPaid vm vm' ↔ Covers vm opcode)) ∧
    ∀ (code : Bytes) (gasLimit : UInt64) (schedule : GasSchedule) (n : ℕ) (vm : VM),
      Steps n (withSchedule code gasLimit schedule) vm →
      (∀ k < n, ∀ vm₁ opcode, Steps k (withSchedule code gasLimit schedule) vm₁ →
        vm₁.At opcode → Covers vm₁ opcode) →
      memoryPrice vm.memory.length ≤ vm.gasMeter.gasUsed.toNat ∧
        vm.gasMeter.gasUsed ≤ gasLimit ∧
        3 * vm.memory.length ^ 2 < 2 ^ 19 * (gasLimit.toNat + 1) := by
  refine ⟨fun vm vm' opcode hat h => growthPaid_iff hat h, ?_⟩
  intro code gasLimit schedule n vm hsteps hcovers
  have hprice : memoryPrice vm.memory.length ≤ vm.gasMeter.gasUsed.toNat := by
    have hrun := hsteps.memoryPrice_le hcovers
    have hempty : (withSchedule code gasLimit schedule).memory.length = 0 := rfl
    have hnone : memoryPrice 0 = 0 := by decide
    rw [hempty, hnone, Nat.zero_add] at hrun
    exact (Nat.le_add_right _ _).trans hrun
  have hstart : (withSchedule code gasLimit schedule).gasMeter.gasUsed ≤
      (withSchedule code gasLimit schedule).gasMeter.gasLimit := UInt64.zero_le
  obtain ⟨hused, hlimit⟩ := hsteps.gasUsed_le hstart
  rw [hlimit] at hused
  exact ⟨hprice, hused, size_bound (hprice.trans (UInt64.le_iff_toNat_le.mp hused))⟩

/-- The steps of a machine are determined. -/
theorem Steps.unique {n : ℕ} {vm vm₁ vm₂ : VM} (h₁ : Steps n vm vm₁) (h₂ : Steps n vm vm₂) :
    vm₁ = vm₂ := by
  induction h₁ with
  | refl vm =>
      cases h₂ with
      | refl _ => rfl
  | step _ hstep _ ih =>
      cases h₂ with
      | step _ hstep' hrest =>
          rw [hstep] at hstep'
          cases hstep'
          exact ih hrest

end VM

/-! ## A memory for three units of gas -/

section Example

open scoped VmSample

/-- `GAS GAS MSTORE`: the offset is the gas that is left. -/
def storing : Bytes := [0x5a, 0x5a, 0x52]

/-- The machine after some steps of the program. -/
def storingVm (gasLimit : UInt64) (n : ℕ) : VM := (VM.loop n (VM.new storing gasLimit)).2

theorem storing_steps_two : VM.Steps 2 (VM.new storing 100) (storingVm 100 2) :=
  VM.steps_of_loop (by decide)

/-- With a hundred units of gas the memory grows to four words, which cost nothing. -/
theorem memory_growth_paid :
    VM.GrowthPaid (storingVm 100 2) (storingVm 100 3) ∧
      memoryPrice (storingVm 100 2).memory.length ≤ (storingVm 100 2).gasMeter.gasUsed.toNat := by
  have hat : (storingVm 100 2).At .mstore := ⟨0x52, by decide, rfl⟩
  have hstep : VM.step (storingVm 100 2) = (.ok (), storingVm 100 3) := by rfl
  have hcovers : VM.Covers (storingVm 100 2) .mstore :=
    ⟨0, by decide, Nat.zero_le _⟩
  refine ⟨(VM.memory_growth_iff.1 _ _ .mstore hat hstep).mpr hcovers, ?_⟩
  refine (VM.memory_growth_iff.2 storing 100 .default 2 _ storing_steps_two ?_).1
  -- before either `GAS` the memory is empty, and stays so
  intro k hk vm₁ opcode hsteps hat₁
  have hgas : ∀ vm₁ : VM, vm₁.memory = [] → vm₁.code[vm₁.pc]? = some 0x5a → vm₁.At opcode →
      VM.Covers vm₁ opcode := by
    rintro vm₁ hmemory hbyte ⟨byte, hbyte', hopcode⟩
    rw [hbyte] at hbyte'
    cases hbyte'
    obtain rfl : Opcode.gas = opcode := Option.some.inj hopcode
    refine ⟨0, ?_, Nat.zero_le _⟩
    rw [hmemory]
    rfl
  rcases (by omega : k = 0 ∨ k = 1) with rfl | rfl
  · obtain rfl := hsteps.unique (.refl _)
    exact hgas _ rfl rfl hat₁
  · have hone : VM.Steps 1 (VM.new storing 100) (storingVm 100 1) :=
      VM.steps_of_loop (by decide)
    obtain rfl := hsteps.unique hone
    exact hgas _ (by decide) (by decide) hat₁

/-- With a thousand units the same program gets 1028 bytes for its three units, and not for the six
they cost. -/
theorem memory_growth_unpaid :
    VM.Steps 2 (VM.new storing 1000) (storingVm 1000 2) ∧
      VM.step (storingVm 1000 2) = (.ok (), storingVm 1000 3) ∧
      (storingVm 1000 2).memory.length = 0 ∧ (storingVm 1000 3).memory.length = 1028 ∧
      memoryExpansionGas 0 1028 = some 6 ∧
      (storingVm 1000 3).gasMeter.gasUsed = (storingVm 1000 2).gasMeter.gasUsed + 3 ∧
      ¬ VM.GrowthPaid (storingVm 1000 2) (storingVm 1000 3) := by
  have hsteps : VM.Steps 2 (VM.new storing 1000) (storingVm 1000 2) :=
    VM.steps_of_loop (by decide)
  have hprice : memoryExpansionGas 0 1028 = some 6 := by decide
  have hempty : (storingVm 1000 2).memory.length = 0 := by decide
  have hlength : (storingVm 1000 3).memory.length = 1028 := by decide +kernel
  refine ⟨hsteps, by rfl, hempty, hlength, hprice, by decide, ?_⟩
  rintro ⟨gas, hgas, hcharge⟩
  rw [hempty, hlength, hprice] at hgas
  obtain rfl := Option.some.inj hgas
  revert hcharge
  decide

end Example
