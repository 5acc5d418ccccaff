/-
# Steps of the virtual machine

What one step of the machine of `src/execution/vm.rs` can do, and from it what its loop does.

* `step_ok` lists what a successful step changes outside the stack and the memory: it pays,
  and goes to the next byte or to a `JUMPDEST`.
* `fuel_step`: every successful step makes `VM.fuel` smaller, so the loop ends
  (`loop_terminates`), even where opcodes are free.
-/
import Pacyte.VirtualMachine

namespace VM

open Exec

/-! ## What opcodes leave alone -/

/-- The gas, the code and the prices are the same, and the position is the same or that of a
`JUMPDEST`. -/
structure Executes (vm vm' : VM) : Prop where
  code : vm'.code = vm.code
  gasMeter : vm'.gasMeter = vm.gasMeter
  gasSchedule : vm'.gasSchedule = vm.gasSchedule
  pc : vm'.pc = vm.pc ∨ vm'.AtJumpDest

instance : Std.Refl Executes := ⟨fun _ => ⟨rfl, rfl, rfl, Or.inl rfl⟩⟩

instance : IsTrans VM Executes := by
  refine ⟨fun vm₁ vm₂ vm₃ h h' => ⟨h'.code.trans h.code, h'.gasMeter.trans h.gasMeter,
    h'.gasSchedule.trans h.gasSchedule, ?_⟩⟩
  rcases h'.pc with hsame | hjump
  · rcases h.pc with hsame' | hjump'
    · exact Or.inl (hsame.trans hsame')
    · right
      unfold AtJumpDest at hjump' ⊢
      rw [h'.code, hsame]
      exact hjump'
  · exact Or.inr hjump

theorem within_pop : Within Executes pop := by
  refine Within.bind Within.get fun vm => ?_
  cases vm.stack with
  | nil => exact Within.throw _
  | cons value rest =>
      exact Within.bind (Within.modify fun _ => ⟨rfl, rfl, rfl, Or.inl rfl⟩) fun _ =>
        Within.pure _

theorem within_push (value : Word) : Within Executes (push value) :=
  Within.bind Within.get fun _ => Within.ite (Within.throw _)
    (Within.modify fun _ => ⟨rfl, rfl, rfl, Or.inl rfl⟩)

theorem within_popUsize : Within Executes popUsize :=
  Within.bind within_pop fun _ => Within.pure _

theorem within_binary (f : Word → Word → Word) : Within Executes (binary f) :=
  Within.bind within_pop fun _ => Within.bind within_pop fun _ => within_push _

theorem within_unary (f : Word → Word) : Within Executes (unary f) :=
  Within.bind within_pop fun _ => within_push _

/-- A program that does not change the state. -/
theorem within_of_fixed {α : Type} {m : Machine α} (h : ∀ vm, (m vm).2 = vm) :
    Within Executes m := by
  intro vm
  rw [h vm]
  exact refl_of Executes vm

theorem snd_addUsize {ε σ : Type} (a b : ℕ) (s : σ) : (addUsize a b : Exec ε σ ℕ) s =
    (if a + b < 2 ^ 64 then .ok (a + b) else .panic, s) := by
  unfold addUsize
  split_ifs <;> rfl

theorem resize_run {ε σ : Type} (data : Bytes) (size : ℕ) (s : σ) :
    (Memory.resize .succeeds data size : Exec ε σ Bytes) s =
      (.ok (data ++ List.replicate (size - data.length) 0), s) := by
  unfold Memory.resize
  split_ifs with hgrows
  · rfl
  · rw [Nat.sub_eq_zero_of_le (Nat.le_of_not_lt hgrows), List.replicate_zero, List.append_nil]
    rfl

theorem snd_read {ε σ : Type} (data : Bytes) (offset size : ℕ) (s : σ) :
    ((Memory.read .succeeds data offset size : Exec ε σ Bytes) s).2 = s := by
  unfold Memory.read
  split_ifs
  · rfl
  · rw [run_bind, snd_addUsize]
    split_ifs
    · exact congrArg Prod.snd (resize_run _ size s)
    · rfl

theorem snd_readWord {ε σ : Type} (data : Bytes) (offset : ℕ) (s : σ) :
    ((Memory.readWord .succeeds data offset : Exec ε σ Word) s).2 = s := by
  unfold Memory.readWord
  have hread := snd_read (ε := ε) data offset 32 s
  rw [run_bind]
  rcases hrun : (Memory.read .succeeds data offset 32 : Exec ε σ Bytes) s with ⟨bytes | e | _, s'⟩
  · rw [hrun] at hread
    dsimp only
    split_ifs
    · exact hread
    · exact hread
  · rw [hrun] at hread
    exact hread
  · rw [hrun] at hread
    exact hread

theorem snd_write {ε σ : Type} (data : Bytes) (offset : ℕ) (bytes : Bytes) (s : σ) :
    ((Memory.write .succeeds data offset bytes : Exec ε σ Bytes) s).2 = s := by
  unfold Memory.write
  rw [run_bind, snd_addUsize]
  split_ifs with hfits
  · dsimp only
    rw [run_bind, resize_run]
    rfl
  · rfl

theorem within_readMemory (offset size : ℕ) : Within Executes (readMemory offset size) :=
  Within.bind Within.get fun vm => within_of_fixed (snd_read vm.memory offset size)

theorem within_writeMemory (offset : ℕ) (bytes : Bytes) :
    Within Executes (writeMemory offset bytes) :=
  Within.bind Within.get fun vm => Within.bind (within_of_fixed (snd_write vm.memory offset bytes))
    fun _ => Within.modify fun _ => ⟨rfl, rfl, rfl, Or.inl rfl⟩

/-- A jump ends at a `JUMPDEST` or fails. -/
theorem within_jumpTo (dest : ℕ) : Within Executes (jumpTo dest) := by
  intro vm
  unfold jumpTo
  rw [run_bind, run_get]
  dsimp only
  split_ifs with hdest
  · exact ⟨rfl, rfl, rfl, Or.inr hdest⟩
  · exact refl_of Executes vm

theorem within_mul (a b : Word) : Within Executes (Word.mul a b : Machine Word) := by
  refine within_of_fixed fun vm => ?_
  unfold Word.mul
  split_ifs <;> rfl

variable [Keccak256]

/-- **What an opcode leaves alone.** -/
theorem within_execute (opcode : Opcode) : Within Executes (execute opcode) := by
  cases opcode with
  | stop => exact Within.modify fun _ => ⟨rfl, rfl, rfl, Or.inl rfl⟩
  | add => exact within_binary _
  | mul =>
      exact Within.bind within_pop fun a => Within.bind within_pop fun b =>
        Within.bind (within_mul a b) fun _ => within_push _
  | sub => exact within_binary _
  | div => exact within_binary _
  | lt => exact within_binary _
  | gt => exact within_binary _
  | eq => exact within_binary _
  | isZero => exact within_unary _
  | and => exact within_binary _
  | or => exact within_binary _
  | xor => exact within_binary _
  | not => exact within_unary _
  | pop => exact Within.bind within_pop fun _ => Within.pure _
  | mload =>
      exact Within.bind within_popUsize fun offset => Within.bind Within.get fun vm =>
        Within.bind (within_of_fixed (snd_readWord vm.memory offset)) fun _ => within_push _
  | mstore =>
      exact Within.bind within_popUsize fun _ => Within.bind within_pop fun _ =>
        within_writeMemory _ _
  | mstore8 =>
      exact Within.bind within_popUsize fun _ => Within.bind within_pop fun _ =>
        within_writeMemory _ _
  | jump => exact Within.bind within_popUsize fun _ => within_jumpTo _
  | jumpI =>
      exact Within.bind within_popUsize fun _ => Within.bind within_pop fun _ =>
        Within.ite (Within.pure _) (within_jumpTo _)
  | pc => exact Within.bind Within.get fun _ => within_push _
  | gas => exact Within.bind Within.get fun _ => within_push _
  | sha3 =>
      exact Within.bind within_popUsize fun _ => Within.bind within_popUsize fun _ =>
        Within.bind (within_readMemory _ _) fun _ => within_push _
  | «return» =>
      exact Within.bind within_popUsize fun _ => Within.bind within_popUsize fun _ =>
        Within.bind (within_readMemory _ _) fun _ =>
          Within.bind (Within.modify fun _ => ⟨rfl, rfl, rfl, Or.inl rfl⟩) fun _ =>
            Within.modify fun _ => ⟨rfl, rfl, rfl, Or.inl rfl⟩
  | revert =>
      exact Within.bind within_popUsize fun _ => Within.bind within_popUsize fun _ =>
        Within.bind (within_readMemory _ _) fun _ => Within.throw _
  | invalid => exact Within.throw _
  | _ => exact Within.pure _

/-! ## One step -/

/-- The price of the opcode. -/
def cost (vm : VM) (opcode : Opcode) : UInt64 := opcode.gasCost vm.gasSchedule

/-- The gas is enough for the opcode. -/
def Affords (vm : VM) (opcode : Opcode) : Prop :=
  vm.gasMeter.gasUsed.toNat + (vm.cost opcode).toNat ≤ vm.gasMeter.gasLimit.toNat

/-- The state in which an opcode that was paid for is executed. -/
def paid (vm : VM) (opcode : Opcode) : VM :=
  { vm with
    gasMeter := ⟨vm.gasMeter.gasLimit, vm.gasMeter.gasUsed + vm.cost opcode⟩
    pc := vm.pc + 1 }

/-- The machine is about to execute the opcode. -/
def At (vm : VM) (opcode : Opcode) : Prop :=
  ∃ byte, vm.code[vm.pc]? = some byte ∧ Opcode.fromU8 byte = some opcode

omit [Keccak256] in
theorem useGas_run (amount : UInt64) (vm : VM) :
    useGas amount vm =
      if vm.gasMeter.gasUsed.toNat + amount.toNat < 2 ^ 64 then
        if vm.gasMeter.gasUsed.toNat + amount.toNat ≤ vm.gasMeter.gasLimit.toNat then
          (.ok true, { vm with
            gasMeter := ⟨vm.gasMeter.gasLimit, vm.gasMeter.gasUsed + amount⟩ })
        else (.ok false, vm)
      else (.panic, vm) := by
  unfold useGas
  rw [run_onPart]
  unfold GasMeter.useGas
  simp only [run_bind, run_get]
  by_cases hfits : vm.gasMeter.gasUsed.toNat + amount.toNat < 2 ^ 64
  · have hadd : ∀ meter : GasMeter, (addU64 vm.gasMeter.gasUsed amount :
        Exec ExecutionError GasMeter UInt64) meter =
          (.ok (vm.gasMeter.gasUsed + amount), meter) := by
      intro meter
      rw [addU64, if_pos hfits]
      rfl
    rw [if_pos hfits, hadd]
    dsimp only
    have hlt : vm.gasMeter.gasLimit < vm.gasMeter.gasUsed + amount ↔
        ¬ vm.gasMeter.gasUsed.toNat + amount.toNat ≤ vm.gasMeter.gasLimit.toNat := by
      rw [UInt64.lt_iff_toNat_lt, toNat_add_of_fits hfits, not_le]
    by_cases hpays : vm.gasMeter.gasUsed.toNat + amount.toNat ≤ vm.gasMeter.gasLimit.toNat
    · rw [if_pos hpays, if_neg (fun h => hlt.mp h hpays), run_bind, hadd]
      rfl
    · rw [if_neg hpays, if_pos (hlt.mpr hpays)]
      rfl
  · have hadd : (addU64 vm.gasMeter.gasUsed amount :
        Exec ExecutionError GasMeter UInt64) vm.gasMeter = (.panic, vm.gasMeter) := by
      rw [addU64, if_neg hfits]
      rfl
    rw [if_neg hfits, hadd]

/-- **A step at an opcode** is paid for and executed, or it is refused for its price. -/
theorem step_run {vm : VM} {opcode : Opcode} (h : vm.At opcode) :
    step vm =
      if vm.gasMeter.gasUsed.toNat + (vm.cost opcode).toNat < 2 ^ 64 then
        if vm.gasMeter.gasUsed.toNat + (vm.cost opcode).toNat ≤ vm.gasMeter.gasLimit.toNat then
          execute opcode (vm.paid opcode)
        else (.err (.outOfGas vm.gasMeter.gasUsed vm.gasMeter.gasLimit), vm)
      else (.panic, vm) := by
  obtain ⟨byte, hbyte, hopcode⟩ := h
  unfold step
  rw [run_bind, run_get]
  dsimp only
  rw [hbyte]
  dsimp only
  rw [hopcode]
  dsimp only
  have hcost : Opcode.gasCost vm.gasSchedule opcode = vm.cost opcode := rfl
  rw [hcost, run_bind, useGas_run]
  split_ifs
  · rfl
  · rfl
  · rfl

/-- A step that returns has paid for its opcode. -/
theorem affords_of_ok {vm vm' : VM} {opcode : Opcode} (hat : vm.At opcode)
    (h : step vm = (.ok (), vm')) :
    vm.Affords opcode ∧ execute opcode (vm.paid opcode) = (.ok (), vm') := by
  rw [step_run hat] at h
  split_ifs at h with hfits hpays
  · exact ⟨hpays, h⟩
  · cases h
  · cases h

/-- A step that returns was made at an opcode. -/
theorem at_of_ok {vm vm' : VM} (h : step vm = (.ok (), vm')) : ∃ opcode, vm.At opcode := by
  unfold step at h
  rw [run_bind, run_get] at h
  dsimp only at h
  cases hbyte : vm.code[vm.pc]? with
  | none =>
      rw [hbyte] at h
      cases h
  | some byte =>
      cases hopcode : Opcode.fromU8 byte with
      | none =>
          rw [hbyte] at h
          dsimp only at h
          rw [hopcode] at h
          cases h
      | some opcode => exact ⟨opcode, byte, hbyte, hopcode⟩

/-- What a successful step changes outside the stack and the memory. -/
structure Stepped (vm vm' : VM) (opcode : Opcode) : Prop where
  at_opcode : vm.At opcode
  affords : vm.Affords opcode
  code : vm'.code = vm.code
  gasSchedule : vm'.gasSchedule = vm.gasSchedule
  gasLimit : vm'.gasMeter.gasLimit = vm.gasMeter.gasLimit
  gasUsed : vm'.gasMeter.gasUsed.toNat = vm.gasMeter.gasUsed.toNat + (vm.cost opcode).toNat
  pc : vm'.pc = vm.pc + 1 ∨ vm'.AtJumpDest

/-- **What a successful step does** to the gas and to the position. -/
theorem step_ok {vm vm' : VM} (h : step vm = (.ok (), vm')) :
    ∃ opcode, Stepped vm vm' opcode := by
  obtain ⟨opcode, hat⟩ := at_of_ok h
  obtain ⟨haffords, hrun⟩ := affords_of_ok hat h
  have hexecutes := within_execute opcode (vm.paid opcode)
  rw [hrun] at hexecutes
  have hfits : vm.gasMeter.gasUsed.toNat + (vm.cost opcode).toNat < 2 ^ 64 :=
    Nat.lt_of_le_of_lt haffords vm.gasMeter.gasLimit.toNat_lt
  refine ⟨opcode, hat, haffords, hexecutes.code, hexecutes.gasSchedule, ?_, ?_, hexecutes.pc⟩
  · rw [hexecutes.gasMeter]
    rfl
  · rw [hexecutes.gasMeter]
    exact toNat_add_of_fits hfits

/-! ## The loop ends -/

omit [Keccak256] in
/-- A `JUMPDEST` is always paid for. -/
theorem cost_jumpDest {vm : VM} {opcode : Opcode} (hat : vm.At opcode) (h : vm.AtJumpDest) :
    (vm.cost opcode).toNat = 1 := by
  obtain ⟨byte, hbyte, hopcode⟩ := hat
  unfold AtJumpDest at h
  rw [h] at hbyte
  cases hbyte
  have hjump : Opcode.fromU8 0x5b = some .jumpDest := by decide
  rw [hjump] at hopcode
  cases hopcode
  rfl

omit [Keccak256] in
/-- At a `JUMPDEST` or not, the second part of the measure is at most the first unit of the
first part. -/
theorem fuel_le (vm : VM) :
    vm.fuel ≤ vm.gasMeter.remaining * (vm.code.length + 2) + (vm.code.length + 2) := by
  unfold fuel
  split_ifs <;> omega

/-- **Every step makes the measure smaller.**  A step at a `JUMPDEST` pays at least one unit
of gas, every other step that goes on moves forward or to a `JUMPDEST`. -/
theorem fuel_step {vm vm' : VM} (hrunning : vm.Running) (h : step vm = (.ok (), vm')) :
    vm'.fuel < vm.fuel := by
  obtain ⟨opcode, hstep⟩ := step_ok h
  have hpc := hrunning.2
  have hle := hstep.affords
  unfold Affords at hle
  have hremaining : vm'.gasMeter.remaining + (vm.cost opcode).toNat = vm.gasMeter.remaining := by
    unfold GasMeter.remaining
    rw [hstep.gasLimit, hstep.gasUsed]
    omega
  have hlength : vm'.code.length = vm.code.length := congrArg List.length hstep.code
  by_cases hjump : vm.AtJumpDest
  · have hone := cost_jumpDest hstep.at_opcode hjump
    have hbound := fuel_le vm'
    have hfuel : vm.fuel = vm.gasMeter.remaining * (vm.code.length + 2) + 1 := by
      unfold fuel
      rw [if_pos hjump]
    rw [hlength] at hbound
    rw [hfuel, ← hremaining, hone, Nat.succ_mul]
    omega
  · have hfuel : vm.fuel =
        vm.gasMeter.remaining * (vm.code.length + 2) + (vm.code.length - vm.pc + 2) := by
      unfold fuel
      rw [if_neg hjump]
    have hmul : vm'.gasMeter.remaining * (vm.code.length + 2) ≤
        vm.gasMeter.remaining * (vm.code.length + 2) := Nat.mul_le_mul_right _ (by omega)
    by_cases hjump' : vm'.AtJumpDest
    · have hfuel' : vm'.fuel = vm'.gasMeter.remaining * (vm.code.length + 2) + 1 := by
        unfold fuel
        rw [if_pos hjump', hlength]
      omega
    · have hfuel' : vm'.fuel =
          vm'.gasMeter.remaining * (vm.code.length + 2) + (vm.code.length - vm'.pc + 2) := by
        unfold fuel
        rw [if_neg hjump', hlength]
      have hnext : vm'.pc = vm.pc + 1 := by
        rcases hstep.pc with hnext | hdest
        · exact hnext
        · exact absurd hdest hjump'
      omega

/-- The steps that the loop makes. -/
inductive Steps : ℕ → VM → VM → Prop
  | refl (vm : VM) : Steps 0 vm vm
  | step {n : ℕ} {vm vm₁ vm₂ : VM} : vm.Running → VM.step vm = (.ok (), vm₁) →
      Steps n vm₁ vm₂ → Steps (n + 1) vm vm₂

/-- Along the steps the measure goes down. -/
theorem Steps.fuel {n : ℕ} {vm vm' : VM} (h : Steps n vm vm') : vm'.fuel + n ≤ vm.fuel := by
  induction h with
  | refl vm => exact Nat.le_refl _
  | step hrunning hstep _ ih =>
      have hless := fuel_step hrunning hstep
      omega

/-- With enough steps the loop comes to its end. -/
theorem loop_of_fuel (n : ℕ) (vm : VM) (h : vm.fuel ≤ n) : (loop n vm).1 ≠ .ok none := by
  induction n generalizing vm with
  | zero =>
      unfold fuel at h
      split_ifs at h <;> omega
  | succ n ih =>
      unfold loop
      rw [run_bind, run_get]
      dsimp only
      split_ifs with hrunning
      · rw [run_bind]
        rcases hstep : step vm with ⟨u | e | _, vm'⟩
        · have hless := fuel_step hrunning hstep
          exact ih vm' (by omega)
        · nofun
        · nofun
      · nofun

/-- **The loop makes finitely many steps**, whatever the code, the gas and the prices are: it
is never left with steps to make, and their number is bounded. -/
theorem loop_terminates (code : Bytes) (gasLimit : UInt64) (schedule : GasSchedule) :
    (∀ n vm, Steps n (withSchedule code gasLimit schedule) vm →
        n ≤ gasLimit.toNat * (code.length + 2) + (code.length + 2)) ∧
      ∀ n, gasLimit.toNat * (code.length + 2) + (code.length + 2) ≤ n →
        (loop n (withSchedule code gasLimit schedule)).1 ≠ .ok none := by
  have hbound := fuel_le (withSchedule code gasLimit schedule)
  have hremaining : (withSchedule code gasLimit schedule).gasMeter.remaining = gasLimit.toNat :=
    Nat.sub_zero _
  rw [hremaining] at hbound
  refine ⟨fun n vm hsteps => ?_, fun n hn => loop_of_fuel n _ (hbound.trans hn)⟩
  have hfuel := hsteps.fuel
  have hcode : (withSchedule code gasLimit schedule).code = code := rfl
  rw [hcode] at hbound
  omega

end VM
