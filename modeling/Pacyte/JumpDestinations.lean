/-
# Jump destinations

A destination of a jump is a 256-bit number.  It is a real one (`ValidDest`) if the code has a
`JUMPDEST` there at which an instruction starts; the bytes behind a `PUSH` belong to that
instruction (`startsAfter`).

The jumps of the machine look at the last eight bytes of the word and at the byte of the code
(`jump_run`).  A jump is decided right exactly if this byte is no `JUMPDEST`, or the number has
64 bits and an instruction starts at it (`jump_right_iff`).
-/
import Pacyte.EvmRefinement

/-! ## Starts of instructions -/

/-- The number of bytes behind a byte that belong to its instruction: `PUSH1` to `PUSH32` have
that many of them. -/
def immediates (byte : UInt8) : ℕ :=
  if 0x60 ≤ byte.toNat ∧ byte.toNat ≤ 0x7f then byte.toNat - 0x5f else 0

/-- An instruction starts at the position, if the first `pending` bytes of the code belong to an
earlier one. -/
def startsAfter : ℕ → Bytes → ℕ → Bool
  | pending, _, 0 => pending == 0
  | _, [], _ + 1 => false
  | 0, byte :: code, d + 1 => startsAfter (immediates byte) code d
  | pending + 1, _ :: code, d + 1 => startsAfter pending code d

/-- An instruction of the code starts at the position. -/
def InstructionStart (code : Bytes) (d : ℕ) : Prop := startsAfter 0 code d = true

instance (code : Bytes) (d : ℕ) : Decidable (InstructionStart code d) :=
  inferInstanceAs (Decidable (_ = true))

/-- A number that a jump may go to. -/
def ValidDest (code : Bytes) (d : ℕ) : Prop :=
  d < code.length ∧ code[d]? = some 0x5b ∧ InstructionStart code d

instance (code : Bytes) (d : ℕ) : Decidable (ValidDest code d) :=
  inferInstanceAs (Decidable (_ ∧ _))

/-- The pending bytes are passed over. -/
theorem startsAfter_add {pending : ℕ} {code : Bytes} (h : pending ≤ code.length) (d : ℕ) :
    startsAfter pending code (pending + d) = startsAfter 0 (code.drop pending) d := by
  induction pending generalizing code with
  | zero => rw [Nat.zero_add, List.drop_zero]
  | succ pending ih =>
      cases code with
      | nil => exact absurd h (Nat.not_succ_le_zero _)
      | cons byte code =>
          have hadd : pending + 1 + d = pending + d + 1 := Nat.add_right_comm _ _ _
          rw [hadd]
          exact ih (Nat.le_of_succ_le_succ h)

/-- What follows a start is decided by the code from there on. -/
theorem startsAfter_from {pending : ℕ} {code : Bytes} {i : ℕ}
    (h : startsAfter pending code i = true) (k : ℕ) :
    startsAfter pending code (i + k) = startsAfter 0 (code.drop i) k := by
  induction code generalizing pending i with
  | nil =>
      cases i with
      | zero =>
          obtain rfl : pending = 0 := beq_iff_eq.mp h
          rw [Nat.zero_add, List.drop_zero]
      | succ i => cases h
  | cons byte code ih =>
      cases i with
      | zero =>
          obtain rfl : pending = 0 := beq_iff_eq.mp h
          rw [Nat.zero_add, List.drop_zero]
      | succ i =>
          have hadd : i + 1 + k = i + k + 1 := Nat.add_right_comm _ _ _
          rw [hadd, List.drop_succ_cons]
          cases pending with
          | zero => exact ih h
          | succ pending => exact ih h

/-- The first instruction starts with the code. -/
theorem InstructionStart.zero (code : Bytes) : InstructionStart code 0 := rfl

/-- **The next instruction starts behind the immediate bytes.** -/
theorem InstructionStart.next {code : Bytes} {i : ℕ} {byte : UInt8} (h : InstructionStart code i)
    (hbyte : code[i]? = some byte) (hle : i + 1 + immediates byte ≤ code.length) :
    InstructionStart code (i + 1 + immediates byte) := by
  obtain ⟨hlt, hget⟩ := List.getElem?_eq_some_iff.mp hbyte
  have hdrop : code.drop i = byte :: code.drop (i + 1) := by
    rw [List.drop_eq_getElem_cons hlt, hget]
  have hrest : immediates byte ≤ (code.drop (i + 1)).length := by
    rw [List.length_drop]
    omega
  have hskip := startsAfter_add hrest 0
  unfold InstructionStart at h ⊢
  rw [Nat.add_assoc, startsAfter_from h, hdrop, Nat.add_comm 1]
  exact hskip

/-! ## Jumps -/

/-- A position is made of the last limb of a word. -/
theorem Word.toUsize_eq (word : Word) : word.toUsize = word.value % 2 ^ 64 := by
  have hvalue := word.ofDigits_toU256
  have hlt : beNat (word.limbBytes 24) < 2 ^ 64 := word.toU256_lt _ (by simp [Word.toU256])
  unfold Word.toUsize
  rw [← hvalue]
  simp only [Word.toU256, List.reverse_cons, List.reverse_nil, List.nil_append, List.cons_append,
    Nat.ofDigits_cons, Nat.ofDigits_nil]
  omega

namespace VM

open Exec

variable [Keccak256]

/-- The machine has paid for a jump and takes its destination from the stack: a `JUMP`, or a
`JUMPI` whose condition is not zero. -/
inductive Jumps (vm : VM) (dest : Word) (rest : List Word) : Opcode → Prop
  | jump : vm.At .jump → vm.Affords .jump → vm.stack = dest :: rest → Jumps vm dest rest .jump
  | jumpI (cond : Word) : vm.At .jumpI → vm.Affords .jumpI → vm.stack = dest :: cond :: rest →
      cond.value ≠ 0 → Jumps vm dest rest .jumpI

/-- The machine after the jump. -/
def jumped (vm : VM) (opcode : Opcode) (rest : List Word) (d : ℕ) : VM :=
  { vm.paid opcode with stack := rest, pc := d }

omit [Keccak256] in
theorem jumpTo_run (dest : ℕ) (vm : VM) :
    jumpTo dest vm = if vm.code[dest]? = some 0x5b then (.ok (), { vm with pc := dest })
      else (.err .invalidJump, vm) := by
  unfold jumpTo
  rw [run_bind, run_get]
  dsimp only
  split_ifs <;> rfl

/-- **What a jump does.** -/
theorem jump_run {vm : VM} {dest : Word} {rest : List Word} {opcode : Opcode}
    (h : Jumps vm dest rest opcode) :
    step vm = if vm.code[dest.toUsize]? = some 0x5b then
        (.ok (), vm.jumped opcode rest dest.toUsize)
      else (.err .invalidJump, { vm.paid opcode with stack := rest }) := by
  cases h with
  | jump hat haffords hstack =>
      have hpop : execute .jump (vm.paid .jump) =
          jumpTo dest.toUsize { vm.paid .jump with stack := rest } :=
        run_bind_of_ok (run_bind_of_ok (run_pop hstack))
      rw [step_of_affords hat haffords, hpop, jumpTo_run]
      rfl
  | jumpI cond hat haffords hstack hcond =>
      have hcond' : ¬ cond.isZero = true := mt (Word.isZero_iff cond).mp hcond
      have hfirst : execute .jumpI (vm.paid .jumpI) =
          (pop >>= fun cond => if cond.isZero then (pure () : Machine Unit) else
            jumpTo dest.toUsize) { vm.paid .jumpI with stack := cond :: rest } :=
        run_bind_of_ok (run_bind_of_ok (run_pop hstack))
      have hsecond : (pop >>= fun cond => if cond.isZero then (pure () : Machine Unit) else
            jumpTo dest.toUsize) { vm.paid .jumpI with stack := cond :: rest } =
          (if cond.isZero then (pure () : Machine Unit) else jumpTo dest.toUsize)
            { vm.paid .jumpI with stack := rest } := run_bind_of_ok (run_pop rfl)
      rw [step_of_affords hat haffords, hfirst, hsecond, if_neg hcond', jumpTo_run]
      rfl

/-- A jump continues at a real destination, and is invalid for every other number. -/
def JumpRight (vm : VM) (dest : Word) (rest : List Word) (opcode : Opcode) : Prop :=
  (ValidDest vm.code dest.value → step vm = (.ok (), vm.jumped opcode rest dest.value)) ∧
    (¬ ValidDest vm.code dest.value → (step vm).1 = .err .invalidJump)

/-- **When a jump is decided right**: if the code has no `JUMPDEST` at the position that the last
64 bits of the destination make, or if these bits are all of the number and an instruction starts
at it.  The code of a machine has less than `2 ^ 64` bytes. -/
theorem jump_right_iff {vm : VM} {dest : Word} {rest : List Word} {opcode : Opcode}
    (hcode : vm.code.length < 2 ^ 64) (h : Jumps vm dest rest opcode) :
    JumpRight vm dest rest opcode ↔
      (vm.code[dest.value % 2 ^ 64]? = some 0x5b →
        dest.value < 2 ^ 64 ∧ InstructionStart vm.code dest.value) := by
  have hrun := jump_run h
  rw [Word.toUsize_eq] at hrun
  unfold JumpRight
  rw [hrun]
  by_cases hbyte : vm.code[dest.value % 2 ^ 64]? = some 0x5b
  · rw [if_pos hbyte]
    constructor
    · rintro ⟨-, hinvalid⟩ -
      by_contra hcond
      have hnot : ¬ ValidDest vm.code dest.value := fun hvalid =>
        hcond ⟨Nat.lt_trans hvalid.1 hcode, hvalid.2.2⟩
      cases hinvalid hnot
    · intro hcond
      obtain ⟨hfits, hstart⟩ := hcond hbyte
      rw [Nat.mod_eq_of_lt hfits] at hbyte ⊢
      have hlt := (List.getElem?_eq_some_iff.mp hbyte).1
      exact ⟨fun _ => rfl, fun hnot => absurd ⟨hlt, hbyte, hstart⟩ hnot⟩
  · rw [if_neg hbyte]
    refine iff_of_true ⟨fun hvalid => ?_, fun _ => rfl⟩ fun hbyte' => absurd hbyte' hbyte
    have hfits := Nat.lt_trans hvalid.1 hcode
    rw [Nat.mod_eq_of_lt hfits] at hbyte
    exact absurd hvalid.2.1 hbyte

/-- A loop that is left with steps to make has made all of those before. -/
theorem steps_of_loop {n : ℕ} {vm vm' : VM} (h : loop n vm = (.ok none, vm')) :
    Steps n vm vm' := by
  induction n generalizing vm with
  | zero =>
      unfold loop at h
      rw [run_bind, run_get] at h
      dsimp only at h
      split_ifs at h with hrunning
      · cases h
        exact .refl _
      · cases h
  | succ n ih =>
      unfold loop at h
      rw [run_bind, run_get] at h
      dsimp only at h
      split_ifs at h with hrunning
      · rw [run_bind] at h
        rcases hstep : step vm with ⟨u | e | _, vm₁⟩
        · rw [hstep] at h
          exact .step hrunning hstep (ih h)
        · rw [hstep] at h
          cases h
        · rw [hstep] at h
          cases h
      · cases h

end VM

/-! ## A byte behind a `PUSH`, and a number that is too long -/

section Example

open scoped VmSample

/-- `PUSH1 0x5b PC PC SUB JUMP`. -/
def immediateJump : Bytes := [0x60, 0x5b, 0x58, 0x58, 0x03, 0x56]

/-- `JUMPDEST PC PC SUB PC PC SUB DIV JUMP`; the quotient is the word `2 ^ 64`. -/
def longJump : Bytes := [0x5b, 0x58, 0x58, 0x03, 0x58, 0x58, 0x03, 0x04, 0x56]

/-- The machine after some steps of a program. -/
def jumpingVm (code : Bytes) (n : ℕ) : VM := (VM.loop n (VM.new code 100)).2

/-- A machine before a `JUMP` to its first byte. -/
def loopingVm : VM := { VM.new [0x5b, 0x56] 100 with stack := [Word.zero], pc := 1 }

/-- The jump of the machine goes to the `JUMPDEST`. -/
theorem jump_right_looping : VM.JumpRight loopingVm Word.zero [] .jump := by
  have hjumps : VM.Jumps loopingVm Word.zero [] .jump :=
    .jump ⟨0x56, rfl, rfl⟩ (by unfold VM.Affords; decide) rfl
  refine (VM.jump_right_iff (by decide) hjumps).mpr fun _ => ?_
  rw [Word.value_zero]
  exact ⟨by decide, InstructionStart.zero _⟩

/-- The first program jumps into the middle of its `PUSH1`; the second one jumps to its first byte,
with a destination that is no position of the code. -/
theorem jump_wrong :
    (VM.Steps 5 (VM.new immediateJump 100) (jumpingVm immediateJump 5) ∧
      VM.Jumps (jumpingVm immediateJump 5) Word.one [] .jump ∧
      ¬ InstructionStart immediateJump Word.one.value ∧
      ¬ VM.JumpRight (jumpingVm immediateJump 5) Word.one [] .jump) ∧
    VM.Steps 8 (VM.new longJump 100) (jumpingVm longJump 8) ∧
      VM.Jumps (jumpingVm longJump 8) (Word.ofU256 [0, 0, 1, 0]) [] .jump ∧
      longJump.length ≤ (Word.ofU256 [0, 0, 1, 0]).value ∧
      ¬ VM.JumpRight (jumpingVm longJump 8) (Word.ofU256 [0, 0, 1, 0]) [] .jump := by
  have hsteps : VM.Steps 5 (VM.new immediateJump 100) (jumpingVm immediateJump 5) :=
    VM.steps_of_loop (by decide +kernel)
  have hjumps : VM.Jumps (jumpingVm immediateJump 5) Word.one [] .jump :=
    .jump ⟨0x56, by decide +kernel, rfl⟩ (by unfold VM.Affords; decide +kernel) (by decide +kernel)
  have hsteps' : VM.Steps 8 (VM.new longJump 100) (jumpingVm longJump 8) :=
    VM.steps_of_loop (by decide +kernel)
  have hjumps' : VM.Jumps (jumpingVm longJump 8) (Word.ofU256 [0, 0, 1, 0]) [] .jump :=
    .jump ⟨0x56, by decide +kernel, rfl⟩ (by unfold VM.Affords; decide +kernel) (by decide +kernel)
  have hlong : (Word.ofU256 [0, 0, 1, 0]).value = 2 ^ 64 := by decide +kernel
  refine ⟨⟨hsteps, hjumps, ?_, fun hright => ?_⟩, hsteps', hjumps', ?_, fun hright => ?_⟩
  · rw [Word.value_one]
    decide
  · have hinvalid : ¬ ValidDest (jumpingVm immediateJump 5).code Word.one.value := by
      decide +kernel
    have hstep : (VM.step (jumpingVm immediateJump 5)).1 = .ok () := by decide +kernel
    rw [hright.2 hinvalid] at hstep
    cases hstep
  · rw [hlong]
    decide
  · have hinvalid : ¬ ValidDest (jumpingVm longJump 8).code (Word.ofU256 [0, 0, 1, 0]).value :=
      fun hvalid => by
        have hlt := hvalid.1
        rw [hlong] at hlt
        revert hlt
        decide +kernel
    have hstep : (VM.step (jumpingVm longJump 8)).1 = .ok () := by decide +kernel
    rw [hright.2 hinvalid] at hstep
    cases hstep

end Example
