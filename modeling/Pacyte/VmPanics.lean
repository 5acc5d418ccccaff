/-
# Where the virtual machine panics

The operations of the machine of `src/execution/vm.rs` that are not safe for every stack: the
product of two 128-bit numbers, and the sum of a position and a size.  Everything else
returns or fails with an `ExecutionError`.

* `Traps` lists the opcodes with such an operation, and when it overflows; `execute_panics`
  says that these are all.
* `Hazard` are the states where a step panics; a run panics exactly when it comes to one
  (`run_panics_iff`).
-/
import Pacyte.VmSteps

namespace VM

open Exec

variable [Keccak256]

/-! ## Panics -/

omit [Keccak256] in
theorem post_pop (vm : VM) (Q : Outcome ExecutionError Word → VM → Prop) :
    Post pop vm Q ↔
      match vm.stack with
      | [] => Q (.err .stackUnderflow) vm
      | value :: rest => Q (.ok value) { vm with stack := rest } := by
  unfold pop
  rw [post_bind, post_get]
  dsimp only
  cases vm.stack with
  | nil => exact Iff.rfl
  | cons value rest => exact Iff.rfl

omit [Keccak256] in
theorem post_push (value : Word) (vm : VM) (Q : Outcome ExecutionError Unit → VM → Prop) :
    Post (push value) vm Q ↔
      (maxStackSize ≤ vm.stack.length → Q (.err .stackOverflow) vm) ∧
      (¬ maxStackSize ≤ vm.stack.length → Q (.ok ()) { vm with stack := value :: vm.stack }) := by
  unfold push
  rw [post_bind, post_get]
  dsimp only
  rw [post_ite]
  exact Iff.rfl

/-- The program panics if and only if `P`. -/
def PanicsIff {α : Type} (m : Machine α) (vm : VM) (P : Prop) : Prop :=
  Post m vm fun o _ => o = .panic ↔ P

omit [Keccak256] in
theorem PanicsIff.congr {α : Type} {m : Machine α} {vm : VM} {P Q : Prop}
    (h : PanicsIff m vm P) (hPQ : P ↔ Q) : PanicsIff m vm Q := Iff.trans h hPQ

omit [Keccak256] in
theorem push_panics (value : Word) (vm : VM) : PanicsIff (push value) vm False := by
  unfold PanicsIff
  rw [post_push]
  exact ⟨fun _ => iff_of_false nofun id, fun _ => iff_of_false nofun id⟩

omit [Keccak256] in
/-- An opcode that takes an item from the stack. -/
theorem pop_panics {α : Type} {f : Word → Machine α} {vm : VM} {P : List Word → Prop}
    (hnil : ¬ P [])
    (hcons : ∀ value rest, vm.stack = value :: rest →
      PanicsIff (f value) { vm with stack := rest } (P (value :: rest))) :
    PanicsIff (pop >>= f) vm (P vm.stack) := by
  unfold PanicsIff
  rw [post_bind, post_pop]
  cases hstack : vm.stack with
  | nil => exact iff_of_false nofun hnil
  | cons value rest => exact hcons value rest hstack

omit [Keccak256] in
theorem popUsize_panics {α : Type} {f : ℕ → Machine α} {vm : VM} {P : List Word → Prop}
    (hnil : ¬ P [])
    (hcons : ∀ value rest, vm.stack = value :: rest →
      PanicsIff (f value.toUsize) { vm with stack := rest } (P (value :: rest))) :
    PanicsIff (popUsize >>= f) vm (P vm.stack) := by
  have hassoc : popUsize >>= f = pop >>= fun value => f value.toUsize :=
    Exec.bind_assoc pop (fun word => pure word.toUsize) f
  rw [hassoc]
  exact pop_panics hnil hcons

omit [Keccak256] in
theorem binary_panics (f : Word → Word → Word) (vm : VM) : PanicsIff (binary f) vm False :=
  pop_panics (P := fun _ => False) id fun _ _ _ =>
    pop_panics (P := fun _ => False) id fun _ _ _ => push_panics _ _

omit [Keccak256] in
theorem unary_panics (f : Word → Word) (vm : VM) : PanicsIff (unary f) vm False :=
  pop_panics (P := fun _ => False) id fun _ _ _ => push_panics _ _

/-- A read that starts in the memory and whose end is not a 64-bit number. -/
def Unreadable (data : Bytes) (offset size : ℕ) : Prop :=
  offset < data.length ∧ 2 ^ 64 ≤ offset + size

omit [Keccak256] in
/-- A read returns as many bytes as it was asked for, or panics. -/
theorem read_run {ε σ : Type} (data : Bytes) (offset size : ℕ) (s : σ) :
    (Unreadable data offset size ∧
        (Memory.read .succeeds data offset size : Exec ε σ Bytes) s = (.panic, s)) ∨
      (¬ Unreadable data offset size ∧ ∃ bytes, bytes.length = size ∧
        (Memory.read .succeeds data offset size : Exec ε σ Bytes) s = (.ok bytes, s)) := by
  unfold Memory.read Unreadable
  by_cases hout : data.length ≤ offset
  · right
    refine ⟨fun h => absurd h.1 (by omega), List.replicate size 0, List.length_replicate .., ?_⟩
    rw [if_pos hout]
    rfl
  · rw [if_neg hout, run_bind, snd_addUsize]
    by_cases hfits : offset + size < 2 ^ 64
    · right
      rw [if_pos hfits]
      refine ⟨fun h => absurd h.2 (by omega), _, ?_, resize_run _ size s⟩
      rw [List.length_append, List.length_replicate]
      have hlen : ((data.drop offset).take (min (offset + size) data.length - offset)).length
          ≤ size := by
        rw [List.length_take]
        omega
      omega
    · left
      refine ⟨⟨by omega, by omega⟩, ?_⟩
      rw [if_neg hfits]

omit [Keccak256] in
theorem readMemory_panics {α : Type} {f : Bytes → Machine α} {offset size : ℕ} {vm : VM}
    (hf : ∀ bytes, PanicsIff (f bytes) vm False) :
    PanicsIff (readMemory offset size >>= f) vm (Unreadable vm.memory offset size) := by
  rcases read_run (ε := ExecutionError) vm.memory offset size vm with
    ⟨hun, hrun⟩ | ⟨hread, bytes, -, hrun⟩
  · have hpanic : (readMemory offset size >>= f) vm = (.panic, vm) := run_bind_of_panic hrun
    unfold PanicsIff Post
    rw [hpanic]
    exact iff_of_true rfl hun
  · have hok : (readMemory offset size >>= f) vm = f bytes vm := run_bind_of_ok hrun
    unfold PanicsIff Post
    rw [hok]
    exact Iff.trans (hf bytes) (iff_of_false id hread)

omit [Keccak256] in
theorem writeMemory_panics (offset : ℕ) (bytes : Bytes) (vm : VM) :
    PanicsIff (writeMemory offset bytes) vm (2 ^ 64 ≤ offset + bytes.length) := by
  unfold PanicsIff writeMemory
  rw [post_bind, post_get]
  dsimp only
  rw [post_bind, Post]
  unfold Memory.write
  rw [run_bind, snd_addUsize]
  by_cases hfits : offset + bytes.length < 2 ^ 64
  · rw [if_pos hfits]
    dsimp only
    rw [run_bind, resize_run]
    exact iff_of_false (by rintro ⟨⟩) (by omega)
  · rw [if_neg hfits]
    exact iff_of_true rfl (by omega)

omit [Keccak256] in
theorem jumpTo_panics (dest : ℕ) (vm : VM) : PanicsIff (jumpTo dest) vm False := by
  unfold PanicsIff jumpTo
  rw [post_bind, post_get]
  dsimp only
  rw [post_ite]
  exact ⟨fun _ => iff_of_false nofun id, fun _ => iff_of_false nofun id⟩

/-- The condition on the top of the stack. -/
def OnTop (P : Word → Prop) : List Word → Prop
  | a :: _ => P a
  | [] => False

/-- The condition on the two top items. -/
def OnTopTwo (P : Word → Word → Prop) : List Word → Prop
  | a :: b :: _ => P a b
  | _ => False

/-- Where an opcode panics, with this memory and this stack: a product that overflows, or a
memory access whose end overflows. -/
def Traps (memory : Bytes) : Opcode → List Word → Prop
  | .mul => OnTopTwo fun a b => 2 ^ 128 ≤ a.lowPart * b.lowPart
  | .mload => OnTop fun a => Unreadable memory a.toUsize 32
  | .mstore => OnTopTwo fun a _ => 2 ^ 64 ≤ a.toUsize + 32
  | .mstore8 => OnTopTwo fun a _ => 2 ^ 64 ≤ a.toUsize + 1
  | .sha3 | .return | .revert =>
    OnTopTwo fun a b => Unreadable memory a.toUsize b.toUsize
  | _ => fun _ => False

omit [Keccak256] in
/-- An opcode that takes two items from the stack. -/
theorem pop_pop_panics {α : Type} {f : Word → Word → Machine α} {vm : VM}
    {P : Word → Word → Prop}
    (h : ∀ a b rest, vm.stack = a :: b :: rest →
      PanicsIff (f a b) { vm with stack := rest } (P a b)) :
    PanicsIff (pop >>= fun a => pop >>= f a) vm (OnTopTwo P vm.stack) := by
  refine pop_panics (P := OnTopTwo P) id fun a rest hstack => ?_
  refine pop_panics (P := fun l => OnTopTwo P (a :: l)) id fun b rest' hstack' => ?_
  have hrest : rest = b :: rest' := hstack'
  exact h a b rest' (by rw [hstack, hrest])

theorem mul_panics (vm : VM) :
    PanicsIff (execute .mul) vm
      (OnTopTwo (fun a b => 2 ^ 128 ≤ a.lowPart * b.lowPart) vm.stack) := by
  refine pop_pop_panics (P := fun a b => 2 ^ 128 ≤ a.lowPart * b.lowPart) fun a b rest _ => ?_
  by_cases hfits : a.lowPart * b.lowPart < 2 ^ 128
  · have hmul : (Word.mul a b : Machine Word) =
        pure (Word.ofLowPart (a.lowPart * b.lowPart)) := if_pos hfits
    rw [hmul, Exec.pure_bind]
    exact (push_panics _ _).congr (iff_of_false id (Nat.not_le_of_lt hfits))
  · have hmul : (Word.mul a b : Machine Word) = abort := if_neg hfits
    rw [hmul]
    exact iff_of_true rfl (Nat.le_of_not_lt hfits)

theorem mload_panics (vm : VM) :
    PanicsIff (execute .mload) vm
      (OnTop (fun a => Unreadable vm.memory a.toUsize 32) vm.stack) := by
  refine popUsize_panics (P := OnTop fun a => Unreadable vm.memory a.toUsize 32) id
    fun a rest _ => ?_
  unfold PanicsIff
  rw [post_bind, post_get]
  dsimp only
  rw [post_bind, Post]
  unfold Memory.readWord
  rw [run_bind]
  rcases read_run (ε := ExecutionError) vm.memory a.toUsize 32 { vm with stack := rest } with
    ⟨hun, hrun⟩ | ⟨hread, bytes, hlen, hrun⟩
  · rw [hrun]
    exact iff_of_true rfl hun
  · rw [hrun]
    dsimp only
    rw [if_pos hlen]
    exact (push_panics _ _).congr (iff_of_false id hread)

theorem mstore_panics (vm : VM) :
    PanicsIff (execute .mstore) vm
      (OnTopTwo (fun a _ => 2 ^ 64 ≤ a.toUsize + 32) vm.stack) := by
  refine popUsize_panics (P := OnTopTwo fun a _ => 2 ^ 64 ≤ a.toUsize + 32) id
    fun a rest _ => ?_
  refine pop_panics (P := fun l => OnTopTwo (fun a _ => 2 ^ 64 ≤ a.toUsize + 32) (a :: l)) id
    fun b rest' _ => ?_
  refine (writeMemory_panics _ _ _).congr ?_
  rw [Vector.length_toList]
  exact Iff.rfl

theorem mstore8_panics (vm : VM) :
    PanicsIff (execute .mstore8) vm
      (OnTopTwo (fun a _ => 2 ^ 64 ≤ a.toUsize + 1) vm.stack) := by
  refine popUsize_panics (P := OnTopTwo fun a _ => 2 ^ 64 ≤ a.toUsize + 1) id
    fun a rest _ => ?_
  refine pop_panics (P := fun l => OnTopTwo (fun a _ => 2 ^ 64 ≤ a.toUsize + 1) (a :: l)) id
    fun b rest' _ => ?_
  exact writeMemory_panics _ _ _

omit [Keccak256] in
/-- An opcode that takes a part of the memory: `SHA3`, `RETURN` and `REVERT`. -/
theorem region_panics {α : Type} {f : Bytes → Machine α} {vm : VM}
    (hf : ∀ bytes vm, PanicsIff (f bytes) vm False) :
    PanicsIff (do let offset ← popUsize; let size ← popUsize; readMemory offset size >>= f) vm
      (OnTopTwo (fun a b => Unreadable vm.memory a.toUsize b.toUsize) vm.stack) := by
  refine popUsize_panics (P := OnTopTwo fun a b => Unreadable vm.memory a.toUsize b.toUsize) id
    fun a rest _ => ?_
  refine popUsize_panics
    (P := fun l => OnTopTwo (fun a b => Unreadable vm.memory a.toUsize b.toUsize) (a :: l)) id
    fun b rest' _ => ?_
  exact readMemory_panics fun bytes => hf bytes _

/-- Taking a branch or not. -/
theorem jumpI_panics (vm : VM) : PanicsIff (execute .jumpI) vm False := by
  refine popUsize_panics (P := fun _ => False) id fun dest _ _ => ?_
  refine pop_panics (P := fun _ => False) id fun cond _ _ => ?_
  unfold PanicsIff
  rw [post_ite]
  exact ⟨fun _ => iff_of_false nofun id, fun _ => jumpTo_panics _ _⟩

omit [Keccak256] in
/-- An opcode that pushes a number of the machine. -/
theorem observe_panics (f : VM → Word) (vm : VM) :
    PanicsIff (do let vm ← Exec.get; push (f vm)) vm False := by
  unfold PanicsIff
  rw [post_bind, post_get]
  exact push_panics (f vm) vm

/-- An opcode without an implementation does nothing. -/
theorem idle_panics {opcode : Opcode} (vm : VM) (hrun : execute opcode = pure ())
    (htraps : Traps vm.memory opcode = fun _ => False) :
    PanicsIff (execute opcode) vm (Traps vm.memory opcode vm.stack) := by
  rw [hrun, htraps]
  exact iff_of_false nofun id

/-- **An opcode panics exactly at a trap.** -/
theorem execute_panics (opcode : Opcode) (vm : VM) :
    PanicsIff (execute opcode) vm (Traps vm.memory opcode vm.stack) := by
  cases opcode with
  | add => exact binary_panics _ _
  | mul => exact mul_panics vm
  | sub => exact binary_panics _ _
  | div => exact binary_panics _ _
  | lt => exact binary_panics _ _
  | gt => exact binary_panics _ _
  | eq => exact binary_panics _ _
  | isZero => exact unary_panics _ _
  | and => exact binary_panics _ _
  | or => exact binary_panics _ _
  | xor => exact binary_panics _ _
  | not => exact unary_panics _ _
  | pop => exact pop_panics (P := fun _ => False) id fun _ _ _ => iff_of_false nofun id
  | mload => exact mload_panics vm
  | mstore => exact mstore_panics vm
  | mstore8 => exact mstore8_panics vm
  | jump => exact popUsize_panics (P := fun _ => False) id fun _ _ _ => jumpTo_panics _ _
  | jumpI => exact jumpI_panics vm
  | pc => exact observe_panics (fun vm => Word.ofU64 vm.pc) vm
  | gas => exact observe_panics (fun vm => Word.ofU64 vm.gasMeter.remaining) vm
  | sha3 => exact region_panics fun _ _ => push_panics _ _
  | «return» => exact region_panics fun _ _ => iff_of_false nofun id
  | revert => exact region_panics fun _ _ => iff_of_false nofun id
  | stop => exact iff_of_false nofun id
  | invalid => exact iff_of_false nofun id
  | _ => exact idle_panics vm rfl rfl

/-! ## Runs that panic -/

/-- The state before a step that panics: the opcode cannot be paid for with a 64-bit number,
or it is paid for and traps. -/
def Hazard (vm : VM) : Prop :=
  vm.Running ∧ ∃ opcode, vm.At opcode ∧
    (2 ^ 64 ≤ vm.gasMeter.gasUsed.toNat + (vm.cost opcode).toNat ∨
      vm.Affords opcode ∧ Traps vm.memory opcode vm.stack)

omit [Keccak256] in
theorem At.unique {vm : VM} {opcode opcode' : Opcode} (h : vm.At opcode) (h' : vm.At opcode') :
    opcode = opcode' := by
  obtain ⟨byte, hbyte, hopcode⟩ := h
  obtain ⟨byte', hbyte', hopcode'⟩ := h'
  rw [hbyte] at hbyte'
  cases hbyte'
  rw [hopcode] at hopcode'
  exact Option.some.inj hopcode'

/-- A step at a byte that is no opcode is refused. -/
theorem step_of_not_at {vm : VM} (hrunning : vm.Running) (hat : ∀ opcode, ¬ vm.At opcode) :
    ∃ byte, step vm = (.err (.invalidOpcode byte), vm) := by
  have hpc := hrunning.2
  have hbyte : vm.code[vm.pc]? = some vm.code[vm.pc] := List.getElem?_eq_getElem hpc
  refine ⟨vm.code[vm.pc], ?_⟩
  cases hopcode : Opcode.fromU8 vm.code[vm.pc] with
  | none =>
      unfold step
      rw [run_bind, run_get]
      dsimp only
      rw [hbyte]
      dsimp only
      rw [hopcode]
      rfl
  | some opcode => exact absurd ⟨_, hbyte, hopcode⟩ (hat opcode)

/-- **One step panics exactly in a hazard.** -/
theorem step_panics {vm : VM} (hrunning : vm.Running) : (step vm).1 = .panic ↔ vm.Hazard := by
  by_cases hat : ∃ opcode, vm.At opcode
  · obtain ⟨opcode, hat⟩ := hat
    have hhazard : vm.Hazard ↔
        2 ^ 64 ≤ vm.gasMeter.gasUsed.toNat + (vm.cost opcode).toNat ∨
          vm.Affords opcode ∧ Traps vm.memory opcode vm.stack := by
      refine ⟨?_, fun h => ⟨hrunning, opcode, hat, h⟩⟩
      rintro ⟨-, opcode', hat', h⟩
      rw [hat.unique hat']
      exact h
    have hexecute : (execute opcode (vm.paid opcode)).1 = .panic ↔
        Traps vm.memory opcode vm.stack := execute_panics opcode (vm.paid opcode)
    rw [hhazard, step_run hat]
    unfold Affords
    split_ifs with hfits hpays
    · rw [hexecute]
      exact ⟨fun h => Or.inr ⟨hpays, h⟩,
        fun h => h.elim (fun hle => absurd hfits (Nat.not_lt_of_le hle)) And.right⟩
    · refine iff_of_false nofun ?_
      rintro (hle | ⟨hpays', -⟩)
      · exact absurd hfits (Nat.not_lt_of_le hle)
      · exact hpays hpays'
    · exact iff_of_true rfl (Or.inl (Nat.le_of_not_lt hfits))
  · have hat' : ∀ opcode, ¬ vm.At opcode := fun opcode h => hat ⟨opcode, h⟩
    obtain ⟨byte, hstep⟩ := step_of_not_at hrunning hat'
    rw [hstep]
    refine iff_of_false nofun ?_
    rintro ⟨-, opcode, hopcode, -⟩
    exact hat' opcode hopcode

/-- The loop panics exactly if its steps lead to a hazard. -/
theorem loop_panics (n : ℕ) (vm : VM) (h : vm.fuel ≤ n) :
    (loop n vm).1 = .panic ↔ ∃ k vm', Steps k vm vm' ∧ vm'.Hazard := by
  induction n generalizing vm with
  | zero =>
      unfold fuel at h
      split_ifs at h <;> omega
  | succ n ih =>
      unfold loop
      rw [run_bind, run_get]
      dsimp only
      split_ifs with hrunning
      · rw [run_bind]
        rcases hstep : step vm with ⟨u | e | _, vm₁⟩
        · -- the hazards after the step are those of the rest of the loop
          have hless := fuel_step hrunning hstep
          dsimp only
          rw [ih vm₁ (by omega)]
          constructor
          · rintro ⟨k, vm', hsteps, hhazard⟩
            exact ⟨k + 1, vm', .step hrunning hstep hsteps, hhazard⟩
          · rintro ⟨k, vm', hsteps, hhazard⟩
            cases hsteps with
            | refl =>
                have hpanic := (step_panics hrunning).mpr hhazard
                rw [hstep] at hpanic
                cases hpanic
            | step _ hstep' hrest =>
                rw [hstep] at hstep'
                cases hstep'
                exact ⟨_, vm', hrest, hhazard⟩
        · refine iff_of_false (by rintro ⟨⟩) ?_
          rintro ⟨k, vm', hsteps, hhazard⟩
          cases hsteps with
          | refl =>
              have hpanic := (step_panics hrunning).mpr hhazard
              rw [hstep] at hpanic
              cases hpanic
          | step _ hstep' _ =>
              rw [hstep] at hstep'
              cases hstep'
        · refine iff_of_true rfl ⟨0, vm, .refl vm, (step_panics hrunning).mp ?_⟩
          rw [hstep]
      · refine iff_of_false (by rintro ⟨⟩) ?_
        rintro ⟨k, vm', hsteps, hhazard⟩
        cases hsteps with
        | refl => exact hrunning hhazard.1
        | step hrunning' _ _ => exact hrunning hrunning'

/-- **A run panics exactly if it comes to a hazard.**  All other runs end with the data they
return or with an error. -/
theorem run_panics_iff (code : Bytes) (gasLimit : UInt64) :
    (run (new code gasLimit)).1 = .panic ↔
      ∃ n vm, Steps n (new code gasLimit) vm ∧ vm.Hazard := by
  rw [← loop_panics (new code gasLimit).fuel _ (Nat.le_refl _)]
  have hends := loop_of_fuel (new code gasLimit).fuel _ (Nat.le_refl _)
  unfold VM.run
  rw [run_bind, run_get]
  dsimp only
  rw [run_bind]
  rcases hloop : loop (new code gasLimit).fuel (new code gasLimit) with ⟨(_ | data) | e | _, vm'⟩
  · rw [hloop] at hends
    exact absurd rfl hends
  · exact iff_of_false (by rintro ⟨⟩) (by rintro ⟨⟩)
  · exact iff_of_false (by rintro ⟨⟩) (by rintro ⟨⟩)
  · exact iff_of_true rfl rfl

end VM

/-! ## A product that overflows -/

namespace VmSample

/-- A digest for tests. -/
scoped instance digest : Keccak256 := ⟨fun _ => zero32⟩

end VmSample

section Example

open scoped VmSample

/-- `PC PC MUL`: both factors are read as multiples of `2 ^ 64`. -/
theorem vm_run_panics : (VM.run (VM.new [0x58, 0x58, 0x02] 100)).1 = .panic := by
  decide

end Example
