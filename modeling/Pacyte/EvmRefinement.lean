/-
# The virtual machine against the reference

The machine of `src/execution/vm.rs` and the reference of `Evm.lean` on the instructions that
the reference has: `step` follows the reference if it returns, and leaves the position and the
stack that the reference leaves (`Follows`).

* `PUSH` and `DUP` do nothing, so they never follow; nor does `SWAP`, but where it would
  exchange equal items nothing is to be done.
* `MUL` and `DIV` work on crossed limbs; `WordArithmetic.lean` says when they are right.
* Everything else follows.

`Conforms` is the condition for this; a run in which every step conforms leaves the stack of
the reference (`evm_follows_iff`).
-/
import Pacyte.Evm
import Pacyte.VmPanics
import Pacyte.WordArithmetic

/-! ## Items -/

namespace Word

/-- The item of a word. -/
def toItem (word : Word) : Evm.Item := BitVec.ofNat 256 word.value

@[simp] theorem toNat_toItem (word : Word) : word.toItem.toNat = word.value := by
  rw [toItem, BitVec.toNat_ofNat]
  exact Nat.mod_eq_of_lt word.value_lt

theorem toItem_injective {a b : Word} (h : a.toItem = b.toItem) : a = b := by
  have hnat := congrArg BitVec.toNat h
  rw [toNat_toItem, toNat_toItem] at hnat
  exact value_injective hnat

theorem toItem_add (a b : Word) : (add a b).toItem = a.toItem + b.toItem := by
  apply BitVec.eq_of_toNat_eq
  rw [BitVec.toNat_add, toNat_toItem, toNat_toItem, toNat_toItem, value_add]

theorem toItem_sub (a b : Word) : (sub a b).toItem = a.toItem - b.toItem := by
  apply BitVec.eq_of_toNat_eq
  rw [BitVec.toNat_sub, toNat_toItem, toNat_toItem, toNat_toItem, value_sub]

/-- The word of a condition is its item. -/
theorem toItem_ofBool {c : Bool} {p : Prop} [Decidable p] (h : c = true ↔ p) :
    (ofBool c).toItem = Evm.ofProp p := by
  have hc : c = decide p := Bool.eq_iff_iff.mpr (h.trans decide_eq_true_iff.symm)
  rw [hc, Evm.ofProp]
  by_cases hp : p
  · rw [decide_eq_true hp, if_pos hp, toItem, value_ofBool, if_pos rfl]
    rfl
  · rw [decide_eq_false hp, if_neg hp, toItem, value_ofBool, if_neg (by decide)]
    rfl

theorem lt_iff_toItem (a b : Word) : lt a b = true ↔ a.toItem < b.toItem := by
  rw [lt_iff, BitVec.lt_def, toNat_toItem, toNat_toItem]

theorem gt_iff_toItem (a b : Word) : gt a b = true ↔ b.toItem < a.toItem := lt_iff_toItem b a

theorem beq_iff_toItem (a b : Word) : (a == b) = true ↔ a.toItem = b.toItem := by
  rw [beq_iff_eq]
  exact ⟨congrArg toItem, toItem_injective⟩

theorem isZero_iff_toItem (a : Word) : a.isZero = true ↔ a.toItem = 0 := by
  rw [isZero_iff, ← toNat_toItem]
  exact ⟨fun h => BitVec.eq_of_toNat_eq h, fun h => by rw [h]; rfl⟩

theorem toItem_and (a b : Word) :
    toItem (Vector.zipWith (· &&& ·) a b) = a.toItem &&& b.toItem := by
  apply BitVec.eq_of_toNat_eq
  rw [BitVec.toNat_and, toNat_toItem, toNat_toItem, toNat_toItem, value_and]

theorem toItem_or (a b : Word) :
    toItem (Vector.zipWith (· ||| ·) a b) = a.toItem ||| b.toItem := by
  apply BitVec.eq_of_toNat_eq
  rw [BitVec.toNat_or, toNat_toItem, toNat_toItem, toNat_toItem, value_or]

theorem toItem_xor (a b : Word) :
    toItem (Vector.zipWith (· ^^^ ·) a b) = a.toItem ^^^ b.toItem := by
  apply BitVec.eq_of_toNat_eq
  rw [BitVec.toNat_xor, toNat_toItem, toNat_toItem, toNat_toItem, value_xor]

theorem toItem_not (a : Word) : toItem (Vector.map (~~~ ·) a) = ~~~ a.toItem := by
  apply BitVec.eq_of_toNat_eq
  rw [BitVec.toNat_not, toNat_toItem, toNat_toItem, value_not]

/-! ## Products and quotients of crossed limbs -/

/-- **A product of crossed limbs** that fits is the product modulo `2 ^ 256` only where both
are zero. -/
theorem crossed_mul_iff (x y : ℕ) :
    crossed x * crossed y < 2 ^ 128 ∧ crossed (crossed x * crossed y) = x * y % 2 ^ 256 ↔
      (crossed x = 0 ∨ crossed y = 0) ∧ x * y % 2 ^ 256 = 0 := by
  rw [← Nat.mul_eq_zero]
  constructor
  · rintro ⟨hfits, heq⟩
    have hprod : crossed x * crossed y = 0 := product_eq_zero hfits heq
    refine ⟨hprod, ?_⟩
    rw [← heq, hprod, crossed_zero]
  · rintro ⟨hprod, hzero⟩
    rw [hprod, hzero, crossed_zero]
    exact ⟨by decide, rfl⟩

/-- The quotient of the items is that of the numbers. -/
theorem toItem_div_iff (a b : Word) :
    (div a b).toItem = a.toItem / b.toItem ↔ DivRight a b := by
  rw [← BitVec.toNat_inj, BitVec.toNat_udiv, toNat_toItem, toNat_toItem, toNat_toItem, DivRight]

end Word

/-! ## Instructions -/

/-- The opcode that an instruction is decoded to. -/
def Evm.Instr.opcode : Evm.Instr → Opcode
  | .add => .add
  | .mul => .mul
  | .sub => .sub
  | .div => .div
  | .lt => .lt
  | .gt => .gt
  | .eq => .eq
  | .isZero => .isZero
  | .and => .and
  | .or => .or
  | .xor => .xor
  | .not => .not
  | .pop => .pop
  | .push _ => .push1
  | .dup _ => .dup1
  | .swap _ => .swap1

/-- The bytes are decoded alike, but for what the ranges forget. -/
theorem fromU8_of_decode {byte : UInt8} {instr : Evm.Instr}
    (h : Evm.Instr.decode byte = some instr) : Opcode.fromU8 byte = some instr.opcode := by
  have hall : ∀ n : Fin 256, ∀ i ∈ Evm.Instr.decode (UInt8.ofNat n),
      Opcode.fromU8 (UInt8.ofNat n) = some i.opcode := by decide +kernel
  have hbyte : UInt8.ofNat (⟨byte.toNat, byte.toNat_lt⟩ : Fin 256) = byte := UInt8.ofNat_toNat
  have hn := hall ⟨byte.toNat, byte.toNat_lt⟩ instr
  rw [hbyte] at hn
  exact hn h

namespace VM

open Exec

/-- What the reference sees of the machine. -/
def view (vm : VM) : Evm.State := ⟨vm.pc, vm.stack.map Word.toItem⟩

/-- The machine is at an instruction of the reference, with the gas for it, and with the items
and the room that the reference needs. -/
structure Ready (vm : VM) (instr : Evm.Instr) : Prop where
  at_instr : ∃ byte, vm.code[vm.pc]? = some byte ∧ Evm.Instr.decode byte = some instr
  affords : vm.Affords instr.opcode
  defined : ∃ s, Evm.step vm.code vm.view = some s

theorem Ready.at_opcode {vm : VM} {instr : Evm.Instr} (h : vm.Ready instr) :
    vm.At instr.opcode := by
  obtain ⟨byte, hbyte, hinstr⟩ := h.at_instr
  exact ⟨byte, hbyte, fromU8_of_decode hinstr⟩

/-- What the reference does in a machine that is ready. -/
theorem Ready.step_eq {vm : VM} {instr : Evm.Instr} (h : vm.Ready instr) :
    ∃ stack, instr.apply (Evm.immediate vm.code (vm.pc + 1) instr.width)
        (vm.stack.map Word.toItem) = some stack ∧ stack.length ≤ 1024 ∧
      Evm.step vm.code vm.view = some ⟨vm.pc + 1 + instr.width, stack⟩ := by
  obtain ⟨byte, hbyte, hinstr⟩ := h.at_instr
  obtain ⟨s, hs⟩ := h.defined
  obtain ⟨stack, happly, hlen, rfl⟩ :=
    (Evm.step_eq_some (s := vm.view) hbyte hinstr).mp hs
  exact ⟨stack, happly, hlen, hs⟩

variable [Keccak256]

/-- **A step follows the reference**: it returns, and position and stack are then those of the
reference.  None of its instructions stops. -/
def Follows (vm : VM) : Prop :=
  ∃ vm', step vm = (.ok (), vm') ∧ vm'.stopped = vm.stopped ∧
    Evm.step vm.code vm.view = some vm'.view

/-- A step at an opcode that the machine has the gas for. -/
theorem step_of_affords {vm : VM} {opcode : Opcode} (hat : vm.At opcode)
    (haffords : vm.Affords opcode) : step vm = execute opcode (vm.paid opcode) := by
  have hfits : vm.gasMeter.gasUsed.toNat + (vm.cost opcode).toNat < 2 ^ 64 :=
    Nat.lt_of_le_of_lt haffords vm.gasMeter.gasLimit.toNat_lt
  rw [step_run hat, if_pos hfits]
  exact if_pos haffords

/-- Where the opcode leaves another stack, the stacks have to agree. -/
theorem follows_iff_of_ok {vm : VM} {instr : Evm.Instr} (hready : vm.Ready instr)
    {stack : List Word} (hrun : execute instr.opcode (vm.paid instr.opcode) =
      (.ok (), { vm.paid instr.opcode with stack := stack })) :
    vm.Follows ↔ instr.width = 0 ∧
      instr.apply (Evm.immediate vm.code (vm.pc + 1) instr.width) (vm.stack.map Word.toItem) =
        some (stack.map Word.toItem) := by
  obtain ⟨items, happly, -, hstep⟩ := hready.step_eq
  unfold Follows
  rw [hstep, happly, step_of_affords hready.at_opcode hready.affords, hrun]
  constructor
  · rintro ⟨vm', heq, -, hview⟩
    cases heq
    have hview := Option.some.inj hview
    have hpc : vm.pc + 1 + instr.width = vm.pc + 1 := congrArg Evm.State.pc hview
    exact ⟨by omega, congrArg (some ∘ Evm.State.stack) hview⟩
  · rintro ⟨hwidth, heq⟩
    refine ⟨_, rfl, rfl, ?_⟩
    rw [hwidth, Option.some.inj heq]
    rfl

/-- Where the opcode panics, it does not follow. -/
theorem not_follows_of_panic {vm : VM} {instr : Evm.Instr} (hready : vm.Ready instr)
    (hrun : (execute instr.opcode (vm.paid instr.opcode)).1 = .panic) : ¬ vm.Follows := by
  rintro ⟨vm', hstep, -, -⟩
  rw [← step_of_affords hready.at_opcode hready.affords, hstep] at hrun
  cases hrun

omit [Keccak256] in
theorem run_pop {vm : VM} {a : Word} {rest : List Word} (hstack : vm.stack = a :: rest) :
    pop vm = (.ok a, { vm with stack := rest }) := by
  unfold pop
  rw [run_bind, run_get]
  dsimp only
  rw [hstack]
  rfl

omit [Keccak256] in
theorem run_push {value : Word} {vm : VM} (hroom : vm.stack.length < maxStackSize) :
    push value vm = (.ok (), { vm with stack := value :: vm.stack }) := by
  unfold push
  rw [run_bind, run_get]
  dsimp only
  rw [if_neg (Nat.not_le_of_lt hroom)]
  rfl

omit [Keccak256] in
/-- Two items are taken from the stack. -/
theorem run_pop_pop {α : Type} {f : Word → Word → Machine α} {vm : VM} {a b : Word}
    {rest : List Word} (hstack : vm.stack = a :: b :: rest) :
    (pop >>= fun a => pop >>= f a) vm = f a b { vm with stack := rest } := by
  have hfirst : (pop >>= fun a => pop >>= f a) vm =
      (pop >>= f a) { vm with stack := b :: rest } := run_bind_of_ok (run_pop hstack)
  have hsecond : (pop >>= f a) { vm with stack := b :: rest } =
      f a b { vm with stack := rest } := run_bind_of_ok (run_pop rfl)
  exact hfirst.trans hsecond

omit [Keccak256] in
theorem run_binary {f : Word → Word → Word} {vm : VM} {a b : Word} {rest : List Word}
    (hstack : vm.stack = a :: b :: rest) (hroom : rest.length < maxStackSize) :
    binary f vm = (.ok (), { vm with stack := f a b :: rest }) :=
  (run_pop_pop hstack).trans (run_push hroom)

omit [Keccak256] in
theorem run_unary {f : Word → Word} {vm : VM} {a : Word} {rest : List Word}
    (hstack : vm.stack = a :: rest) (hroom : rest.length < maxStackSize) :
    unary f vm = (.ok (), { vm with stack := f a :: rest }) := by
  have hfirst : unary f vm = push (f a) { vm with stack := rest } :=
    run_bind_of_ok (run_pop hstack)
  exact hfirst.trans (run_push hroom)

omit [Keccak256] in
/-- Two items of the reference are two words. -/
theorem map_eq_cons_cons {stack : List Word} {x y : Evm.Item} {items : List Evm.Item}
    (h : stack.map Word.toItem = x :: y :: items) :
    ∃ a b rest, stack = a :: b :: rest ∧ a.toItem = x ∧ b.toItem = y ∧
      rest.map Word.toItem = items := by
  obtain ⟨a, tail, rfl, rfl, htail⟩ := List.map_eq_cons_iff.mp h
  obtain ⟨b, rest, rfl, rfl, hrest⟩ := List.map_eq_cons_iff.mp htail
  exact ⟨a, b, rest, rfl, rfl, rfl, hrest⟩

/-! ## Opcodes against instructions -/

/-- **An opcode that replaces the two top items** follows where its function agrees. -/
theorem follows_binary {vm : VM} {instr : Evm.Instr} {g : Word → Word → Word}
    {f : Evm.Item → Evm.Item → Evm.Item} (hready : vm.Ready instr)
    (hopcode : execute instr.opcode = binary g)
    (happly : ∀ number, instr.apply number = Evm.onTwo f) (hwidth : instr.width = 0) :
    ∃ a b rest, vm.stack = a :: b :: rest ∧
      (vm.Follows ↔ (g a b).toItem = f a.toItem b.toItem) := by
  obtain ⟨items, hitems, hlen, -⟩ := hready.step_eq
  rw [happly] at hitems
  obtain ⟨x, y, tail, hstack, rfl⟩ := Evm.onTwo_eq_some.mp hitems
  obtain ⟨a, b, rest, hrest, rfl, rfl, rfl⟩ := map_eq_cons_cons hstack
  have hroom : rest.length < maxStackSize := by
    rw [List.length_cons, List.length_map] at hlen
    exact hlen
  have hrun : execute instr.opcode (vm.paid instr.opcode) =
      (.ok (), { vm.paid instr.opcode with stack := g a b :: rest }) := by
    rw [hopcode]
    exact run_binary hrest hroom
  refine ⟨a, b, rest, hrest, (follows_iff_of_ok hready hrun).trans ?_⟩
  rw [happly, hitems, hwidth, List.map_cons]
  constructor
  · rintro ⟨-, h⟩
    exact (List.cons.inj (Option.some.inj h)).1.symm
  · intro h
    rw [h]
    exact ⟨rfl, rfl⟩

theorem follows_of_binary {vm : VM} {instr : Evm.Instr} {g : Word → Word → Word}
    {f : Evm.Item → Evm.Item → Evm.Item} (hready : vm.Ready instr)
    (hopcode : execute instr.opcode = binary g)
    (happly : ∀ number, instr.apply number = Evm.onTwo f) (hwidth : instr.width = 0)
    (hagree : ∀ a b, (g a b).toItem = f a.toItem b.toItem) : vm.Follows := by
  obtain ⟨a, b, rest, -, hfollows⟩ := follows_binary hready hopcode happly hwidth
  exact hfollows.mpr (hagree a b)

theorem follows_of_unary {vm : VM} {instr : Evm.Instr} {g : Word → Word}
    {f : Evm.Item → Evm.Item} (hready : vm.Ready instr)
    (hopcode : execute instr.opcode = unary g)
    (happly : ∀ number, instr.apply number = Evm.onOne f) (hwidth : instr.width = 0)
    (hagree : ∀ a, (g a).toItem = f a.toItem) : vm.Follows := by
  obtain ⟨items, hitems, hlen, -⟩ := hready.step_eq
  rw [happly] at hitems
  obtain ⟨x, tail, hstack, rfl⟩ := Evm.onOne_eq_some.mp hitems
  obtain ⟨a, rest, hrest, rfl, rfl⟩ := List.map_eq_cons_iff.mp hstack
  have hroom : rest.length < maxStackSize := by
    rw [List.length_cons, List.length_map] at hlen
    exact hlen
  have hrun : execute instr.opcode (vm.paid instr.opcode) =
      (.ok (), { vm.paid instr.opcode with stack := g a :: rest }) := by
    rw [hopcode]
    exact run_unary hrest hroom
  refine (follows_iff_of_ok hready hrun).mpr ⟨hwidth, ?_⟩
  rw [happly, hitems, List.map_cons, hagree]

theorem follows_pop {vm : VM} (hready : vm.Ready .pop) : vm.Follows := by
  obtain ⟨items, hitems, -, -⟩ := hready.step_eq
  cases hstack : vm.stack with
  | nil =>
      rw [hstack] at hitems
      cases hitems
  | cons a rest =>
      have hrun : execute .pop (vm.paid .pop) =
          (.ok (), { vm.paid .pop with stack := rest }) :=
        run_bind_of_ok (run_pop hstack)
      refine (follows_iff_of_ok (show vm.Ready .pop from hready) hrun).mpr ⟨rfl, ?_⟩
      rw [hstack]
      rfl

/-- **An opcode that does nothing** follows where nothing is to be done. -/
theorem follows_idle {vm : VM} {instr : Evm.Instr} (hready : vm.Ready instr)
    (hopcode : execute instr.opcode = pure ()) :
    vm.Follows ↔ instr.width = 0 ∧
      instr.apply (Evm.immediate vm.code (vm.pc + 1) instr.width) (vm.stack.map Word.toItem) =
        some (vm.stack.map Word.toItem) :=
  follows_iff_of_ok hready (by rw [hopcode]; rfl)

/-- `MUL` follows where the product of the crossed limbs fits and is right. -/
theorem follows_mul {vm : VM} (hready : vm.Ready .mul) :
    ∃ a b rest, vm.stack = a :: b :: rest ∧
      (vm.Follows ↔ Word.crossed a.value * Word.crossed b.value < 2 ^ 128 ∧
        Word.crossed (Word.crossed a.value * Word.crossed b.value) =
          a.value * b.value % 2 ^ 256) := by
  obtain ⟨items, hitems, hlen, -⟩ := hready.step_eq
  obtain ⟨x, y, tail, hstack, rfl⟩ := Evm.onTwo_eq_some.mp hitems
  obtain ⟨a, b, rest, hrest, rfl, rfl, rfl⟩ := map_eq_cons_cons hstack
  refine ⟨a, b, rest, hrest, ?_⟩
  have hexecute : execute .mul (vm.paid .mul) = (Word.mul a b >>= fun result => push result)
      { vm.paid .mul with stack := rest } := run_pop_pop hrest
  by_cases hfits : Word.crossed a.value * Word.crossed b.value < 2 ^ 128
  · have hmul : (Word.mul a b : Machine Word) =
        pure (Word.ofLowPart (a.lowPart * b.lowPart)) := by
      unfold Word.mul
      rw [Word.lowPart_eq, Word.lowPart_eq, if_pos hfits]
    have hroom : rest.length < maxStackSize := by
      rw [List.length_cons, List.length_map] at hlen
      exact hlen
    have hrun : execute .mul (vm.paid .mul) = (.ok (), { vm.paid .mul with
        stack := Word.ofLowPart (a.lowPart * b.lowPart) :: rest }) := by
      rw [hexecute, hmul, Exec.pure_bind]
      exact run_push hroom
    have hresult : (Word.ofLowPart (a.lowPart * b.lowPart)).toItem = a.toItem * b.toItem ↔
        Word.crossed (Word.crossed a.value * Word.crossed b.value) =
          a.value * b.value % 2 ^ 256 := by
      rw [← BitVec.toNat_inj, BitVec.toNat_mul, Word.toNat_toItem, Word.toNat_toItem,
        Word.toNat_toItem, Word.lowPart_eq, Word.lowPart_eq, Word.value_ofLowPart hfits]
    refine (follows_iff_of_ok (show vm.Ready .mul from hready) hrun).trans ?_
    rw [hitems, List.map_cons, ← hresult]
    constructor
    · rintro ⟨-, h⟩
      exact ⟨hfits, (List.cons.inj (Option.some.inj h)).1.symm⟩
    · rintro ⟨-, h⟩
      rw [h]
      exact ⟨rfl, rfl⟩
  · refine iff_of_false (not_follows_of_panic (show vm.Ready .mul from hready) ?_) fun h => hfits h.1
    have hmul : (Word.mul a b : Machine Word) = abort := by
      unfold Word.mul
      rw [Word.lowPart_eq, Word.lowPart_eq, if_neg hfits]
    show (execute .mul (vm.paid .mul)).1 = .panic
    rw [hexecute, hmul]
    rfl

/-! ## When a step follows -/

/-- Where the machine follows the reference, by instruction and stack. -/
def Conforms : Evm.Instr → List Evm.Item → Prop
  | .push _, _ => False
  | .dup _, _ => False
  | .swap k, stack => stack[0]? = stack[k + 1]?
  | .mul, a :: b :: _ =>
    (Word.crossed a.toNat = 0 ∨ Word.crossed b.toNat = 0) ∧ a.toNat * b.toNat % 2 ^ 256 = 0
  | .div, a :: b :: _ =>
    b.toNat = 0 ∨ (b.toNat ≠ 0 ∧ 2 ^ 128 ∣ b.toNat ∧ a.toNat < b.toNat) ∨
      (¬ 2 ^ 128 ∣ b.toNat ∧ ∃ q₀ q₁, q₀ < 2 ^ 64 ∧ q₁ < 2 ^ 64 ∧
        Word.Fits a.toNat b.toNat (q₀ + 2 ^ 64 * q₁) ∧
        Word.Fits (Word.crossed a.toNat) (Word.crossed b.toNat) (q₁ + 2 ^ 64 * q₀))
  | _, _ => True

/-- `SWAP` follows where it would exchange equal items. -/
theorem follows_swap {vm : VM} {k : ℕ} (hready : vm.Ready (.swap k)) :
    vm.Follows ↔ Conforms (.swap k) vm.view.stack := by
  obtain ⟨items, hitems, -, -⟩ := hready.step_eq
  refine (follows_idle hready rfl).trans ?_
  rw [hitems]
  refine Iff.trans ⟨fun h => Option.some.inj h.2, fun h => ⟨rfl, congrArg some h⟩⟩ ?_
  exact Evm.exchange_eq_self hitems

/-- `MUL` follows where it is right that nothing is left of the product. -/
theorem follows_mul_iff {vm : VM} (hready : vm.Ready .mul) :
    vm.Follows ↔ Conforms .mul vm.view.stack := by
  obtain ⟨a, b, rest, hstack, hfollows⟩ := follows_mul hready
  have hview : vm.view.stack = a.toItem :: b.toItem :: rest.map Word.toItem := by
    rw [view, hstack]
    rfl
  rw [hfollows, Word.crossed_mul_iff, hview, Conforms, Word.toNat_toItem, Word.toNat_toItem]

/-- `DIV` follows where the division of the crossed limbs is right. -/
theorem follows_div_iff {vm : VM} (hready : vm.Ready .div) :
    vm.Follows ↔ Conforms .div vm.view.stack := by
  obtain ⟨a, b, rest, hstack, hfollows⟩ := follows_binary hready rfl (fun _ => rfl) rfl
  have hview : vm.view.stack = a.toItem :: b.toItem :: rest.map Word.toItem := by
    rw [view, hstack]
    rfl
  rw [hfollows, Word.toItem_div_iff, Word.div_right_iff_fits, hview, Conforms,
    Word.toNat_toItem, Word.toNat_toItem]

/-- **A step follows exactly where it conforms.** -/
theorem follows_iff {vm : VM} {instr : Evm.Instr} (hready : vm.Ready instr) :
    vm.Follows ↔ Conforms instr vm.view.stack := by
  cases instr with
  | push k =>
      refine ⟨fun h => ?_, False.elim⟩
      have hwidth := ((follows_idle hready rfl).mp h).1
      exact absurd hwidth (Nat.succ_ne_zero k)
  | dup k =>
      refine ⟨fun h => ?_, False.elim⟩
      have hcopy := ((follows_idle hready rfl).mp h).2
      exact absurd rfl (Evm.copy_ne_self hcopy)
  | swap k => exact follows_swap hready
  | mul => exact follows_mul_iff hready
  | div => exact follows_div_iff hready
  | add =>
      have h := follows_of_binary hready rfl (fun _ => rfl) rfl Word.toItem_add
      exact iff_of_true h trivial
  | sub =>
      have h := follows_of_binary hready rfl (fun _ => rfl) rfl Word.toItem_sub
      exact iff_of_true h trivial
  | lt =>
      have h := follows_of_binary hready rfl (fun _ => rfl) rfl fun a b =>
        Word.toItem_ofBool (Word.lt_iff_toItem a b)
      exact iff_of_true h trivial
  | gt =>
      have h := follows_of_binary hready rfl (fun _ => rfl) rfl fun a b =>
        Word.toItem_ofBool (Word.gt_iff_toItem a b)
      exact iff_of_true h trivial
  | eq =>
      have h := follows_of_binary hready rfl (fun _ => rfl) rfl fun a b =>
        Word.toItem_ofBool (Word.beq_iff_toItem a b)
      exact iff_of_true h trivial
  | isZero =>
      have h := follows_of_unary hready rfl (fun _ => rfl) rfl fun a =>
        Word.toItem_ofBool (Word.isZero_iff_toItem a)
      exact iff_of_true h trivial
  | and =>
      have h := follows_of_binary hready rfl (fun _ => rfl) rfl Word.toItem_and
      exact iff_of_true h trivial
  | or =>
      have h := follows_of_binary hready rfl (fun _ => rfl) rfl Word.toItem_or
      exact iff_of_true h trivial
  | xor =>
      have h := follows_of_binary hready rfl (fun _ => rfl) rfl Word.toItem_xor
      exact iff_of_true h trivial
  | not =>
      have h := follows_of_unary hready rfl (fun _ => rfl) rfl Word.toItem_not
      exact iff_of_true h trivial
  | pop => exact iff_of_true (follows_pop hready) trivial

/-! ## Runs -/

/-- Whatever instruction of the reference comes next, the machine has the gas for it and
conforms. -/
def Guarded (vm : VM) : Prop :=
  ∀ byte instr, vm.code[vm.pc]? = some byte → Evm.Instr.decode byte = some instr →
    vm.Affords instr.opcode ∧ Conforms instr vm.view.stack

/-- **A run whose steps conform** makes the steps of the reference and leaves its stack. -/
theorem run_follows {n : ℕ} {vm : VM} {s : Evm.State} (hstopped : vm.stopped = false)
    (hguarded : ∀ k < n, ∀ vm', Steps k vm vm' → vm'.Guarded)
    (hsteps : Evm.steps vm.code n vm.view = some s) :
    ∃ vm', Steps n vm vm' ∧ vm'.view = s := by
  induction n generalizing vm with
  | zero => exact ⟨vm, .refl vm, Option.some.inj hsteps⟩
  | succ n ih =>
      rw [Evm.steps_succ] at hsteps
      obtain ⟨s₁, hstep, hrest⟩ := Option.bind_eq_some_iff.mp hsteps
      obtain ⟨byte, instr, hbyte, hinstr⟩ := Evm.instr_of_step hstep
      obtain ⟨haffords, hconforms⟩ := hguarded 0 (Nat.succ_pos n) vm (.refl vm) byte instr
        hbyte hinstr
      have hready : vm.Ready instr := ⟨⟨byte, hbyte, hinstr⟩, haffords, s₁, hstep⟩
      obtain ⟨vm₁, hrun, hstopped₁, hview⟩ := (follows_iff hready).mpr hconforms
      have hrunning : vm.Running := by
        obtain ⟨hpc, -⟩ := List.getElem?_eq_some_iff.mp hbyte
        exact ⟨hstopped, hpc⟩
      have hcode : vm₁.code = vm.code := by
        obtain ⟨opcode, hstepped⟩ := step_ok hrun
        exact hstepped.code
      have hs₁ : vm₁.view = s₁ := Option.some.inj (hview.symm.trans hstep)
      rw [← hs₁, ← hcode] at hrest
      obtain ⟨vm', hsteps', hview'⟩ := ih (hstopped₁.trans hstopped)
        (fun k hk vm' h => hguarded (k + 1) (Nat.succ_lt_succ hk) vm' (.step hrunning hrun h))
        hrest
      exact ⟨vm', .step hrunning hrun hsteps', hview'⟩

/-- **When the machine follows the reference.**  A step follows exactly where it conforms; a run
whose steps conform leaves the position and the stack of the reference. -/
theorem evm_follows_iff :
    (∀ (vm : VM) (instr : Evm.Instr), vm.Ready instr →
      (vm.Follows ↔ Conforms instr vm.view.stack)) ∧
      ∀ (n : ℕ) (vm : VM) (s : Evm.State), vm.stopped = false →
        (∀ k < n, ∀ vm', Steps k vm vm' → vm'.Guarded) →
          Evm.steps vm.code n vm.view = some s → ∃ vm', Steps n vm vm' ∧ vm'.view = s := by
  refine ⟨fun vm instr hready => follows_iff hready, ?_⟩
  intro n vm s hstopped hguarded hsteps
  exact run_follows hstopped hguarded hsteps

end VM

/-! ## A program of pushes -/

section Example

open scoped VmSample

/-- The words 3, 5 and 1, with `DIV` and `ADD` to come. -/
def dividingVm : VM :=
  { VM.new [0x04, 0x01] 10 with stack := [Word.ofU64 3, Word.ofU64 5, Word.ofU64 1] }

/-- The machine after some of its steps. -/
def dividedVm (n : ℕ) : VM := (VM.loop n dividingVm).2

/-- Three divided by five, and one more: both steps follow the reference. -/
theorem evm_follows_dividing :
    dividingVm.Follows ∧ ∃ vm', VM.Steps 2 dividingVm vm' ∧ vm'.view = ⟨2, [1]⟩ := by
  have hdiv : VM.Conforms .div dividingVm.view.stack :=
    Or.inr (Or.inr ⟨by decide, 0, 0, by decide, by decide, by decide, by decide⟩)
  have hready : dividingVm.Ready .div :=
    ⟨⟨0x04, rfl, rfl⟩, by unfold VM.Affords; decide, ⟨1, [0, 1]⟩, by decide⟩
  refine ⟨(VM.evm_follows_iff.1 dividingVm .div hready).mpr hdiv, ?_⟩
  refine VM.evm_follows_iff.2 2 dividingVm ⟨2, [1]⟩ rfl ?_ (by decide)
  intro k hk vm' hsteps byte instr hbyte hinstr
  rcases (by omega : k = 0 ∨ k = 1) with rfl | rfl
  · cases hsteps
    obtain rfl : 0x04 = byte := Option.some.inj hbyte
    obtain rfl : Evm.Instr.div = instr := Option.some.inj hinstr
    exact ⟨hready.affords, hdiv⟩
  · cases hsteps with
    | step _ hstep hrest =>
        cases hrest
        have hone : VM.step dividingVm = (.ok (), dividedVm 1) := by rfl
        obtain rfl : dividedVm 1 = vm' := congrArg Prod.snd (hone.symm.trans hstep)
        obtain rfl : 0x01 = byte := Option.some.inj hbyte
        obtain rfl : Evm.Instr.add = instr := Option.some.inj hinstr
        exact ⟨by unfold VM.Affords; decide, trivial⟩

/-- `PUSH1 1 PUSH1 2 ADD STOP`: the reference has 3 on its stack when it comes to `STOP`, the
machine has taken the number behind the first `PUSH1` for `ADD` and has failed. -/
theorem vm_run_differs :
    Evm.steps [0x60, 0x01, 0x60, 0x02, 0x01, 0x00] 3 ⟨0, []⟩ = some ⟨5, [3]⟩ ∧
      (VM.run (VM.new [0x60, 0x01, 0x60, 0x02, 0x01, 0x00] 100000)).1 = .err .stackUnderflow := by
  decide

end Example
