/-
# A reference machine for the stack

The part of the Ethereum Virtual Machine that is only about the stack: `PUSH`, `DUP`, `SWAP`
and `POP`, sums, products, differences and quotients of 256-bit words, comparisons and bitwise
operations.  Gas is left out, so the machine only fails where an item is missing, or where the
stack gets longer than 1024 items, or at a byte that is none of these instructions.
-/
import Mathlib

namespace Evm

/-- An item of the stack. -/
abbrev Item := BitVec 256

/-- The instructions.  `push k` has `k + 1` bytes behind it, `dup k` copies the item under `k`
others, and `swap k` exchanges the top with the item under `k` others behind it. -/
inductive Instr : Type where
  | add | mul | sub | div
  | lt | gt | eq | isZero
  | and | or | xor | not
  | pop
  | push (k : ℕ)
  | dup (k : ℕ)
  | swap (k : ℕ)
  deriving DecidableEq, Repr

namespace Instr

/-- The instruction of a byte. -/
def decode (byte : UInt8) : Option Instr :=
  match byte.toNat with
  | 0x01 => some add
  | 0x02 => some mul
  | 0x03 => some sub
  | 0x04 => some div
  | 0x10 => some lt
  | 0x11 => some gt
  | 0x14 => some eq
  | 0x15 => some isZero
  | 0x16 => some and
  | 0x17 => some or
  | 0x18 => some xor
  | 0x19 => some not
  | 0x50 => some pop
  | n =>
    if 0x60 ≤ n ∧ n ≤ 0x7f then some (push (n - 0x60))
    else if 0x80 ≤ n ∧ n ≤ 0x8f then some (dup (n - 0x80))
    else if 0x90 ≤ n ∧ n ≤ 0x9f then some (swap (n - 0x90))
    else none

/-- How many bytes behind the instruction belong to it. -/
def width : Instr → ℕ
  | push k => k + 1
  | _ => 0

end Instr

/-- The bytes from `start`, the most significant one first; the code goes on with zeros. -/
def immediate (code : List UInt8) (start width : ℕ) : ℕ :=
  Nat.ofDigits 256 ((List.range width).reverse.map fun i => (code.getD (start + i) 0).toNat)

/-- The two top items are replaced. -/
def onTwo (f : Item → Item → Item) : List Item → Option (List Item)
  | a :: b :: rest => some (f a b :: rest)
  | _ => none

/-- The top item is replaced. -/
def onOne (f : Item → Item) : List Item → Option (List Item)
  | a :: rest => some (f a :: rest)
  | [] => none

/-- The top item goes. -/
def discard : List Item → Option (List Item)
  | _ :: rest => some rest
  | [] => none

/-- The item under `k` others is copied to the top. -/
def copy (k : ℕ) (stack : List Item) : Option (List Item) := stack[k]?.map (· :: stack)

/-- The top is exchanged with the item under `k` others behind it. -/
def exchange (k : ℕ) : List Item → Option (List Item)
  | a :: rest => rest[k]?.map (· :: rest.set k a)
  | [] => none

/-- The item of a condition. -/
def ofProp (p : Prop) [Decidable p] : Item := if p then 1 else 0

/-- What an instruction makes of the stack; a `push` gets its number. -/
def Instr.apply (number : ℕ) : Instr → List Item → Option (List Item)
  | add => onTwo fun a b => a + b
  | mul => onTwo fun a b => a * b
  | sub => onTwo fun a b => a - b
  | div => onTwo fun a b => a / b
  | lt => onTwo fun a b => ofProp (a < b)
  | gt => onTwo fun a b => ofProp (b < a)
  | eq => onTwo fun a b => ofProp (a = b)
  | isZero => onOne fun a => ofProp (a = 0)
  | and => onTwo fun a b => a &&& b
  | or => onTwo fun a b => a ||| b
  | xor => onTwo fun a b => a ^^^ b
  | not => onOne fun a => ~~~ a
  | pop => discard
  | push _ => fun stack => some (BitVec.ofNat 256 number :: stack)
  | dup k => copy k
  | swap k => exchange k

/-- The state of the machine. -/
structure State where
  pc : ℕ
  stack : List Item
  deriving DecidableEq

/-- One step; there is none where an item or the room for one is missing. -/
def step (code : List UInt8) (s : State) : Option State := do
  let byte ← code[s.pc]?
  let instr ← Instr.decode byte
  let stack ← instr.apply (immediate code (s.pc + 1) instr.width) s.stack
  if stack.length ≤ 1024 then some ⟨s.pc + 1 + instr.width, stack⟩ else none

/-- As many steps. -/
def steps (code : List UInt8) : ℕ → State → Option State
  | 0, s => some s
  | n + 1, s => step code s >>= steps code n

/-! ## One step -/

/-- **What one step does** at a given instruction. -/
theorem step_eq_some {code : List UInt8} {s s' : State} {byte : UInt8} {instr : Instr}
    (hbyte : code[s.pc]? = some byte) (hinstr : Instr.decode byte = some instr) :
    step code s = some s' ↔
      ∃ stack, instr.apply (immediate code (s.pc + 1) instr.width) s.stack = some stack ∧
        stack.length ≤ 1024 ∧ s' = ⟨s.pc + 1 + instr.width, stack⟩ := by
  unfold step
  rw [hbyte, Option.bind_eq_bind, Option.bind_some, hinstr, Option.bind_eq_bind,
    Option.bind_some, Option.bind_eq_bind, Option.bind_eq_some_iff]
  constructor
  · rintro ⟨stack, happly, h⟩
    split_ifs at h with hlen
    exact ⟨stack, happly, hlen, (Option.some.inj h).symm⟩
  · rintro ⟨stack, happly, hlen, rfl⟩
    exact ⟨stack, happly, if_pos hlen⟩

/-- A step is made at an instruction. -/
theorem instr_of_step {code : List UInt8} {s s' : State} (h : step code s = some s') :
    ∃ byte instr, code[s.pc]? = some byte ∧ Instr.decode byte = some instr := by
  unfold step at h
  obtain ⟨byte, hbyte, h⟩ := Option.bind_eq_some_iff.mp h
  obtain ⟨instr, hinstr, -⟩ := Option.bind_eq_some_iff.mp h
  exact ⟨byte, instr, hbyte, hinstr⟩

theorem onTwo_eq_some {f : Item → Item → Item} {stack stack' : List Item} :
    onTwo f stack = some stack' ↔
      ∃ a b rest, stack = a :: b :: rest ∧ stack' = f a b :: rest := by
  constructor
  · intro h
    match stack with
    | [] => cases h
    | [_] => cases h
    | a :: b :: rest => exact ⟨a, b, rest, rfl, (Option.some.inj h).symm⟩
  · rintro ⟨a, b, rest, rfl, rfl⟩
    rfl

theorem onOne_eq_some {f : Item → Item} {stack stack' : List Item} :
    onOne f stack = some stack' ↔ ∃ a rest, stack = a :: rest ∧ stack' = f a :: rest := by
  constructor
  · intro h
    match stack with
    | [] => cases h
    | a :: rest => exact ⟨a, rest, rfl, (Option.some.inj h).symm⟩
  · rintro ⟨a, rest, rfl, rfl⟩
    rfl

/-- A stack with equal items exchanged is the same, and only such a stack. -/
theorem exchange_eq_self {k : ℕ} {stack stack' : List Item}
    (h : exchange k stack = some stack') : stack' = stack ↔ stack[0]? = stack[k + 1]? := by
  cases stack with
  | nil => cases h
  | cons a rest =>
      rw [exchange, Option.map_eq_some_iff] at h
      obtain ⟨b, hitem, rfl⟩ := h
      rw [List.getElem?_cons_zero, List.getElem?_cons_succ, hitem]
      constructor
      · intro h
        rw [(List.cons.inj h).1]
      · intro h
        obtain ⟨hk, hget⟩ := List.getElem?_eq_some_iff.mp hitem
        rw [Option.some.inj h, ← hget, List.set_getElem_self]

/-- A copy makes the stack longer. -/
theorem copy_ne_self {k : ℕ} {stack stack' : List Item} (h : copy k stack = some stack') :
    stack' ≠ stack := by
  obtain ⟨a, -, rfl⟩ := Option.map_eq_some_iff.mp h
  intro h'
  have hlen := congrArg List.length h'
  rw [List.length_cons] at hlen
  omega

/-- As many steps as `n + 1` are one and `n` more. -/
theorem steps_succ (code : List UInt8) (n : ℕ) (s : State) :
    steps code (n + 1) s = step code s >>= steps code n := rfl

end Evm
