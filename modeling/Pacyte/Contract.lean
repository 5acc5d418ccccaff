/-
# Calls that revert

A contract call reads and writes the state of a contract, and it either returns a value or is
reverted.  A reverted call leaves no state of its own: the one before the call stays
(`Contract.settle`).

Every building block has a lemma that says when it succeeds in front of other statements
(`require_bind_ok`, `read_bind`, `write_bind`, `checked_bind_ok`, `onPart_bind_ok`), so that a call
is inverted by following its text.  Arithmetic on machine words is checked (`checkedAdd`,
`checkedSub`, `checkedMul`).
-/
import Mathlib

/-- Why a call is reverted: a condition with its message, or an arithmetic panic. -/
inductive Revert where
  | require (message : String)
  | arithmetic
  deriving DecidableEq, Repr

/-- A call of a contract with the state `σ`. -/
abbrev Contract (σ α : Type) : Type := StateT σ (Except Revert) α

/-! ## Checked arithmetic -/

section Checked

variable {w : ℕ}

/-- Addition that fails where the result does not fit. -/
def checkedAdd (a b : BitVec w) : Option (BitVec w) :=
  if a.toNat + b.toNat < 2 ^ w then some (a + b) else none

/-- Subtraction that fails where the result would be negative. -/
def checkedSub (a b : BitVec w) : Option (BitVec w) :=
  if b.toNat ≤ a.toNat then some (a - b) else none

/-- Multiplication that fails where the result does not fit. -/
def checkedMul (a b : BitVec w) : Option (BitVec w) :=
  if a.toNat * b.toNat < 2 ^ w then some (a * b) else none

theorem checkedAdd_eq_some {a b c : BitVec w} :
    checkedAdd a b = some c ↔ a.toNat + b.toNat < 2 ^ w ∧ c = a + b := by
  unfold checkedAdd
  split_ifs with h
  · rw [Option.some_inj, eq_comm, and_iff_right h]
  · exact iff_of_false nofun fun hc => h hc.1

theorem checkedSub_eq_some {a b c : BitVec w} :
    checkedSub a b = some c ↔ b.toNat ≤ a.toNat ∧ c = a - b := by
  unfold checkedSub
  split_ifs with h
  · rw [Option.some_inj, eq_comm, and_iff_right h]
  · exact iff_of_false nofun fun hc => h hc.1

theorem checkedMul_eq_some {a b c : BitVec w} :
    checkedMul a b = some c ↔ a.toNat * b.toNat < 2 ^ w ∧ c = a * b := by
  unfold checkedMul
  split_ifs with h
  · rw [Option.some_inj, eq_comm, and_iff_right h]
  · exact iff_of_false nofun fun hc => h hc.1

end Checked

namespace Contract

variable {σ τ α β : Type}

/-! ## Building blocks -/

/-- `require(condition, message)`, for a condition on the state. -/
def require (condition : σ → Prop) [DecidablePred condition] (message : String) :
    Contract σ Unit := fun s => if condition s then .ok ((), s) else .error (.require message)

/-- Read from the state. -/
def read (f : σ → α) : Contract σ α := fun s => .ok (f s, s)

/-- Write the state. -/
def write (f : σ → σ) : Contract σ Unit := fun s => .ok ((), f s)

/-- The value of a checked operation. -/
def checked (o : Option α) : Contract σ α := fun s =>
  match o with
  | some a => .ok (a, s)
  | none => .error .arithmetic

/-- A call of another contract, whose state is a part of the whole.  If it is reverted, so is
the caller. -/
def onPart (view : σ → τ) (put : τ → σ → σ) (m : Contract τ α) : Contract σ α := fun s =>
  match m (view s) with
  | .ok (a, t) => .ok (a, put t s)
  | .error e => .error e

/-- A call whose value is not used. -/
def forget (m : Contract σ α) : Contract σ Unit := do
  let _ ← m

/-- The state after a call: a reverted one leaves the state as it was. -/
def settle (m : Contract σ α) (s : σ) : σ :=
  match m s with
  | .ok (_, s') => s'
  | .error _ => s

/-- The call is not reverted. -/
def Succeeds (m : Contract σ α) (s : σ) : Prop := ∃ a s', m s = .ok (a, s')

instance (m : Contract σ α) (s : σ) : Decidable (m.Succeeds s) :=
  match h : m s with
  | .ok (a, s') => isTrue ⟨a, s', h⟩
  | .error _ => isFalse fun ⟨_, _, h'⟩ => nomatch h.symm.trans h'

/-! ## When a call succeeds -/

@[simp] theorem pure_ok {a b : α} {s s' : σ} :
    (pure a : Contract σ α) s = .ok (b, s') ↔ b = a ∧ s' = s := by
  change Except.ok (a, s) = Except.ok (b, s') ↔ _
  rw [Except.ok.injEq, Prod.mk.injEq, eq_comm, @eq_comm _ s]

theorem bind_ok {m : Contract σ α} {f : α → Contract σ β} {b : β} {s s'' : σ} :
    (m >>= f) s = .ok (b, s'') ↔ ∃ a s', m s = .ok (a, s') ∧ f a s' = .ok (b, s'') := by
  change (m s >>= fun p => f p.1 p.2) = _ ↔ _
  cases h : m s with
  | error e => exact iff_of_false nofun fun ⟨_, _, h', _⟩ => nomatch h'
  | ok p =>
      obtain ⟨a, s'⟩ := p
      constructor
      · intro hf
        exact ⟨a, s', rfl, hf⟩
      · rintro ⟨_, _, heq, hf⟩
        cases heq
        exact hf

@[simp] theorem require_bind_ok {condition : σ → Prop} [DecidablePred condition]
    {message : String} {f : Unit → Contract σ α} {a : α} {s s' : σ} :
    (require condition message >>= f) s = .ok (a, s') ↔ condition s ∧ f () s = .ok (a, s') := by
  by_cases h : condition s
  · have hm : require condition message s = .ok ((), s) := if_pos h
    change (require condition message s >>= fun p => f p.1 p.2) = _ ↔ _
    rw [hm]
    exact (and_iff_right h).symm
  · have hm : require condition message s = .error (.require message) := if_neg h
    change (require condition message s >>= fun p => f p.1 p.2) = _ ↔ _
    rw [hm]
    exact iff_of_false nofun fun h' => h h'.1

theorem require_ok {condition : σ → Prop} [DecidablePred condition] {message : String} {u : Unit}
    {s s' : σ} : require condition message s = .ok (u, s') ↔ condition s ∧ s' = s := by
  unfold require
  split_ifs with h
  · rw [Except.ok.injEq, Prod.mk.injEq, eq_comm (a := s)]
    exact and_congr_left' (iff_of_true rfl h)
  · exact iff_of_false nofun fun h' => h h'.1

@[simp] theorem read_bind {f : σ → α} {g : α → Contract σ β} {s : σ} :
    (read f >>= g) s = g (f s) s := rfl

@[simp] theorem write_bind {f : σ → σ} {g : Unit → Contract σ β} {s : σ} :
    (write f >>= g) s = g () (f s) := rfl

@[simp] theorem write_ok {f : σ → σ} {u : Unit} {s s' : σ} :
    write f s = .ok (u, s') ↔ s' = f s := by
  rw [write, Except.ok.injEq, Prod.mk.injEq, @eq_comm _ (f s)]
  exact and_iff_right rfl

@[simp] theorem checked_bind_ok {o : Option α} {f : α → Contract σ β} {b : β} {s s' : σ} :
    (checked o >>= f) s = .ok (b, s') ↔ ∃ a, o = some a ∧ f a s = .ok (b, s') := by
  cases o with
  | none => exact iff_of_false nofun fun ⟨_, h, _⟩ => nomatch h
  | some a =>
      change f a s = _ ↔ _
      constructor
      · intro hf
        exact ⟨a, rfl, hf⟩
      · rintro ⟨_, heq, hf⟩
        cases heq
        exact hf

theorem checked_ok {o : Option α} {a : α} {s s' : σ} :
    checked o s = .ok (a, s') ↔ o = some a ∧ s' = s := by
  cases o with
  | none => exact iff_of_false nofun fun h => nomatch h.1
  | some b =>
      change Except.ok (b, s) = Except.ok (a, s') ↔ _
      rw [Except.ok.injEq, Prod.mk.injEq, Option.some_inj, eq_comm (a := s)]

theorem onPart_ok {view : σ → τ} {put : τ → σ → σ} {m : Contract τ α} {a : α} {s s' : σ} :
    onPart view put m s = .ok (a, s') ↔ ∃ t, m (view s) = .ok (a, t) ∧ s' = put t s := by
  unfold onPart
  cases h : m (view s) with
  | error e => exact iff_of_false nofun fun ⟨_, h', _⟩ => nomatch h'
  | ok p =>
      obtain ⟨b, t⟩ := p
      dsimp only
      rw [Except.ok.injEq, Prod.mk.injEq]
      constructor
      · rintro ⟨rfl, rfl⟩
        exact ⟨t, rfl, rfl⟩
      · rintro ⟨_, heq, rfl⟩
        cases heq
        exact ⟨rfl, rfl⟩

@[simp] theorem onPart_bind_ok {view : σ → τ} {put : τ → σ → σ} {m : Contract τ α}
    {f : α → Contract σ β} {b : β} {s s' : σ} :
    (onPart view put m >>= f) s = .ok (b, s') ↔
      ∃ a t, m (view s) = .ok (a, t) ∧ f a (put t s) = .ok (b, s') := by
  rw [bind_ok]
  simp only [onPart_ok]
  constructor
  · rintro ⟨a, _, ⟨t, hm, rfl⟩, hf⟩
    exact ⟨a, t, hm, hf⟩
  · rintro ⟨a, t, hm, hf⟩
    exact ⟨a, _, ⟨t, hm, rfl⟩, hf⟩

theorem forget_ok {m : Contract σ α} {u : Unit} {s s' : σ} :
    m.forget s = .ok (u, s') ↔ ∃ a, m s = .ok (a, s') := by
  rw [forget, bind_ok]
  constructor
  · rintro ⟨a, _, hm, hpure⟩
    rw [(pure_ok.mp hpure).2]
    exact ⟨a, hm⟩
  · rintro ⟨a, hm⟩
    exact ⟨a, s', hm, pure_ok.mpr ⟨rfl, rfl⟩⟩

theorem settle_of_ok {m : Contract σ α} {s s' : σ} {a : α} (h : m s = .ok (a, s')) :
    m.settle s = s' := by rw [settle, h]

theorem settle_of_not_succeeds {m : Contract σ α} {s : σ} (h : ¬ m.Succeeds s) :
    m.settle s = s := by
  unfold settle
  cases hm : m s with
  | ok p => exact absurd ⟨p.1, p.2, hm⟩ h
  | error e => rfl

/-- A call succeeds, with the state that it leaves, or nothing happens. -/
theorem settle_cases (m : Contract σ α) (s : σ) :
    (∃ a, m s = .ok (a, m.settle s)) ∨ ¬ m.Succeeds s ∧ m.settle s = s := by
  by_cases h : m.Succeeds s
  · obtain ⟨a, s', hm⟩ := h
    rw [settle_of_ok hm]
    exact Or.inl ⟨a, hm⟩
  · exact Or.inr ⟨h, settle_of_not_succeeds h⟩

end Contract
