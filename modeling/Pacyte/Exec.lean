/-
# Fallible stateful programs

A program here reads and writes a state and ends in one of three ways: it
returns a value, it returns an error to its caller, or it panics.  The state it
leaves behind is kept in all three cases, so that what a failing call has
already written stays visible (`Exec`).

Arithmetic on 64-bit words is the overflow-checked one: `Exec.addU64` and
`Exec.subU64` panic where the mathematical result does not fit.

`Exec.Post m s Q` says that `m`, started in `s`, ends with an outcome and a
state that satisfy `Q`.  Its rules follow the program text: one for each way of
building a program.  `Exec.Within` is the same for a relation between the states
before and after, `Exec.Keeps` for an invariant.
-/
import Mathlib

/-! ## Outcomes and programs -/

/-- How a call ends: with a value, with an error, or with a panic. -/
inductive Outcome (ε α : Type) : Type where
  | ok (a : α)
  | err (e : ε)
  | panic
  deriving DecidableEq, Repr

namespace Outcome

variable {ε α : Type}

/-- The call returned a value. -/
def IsOk : Outcome ε α → Prop
  | ok _ => True
  | err _ => False
  | panic => False

instance (o : Outcome ε α) : Decidable o.IsOk :=
  match o with
  | ok _ => isTrue trivial
  | err _ => isFalse id
  | panic => isFalse id

theorem isOk_iff (o : Outcome ε α) : o.IsOk ↔ ∃ a, o = ok a := by
  cases o with
  | ok a => exact ⟨fun _ => ⟨a, rfl⟩, fun _ => trivial⟩
  | err e => exact ⟨fun h => h.elim, fun ⟨_, h⟩ => nomatch h⟩
  | panic => exact ⟨fun h => h.elim, fun ⟨_, h⟩ => nomatch h⟩

/-- The call returned an error to its caller. -/
def IsErr (o : Outcome ε α) : Prop := ∃ e, o = err e

instance (o : Outcome ε α) : Decidable o.IsErr :=
  match o with
  | ok _ => isFalse fun ⟨_, h⟩ => nomatch h
  | err e => isTrue ⟨e, rfl⟩
  | panic => isFalse fun ⟨_, h⟩ => nomatch h

/-- How a call has ended, without its value. -/
def discard : Outcome ε α → Outcome ε Unit
  | ok _ => ok ()
  | err e => err e
  | panic => panic

@[simp] theorem isErr_err (e : ε) : (err e : Outcome ε α).IsErr := ⟨e, rfl⟩

@[simp] theorem not_isErr_ok (a : α) : ¬ (ok a : Outcome ε α).IsErr := by
  rintro ⟨e, h⟩
  cases h

@[simp] theorem not_isErr_panic : ¬ (panic : Outcome ε α).IsErr := by
  rintro ⟨e, h⟩
  cases h

end Outcome

/-- A program over the state `σ` with errors `ε` and results `α`. -/
def Exec (ε σ α : Type) : Type := σ → Outcome ε α × σ

namespace Exec

variable {ε σ τ α β : Type}

instance : Monad (Exec ε σ) where
  pure a := fun s => (.ok a, s)
  bind m f := fun s =>
    match m s with
    | (.ok a, s') => f a s'
    | (.err e, s') => (.err e, s')
    | (.panic, s') => (.panic, s')

/-- Read the state. -/
def get : Exec ε σ σ := fun s => (.ok s, s)

/-- Change the state. -/
def modify (f : σ → σ) : Exec ε σ Unit := fun s => (.ok (), f s)

/-- Return an error. -/
def throw (e : ε) : Exec ε σ α := fun s => (.err e, s)

/-- Panic. -/
def abort : Exec ε σ α := fun s => (.panic, s)

/-- Run a program on a part of the state, read by `view` and written by `put`. -/
def onPart (view : σ → τ) (put : τ → σ → σ) (m : Exec ε τ α) : Exec ε σ α := fun s =>
  ((m (view s)).1, put (m (view s)).2 s)

/-- A program without errors, as a part of one that may have them. -/
def infallible (m : Exec Empty σ α) : Exec ε σ α := fun s =>
  match m s with
  | (.ok a, s') => (.ok a, s')
  | (.panic, s') => (.panic, s')

/-- Drop the result, and with it an error (`let _ = call`).  A panic goes on. -/
def attempt (m : Exec ε σ α) : Exec ε σ Unit := fun s =>
  match m s with
  | (.ok _, s') => (.ok (), s')
  | (.err _, s') => (.ok (), s')
  | (.panic, s') => (.panic, s')

/-- Replace an error by a default value (`unwrap_or`).  A panic goes on. -/
def unwrapOr (m : Exec ε σ α) (d : α) : Exec ε σ α := fun s =>
  match m s with
  | (.ok a, s') => (.ok a, s')
  | (.err _, s') => (.ok d, s')
  | (.panic, s') => (.panic, s')

/-- Overflow-checked addition of 64-bit words. -/
def addU64 (a b : UInt64) : Exec ε σ UInt64 :=
  if a.toNat + b.toNat < 2 ^ 64 then pure (a + b) else abort

/-- Overflow-checked subtraction of 64-bit words. -/
def subU64 (a b : UInt64) : Exec ε σ UInt64 :=
  if b.toNat ≤ a.toNat then pure (a - b) else abort

/-- An addition that fits is the one of the natural numbers. -/
theorem toNat_add_of_fits {a b : UInt64} (h : a.toNat + b.toNat < 2 ^ 64) :
    (a + b).toNat = a.toNat + b.toNat := by
  rw [UInt64.toNat_add]
  exact Nat.mod_eq_of_lt h

/-! ## Running programs -/

@[simp] theorem run_pure (a : α) (s : σ) : (pure a : Exec ε σ α) s = (.ok a, s) := rfl

theorem run_bind (m : Exec ε σ α) (f : α → Exec ε σ β) (s : σ) :
    (m >>= f) s = match m s with
      | (.ok a, s') => f a s'
      | (.err e, s') => (.err e, s')
      | (.panic, s') => (.panic, s') := rfl

/-- Sequences can be regrouped. -/
theorem bind_assoc {γ : Type} (m : Exec ε σ α) (f : α → Exec ε σ β) (g : β → Exec ε σ γ) :
    (m >>= f) >>= g = m >>= fun a => f a >>= g := by
  funext s
  rw [run_bind, run_bind, run_bind]
  rcases m s with ⟨_ | _ | _, s'⟩ <;> rfl

theorem pure_bind (a : α) (f : α → Exec ε σ β) : (pure a : Exec ε σ α) >>= f = f a := rfl

/-- A sequence whose first part returns a value. -/
theorem run_bind_of_ok {m : Exec ε σ α} {f : α → Exec ε σ β} {s s' : σ} {a : α}
    (h : m s = (.ok a, s')) : (m >>= f) s = f a s' := by
  rw [run_bind, h]

/-- A sequence whose first part returns an error. -/
theorem run_bind_of_err {m : Exec ε σ α} {f : α → Exec ε σ β} {s s' : σ} {e : ε}
    (h : m s = (.err e, s')) : (m >>= f) s = (.err e, s') := by
  rw [run_bind, h]

/-- A sequence whose first part panics. -/
theorem run_bind_of_panic {m : Exec ε σ α} {f : α → Exec ε σ β} {s s' : σ}
    (h : m s = (.panic, s')) : (m >>= f) s = (.panic, s') := by
  rw [run_bind, h]

/-- The outcome of a sequence whose first part panics. -/
theorem fst_bind_of_panic {m : Exec ε σ α} {f : α → Exec ε σ β} {s : σ}
    (h : (m s).1 = .panic) : ((m >>= f) s).1 = .panic := by
  rw [run_bind]
  rcases hrun : m s with ⟨a | e | _, s'⟩
  · rw [hrun] at h
    cases h
  · rw [hrun] at h
    cases h
  · rfl

@[simp] theorem run_get (s : σ) : (get : Exec ε σ σ) s = (.ok s, s) := rfl

@[simp] theorem run_modify (f : σ → σ) (s : σ) :
    (modify f : Exec ε σ Unit) s = (.ok (), f s) := rfl

@[simp] theorem run_throw (e : ε) (s : σ) : (throw e : Exec ε σ α) s = (.err e, s) := rfl

@[simp] theorem run_abort (s : σ) : (abort : Exec ε σ α) s = (.panic, s) := rfl

@[simp] theorem run_onPart (view : σ → τ) (put : τ → σ → σ) (m : Exec ε τ α) (s : σ) :
    onPart view put m s = ((m (view s)).1, put (m (view s)).2 s) := rfl

/-! ## Postconditions -/

/-- `m`, started in `s`, ends with an outcome and a state that satisfy `Q`. -/
def Post (m : Exec ε σ α) (s : σ) (Q : Outcome ε α → σ → Prop) : Prop := Q (m s).1 (m s).2

theorem Post.mono {m : Exec ε σ α} {s : σ} {Q R : Outcome ε α → σ → Prop}
    (h : Post m s Q) (hQR : ∀ o s', Q o s' → R o s') : Post m s R := hQR _ _ h

/-- A postcondition may also name the outcome and the state themselves. -/
theorem Post.run {m : Exec ε σ α} {s : σ} {Q : Outcome ε α → σ → Prop} (h : Post m s Q) :
    Post m s fun o s' => m s = (o, s') ∧ Q o s' := ⟨rfl, h⟩

@[simp] theorem post_pure (a : α) (s : σ) (Q : Outcome ε α → σ → Prop) :
    Post (pure a) s Q ↔ Q (.ok a) s := Iff.rfl

@[simp] theorem post_get (s : σ) (Q : Outcome ε σ → σ → Prop) :
    Post get s Q ↔ Q (.ok s) s := Iff.rfl

@[simp] theorem post_modify (f : σ → σ) (s : σ) (Q : Outcome ε Unit → σ → Prop) :
    Post (modify f) s Q ↔ Q (.ok ()) (f s) := Iff.rfl

@[simp] theorem post_throw (e : ε) (s : σ) (Q : Outcome ε α → σ → Prop) :
    Post (throw e) s Q ↔ Q (.err e) s := Iff.rfl

@[simp] theorem post_abort (s : σ) (Q : Outcome ε α → σ → Prop) :
    Post (abort) s Q ↔ Q .panic s := Iff.rfl

theorem post_onPart (view : σ → τ) (put : τ → σ → σ) (m : Exec ε τ α) (s : σ)
    (Q : Outcome ε α → σ → Prop) :
    Post (onPart view put m) s Q ↔ Post m (view s) (fun o t => Q o (put t s)) := Iff.rfl

/-- A sequence: the second program runs where the first one returned a value. -/
theorem post_bind (m : Exec ε σ α) (f : α → Exec ε σ β) (s : σ)
    (Q : Outcome ε β → σ → Prop) :
    Post (m >>= f) s Q ↔ Post m s (fun o s' =>
      match o with
      | .ok a => Post (f a) s' Q
      | .err e => Q (.err e) s'
      | .panic => Q .panic s') := by
  unfold Post
  rw [run_bind]
  rcases m s with ⟨_ | _ | _, s'⟩ <;> rfl

/-- A sequence, from a postcondition of its first part. -/
theorem Post.seq {m : Exec ε σ α} {f : α → Exec ε σ β} {s : σ}
    {R : Outcome ε α → σ → Prop} {Q : Outcome ε β → σ → Prop} (hm : Post m s R)
    (hok : ∀ a s', R (.ok a) s' → Post (f a) s' Q)
    (herr : ∀ e s', R (.err e) s' → Q (.err e) s')
    (hpanic : ∀ s', R .panic s' → Q .panic s') : Post (m >>= f) s Q := by
  rw [post_bind]
  apply hm.mono
  rintro (a | e | _) s' h
  · exact hok a s' h
  · exact herr e s' h
  · exact hpanic s' h

theorem post_ite (c : Prop) [Decidable c] (m n : Exec ε σ α) (s : σ)
    (Q : Outcome ε α → σ → Prop) :
    Post (if c then m else n) s Q ↔ (c → Post m s Q) ∧ (¬ c → Post n s Q) := by
  by_cases h : c <;> simp [h]

theorem post_infallible (m : Exec Empty σ α) (s : σ) (Q : Outcome ε α → σ → Prop) :
    Post (infallible m) s Q ↔ Post m s (fun o s' =>
      match o with
      | .ok a => Q (.ok a) s'
      | .panic => Q .panic s') := by
  unfold Post infallible
  rcases m s with ⟨_ | e | _, s'⟩
  · rfl
  · exact e.elim
  · rfl

theorem post_attempt (m : Exec ε σ α) (s : σ) (Q : Outcome ε Unit → σ → Prop) :
    Post (attempt m) s Q ↔ Post m s (fun o s' =>
      match o with
      | .ok _ => Q (.ok ()) s'
      | .err _ => Q (.ok ()) s'
      | .panic => Q .panic s') := by
  unfold Post attempt
  rcases m s with ⟨_ | _ | _, s'⟩ <;> rfl

/-- After a program whose result is dropped, the loop goes on. -/
theorem Post.attempt_pure {m : Exec ε σ α} {s : σ} {P : σ → Prop}
    (h : Post m s fun _ s' => P s') (b : β) :
    Post (attempt m >>= fun _ => pure b) s fun _ s' => P s' := by
  rw [post_bind, post_attempt]
  refine h.mono ?_
  rintro (_ | _ | _) s' h' <;> exact h'

theorem post_unwrapOr (m : Exec ε σ α) (d : α) (s : σ) (Q : Outcome ε α → σ → Prop) :
    Post (unwrapOr m d) s Q ↔ Post m s (fun o s' =>
      match o with
      | .ok a => Q (.ok a) s'
      | .err _ => Q (.ok d) s'
      | .panic => Q .panic s') := by
  unfold Post unwrapOr
  rcases m s with ⟨_ | _ | _, s'⟩ <;> rfl

theorem post_addU64 (a b : UInt64) (s : σ) (Q : Outcome ε UInt64 → σ → Prop) :
    Post (addU64 a b) s Q ↔
      (a.toNat + b.toNat < 2 ^ 64 → Q (.ok (a + b)) s) ∧
      (¬ a.toNat + b.toNat < 2 ^ 64 → Q .panic s) := by
  unfold addU64
  rw [post_ite, post_pure, post_abort]

/-! ## Relations between the states before and after -/

/-- Whatever the outcome, `m` moves the state along `R`. -/
def Within (R : σ → σ → Prop) (m : Exec ε σ α) : Prop := ∀ s, R s (m s).2

section Within

variable {R : σ → σ → Prop}

theorem Within.post {m : Exec ε σ α} (h : Within R m) (s : σ) : Post m s fun _ s' => R s s' := h s

theorem Within.modify {f : σ → σ} (h : ∀ s, R s (f s)) :
    Within R (Exec.modify f : Exec ε σ Unit) := h

theorem Within.onPart {view : σ → τ} {put : τ → σ → σ} (h : ∀ s t, R s (put t s))
    (m : Exec ε τ α) : Within R (Exec.onPart view put m) := fun s => h s _

theorem Within.attempt {m : Exec ε σ α} (h : Within R m) : Within R (Exec.attempt m) := by
  intro s
  have hs := h s
  unfold Exec.attempt
  rcases hr : m s with ⟨_ | _ | _, s'⟩ <;> rw [hr] at hs <;> exact hs

theorem Within.unwrapOr {m : Exec ε σ α} (h : Within R m) (d : α) :
    Within R (Exec.unwrapOr m d) := by
  intro s
  have hs := h s
  unfold Exec.unwrapOr
  rcases hr : m s with ⟨_ | _ | _, s'⟩ <;> rw [hr] at hs <;> exact hs

variable [Std.Refl R] [IsTrans σ R]

omit [IsTrans σ R] in
theorem Within.pure (a : α) : Within R (Pure.pure a : Exec ε σ α) := fun s => refl_of R s

omit [IsTrans σ R] in
theorem Within.get : Within R (Exec.get : Exec ε σ σ) := fun s => refl_of R s

omit [IsTrans σ R] in
theorem Within.throw (e : ε) : Within R (Exec.throw e : Exec ε σ α) := fun s => refl_of R s

omit [IsTrans σ R] in
theorem Within.addU64 (a b : UInt64) : Within R (Exec.addU64 a b : Exec ε σ UInt64) := by
  intro s
  unfold Exec.addU64
  split_ifs <;> exact refl_of R s

omit [IsTrans σ R] in
theorem Within.subU64 (a b : UInt64) : Within R (Exec.subU64 a b : Exec ε σ UInt64) := by
  intro s
  unfold Exec.subU64
  split_ifs <;> exact refl_of R s

omit [Std.Refl R] in
theorem Within.bind {m : Exec ε σ α} {f : α → Exec ε σ β} (hm : Within R m)
    (hf : ∀ a, Within R (f a)) : Within R (m >>= f) := by
  intro s
  have hs := hm s
  rw [run_bind]
  rcases hr : m s with ⟨a | _ | _, s'⟩ <;> rw [hr] at hs
  · exact trans_of R hs (hf a s')
  · exact hs
  · exact hs

omit [Std.Refl R] [IsTrans σ R] in
theorem Within.ite {c : Prop} [Decidable c] {m n : Exec ε σ α} (hm : Within R m)
    (hn : Within R n) : Within R (if c then m else n) := by
  split_ifs
  · exact hm
  · exact hn

end Within

/-! ## Invariants -/

/-- The state satisfies `J` after a value or an error, and `K` after a panic. -/
def Ends (J K : σ → Prop) (o : Outcome ε α) (s : σ) : Prop :=
  match o with
  | .ok _ => J s
  | .err _ => J s
  | .panic => K s

/-- `m` keeps `J`, and what it leaves behind when it panics satisfies `K`. -/
def Keeps (J K : σ → Prop) (m : Exec ε σ α) : Prop := ∀ s, J s → Post m s (Ends J K)

section Keeps

variable {J K : σ → Prop}

theorem Keeps.pure (a : α) : Keeps J K (Pure.pure a : Exec ε σ α) := fun _ hs => hs

theorem Keeps.get : Keeps J K (Exec.get : Exec ε σ σ) := fun _ hs => hs

theorem Keeps.modify {f : σ → σ} (h : ∀ s, J s → J (f s)) :
    Keeps J K (Exec.modify f : Exec ε σ Unit) := h

theorem Keeps.bind {m : Exec ε σ α} {f : α → Exec ε σ β} (hm : Keeps J K m)
    (hf : ∀ a, Keeps J K (f a)) : Keeps J K (m >>= f) :=
  fun s hs => (hm s hs).seq (fun a s' h => hf a s' h) (fun _ _ h => h) (fun _ h => h)

theorem Keeps.ite {c : Prop} [Decidable c] {m n : Exec ε σ α} (hm : Keeps J K m)
    (hn : Keeps J K n) : Keeps J K (if c then m else n) := by
  split_ifs
  · exact hm
  · exact hn

theorem Keeps.attempt {m : Exec ε σ α} (h : Keeps J K m) : Keeps J K (Exec.attempt m) := by
  intro s hs
  rw [post_attempt]
  refine (h s hs).mono ?_
  rintro (_ | _ | _) s' h' <;> exact h'

/-- An invariant that is closed under `R` is kept by what moves along `R`. -/
theorem Keeps.of_within {R : σ → σ → Prop} {m : Exec ε σ α} (h : Within R m)
    (hJ : ∀ s s', R s s' → J s → J s') (hK : ∀ s, J s → K s) : Keeps J K m := by
  intro s hs
  refine (h.post s).mono ?_
  rintro (_ | _ | _) s' hR
  · exact hJ s s' hR hs
  · exact hJ s s' hR hs
  · exact hK s' (hJ s s' hR hs)

end Keeps

/-! ## Results -/

/-- Every value that `m` returns satisfies `P`. -/
def Returns (P : α → Prop) (m : Exec ε σ α) : Prop := ∀ s, Post m s fun o _ =>
  ∀ a, o = .ok a → P a

theorem Returns.pure {P : α → Prop} {a : α} (h : P a) :
    Returns P (Pure.pure a : Exec ε σ α) := by
  rintro s _ ⟨⟩
  exact h

theorem Returns.throw {P : α → Prop} (e : ε) : Returns P (Exec.throw e : Exec ε σ α) := by
  rintro s _ ⟨⟩

theorem Returns.bind {P : β → Prop} (m : Exec ε σ α) {f : α → Exec ε σ β}
    (hf : ∀ a, Returns P (f a)) : Returns P (m >>= f) := by
  intro s
  refine Post.seq (R := fun _ _ => True) trivial (fun a s' _ => hf a s') ?_ ?_
  · rintro e s' - _ ⟨⟩
  · rintro s' - _ ⟨⟩

end Exec
