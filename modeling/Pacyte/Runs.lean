/-
# Runs

A run of a system is a list of operations that are applied one after the other.  `Along`
says that every operation of a run satisfies a condition in the state that it finds.  An
invariant that every such operation keeps holds in the end.
-/
import Mathlib

namespace Runs

variable {σ α : Type} (step : α → σ → σ)

/-- The state after a run. -/
def run (s : σ) (ops : List α) : σ := ops.foldl (fun s op => step op s) s

@[simp] theorem run_nil (s : σ) : run step s [] = s := rfl

@[simp] theorem run_cons (s : σ) (op : α) (ops : List α) :
    run step s (op :: ops) = run step (step op s) ops := rfl

theorem run_append (s : σ) (ops ops' : List α) :
    run step s (ops ++ ops') = run step (run step s ops) ops' := List.foldl_append

/-- Every operation of the run satisfies `P` in the state that it finds. -/
def Along (P : σ → α → Prop) : σ → List α → Prop
  | _, [] => True
  | s, op :: ops => P s op ∧ Along P (step op s) ops

@[simp] theorem along_nil (P : σ → α → Prop) (s : σ) : Along step P s [] := trivial

@[simp] theorem along_cons (P : σ → α → Prop) (s : σ) (op : α) (ops : List α) :
    Along step P s (op :: ops) ↔ P s op ∧ Along step P (step op s) ops := Iff.rfl

/-- How many operations of a run satisfy `P` in the state that they find. -/
def occurrences (P : σ → α → Prop) [∀ s op, Decidable (P s op)] : σ → List α → ℕ
  | _, [] => 0
  | s, op :: ops => (if P s op then 1 else 0) + occurrences P (step op s) ops

variable {step}

/-- What holds along a run holds along its first part and, from there, along the rest. -/
theorem along_append {P : σ → α → Prop} {s : σ} (done rest : List α) :
    Along step P s (done ++ rest) ↔ Along step P s done ∧ Along step P (run step s done) rest := by
  induction done generalizing s with
  | nil => exact (and_iff_right trivial).symm
  | cons op done ih =>
      rw [List.cons_append, along_cons, along_cons, run_cons, ih, and_assoc]

/-- What holds of every operation in the state before it holds along the run. -/
theorem along_of_forall {P : σ → α → Prop} {s : σ} {ops : List α}
    (h : ∀ done op rest, ops = done ++ op :: rest → P (run step s done) op) :
    Along step P s ops := by
  induction ops generalizing s with
  | nil => trivial
  | cons op ops ih =>
      refine ⟨h [] op ops rfl, ih fun done op' rest heq => ?_⟩
      exact h (op :: done) op' rest (congrArg (op :: ·) heq)

/-- Two conditions along a run. -/
theorem Along.and {P Q : σ → α → Prop} {s : σ} {ops : List α} (hP : Along step P s ops)
    (hQ : Along step Q s ops) : Along step (fun s op => P s op ∧ Q s op) s ops := by
  induction ops generalizing s with
  | nil => trivial
  | cons op ops ih => exact ⟨⟨hP.1, hQ.1⟩, ih hP.2 hQ.2⟩

/-- A condition on the operations alone. -/
theorem along_of_mem {Q : α → Prop} {s : σ} {ops : List α} (h : ∀ op ∈ ops, Q op) :
    Along step (fun _ op => Q op) s ops :=
  along_of_forall fun done op rest heq => h op (by rw [heq]; simp)

/-- Two conditions that are the same wherever an invariant holds. -/
theorem along_congr {P Q : σ → α → Prop} {I : σ → Prop}
    (hstep : ∀ s op, I s → I (step op s)) (h : ∀ s op, I s → (P s op ↔ Q s op)) {s : σ}
    (hs : I s) (ops : List α) : Along step P s ops ↔ Along step Q s ops := by
  induction ops generalizing s with
  | nil => exact Iff.rfl
  | cons op ops ih => exact and_congr (h s op hs) (ih (hstep s op hs))

/-- An invariant of a run whose operations satisfy a condition. -/
theorem Along.invariant {P : σ → α → Prop} {I : σ → Prop}
    (hstep : ∀ s op, I s → P s op → I (step op s)) {s : σ} {ops : List α} (hs : I s)
    (hops : Along step P s ops) : I (run step s ops) := by
  induction ops generalizing s with
  | nil => exact hs
  | cons op ops ih => exact ih (hstep s op hs hops.1) hops.2

/-- What follows from the condition wherever the invariant holds, along the run. -/
theorem Along.imp {P Q : σ → α → Prop} {I : σ → Prop}
    (hstep : ∀ s op, I s → P s op → I (step op s)) (h : ∀ s op, I s → P s op → Q s op) {s : σ}
    {ops : List α} (hs : I s) (hops : Along step P s ops) : Along step Q s ops := by
  induction ops generalizing s with
  | nil => trivial
  | cons op ops ih => exact ⟨h s op hs hops.1, ih (hstep s op hs hops.1) hops.2⟩

/-- An invariant of all runs. -/
theorem invariant {I : σ → Prop} (hstep : ∀ s op, I s → I (step op s)) {s : σ} (hs : I s)
    (ops : List α) : I (run step s ops) := by
  induction ops generalizing s with
  | nil => exact hs
  | cons op ops ih => exact ih (hstep s op hs)

/-- What shuts itself out happens at most once: after it a state is closed, a closed state stays
closed, and in a closed state it does not happen. -/
theorem occurrences_le_one {P : σ → α → Prop} [∀ s op, Decidable (P s op)] {Closed : σ → Prop}
    (hclose : ∀ s op, P s op → Closed (step op s)) (hkeep : ∀ s op, Closed s → Closed (step op s))
    (hnot : ∀ s op, Closed s → ¬ P s op) (s : σ) (ops : List α) : occurrences step P s ops ≤ 1 := by
  have hzero : ∀ ops s, Closed s → occurrences step P s ops = 0 := by
    intro ops
    induction ops with
    | nil => exact fun _ _ => rfl
    | cons op ops ih =>
        intro s hs
        rw [occurrences, if_neg (hnot s op hs), ih _ (hkeep s op hs)]
  induction ops generalizing s with
  | nil => exact Nat.zero_le _
  | cons op ops ih =>
      rw [occurrences]
      by_cases hP : P s op
      · rw [if_pos hP, hzero ops _ (hclose s op hP)]
      · rw [if_neg hP, Nat.zero_add]
        exact ih _

end Runs
