/-
# Pairwise hash trees and fixed-width encodings

A list is reduced level by level: neighbours are combined by `node`, a last odd
element with itself, until one element is left (`HashTree.climb`).  Two lists of
the same length with the same result are equal as soon as `node` has no
collision among the pairs that were combined (`HashTree.climb_injective`); the
length has to be known, because an odd last element is counted twice.

The second part is about encodings: little-endian words of a fixed width
determine the number (`leBytes_injective`).
-/
import Mathlib

namespace HashTree

variable {α : Type}

/-! ## Levels -/

/-- One level up: neighbours are combined, a last odd element with itself. -/
def level (node : α → α → α) : List α → List α
  | [] => []
  | [a] => [node a a]
  | a :: b :: rest => node a b :: level node rest

/-- At most `fuel` levels up, as long as more than one element is left. -/
def climb (node : α → α → α) : ℕ → List α → List α
  | 0, l => l
  | fuel + 1, l => if 1 < l.length then climb node fuel (level node l) else l

theorem length_level (node : α → α → α) (l : List α) :
    (level node l).length = (l.length + 1) / 2 := by
  induction l using level.induct with
  | case1 => simp [level]
  | case2 a => simp [level]
  | case3 a b rest ih =>
      rw [level, List.length_cons, ih, List.length_cons, List.length_cons]
      omega

/-- A level of a nonempty list is nonempty. -/
theorem level_ne_nil (node : α → α → α) {l : List α} (h : l ≠ []) : level node l ≠ [] := by
  have hl := length_level node l
  intro hnil
  rw [hnil, List.length_nil] at hl
  exact h (List.length_eq_zero_iff.mp (by omega))

/-- With as many levels as elements the climb ends: at most one is left. -/
theorem length_climb_le_one (node : α → α → α) (fuel : ℕ) (l : List α)
    (h : l.length ≤ fuel + 1) : (climb node fuel l).length ≤ 1 := by
  induction fuel generalizing l with
  | zero => exact h
  | succ fuel ih =>
      rw [climb]
      split_ifs with hl
      · apply ih
        rw [length_level]
        omega
      · omega

theorem climb_ne_nil (node : α → α → α) (fuel : ℕ) {l : List α} (h : l ≠ []) :
    climb node fuel l ≠ [] := by
  induction fuel generalizing l with
  | zero => exact h
  | succ fuel ih =>
      rw [climb]
      split_ifs
      · exact ih (level_ne_nil node h)
      · exact h

/-! ## Injectivity -/

/-- The pairs that are combined on one level. -/
def pairs : List α → List (α × α)
  | [] => []
  | [a] => [(a, a)]
  | a :: b :: rest => (a, b) :: pairs rest

/-- The pairs that are combined on the whole climb. -/
def climbPairs (node : α → α → α) : ℕ → List α → List (α × α)
  | 0, _ => []
  | fuel + 1, l =>
      if 1 < l.length then pairs l ++ climbPairs node fuel (level node l) else []

/-- `node` tells every pair of the first list from every pair of the second. -/
def Separates (node : α → α → α) (ps qs : List (α × α)) : Prop :=
  ∀ p ∈ ps, ∀ q ∈ qs, node p.1 p.2 = node q.1 q.2 → p = q

theorem Separates.tail {node : α → α → α} {p q : α × α} {ps qs : List (α × α)}
    (h : Separates node (p :: ps) (q :: qs)) : Separates node ps qs :=
  fun p' hp' q' hq' => h p' (List.mem_cons_of_mem _ hp') q' (List.mem_cons_of_mem _ hq')

theorem level_injective (node : α → α → α) (l m : List α) (hlen : l.length = m.length)
    (hsep : Separates node (pairs l) (pairs m)) (h : level node l = level node m) :
    l = m := by
  induction l using level.induct generalizing m with
  | case1 => exact (List.length_eq_zero_iff.mp hlen.symm).symm
  | case2 a =>
      match m, hlen with
      | [b], _ =>
        have hab : node a a = node b b := by simpa [level] using h
        have := hsep (a, a) (by simp [pairs]) (b, b) (by simp [pairs]) hab
        simp_all
  | case3 a b rest ih =>
      match m, hlen with
      | c :: d :: rest', hlen =>
        rw [level, level, List.cons.injEq] at h
        rw [pairs, pairs] at hsep
        have hpair := hsep (a, b) (List.mem_cons_self ..) (c, d) (List.mem_cons_self ..) h.1
        have hrest := ih rest' (by simpa using hlen) hsep.tail h.2
        simp_all

/-- **Injectivity of the climb** on lists of one length. -/
theorem climb_injective (node : α → α → α) (fuel : ℕ) (l m : List α)
    (hlen : l.length = m.length)
    (hsep : Separates node (climbPairs node fuel l) (climbPairs node fuel m))
    (h : climb node fuel l = climb node fuel m) : l = m := by
  induction fuel generalizing l m with
  | zero => exact h
  | succ fuel ih =>
      rw [climb, climb, ← hlen] at h
      rw [climbPairs, climbPairs, ← hlen] at hsep
      by_cases hl : 1 < l.length
      · rw [if_pos hl, if_pos hl] at h hsep
        apply level_injective node l m hlen
        · exact fun p hp q hq => hsep p (List.mem_append_left _ hp) q (List.mem_append_left _ hq)
        · apply ih
          · rw [length_level, length_level, hlen]
          · exact fun p hp q hq =>
              hsep p (List.mem_append_right _ hp) q (List.mem_append_right _ hq)
          · exact h
      · rwa [if_neg hl, if_neg hl] at h

end HashTree

/-! ## Fixed-width encodings -/

/-- The least `w` bytes of `n`, least significant first. -/
def leBytes : ℕ → ℕ → List UInt8
  | 0, _ => []
  | w + 1, n => UInt8.ofNat n :: leBytes w (n / 256)

@[simp] theorem length_leBytes (w n : ℕ) : (leBytes w n).length = w := by
  induction w generalizing n with
  | zero => rfl
  | succ w ih => rw [leBytes, List.length_cons, ih]

/-- A number below `256 ^ w` is determined by its `w` bytes. -/
theorem leBytes_injective (w m n : ℕ) (hm : m < 256 ^ w) (hn : n < 256 ^ w)
    (h : leBytes w m = leBytes w n) : m = n := by
  induction w generalizing m n with
  | zero => simp_all
  | succ w ih =>
      rw [leBytes, leBytes, List.cons.injEq] at h
      have hbyte : m % 256 = n % 256 := by
        have := congrArg UInt8.toNat h.1
        simpa using this
      have hrest : m / 256 = n / 256 := by
        apply ih _ _ _ _ h.2
        · rw [pow_succ] at hm
          omega
        · rw [pow_succ] at hn
          omega
      omega

/-- The number that some bytes stand for, least significant first. -/
theorem foldr_leBytes (w n : ℕ) :
    (leBytes w n).foldr (fun b m => b.toNat + 256 * m) 0 = n % 256 ^ w := by
  induction w generalizing n with
  | zero => simp [leBytes, Nat.mod_one]
  | succ w ih =>
      have hbyte : (UInt8.ofNat n).toNat = n % 256 := UInt8.toNat_ofNat'
      rw [leBytes, List.foldr_cons, ih, hbyte, pow_succ, mul_comm (256 ^ w), Nat.mod_mul]

/-- A number in front of other bytes. -/
theorem leBytes_append_inj {w m n : ℕ} {s t : List UInt8} (hm : m < 256 ^ w) (hn : n < 256 ^ w)
    (h : leBytes w m ++ s = leBytes w n ++ t) : m = n ∧ s = t := by
  obtain ⟨h₁, h₂⟩ := List.append_inj h (by simp)
  exact ⟨leBytes_injective w m n hm hn h₁, h₂⟩

/-- A byte array of a fixed size in front of other bytes. -/
theorem Vector.toList_append_inj {k : ℕ} {a b : Vector UInt8 k} {s t : List UInt8}
    (h : a.toList ++ s = b.toList ++ t) : a = b ∧ s = t := by
  obtain ⟨h₁, h₂⟩ := List.append_inj h (by simp)
  exact ⟨Vector.toList_inj.mp h₁, h₂⟩
