/-
# Sums of byte strings under exclusive or

Byte strings of one length form a group under the bitwise exclusive or, in which
every element is its own inverse.  `Vector.xorAll` adds up a list.

Two facts carry the uses: the order of the list does not matter
(`Vector.xorAll_perm`), and neither do the zeros in it
(`Vector.xorAll_filter_ne_zero`).
-/
import Mathlib

namespace Vector

variable {n : ℕ}

/-- The bitwise exclusive or of two byte strings. -/
def xor (a b : Vector UInt8 n) : Vector UInt8 n := a.zipWith (· ^^^ ·) b

/-- The byte string of zeros. -/
def zeros (n : ℕ) : Vector UInt8 n := Vector.replicate n 0

/-! ## The group -/

theorem xor_comm (a b : Vector UInt8 n) : a.xor b = b.xor a := by
  ext i hi
  simp only [xor, getElem_zipWith]
  rw [UInt8.xor_comm]

theorem xor_assoc (a b c : Vector UInt8 n) : (a.xor b).xor c = a.xor (b.xor c) := by
  ext i hi
  simp only [xor, getElem_zipWith]
  rw [UInt8.xor_assoc]

@[simp] theorem xor_zeros (a : Vector UInt8 n) : a.xor (zeros n) = a := by
  ext i hi
  simp [xor, zeros]

@[simp] theorem zeros_xor (a : Vector UInt8 n) : (zeros n).xor a = a := by
  rw [xor_comm, xor_zeros]

@[simp] theorem xor_self (a : Vector UInt8 n) : a.xor a = zeros n := by
  ext i hi
  simp [xor, zeros]

/-- Adding an element twice gives back what was there. -/
theorem xor_xor_cancel (a b : Vector UInt8 n) : a.xor (a.xor b) = b := by
  rw [← xor_assoc, xor_self, zeros_xor]

theorem xor_right_inj (a : Vector UInt8 n) {b c : Vector UInt8 n} :
    a.xor b = a.xor c ↔ b = c := by
  constructor
  · intro h
    rw [← xor_xor_cancel a b, h, xor_xor_cancel]
  · intro h
    rw [h]

/-- Only zero changes nothing. -/
theorem xor_eq_right_iff (a b : Vector UInt8 n) : a.xor b = b ↔ a = zeros n := by
  rw [xor_comm]
  nth_rewrite 2 [← xor_zeros b]
  exact xor_right_inj b

/-! ## Sums of lists -/

/-- The sum of a list. -/
def xorAll (l : List (Vector UInt8 n)) : Vector UInt8 n := l.foldr xor (zeros n)

@[simp] theorem xorAll_nil : xorAll ([] : List (Vector UInt8 n)) = zeros n := rfl

@[simp] theorem xorAll_cons (a : Vector UInt8 n) (l : List (Vector UInt8 n)) :
    xorAll (a :: l) = a.xor (xorAll l) := rfl

/-- A loop that adds up a list starting from `a`. -/
theorem foldl_xor (l : List (Vector UInt8 n)) (a : Vector UInt8 n) :
    l.foldl xor a = a.xor (xorAll l) := by
  induction l generalizing a with
  | nil => rw [List.foldl_nil, xorAll_nil, xor_zeros]
  | cons b l ih => rw [List.foldl_cons, ih, xorAll_cons, xor_assoc]

/-- The order of the list does not matter. -/
theorem xorAll_perm {l l' : List (Vector UInt8 n)} (h : l.Perm l') : xorAll l = xorAll l' := by
  have hcomm : LeftCommutative (xor (n := n)) :=
    ⟨fun a b c => by rw [← xor_assoc, xor_comm a b, xor_assoc]⟩
  exact h.foldr_eq (zeros n)

/-- The zeros of the list do not matter. -/
theorem xorAll_filter_ne_zero (l : List (Vector UInt8 n)) :
    xorAll (l.filter (· ≠ zeros n)) = xorAll l := by
  induction l with
  | nil => rfl
  | cons a l ih =>
      by_cases ha : a = zeros n
      · rw [List.filter_cons_of_neg (by simpa using ha), ih, xorAll_cons, ha, zeros_xor]
      · rw [List.filter_cons_of_pos (by simpa using ha), xorAll_cons, ih, xorAll_cons]

end Vector
