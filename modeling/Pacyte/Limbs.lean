/-
# Arithmetic on digits

Numbers as lists of digits of one base, the least significant digit first, with the value
`Nat.ofDigits`.  The school methods for sums and differences work through the digits with a
carry or a borrow (`addCarry`, `subBorrow`); a comparison starts from the other end (`less`).

For a base that is a power of two the bitwise operations work digit by digit
(`ofDigits_zipWith`), and digits can be grouped into digits of a larger base
(`ofDigits_flatten`).
-/
import Mathlib

namespace Limbs

open Nat (ofDigits)

variable {B : ℕ}

/-! ## Sums -/

/-- The digits of a sum; the carry goes to the next digit. -/
def addCarry (B : ℕ) : List ℕ → List ℕ → ℕ → List ℕ
  | a :: as, b :: bs, carry => (a + b + carry) % B :: addCarry B as bs ((a + b + carry) / B)
  | _, _, _ => []

/-- The sum loses what does not fit into the digits. -/
theorem ofDigits_addCarry (as bs : List ℕ) (carry : ℕ) (hB : 0 < B)
    (hlen : as.length = bs.length) :
    ofDigits B (addCarry B as bs carry) =
      (ofDigits B as + ofDigits B bs + carry) % B ^ as.length := by
  induction as generalizing bs carry with
  | nil =>
      rw [addCarry, List.length_nil, pow_zero, Nat.mod_one]
      · rfl
      · rintro a as' b bs' h
        cases h
  | cons a as ih =>
      cases bs with
      | nil => cases hlen
      | cons b bs =>
          have hsplit : (ofDigits B (a :: as) + ofDigits B (b :: bs) + carry) =
              (a + b + carry) + B * (ofDigits B as + ofDigits B bs) := by
            rw [Nat.ofDigits_cons, Nat.ofDigits_cons]
            ring
          rw [addCarry, Nat.ofDigits_cons, ih bs _ (Nat.succ.inj hlen),
            List.length_cons, pow_succ', Nat.mod_mul, hsplit, Nat.add_mul_mod_self_left,
            Nat.add_mul_div_left _ _ hB]
          rw [Nat.add_comm (ofDigits B as + ofDigits B bs)]

theorem length_addCarry (as bs : List ℕ) (carry : ℕ) (hlen : as.length = bs.length) :
    (addCarry B as bs carry).length = as.length := by
  induction as generalizing bs carry with
  | nil =>
      cases bs with
      | nil => rfl
      | cons b bs => cases hlen
  | cons a as ih =>
      cases bs with
      | nil => cases hlen
      | cons b bs => rw [addCarry, List.length_cons, ih bs _ (Nat.succ.inj hlen), List.length_cons]

theorem addCarry_lt (as bs : List ℕ) (carry : ℕ) (hB : 0 < B) :
    ∀ d ∈ addCarry B as bs carry, d < B := by
  induction as generalizing bs carry with
  | nil =>
      intro d hd
      rw [addCarry] at hd
      · cases hd
      · rintro a as' b bs' h
        cases h
  | cons a as ih =>
      cases bs with
      | nil =>
          intro d hd
          cases hd
      | cons b bs =>
          intro d hd
          rw [addCarry] at hd
          rcases List.mem_cons.mp hd with rfl | hd
          · exact Nat.mod_lt _ hB
          · exact ih bs _ d hd

/-! ## Differences -/

/-- The digits of a difference; a digit that is too small borrows from the next one. -/
def subBorrow (B : ℕ) : List ℕ → List ℕ → ℕ → List ℕ
  | a :: as, b :: bs, borrow =>
      if b + borrow ≤ a then (a - borrow - b) :: subBorrow B as bs 0
      else (B + a - borrow - b) :: subBorrow B as bs 1
  | _, _, _ => []

/-- What is borrowed in the end makes up for the difference. -/
theorem ofDigits_subBorrow (as bs : List ℕ) (borrow : ℕ) (hborrow : borrow ≤ 1)
    (hbs : ∀ b ∈ bs, b < B) (hlen : as.length = bs.length) :
    ∃ k, ofDigits B (subBorrow B as bs borrow) + ofDigits B bs + borrow =
      ofDigits B as + B ^ as.length * k := by
  induction as generalizing bs borrow with
  | nil =>
      cases bs with
      | nil => exact ⟨borrow, by simp [subBorrow]⟩
      | cons b bs => cases hlen
  | cons a as ih =>
      cases bs with
      | nil => cases hlen
      | cons b bs =>
          have hb : b < B := hbs b (List.mem_cons_self ..)
          have hrest : ∀ x ∈ bs, x < B := fun x hx => hbs x (List.mem_cons_of_mem _ hx)
          rw [subBorrow, Nat.ofDigits_cons, Nat.ofDigits_cons, List.length_cons, pow_succ']
          split_ifs with hle
          · obtain ⟨k, hk⟩ := ih bs 0 (Nat.zero_le _) hrest (Nat.succ.inj hlen)
            refine ⟨k, ?_⟩
            rw [Nat.ofDigits_cons, Nat.mul_assoc]
            have hdigit : a - borrow - b + b + borrow = a := by omega
            have hmul := congrArg (B * ·) hk
            simp only [Nat.mul_add, Nat.add_zero] at hmul
            omega
          · obtain ⟨k, hk⟩ := ih bs 1 (Nat.le_refl _) hrest (Nat.succ.inj hlen)
            refine ⟨k, ?_⟩
            rw [Nat.ofDigits_cons, Nat.mul_assoc]
            have hdigit : B + a - borrow - b + b + borrow = B + a := by omega
            have hmul := congrArg (B * ·) hk
            simp only [Nat.mul_add, Nat.mul_one] at hmul
            omega

theorem length_subBorrow (as bs : List ℕ) (borrow : ℕ) (hlen : as.length = bs.length) :
    (subBorrow B as bs borrow).length = as.length := by
  induction as generalizing bs borrow with
  | nil =>
      cases bs with
      | nil => rfl
      | cons b bs => cases hlen
  | cons a as ih =>
      cases bs with
      | nil => cases hlen
      | cons b bs =>
          rw [subBorrow]
          split_ifs <;> rw [List.length_cons, ih bs _ (Nat.succ.inj hlen), List.length_cons]

theorem subBorrow_lt (as bs : List ℕ) (borrow : ℕ) (has : ∀ a ∈ as, a < B) :
    ∀ d ∈ subBorrow B as bs borrow, d < B := by
  induction as generalizing bs borrow with
  | nil =>
      intro d hd
      rw [subBorrow] at hd
      · cases hd
      · rintro a as' b bs' h
        cases h
  | cons a as ih =>
      have ha : a < B := has a (List.mem_cons_self ..)
      have hrest : ∀ x ∈ as, x < B := fun x hx => has x (List.mem_cons_of_mem _ hx)
      cases bs with
      | nil =>
          intro d hd
          cases hd
      | cons b bs =>
          intro d hd
          rw [subBorrow] at hd
          split_ifs at hd with hle
          · rcases List.mem_cons.mp hd with rfl | hd
            · omega
            · exact ih bs _ hrest d hd
          · rcases List.mem_cons.mp hd with rfl | hd
            · omega
            · exact ih bs _ hrest d hd

/-! ## Comparisons -/

/-- The first digit that differs decides; here the most significant digit comes first. -/
def less : List ℕ → List ℕ → Bool
  | a :: as, b :: bs => if a < b then true else if b < a then false else less as bs
  | _, _ => false

/-- The comparison of digits is the one of values. -/
theorem less_iff (as bs : List ℕ) (has : ∀ a ∈ as, a < B) (hbs : ∀ b ∈ bs, b < B)
    (hlen : as.length = bs.length) :
    less as bs = true ↔ ofDigits B as.reverse < ofDigits B bs.reverse := by
  induction as generalizing bs with
  | nil =>
      cases bs with
      | nil => simp [less]
      | cons b bs => cases hlen
  | cons a as ih =>
      cases bs with
      | nil => cases hlen
      | cons b bs =>
          have has' : ∀ x ∈ as, x < B := fun x hx => has x (List.mem_cons_of_mem _ hx)
          have hbs' : ∀ x ∈ bs, x < B := fun x hx => hbs x (List.mem_cons_of_mem _ hx)
          have hlen' : as.length = bs.length := Nat.succ.inj hlen
          have hlt : ∀ l : List ℕ, (∀ x ∈ l, x < B) → ofDigits B l.reverse < B ^ l.length := by
            intro l hl
            rcases Nat.lt_or_ge 1 B with hB | hB
            · have h := Nat.ofDigits_lt_base_pow_length hB (l := l.reverse)
                fun x hx => hl x (List.mem_reverse.mp hx)
              rwa [List.length_reverse] at h
            · -- all digits are zero below base two
              have hzero : l = List.replicate l.length 0 := by
                refine List.eq_replicate_of_mem fun x hx => ?_
                have := hl x hx
                omega
              rw [hzero, List.reverse_replicate, Nat.ofDigits_replicate_zero,
                List.length_replicate]
              cases l with
              | nil => simp
              | cons x l =>
                  exact Nat.pow_pos (Nat.lt_of_le_of_lt (Nat.zero_le x) (hl x (List.mem_cons_self ..)))
          have ha := hlt as has'
          have hb := hlt bs hbs'
          rw [less, Nat.ofDigits_reverse_cons, Nat.ofDigits_reverse_cons, hlen']
          rw [hlen'] at ha
          split_ifs with hab hba
          · refine iff_of_true rfl ?_
            have hmul := Nat.mul_le_mul_left (B ^ bs.length) (Nat.succ_le_of_lt hab)
            rw [Nat.mul_succ] at hmul
            omega
          · refine iff_of_false (by decide) ?_
            have hmul := Nat.mul_le_mul_left (B ^ bs.length) (Nat.succ_le_of_lt hba)
            rw [Nat.mul_succ] at hmul
            omega
          · have heq : a = b := by omega
            rw [ih bs has' hbs' hlen', heq]
            omega

/-! ## Bits -/

/-- A digit and the digits above it do not share a bit. -/
theorem bitwise_digit {f : Bool → Bool → Bool} (hf : f false false = false) {k a b : ℕ}
    (ha : a < 2 ^ k) (hb : b < 2 ^ k) (x y : ℕ) :
    Nat.bitwise f (a + 2 ^ k * x) (b + 2 ^ k * y) =
      Nat.bitwise f a b + 2 ^ k * Nat.bitwise f x y := by
  have hab : Nat.bitwise f a b < 2 ^ k := Nat.bitwise_lt_two_pow ha hb
  apply Nat.eq_of_testBit_eq
  intro i
  rw [Nat.testBit_bitwise hf, Nat.add_comm a, Nat.add_comm b, Nat.add_comm (Nat.bitwise f a b),
    Nat.testBit_two_pow_mul_add _ ha, Nat.testBit_two_pow_mul_add _ hb,
    Nat.testBit_two_pow_mul_add _ hab]
  split_ifs
  · rw [Nat.testBit_bitwise hf]
  · rw [Nat.testBit_bitwise hf]

/-- Bitwise operations work digit by digit. -/
theorem ofDigits_zipWith {f : Bool → Bool → Bool} (hf : f false false = false) {k : ℕ}
    (as bs : List ℕ) (has : ∀ a ∈ as, a < 2 ^ k) (hbs : ∀ b ∈ bs, b < 2 ^ k)
    (hlen : as.length = bs.length) :
    ofDigits (2 ^ k) (List.zipWith (Nat.bitwise f) as bs) =
      Nat.bitwise f (ofDigits (2 ^ k) as) (ofDigits (2 ^ k) bs) := by
  induction as generalizing bs with
  | nil =>
      cases bs with
      | nil => simp
      | cons b bs => cases hlen
  | cons a as ih =>
      cases bs with
      | nil => cases hlen
      | cons b bs =>
          rw [List.zipWith_cons_cons, Nat.ofDigits_cons, Nat.ofDigits_cons, Nat.ofDigits_cons,
            ih bs (fun x hx => has x (List.mem_cons_of_mem _ hx))
              (fun x hx => hbs x (List.mem_cons_of_mem _ hx)) (Nat.succ.inj hlen)]
          exact (bitwise_digit hf (has a (List.mem_cons_self ..))
            (hbs b (List.mem_cons_self ..)) _ _).symm

/-- The complements of the digits are those of the complement. -/
theorem ofDigits_complement (as : List ℕ) (has : ∀ a ∈ as, a < B) :
    ofDigits B (as.map fun a => B - 1 - a) + ofDigits B as + 1 = B ^ as.length := by
  induction as with
  | nil => simp
  | cons a as ih =>
      have ha : a < B := has a (List.mem_cons_self ..)
      have hrest := ih fun x hx => has x (List.mem_cons_of_mem _ hx)
      rw [List.map_cons, Nat.ofDigits_cons, Nat.ofDigits_cons, List.length_cons, pow_succ',
        ← hrest]
      simp only [Nat.mul_add, Nat.mul_one]
      omega

/-! ## Grouping -/

/-- Groups of `k` digits are digits of the base `B ^ k`. -/
theorem ofDigits_flatten {k : ℕ} (groups : List (List ℕ)) (h : ∀ g ∈ groups, g.length = k) :
    ofDigits B groups.flatten = ofDigits (B ^ k) (groups.map (ofDigits B)) := by
  induction groups with
  | nil => rfl
  | cons g groups ih =>
      rw [List.flatten_cons, Nat.ofDigits_append, List.map_cons, Nat.ofDigits_cons,
        ih fun x hx => h x (List.mem_cons_of_mem _ hx), h g (List.mem_cons_self ..)]

end Limbs
