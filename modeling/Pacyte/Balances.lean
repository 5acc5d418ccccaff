/-
# Balances

A table of balances in machine words, the sum of all of them (`Balances.total`), and the two
updates in place of a payment: the amount is taken from one balance and then given to another,
which may be the same one (`Balances.moved`).

A payment of what is there keeps the sum (`total_moved`), and no balance overflows as long as the
sum fits into a word (`fits`).
-/
import Mathlib

namespace Balances

variable {ι : Type} [DecidableEq ι] {w : ℕ}

/-! ## Payments -/

/-- The balances after an amount has been taken from one of them. -/
def taken (bal : ι → BitVec w) («from» : ι) (value : BitVec w) : ι → BitVec w :=
  Function.update bal «from» (bal «from» - value)

/-- The balances after an amount has been given to one of them. -/
def given (bal : ι → BitVec w) («to» : ι) (value : BitVec w) : ι → BitVec w :=
  Function.update bal «to» (bal «to» + value)

/-- The balances after an amount has been taken from one of them and given to another. -/
def moved (bal : ι → BitVec w) («from» «to» : ι) (value : BitVec w) : ι → BitVec w :=
  given (taken bal «from» value) «to» value

theorem toNat_taken {bal : ι → BitVec w} {«from» : ι} {value : BitVec w}
    (hle : value.toNat ≤ (bal «from»).toNat) (a : ι) :
    (taken bal «from» value a).toNat + (if a = «from» then value.toNat else 0) = (bal a).toNat := by
  unfold taken
  by_cases ha : a = «from»
  · rw [if_pos ha, ha, Function.update_self, BitVec.toNat_sub_of_le (BitVec.le_def.mpr hle)]
    omega
  · rw [if_neg ha, Function.update_of_ne ha]
    rfl

theorem toNat_given {bal : ι → BitVec w} {«to» : ι} {value : BitVec w}
    (hfits : (bal «to»).toNat + value.toNat < 2 ^ w) (a : ι) :
    (given bal «to» value a).toNat = (bal a).toNat + (if a = «to» then value.toNat else 0) := by
  unfold given
  by_cases ha : a = «to»
  · rw [if_pos ha, ha, Function.update_self, BitVec.toNat_add_of_lt hfits]
  · rw [if_neg ha, Function.update_of_ne ha]
    rfl

/-- Every balance after a payment. -/
theorem toNat_moved {bal : ι → BitVec w} {«from» «to» : ι} {value : BitVec w}
    (hle : value.toNat ≤ (bal «from»).toNat)
    (hfits : (taken bal «from» value «to»).toNat + value.toNat < 2 ^ w) (a : ι) :
    (moved bal «from» «to» value a).toNat + (if a = «from» then value.toNat else 0)
      = (bal a).toNat + (if a = «to» then value.toNat else 0) := by
  have htaken := toNat_taken hle a
  rw [moved, toNat_given hfits a]
  omega

/-! ## The sum -/

variable [Fintype ι]

/-- The sum of all balances. -/
def total (bal : ι → BitVec w) : ℕ := ∑ a, (bal a).toNat

omit [DecidableEq ι] in
theorem le_total (bal : ι → BitVec w) (a : ι) : (bal a).toNat ≤ total bal :=
  Finset.single_le_sum (f := fun a => (bal a).toNat) (fun _ _ => Nat.zero_le _) (Finset.mem_univ a)

theorem total_taken {bal : ι → BitVec w} {«from» : ι} {value : BitVec w}
    (hle : value.toNat ≤ (bal «from»).toNat) :
    total (taken bal «from» value) + value.toNat = total bal := by
  have hsum : ∑ a, ((taken bal «from» value a).toNat + if a = «from» then value.toNat else 0)
      = ∑ a, (bal a).toNat := Finset.sum_congr rfl fun a _ => toNat_taken hle a
  rw [Finset.sum_add_distrib, Finset.sum_ite_eq', if_pos (Finset.mem_univ _)] at hsum
  exact hsum

theorem total_given {bal : ι → BitVec w} {«to» : ι} {value : BitVec w}
    (hfits : (bal «to»).toNat + value.toNat < 2 ^ w) :
    total (given bal «to» value) = total bal + value.toNat := by
  have hsum : total (given bal «to» value)
      = ∑ a, ((bal a).toNat + if a = «to» then value.toNat else 0) :=
    Finset.sum_congr rfl fun a _ => toNat_given hfits a
  rw [Finset.sum_add_distrib, Finset.sum_ite_eq', if_pos (Finset.mem_univ _)] at hsum
  exact hsum

/-- What is given fits as soon as the sum does: it has been taken from another balance. -/
theorem fits {bal : ι → BitVec w} {«from» : ι} {value : BitVec w} (htotal : total bal < 2 ^ w)
    (hle : value.toNat ≤ (bal «from»).toNat) («to» : ι) :
    (taken bal «from» value «to»).toNat + value.toNat < 2 ^ w := by
  have hsum := total_taken hle
  have hto := le_total (taken bal «from» value) «to»
  omega

/-- **A payment keeps the sum.** -/
theorem total_moved {bal : ι → BitVec w} {«from» «to» : ι} {value : BitVec w}
    (hle : value.toNat ≤ (bal «from»).toNat)
    (hfits : (taken bal «from» value «to»).toNat + value.toNat < 2 ^ w) :
    total (moved bal «from» «to» value) = total bal := by
  rw [moved, total_given hfits, total_taken hle]

/-- A single balance holds the whole sum. -/
theorem total_single (a : ι) (value : BitVec w) :
    total (Function.update (fun _ => 0) a value) = value.toNat := by
  have hsum : total (Function.update (fun _ => 0) a value)
      = ∑ b, if b = a then value.toNat else 0 := by
    apply Finset.sum_congr rfl
    intro b _
    by_cases hb : b = a
    · rw [if_pos hb, hb, Function.update_self]
    · rw [if_neg hb, Function.update_of_ne hb]
      exact BitVec.toNat_zero
  rw [hsum, Finset.sum_ite_eq', if_pos (Finset.mem_univ _)]

end Balances
