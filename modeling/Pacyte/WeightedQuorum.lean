/-
# Quorums by weight

The members of two collections weigh as much as their union and their intersection
together.  So two collections of more than two thirds of a total weight share more than a
third of it, and integer division loses nothing that is needed for this.
-/
import Mathlib

namespace WeightedQuorum

variable {V : Type} [DecidableEq V]

/-- Two quorums of more than two thirds of the weight share more than a third of it. -/
theorem third_lt_inter {A B : Finset V} {weight : V → ℕ} {total : ℕ}
    (hunion : ∑ i ∈ A ∪ B, weight i ≤ total)
    (hA : 2 * total < 3 * ∑ i ∈ A, weight i) (hB : 2 * total < 3 * ∑ i ∈ B, weight i) :
    total < 3 * ∑ i ∈ A ∩ B, weight i := by
  have hsum : ∑ i ∈ A ∪ B, weight i + ∑ i ∈ A ∩ B, weight i =
      ∑ i ∈ A, weight i + ∑ i ∈ B, weight i := Finset.sum_union_inter
  omega

/-- The truncated quotient is enough for a quorum of more than two thirds. -/
theorem two_thirds_lt {total weight : ℕ} (h : total * 2 / 3 + 1 ≤ weight) :
    2 * total < 3 * weight := by
  omega

/-- Two quorums of an `n`-element set share more members than may be faulty. -/
theorem faulty_lt_inter {A B : Finset V} {n : ℕ} (hunion : (A ∪ B).card ≤ n)
    (hA : n * 2 / 3 + 1 ≤ A.card) (hB : n * 2 / 3 + 1 ≤ B.card) :
    (n - 1) / 3 < (A ∩ B).card := by
  have hsum := Finset.card_union_add_card_inter A B
  omega

/-- Two quorums share a member that is not faulty. -/
theorem exists_not_faulty {F A B : Finset V} {f n : ℕ} (hn : 3 * f + 1 ≤ n) (hf : F.card ≤ f)
    (hunion : (A ∪ B).card ≤ n) (hA : n * 2 / 3 + 1 ≤ A.card) (hB : n * 2 / 3 + 1 ≤ B.card) :
    ∃ i, i ∈ A ∧ i ∈ B ∧ i ∉ F := by
  have hinter := faulty_lt_inter hunion hA hB
  obtain ⟨i, hi, hnot⟩ := Finset.exists_mem_notMem_of_card_lt_card (s := F) (t := A ∩ B) (by omega)
  exact ⟨i, (Finset.mem_inter.mp hi).1, (Finset.mem_inter.mp hi).2, hnot⟩

end WeightedQuorum
