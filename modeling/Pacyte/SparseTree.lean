/-
# Binary trees with one value per leaf

A full binary tree of a given height whose inner nodes are combined by `pair` and
whose leaves are found by the path from the root: `root pair n leaves`.

Almost all leaves of a sparse tree hold one default value.  The tree of defaults
has the roots `empty`, and the root of a tree with one other leaf is reached from
that leaf by climbing past default siblings (`root_single`).
-/
import Mathlib

namespace SparseTree

variable {α : Type} (pair : α → α → α)

/-- The root of the tree of height `n` with the given leaves; the first bit of a
path is the choice at the root. -/
def root : ℕ → (List Bool → α) → α
  | 0, leaves => leaves []
  | n + 1, leaves =>
      pair (root n fun p => leaves (false :: p)) (root n fun p => leaves (true :: p))

/-- The root of the tree whose leaves all hold `z`. -/
def empty (z : α) : ℕ → α
  | 0 => z
  | n + 1 => pair (empty z n) (empty z n)

/-- From a leaf to the root, past siblings that hold `z` only. -/
def climb (z : α) : List Bool → α → α
  | [], v => v
  | bit :: p, v =>
      if bit then pair (empty pair z p.length) (climb z p v)
      else pair (climb z p v) (empty pair z p.length)

theorem root_const (z : α) (n : ℕ) : root pair n (fun _ => z) = empty pair z n := by
  induction n with
  | zero => rfl
  | succ n ih => rw [root, empty, ih]

/-- **A tree with one leaf**: its root is reached by climbing from that leaf. -/
theorem root_single (z v : α) (path : List Bool) :
    root pair path.length (fun p => if p = path then v else z) = climb pair z path v := by
  induction path with
  | nil => rfl
  | cons bit path ih =>
      -- the leaf lies in the subtree of its first bit, the other one is empty
      have hside : ∀ b, root pair path.length
          (fun p => if b :: p = bit :: path then v else z)
            = if b = bit then climb pair z path v else empty pair z path.length := by
        intro b
        by_cases hb : b = bit
        · subst hb
          simp only [List.cons.injEq, true_and, if_true, ih]
        · simp only [List.cons.injEq, hb, false_and, if_false, root_const]
      rw [List.length_cons, root, hside, hside, climb]
      cases bit <;> rfl

/-- A loop that climbs from the leaf, with the bits read from the leaf upwards. -/
theorem foldl_range_climb (z v : α) (bit : ℕ → Bool) (n : ℕ) :
    (List.range n).foldl (fun node depth =>
        if bit depth then pair (empty pair z depth) node
        else pair node (empty pair z depth)) v
      = climb pair z ((List.range n).map bit).reverse v := by
  induction n with
  | zero => rfl
  | succ n ih =>
      rw [List.range_succ, List.foldl_append, ih, List.map_append, List.reverse_append]
      simp [climb]

end SparseTree
