/-
# Paths in a pairwise hash tree

The levels of a pairwise hash tree (`HashTree.rows`), the path from an element of the lowest
level to the top (`HashTree.siblings`), and the climb along a path (`HashTree.ascend`).

A path of the tree leads to the top (`ascend_siblings`).  Conversely a climb of the right length
that ends at the top starts from an element of the lowest level, at the place that the
directions spell (`getElem?_of_ascend`), as soon as `node` has no collision between the pairs of
the climb and those of the tree.  Two climbs with the same directions that end at one element
are the same (`ascend_injective`); with other directions they need not be (`ascend_swap`).
-/
import Pacyte.HashTree

namespace HashTree

variable {α : Type}

instance [DecidableEq α] (node : α → α → α) (ps qs : List (α × α)) :
    Decidable (Separates node ps qs) :=
  inferInstanceAs (Decidable (∀ p ∈ ps, ∀ q ∈ qs, _ → _))

/-! ## Levels -/

/-- All levels, from the lowest one up to the first with at most one element. -/
def rows (node : α → α → α) : ℕ → List α → List (List α)
  | 0, l => [l]
  | fuel + 1, l => if 1 < l.length then l :: rows node fuel (level node l) else [l]

theorem rows_of_one_lt (node : α → α → α) (fuel : ℕ) {l : List α} (h : 1 < l.length) :
    rows node (fuel + 1) l = l :: rows node fuel (level node l) := if_pos h

theorem rows_of_le_one (node : α → α → α) (fuel : ℕ) {l : List α} (h : l.length ≤ 1) :
    rows node fuel l = [l] := by
  cases fuel with
  | zero => rfl
  | succ fuel => exact if_neg (Nat.not_lt_of_le h)

theorem rows_ne_nil (node : α → α → α) (fuel : ℕ) (l : List α) : rows node fuel l ≠ [] := by
  cases fuel with
  | zero => exact List.cons_ne_nil _ _
  | succ fuel =>
      rw [rows]
      split_ifs <;> exact List.cons_ne_nil _ _

/-- The lowest level is the list itself. -/
theorem head?_rows (node : α → α → α) (fuel : ℕ) (l : List α) :
    (rows node fuel l).head? = some l := by
  cases fuel with
  | zero => rfl
  | succ fuel =>
      rw [rows]
      split_ifs <;> rfl

/-- The elements of the next level are the combined neighbours. -/
theorem getElem?_level (node : α → α → α) (l : List α) (k : ℕ) :
    (level node l)[k]? = (l[2 * k]?).map fun a => node a ((l[2 * k + 1]?).getD a) := by
  induction l using level.induct generalizing k with
  | case1 => rfl
  | case2 a =>
      cases k with
      | zero => rfl
      | succ k => rfl
  | case3 a b rest ih =>
      cases k with
      | zero => rfl
      | succ k => exact ih k

/-- Neighbours are a pair of the level. -/
theorem mem_pairs (l : List α) {k : ℕ} {a : α} (h : l[2 * k]? = some a) :
    (a, (l[2 * k + 1]?).getD a) ∈ pairs l := by
  induction l using pairs.induct generalizing k with
  | case1 => cases h
  | case2 b =>
      cases k with
      | zero =>
          cases h
          exact List.mem_singleton_self _
      | succ k => cases h
  | case3 b c rest ih =>
      cases k with
      | zero =>
          cases h
          exact List.mem_cons_self
      | succ k => exact List.mem_cons_of_mem _ (ih h)

/-! ## Climbing along a path -/

/-- The two elements that are combined: the flag says that the sibling is the left one. -/
def combined (sibling : α × Bool) (a : α) : α × α :=
  if sibling.2 then (sibling.1, a) else (a, sibling.1)

/-- The element that a climb from `a` along some siblings ends at. -/
def ascend (node : α → α → α) : α → List (α × Bool) → α
  | a, [] => a
  | a, s :: rest => ascend node (node (combined s a).1 (combined s a).2) rest

/-- The pairs that are combined on a climb. -/
def ascendPairs (node : α → α → α) : α → List (α × Bool) → List (α × α)
  | _, [] => []
  | a, s :: rest => combined s a :: ascendPairs node (node (combined s a).1 (combined s a).2) rest

/-! ## The paths of a tree -/

/-- The sibling of the element at an index: a last odd element is its own one, on the right. -/
def sibling (l : List α) (i : ℕ) : Option (α × Bool) :=
  if i % 2 = 0 then
    (l[i + 1]?.or l[i]?).map fun a => (a, false)
  else
    l[i - 1]?.map fun a => (a, true)

/-- The siblings on the way from an index of the lowest level to the top. -/
def siblings : List (List α) → ℕ → Option (List (α × Bool))
  | [], _ => some []
  | [_], _ => some []
  | l :: l' :: rest, i => do
    let s ← sibling l i
    let path ← siblings (l' :: rest) (i / 2)
    return s :: path

/-- An element and its sibling are combined to the element at half the index. -/
theorem exists_sibling (node : α → α → α) {l : List α} {i : ℕ} {a : α} (h : l[i]? = some a) :
    ∃ s, sibling l i = some s ∧
      (level node l)[i / 2]? = some (node (combined s a).1 (combined s a).2) := by
  unfold sibling
  rcases Nat.mod_two_eq_zero_or_one i with heven | hodd
  · have hi : 2 * (i / 2) = i := by omega
    rw [if_pos heven, getElem?_level, hi, h]
    cases hnext : l[i + 1]? with
    | none => exact ⟨(a, false), rfl, rfl⟩
    | some b => exact ⟨(b, false), rfl, rfl⟩
  · have hi : 2 * (i / 2) = i - 1 := by omega
    have hnext : i - 1 + 1 = i := by omega
    have hlt : i - 1 < l.length := by
      have hlen := (List.getElem?_eq_some_iff.mp h).1
      omega
    rw [if_neg (by omega), getElem?_level, hi, hnext, h, List.getElem?_eq_getElem hlt]
    exact ⟨(l[i - 1], true), rfl, rfl⟩

/-- **The path of an element leads to the top.**  The induction is on the levels that are left;
the index is halved with every one. -/
theorem ascend_siblings (node : α → α → α) (fuel : ℕ) (l : List α) (hfuel : l.length ≤ fuel + 1)
    {i : ℕ} {a : α} (h : l[i]? = some a) :
    ∃ path, siblings (rows node fuel l) i = some path ∧
      (climb node fuel l).head? = some (ascend node a path) := by
  have hsingle : l.length ≤ 1 → l.head? = some a := by
    intro hle
    have hlt := (List.getElem?_eq_some_iff.mp h).1
    obtain rfl : i = 0 := by omega
    rw [List.head?_eq_getElem?, h]
  induction fuel generalizing l i a with
  | zero => exact ⟨[], rfl, hsingle hfuel⟩
  | succ fuel ih =>
      by_cases hl : 1 < l.length
      · obtain ⟨s, hs, hup⟩ := exists_sibling node h
        have hlen := length_level node l
        have hone : (level node l).length ≤ 1 →
            (level node l).head? = some (node (combined s a).1 (combined s a).2) := by
          intro hle
          have hlt := (List.getElem?_eq_some_iff.mp hup).1
          have hzero : i / 2 = 0 := by omega
          rw [hzero] at hup
          rw [List.head?_eq_getElem?, hup]
        obtain ⟨path, hpath, htop⟩ := ih (level node l) (by omega) hup hone
        refine ⟨s :: path, ?_, ?_⟩
        · rw [rows_of_one_lt node fuel hl]
          obtain ⟨l', rest, hrows⟩ := List.exists_cons_of_ne_nil (rows_ne_nil node fuel (level node l))
          rw [hrows] at hpath ⊢
          rw [siblings, hs, hpath]
          rfl
        · rw [climb, if_pos hl]
          exact htop
      · rw [rows_of_le_one node _ (Nat.not_lt.mp hl), climb, if_neg hl]
        exact ⟨[], rfl, hsingle (Nat.not_lt.mp hl)⟩

/-! ## Climbs that end at the top -/

/-- The index that the directions of a climb spell, read from the top down, in levels of the
given lengths: where a direction leads behind the last element of a level, that element is
meant. -/
def spelled : List ℕ → List Bool → ℕ
  | n :: lengths, left :: rest => min (2 * spelled lengths rest + left.toNat) (n - 1)
  | _, _ => 0

@[simp] theorem spelled_nil (lengths : List ℕ) : spelled lengths [] = 0 := by
  cases lengths <;> rfl

/-- **A climb that ends at the top starts in the tree**, if the pairs of the climb do not collide
with those of the tree. -/
theorem getElem?_of_ascend (node : α → α → α) (fuel : ℕ) (l : List α)
    (hfuel : l.length ≤ fuel + 1) (a : α) (path : List (α × Bool))
    (hlen : path.length + 1 = (rows node fuel l).length)
    (hsep : Separates node (ascendPairs node a path) (climbPairs node fuel l))
    (htop : (climb node fuel l).head? = some (ascend node a path)) :
    l[spelled ((rows node fuel l).map List.length) (path.map Prod.snd)]? = some a := by
  induction fuel generalizing l a path with
  | zero =>
      obtain rfl : path = [] := List.length_eq_zero_iff.mp (Nat.succ.inj hlen)
      rw [List.map_nil, spelled_nil, ← List.head?_eq_getElem?]
      exact htop
  | succ fuel ih =>
      by_cases hl : 1 < l.length
      · rw [rows_of_one_lt node fuel hl, List.length_cons] at hlen
        rw [climb, if_pos hl] at htop
        rw [climbPairs, if_pos hl] at hsep
        cases path with
        | nil =>
            have hpos := List.length_pos_iff.mpr (rows_ne_nil node fuel (level node l))
            rw [List.length_nil] at hlen
            omega
        | cons s path =>
            have hlevel := length_level node l
            have hup := ih (level node l) (by omega) _ path (Nat.succ.inj hlen)
              (fun p hp q hq => hsep p (List.mem_cons_of_mem _ hp) q (List.mem_append_right _ hq))
              htop
            rw [rows_of_one_lt node fuel hl, List.map_cons, List.map_cons, spelled]
            generalize spelled ((rows node fuel (level node l)).map List.length)
              (path.map Prod.snd) = k at hup ⊢
            rw [getElem?_level, Option.map_eq_some_iff] at hup
            obtain ⟨b, hb, hnode⟩ := hup
            -- the pair of the climb is the pair of the tree
            have hpair := hsep (combined s a) List.mem_cons_self _
              (List.mem_append_left _ (mem_pairs l hb)) hnode.symm
            have hlt := (List.getElem?_eq_some_iff.mp hb).1
            unfold combined at hpair
            by_cases hleft : s.2
            · rw [if_pos hleft] at hpair
              have ha : a = (l[2 * k + 1]?).getD b := (Prod.mk.inj hpair).2
              rw [hleft, Bool.toNat_true]
              by_cases hnext : 2 * k + 1 < l.length
              · have hmin : min (2 * k + 1) (l.length - 1) = 2 * k + 1 := by omega
                rw [hmin, ha, List.getElem?_eq_getElem hnext]
                rfl
              · have hmin : min (2 * k + 1) (l.length - 1) = 2 * k := by omega
                rw [hmin, ha, List.getElem?_eq_none (Nat.not_lt.mp hnext)]
                exact hb
            · rw [if_neg hleft] at hpair
              have ha : a = b := (Prod.mk.inj hpair).1
              have hmin : min (2 * k + s.2.toNat) (l.length - 1) = 2 * k := by
                rw [Bool.eq_false_iff.mpr hleft, Bool.toNat_false]
                omega
              rw [hmin, ha]
              exact hb
      · have hle := Nat.not_lt.mp hl
        rw [rows_of_le_one node _ hle] at hlen ⊢
        obtain rfl : path = [] := List.length_eq_zero_iff.mp (Nat.succ.inj hlen)
        rw [climb, if_neg hl] at htop
        rw [List.map_nil, spelled_nil, ← List.head?_eq_getElem?]
        exact htop

/-! ## Two climbs -/

/-- **Climbs with the same directions** that end at one element start at one element and meet the
same siblings. -/
theorem ascend_injective (node : α → α → α) {a a' : α} {path path' : List (α × Bool)}
    (hdirs : path.map Prod.snd = path'.map Prod.snd)
    (hsep : Separates node (ascendPairs node a path) (ascendPairs node a' path'))
    (htop : ascend node a path = ascend node a' path') : a = a' ∧ path = path' := by
  induction path generalizing a a' path' with
  | nil =>
      obtain rfl : path' = [] := List.map_eq_nil_iff.mp hdirs.symm
      exact ⟨htop, rfl⟩
  | cons s path ih =>
      cases path' with
      | nil => cases hdirs
      | cons s' path' =>
          rw [List.map_cons, List.map_cons, List.cons.injEq] at hdirs
          rw [ascendPairs, ascendPairs] at hsep
          obtain ⟨hnode, rfl⟩ := ih hdirs.2 hsep.tail htop
          have hpair := hsep _ List.mem_cons_self _ List.mem_cons_self hnode
          obtain ⟨b, left⟩ := s
          obtain ⟨b', left'⟩ := s'
          obtain rfl : left = left' := hdirs.1
          cases left with
          | false =>
              obtain ⟨rfl, rfl⟩ := Prod.mk.inj hpair
              exact ⟨rfl, rfl⟩
          | true =>
              obtain ⟨rfl, rfl⟩ := Prod.mk.inj hpair
              exact ⟨rfl, rfl⟩

/-- A climb from the first sibling, on the other side, ends at the same element. -/
theorem ascend_swap (node : α → α → α) (a b : α) (left : Bool) (path : List (α × Bool)) :
    ascend node b ((a, !left) :: path) = ascend node a ((b, left) :: path) := by
  cases left <;> rfl

end HashTree
