/-
# Picking numbers in a row

A walk over a list of numbers that takes a number if it is not below the one after the last
number taken, and at most `gap` above it; before the first one was taken, zero is expected.
Numbers are kept below a bound `B`: a walk that would have to count up to it fails (`pick`).

`pick_range_iff` says when such a walk takes exactly the numbers in a row that start at `n`:
every number of the row has to be met as the next one and within the gap, and every other
number has to be out of reach where it is met (`Met`).
-/
import Mathlib

namespace GapPick

variable (B gap : ℕ)

/-- What a walk does with the number `m`, when `expected` is the next one: it takes the number
or not, or it fails. -/
def verdict (expected m : ℕ) : Option Bool :=
  if B ≤ expected then none
  else if m < expected then some false
  else if B ≤ expected + gap then none
  else some (decide (m ≤ expected + gap))

/-- The number after the last one taken, or zero. -/
def next : Option ℕ → ℕ
  | none => 0
  | some n => n + 1

/-- The numbers that the walk takes. -/
def pick : Option ℕ → List ℕ → Option (List ℕ)
  | _, [] => some []
  | last, m :: rest =>
    match verdict B gap (next last) m with
    | none => none
    | some false => pick last rest
    | some true => (pick (some m) rest).map (m :: ·)

theorem pick_cons_fail {last : Option ℕ} {m : ℕ} {rest : List ℕ}
    (h : verdict B gap (next last) m = none) : pick B gap last (m :: rest) = none := by
  rw [pick, h]

theorem pick_cons_skip {last : Option ℕ} {m : ℕ} {rest : List ℕ}
    (h : verdict B gap (next last) m = some false) :
    pick B gap last (m :: rest) = pick B gap last rest := by
  rw [pick, h]

theorem pick_cons_take {last : Option ℕ} {m : ℕ} {rest : List ℕ}
    (h : verdict B gap (next last) m = some true) :
    pick B gap last (m :: rest) = (pick B gap (some m) rest).map (m :: ·) := by
  rw [pick, h]

/-- Only numbers of the list are taken. -/
theorem mem_of_pick {last : Option ℕ} {l taken : List ℕ} (h : pick B gap last l = some taken)
    {x : ℕ} (hx : x ∈ taken) : x ∈ l := by
  induction l generalizing last taken with
  | nil =>
      cases h
      cases hx
  | cons m rest ih =>
      rcases hverdict : verdict B gap (next last) m with _ | _ | _
      · rw [pick_cons_fail B gap hverdict] at h
        cases h
      · rw [pick_cons_skip B gap hverdict] at h
        exact List.mem_cons_of_mem _ (ih h hx)
      · rw [pick_cons_take B gap hverdict, Option.map_eq_some_iff] at h
        obtain ⟨taken', htaken, rfl⟩ := h
        rcases List.mem_cons.mp hx with rfl | hx
        · exact List.mem_cons_self ..
        · exact List.mem_cons_of_mem _ (ih htaken hx)

/-! ## Numbers in a row -/

/-- The number and all those from `n` up to it are in the list. -/
def InRow (n : ℕ) (l : List ℕ) (m : ℕ) : Prop := n ≤ m ∧ ∀ j, n ≤ j → j ≤ m → j ∈ l

/-- The row that starts at `n` is an interval. -/
theorem exists_row (n : ℕ) (l : List ℕ) : ∃ k, ∀ m, InRow n l m ↔ n ≤ m ∧ m < n + k := by
  classical
  have hfree : ∃ k, n + k ∉ l := by
    by_contra hall
    rw [not_exists] at hall
    have hsub : Finset.image (n + ·) (Finset.range (l.length + 1)) ⊆ l.toFinset := by
      intro x hx
      obtain ⟨k, -, rfl⟩ := Finset.mem_image.mp hx
      exact List.mem_toFinset.mpr (not_not.mp (hall k))
    have hcard := Finset.card_le_card hsub
    rw [Finset.card_image_of_injective _ (add_right_injective n), Finset.card_range] at hcard
    have hlen := l.toFinset_card_le
    omega
  refine ⟨Nat.find hfree, fun m => ⟨?_, ?_⟩⟩
  · rintro ⟨hle, hrow⟩
    refine ⟨hle, ?_⟩
    by_contra hge
    exact Nat.find_spec hfree (hrow _ (Nat.le_add_right _ _) (by omega))
  · rintro ⟨hle, hlt⟩
    refine ⟨hle, fun j hj hjm => ?_⟩
    have hmin := Nat.find_min hfree (m := j - n) (by omega)
    rw [not_not] at hmin
    have hj' : n + (j - n) = j := by omega
    rwa [hj'] at hmin

/-- What is expected after `i` numbers of the row were taken. -/
def expected (n i : ℕ) : ℕ := if i = 0 then 0 else n + i

/-- The last of `i` numbers of the row. -/
def lastOf (n i : ℕ) : Option ℕ := if i = 0 then none else some (n + i - 1)

theorem next_lastOf (n i : ℕ) : next (lastOf n i) = expected n i := by
  unfold lastOf expected
  split_ifs with hi
  · rfl
  · show n + i - 1 + 1 = n + i
    omega

/-- **How a number has to be met** after `i` numbers of the row: as the next of the row and
within the gap, or, if it is not of the row, out of reach. -/
structure Met (row : ℕ → Prop) (n i m : ℕ) : Prop where
  fits : expected n i < B
  next : row m → m = n + i ∧ m ≤ expected n i + gap ∧ expected n i + gap < B
  other : ¬ row m → m < expected n i ∨ expected n i + gap < m ∧ expected n i + gap < B

section Row

variable {B gap} {row : ℕ → Prop} [DecidablePred row] {n k : ℕ}

omit [DecidablePred row] in
/-- A number of the row that is met rightly is taken. -/
theorem Met.verdict_row {i m : ℕ} (h : Met B gap row n i m) (hm : row m) :
    verdict B gap (expected n i) m = some true := by
  obtain ⟨heq, hle, hfits⟩ := h.next hm
  have hexpected : expected n i ≤ m := by
    unfold expected
    split_ifs <;> omega
  unfold verdict
  rw [if_neg (Nat.not_le_of_lt h.fits), if_neg (Nat.not_lt_of_le hexpected),
    if_neg (Nat.not_le_of_lt hfits), decide_eq_true hle]

omit [DecidablePred row] in
/-- Any other number that is met rightly is passed over. -/
theorem Met.verdict_other {i m : ℕ} (h : Met B gap row n i m) (hm : ¬ row m) :
    verdict B gap (expected n i) m = some false := by
  unfold verdict
  rw [if_neg (Nat.not_le_of_lt h.fits)]
  rcases h.other hm with hlt | ⟨hgt, hfits⟩
  · rw [if_pos hlt]
  · rw [if_neg (by omega), if_neg (Nat.not_le_of_lt hfits),
      decide_eq_false (Nat.not_le_of_lt hgt)]

omit [DecidablePred row] in
theorem met_of_take {i m : ℕ} (h : verdict B gap (expected n i) m = some true) (hm : row m)
    (heq : m = n + i) : Met B gap row n i m := by
  unfold verdict at h
  split_ifs at h with hfits hlt hgap
  · cases h
  · have hle := of_decide_eq_true (Option.some.inj h)
    exact ⟨by omega, fun _ => ⟨heq, hle, by omega⟩, fun hnot => absurd hm hnot⟩

omit [DecidablePred row] in
theorem met_of_skip {i m : ℕ} (h : verdict B gap (expected n i) m = some false) (hm : ¬ row m) :
    Met B gap row n i m := by
  unfold verdict at h
  split_ifs at h with hfits hlt hgap
  · exact ⟨by omega, fun hrow => absurd hrow hm, fun _ => Or.inl hlt⟩
  · have hgt := of_decide_eq_false (Option.some.inj h)
    exact ⟨by omega, fun hrow => absurd hrow hm, fun _ => Or.inr ⟨by omega, by omega⟩⟩

/-- Every number of the list is met rightly, after `i` numbers of the row. -/
def AllMet (B gap : ℕ) (row : ℕ → Prop) [DecidablePred row] (n i : ℕ) (l : List ℕ) : Prop :=
  ∀ before m after, l = before ++ m :: after →
    Met B gap row n (i + before.countP fun x => decide (row x)) m

theorem allMet_cons {i m : ℕ} {rest : List ℕ} :
    AllMet B gap row n i (m :: rest) ↔
      Met B gap row n i m ∧ AllMet B gap row n (i + if row m then 1 else 0) rest := by
  have hcount : ∀ before : List ℕ, i + (m :: before).countP (fun x => decide (row x)) =
      i + (if row m then 1 else 0) + before.countP fun x => decide (row x) := by
    intro before
    rw [List.countP_cons]
    simp only [decide_eq_true_eq]
    omega
  constructor
  · intro h
    refine ⟨h [] m rest rfl, fun before m' after hsplit => ?_⟩
    have hmet := h (m :: before) m' after (by rw [hsplit, List.cons_append])
    rwa [hcount] at hmet
  · rintro ⟨hmet, hrest⟩ before m' after hsplit
    cases before with
    | nil =>
        rw [List.nil_append] at hsplit
        cases hsplit
        exact hmet
    | cons b before =>
        rw [List.cons_append] at hsplit
        obtain ⟨rfl, htail⟩ := List.cons.inj hsplit
        rw [hcount]
        exact hrest before m' after htail

/-- The walk takes the rest of the row if and only if every number is met rightly.  The
induction is on the list; what is left of the row is still in it. -/
theorem pick_row_iff (hrow : ∀ m, row m ↔ n ≤ m ∧ m < n + k) (l : List ℕ) (hnodup : l.Nodup)
    {i : ℕ} (hi : i ≤ k) (hleft : ∀ m ∈ l, row m → n + i ≤ m)
    (hall : ∀ m, n + i ≤ m → m < n + k → m ∈ l) :
    pick B gap (lastOf n i) l = some (List.range' (n + i) (k - i)) ↔
      AllMet B gap row n i l := by
  induction l generalizing i with
  | nil =>
      have hk : i = k := by
        by_contra hne
        exact List.not_mem_nil (hall (n + i) (Nat.le_refl _) (by omega))
      refine iff_of_true ?_ ?_
      · rw [hk, Nat.sub_self]
        rfl
      · intro before m after hsplit
        have hlen := congrArg List.length hsplit
        rw [List.length_append, List.length_cons, List.length_nil] at hlen
        omega
  | cons m rest ih =>
      obtain ⟨hfresh, hnodup⟩ := List.nodup_cons.mp hnodup
      rw [allMet_cons]
      by_cases hm : row m
      · rw [if_pos hm]
        have hbound := (hrow m).mp hm
        have hmi := hleft m (List.mem_cons_self ..) hm
        rcases hverdict : verdict B gap (expected n i) m with _ | _ | _
        · rw [pick_cons_fail B gap (by rw [next_lastOf]; exact hverdict)]
          refine iff_of_false nofun fun hmet => ?_
          rw [hmet.1.verdict_row hm] at hverdict
          cases hverdict
        · -- a number of the row that is passed over is not met again
          rw [pick_cons_skip B gap (by rw [next_lastOf]; exact hverdict)]
          refine iff_of_false (fun htaken => ?_) fun hmet => ?_
          · refine hfresh (mem_of_pick B gap htaken ?_)
            rw [List.mem_range'_1]
            omega
          · rw [hmet.1.verdict_row hm] at hverdict
            cases hverdict
        · rw [pick_cons_take B gap (by rw [next_lastOf]; exact hverdict),
            Option.map_eq_some_iff]
          by_cases heq : m = n + i
          · have hrange : List.range' (n + i) (k - i) =
                m :: List.range' (n + (i + 1)) (k - (i + 1)) := by
              have hk : k - i = k - (i + 1) + 1 := by omega
              rw [hk, List.range'_succ, heq, Nat.add_assoc]
            have hlast : lastOf n (i + 1) = some m := by
              unfold lastOf
              rw [if_neg (Nat.succ_ne_zero i), heq]
              rfl
            have hrest := ih hnodup (i := i + 1) (by omega)
              (fun x hx hxrow => by
                have hle := hleft x (List.mem_cons_of_mem _ hx) hxrow
                have hne : x ≠ m := fun h => hfresh (h ▸ hx)
                omega)
              (fun x hx hxk => by
                have hmem := hall x (by omega) hxk
                exact (List.mem_cons.mp hmem).resolve_left (by omega))
            rw [hlast] at hrest
            rw [← hrest]
            constructor
            · rintro ⟨taken, htaken, hcons⟩
              rw [hrange] at hcons
              rw [(List.cons.inj hcons).2] at htaken
              exact ⟨met_of_take hverdict hm heq, htaken⟩
            · rintro ⟨-, htaken⟩
              exact ⟨_, htaken, hrange.symm⟩
          · refine iff_of_false ?_ fun hmet => heq (hmet.1.next hm).1
            rintro ⟨taken, -, hcons⟩
            have hk : k - i = k - i - 1 + 1 := by omega
            rw [hk, List.range'_succ] at hcons
            exact heq (List.cons.inj hcons).1
      · rw [if_neg hm]
        have hrest := ih hnodup (i := i + 0) (by omega)
          (fun x hx => hleft x (List.mem_cons_of_mem _ hx))
          (fun x hx hxk => (List.mem_cons.mp (hall x hx hxk)).resolve_left fun heq =>
            hm ((hrow m).mpr (by omega)))
        rw [← hrest]
        rcases hverdict : verdict B gap (expected n i) m with _ | _ | _
        · rw [pick_cons_fail B gap (by rw [next_lastOf]; exact hverdict)]
          refine iff_of_false nofun fun hmet => ?_
          rw [hmet.1.verdict_other hm] at hverdict
          cases hverdict
        · rw [pick_cons_skip B gap (by rw [next_lastOf]; exact hverdict)]
          exact ⟨fun h => ⟨met_of_skip hverdict hm, h⟩, And.right⟩
        · rw [pick_cons_take B gap (by rw [next_lastOf]; exact hverdict),
            Option.map_eq_some_iff]
          refine iff_of_false ?_ fun hmet => ?_
          · rintro ⟨taken, -, hcons⟩
            have hmem : m ∈ List.range' (n + i) (k - i) := by
              rw [← hcons]
              exact List.mem_cons_self ..
            rw [List.mem_range'_1] at hmem
            exact hm ((hrow m).mpr (by omega))
          · rw [hmet.1.verdict_other hm] at hverdict
            cases hverdict

/-- **The walk takes exactly the row** if and only if every number is met rightly. -/
theorem pick_range_iff (l : List ℕ) (hnodup : l.Nodup) (hrow : ∀ m, row m ↔ n ≤ m ∧ m < n + k)
    (hall : ∀ m, row m → m ∈ l) :
    pick B gap none l = some (List.range' n k) ↔ AllMet B gap row n 0 l :=
  pick_row_iff hrow l hnodup (i := 0) (Nat.zero_le k) (fun m _ hm => ((hrow m).mp hm).1)
    fun m hm hmk => hall m ((hrow m).mpr ⟨hm, hmk⟩)

end Row

end GapPick
