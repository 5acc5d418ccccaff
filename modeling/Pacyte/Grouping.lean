/-
# Grouping and sorting

A map that collects a list by a key (`Map.accumulate`): under each key is the fold of the elements
with that key, in their order, and the elements of a list are those of its groups.  A map can keep
some of its entries and drop the others (`Map.retain`).

Then two facts about lists that are sorted: elements that are in order keep their places
(`List.filter_insertionSort`), and a filter that drops the first elements of a rearrangement leaves
no more than the others (`List.length_filter_le_of_take`).
-/
import Pacyte.MapEntries

/-! ## Collecting by a key -/

namespace Map

variable {κ ν α : Type} [DecidableEq κ]

/-- Put every element to the value under its key (`entry(key).or_insert(d)`). -/
def accumulate (key : α → κ) (d : ν) (add : ν → α → ν) (m : Map κ ν) (l : List α) : Map κ ν :=
  l.foldl (fun m x => m.insert (key x) (add ((m.lookup (key x)).getD d) x)) m

variable (key : α → κ) (d : ν) (add : ν → α → ν)

theorem accumulate_cons (m : Map κ ν) (x : α) (l : List α) :
    accumulate key d add m (x :: l) =
      accumulate key d add (m.insert (key x) (add ((m.lookup (key x)).getD d) x)) l := rfl

/-- The value under a key is the fold of the elements with this key. -/
theorem getD_lookup_accumulate (m : Map κ ν) (l : List α) (k : κ) :
    ((accumulate key d add m l).lookup k).getD d =
      (l.filter fun x => key x = k).foldl add ((m.lookup k).getD d) := by
  induction l generalizing m with
  | nil => rfl
  | cons x l ih =>
      rw [accumulate_cons, ih, getD_lookup_insert]
      by_cases hk : k = key x
      · subst hk
        have hfilter : (x :: l).filter (fun y => key y = key x) =
            x :: l.filter fun y => key y = key x := List.filter_cons_of_pos (decide_eq_true rfl)
        rw [if_pos rfl, hfilter, List.foldl_cons]
      · have hfilter : (x :: l).filter (fun y => key y = k) = l.filter fun y => key y = k :=
          List.filter_cons_of_neg fun h => hk (of_decide_eq_true h).symm
        rw [if_neg hk, hfilter]

theorem mem_accumulate (m : Map κ ν) (l : List α) (k : κ) :
    k ∈ accumulate key d add m l ↔ k ∈ m ∨ k ∈ l.map key := by
  induction l generalizing m with
  | nil => exact ⟨Or.inl, fun h => h.resolve_right List.not_mem_nil⟩
  | cons x l ih =>
      rw [accumulate_cons, ih, AList.mem_insert, List.map_cons, List.mem_cons]
      tauto

/-- The entries of a map that was collected from nothing. -/
theorem mem_toPairs_accumulate (l : List α) (k : κ) (v : ν) :
    (k, v) ∈ toPairs (accumulate key d add ∅ l) ↔
      k ∈ l.map key ∧ v = (l.filter fun x => key x = k).foldl add d := by
  have hvalue := getD_lookup_accumulate key d add ∅ l k
  have hmem := mem_accumulate key d add ∅ l k
  rw [AList.lookup_empty, Option.getD_none] at hvalue
  rw [← AList.lookup_isSome] at hmem
  rw [mem_toPairs]
  constructor
  · intro h
    rw [h, Option.getD_some] at hvalue
    rw [h] at hmem
    exact ⟨(hmem.mp rfl).resolve_left (AList.notMem_empty k), hvalue⟩
  · rintro ⟨hk, rfl⟩
    obtain ⟨w, hw⟩ := Option.isSome_iff_exists.mp (hmem.mpr (Or.inr hk))
    rw [hw, Option.getD_some] at hvalue
    rw [hw, hvalue]

/-! ## Keeping some entries -/

/-- Keep the entries that satisfy a condition (`retain`). -/
def retain (p : κ → ν → Bool) (m : Map κ ν) : Map κ ν where
  entries := m.entries.filter fun e => p e.1 e.2
  nodupKeys := m.nodupKeys.sublist List.filter_sublist

theorem mem_entries_retain (p : κ → ν → Bool) (m : Map κ ν) (e : Sigma fun _ : κ => ν) :
    e ∈ (retain p m).entries ↔ e ∈ m.entries ∧ p e.1 e.2 = true := List.mem_filter

theorem lookup_retain_some (p : κ → ν → Bool) (m : Map κ ν) {k : κ} {v : ν} :
    (retain p m).lookup k = some v ↔ m.lookup k = some v ∧ p k v = true := by
  rw [← Option.mem_def, AList.mem_lookup_iff, mem_entries_retain, ← AList.mem_lookup_iff,
    Option.mem_def]

end Map

namespace List

variable {κ α : Type} [DecidableEq κ]

/-- A list consists of its groups. -/
theorem flatMap_filter_perm (key : α → κ) {keys : List κ} (hkeys : keys.Nodup) (l : List α)
    (h : ∀ x ∈ l, key x ∈ keys) : (keys.flatMap fun k => l.filter fun x => key x = k).Perm l := by
  induction keys generalizing l with
  | nil =>
      cases l with
      | nil => exact Perm.refl _
      | cons x l => exact absurd (h x mem_cons_self) not_mem_nil
  | cons k keys ih =>
      rw [nodup_cons] at hkeys
      have hothers := ih hkeys.2 (l.filter fun x => !decide (key x = k)) fun x hx => by
        rw [mem_filter, Bool.not_eq_true', decide_eq_false_iff_not] at hx
        exact (mem_cons.mp (h x hx.1)).resolve_left hx.2
      have hsame : (keys.flatMap fun k' =>
          (l.filter fun x => !decide (key x = k)).filter fun x => key x = k') =
          keys.flatMap fun k' => l.filter fun x => key x = k' := by
        apply flatMap_congr
        intro k' hk'
        rw [filter_filter]
        apply filter_congr
        intro x _
        rw [Bool.and_eq_left_iff_imp, decide_eq_true_eq, Bool.not_eq_true',
          decide_eq_false_iff_not]
        rintro rfl rfl
        exact hkeys.1 hk'
      rw [hsame] at hothers
      rw [flatMap_cons]
      exact (hothers.append_left _).trans (filter_append_perm _ l)

/-! ## Sorting -/

/-- Sorting does not move elements that are in order already. -/
theorem filter_insertionSort (r : α → α → Prop) [DecidableRel r] (p : α → Bool) {l : List α}
    (h : (l.filter p).Pairwise r) : (l.insertionSort r).filter p = l.filter p := by
  have hsub : (l.filter p).Sublist ((l.insertionSort r).filter p) := by
    have hsort := (sublist_insertionSort (r := r) h filter_sublist).filter p
    rwa [filter_filter, show (fun a => p a && p a) = p from funext fun a => Bool.and_self _]
      at hsort
  exact (hsub.eq_of_length ((perm_insertionSort r l).filter p).length_eq.symm).symm

omit [DecidableEq κ] in
/-- A filter that drops the first elements of a rearrangement leaves no more than the others. -/
theorem length_filter_le_of_take {l l' : List α} (hperm : l'.Perm l) (p : α → Bool) (n : ℕ)
    (h : ∀ x ∈ l'.take n, p x = false) : (l.filter p).length ≤ l.length - n := by
  have htake : (l'.take n).filter p = [] := by
    rw [filter_eq_nil_iff]
    intro x hx
    rw [h x hx]
    exact Bool.false_ne_true
  calc (l.filter p).length = (l'.filter p).length := ((hperm.filter p).length_eq).symm
    _ = ((l'.take n).filter p ++ (l'.drop n).filter p).length := by
        rw [← filter_append, take_append_drop]
    _ = ((l'.drop n).filter p).length := by rw [htake, nil_append]
    _ ≤ (l'.drop n).length := length_filter_le p _
    _ = l.length - n := by rw [length_drop, hperm.length_eq]

end List
