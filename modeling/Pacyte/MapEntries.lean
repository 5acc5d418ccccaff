/-
# Entries of a map

What insertions and removals do to the entries of a map, to the values found under a key with
a default, and to the total of a measure over all entries (`Map.total`).
-/
import Pacyte.StateManager

namespace Map

variable {κ ν : Type} [DecidableEq κ]

/-! ## Insertions and removals -/

theorem toPairs_insert (m : Map κ ν) {k : κ} (v : ν) (h : m.lookup k = none) :
    toPairs (m.insert k v) = (k, v) :: m.toPairs := by
  rw [toPairs, AList.entries_insert_of_notMem (AList.lookup_eq_none.mp h)]
  rfl

theorem toPairs_erase (m : Map κ ν) {k : κ} {v : ν} (h : m.lookup k = some v) :
    m.toPairs.Perm ((k, v) :: toPairs (m.erase k)) := by
  rw [List.perm_ext_iff_of_nodup m.nodup_toPairs]
  · rintro ⟨k', v'⟩
    rw [List.mem_cons, mem_toPairs, mem_toPairs]
    by_cases hk : k' = k
    · subst hk
      rw [AList.lookup_erase, h]
      constructor
      · intro hv
        exact Or.inl (by rw [Option.some.inj hv])
      · rintro (heq | hnone)
        · rw [(Prod.mk.inj heq).2]
        · cases hnone
    · rw [AList.lookup_erase_ne hk]
      exact ⟨Or.inr, fun hor => hor.resolve_left fun heq => hk (Prod.mk.inj heq).1⟩
  · rw [List.nodup_cons, mem_toPairs, AList.lookup_erase]
    exact ⟨nofun, nodup_toPairs _⟩

theorem lookup_insert_some (m : Map κ ν) {k k' : κ} {v w : ν} :
    (m.insert k v).lookup k' = some w ↔ k' = k ∧ w = v ∨ k' ≠ k ∧ m.lookup k' = some w := by
  by_cases hk : k' = k
  · subst hk
    rw [AList.lookup_insert]
    constructor
    · intro h
      exact Or.inl ⟨rfl, (Option.some.inj h).symm⟩
    · rintro (⟨-, rfl⟩ | ⟨hne, -⟩)
      · rfl
      · exact absurd rfl hne
  · rw [AList.lookup_insert_ne hk]
    exact ⟨fun h => Or.inr ⟨hk, h⟩, fun h => (h.resolve_left fun hl => hk hl.1).2⟩

theorem lookup_erase_some (m : Map κ ν) {k k' : κ} {w : ν} :
    (m.erase k).lookup k' = some w ↔ k' ≠ k ∧ m.lookup k' = some w := by
  by_cases hk : k' = k
  · subst hk
    rw [AList.lookup_erase]
    exact iff_of_false nofun fun h => h.1 rfl
  · rw [AList.lookup_erase_ne hk]
    exact ⟨fun h => ⟨hk, h⟩, And.right⟩

/-- The value under a key, with a default, after an insertion. -/
theorem getD_lookup_insert (m : Map κ ν) (k k' : κ) (v d : ν) :
    ((m.insert k v).lookup k').getD d = if k' = k then v else (m.lookup k').getD d := by
  by_cases hk : k' = k
  · subst hk
    rw [AList.lookup_insert, if_pos rfl, Option.getD_some]
  · rw [AList.lookup_insert_ne hk, if_neg hk]

theorem length_toPairs (m : Map κ ν) : m.toPairs.length = m.entries.length := List.length_map _

/-! ## Changing all values -/

/-- Change every value in place (`values_mut`). -/
def mapValues (f : ν → ν) (m : Map κ ν) : Map κ ν where
  entries := m.entries.map fun e => ⟨e.1, f e.2⟩
  nodupKeys := by
    have hkeys : (m.entries.map fun e => (⟨e.1, f e.2⟩ : Sigma fun _ : κ => ν)).keys
        = m.entries.keys := by
      unfold List.keys
      rw [List.map_map]
      rfl
    rw [List.NodupKeys, hkeys]
    exact m.nodupKeys

theorem lookup_mapValues (f : ν → ν) (m : Map κ ν) (k : κ) :
    (mapValues f m).lookup k = (m.lookup k).map f := by
  have hentries : ∀ l : List (Sigma fun _ : κ => ν),
      (l.map fun e => (⟨e.1, f e.2⟩ : Sigma fun _ : κ => ν)).dlookup k
        = (l.dlookup k).map f := by
    intro l
    induction l with
    | nil => rfl
    | cons e l ih =>
        obtain ⟨k', v⟩ := e
        rw [List.map_cons]
        by_cases hk : k = k'
        · subst hk
          rw [List.dlookup_cons_eq, List.dlookup_cons_eq]
          rfl
        · rw [List.dlookup_cons_ne _ _ hk, List.dlookup_cons_ne _ _ hk]
          exact ih
  exact hentries m.entries

/-! ## Totals -/

/-- The total of a measure over all values. -/
def total (f : ν → ℕ) (m : Map κ ν) : ℕ := (m.toPairs.map fun e => f e.2).sum

@[simp] theorem total_empty (f : ν → ℕ) : total f (∅ : Map κ ν) = 0 := rfl

/-- A new entry adds its measure. -/
theorem total_insert_new (f : ν → ℕ) (m : Map κ ν) {k : κ} (v : ν) (h : m.lookup k = none) :
    total f (m.insert k v) = f v + total f m := by
  rw [total, toPairs_insert m v h, List.map_cons, List.sum_cons]
  rfl

/-- A removed entry takes its measure away. -/
theorem total_erase (f : ν → ℕ) (m : Map κ ν) {k : κ} {v : ν} (h : m.lookup k = some v) :
    total f m = f v + total f (m.erase k) := by
  have hsum := ((toPairs_erase m h).map fun e => f e.2).sum_eq
  rw [List.map_cons, List.sum_cons] at hsum
  exact hsum

/-- An entry that replaces another one. -/
theorem total_insert_old (f : ν → ℕ) (m : Map κ ν) {k : κ} (v : ν) {w : ν}
    (h : m.lookup k = some w) : total f (m.insert k v) + f w = total f m + f v := by
  have hperm : toPairs (m.insert k v) = (k, v) :: toPairs (m.erase k) := by
    rw [toPairs, AList.entries_insert]
    rfl
  rw [total_erase f m h, total, hperm, List.map_cons, List.sum_cons]
  change f v + total f (m.erase k) + f w = f w + total f (m.erase k) + f v
  omega

/-- A bound on the measures bounds the total. -/
theorem total_le (f : ν → ℕ) (m : Map κ ν) (c : ℕ) (h : ∀ k v, m.lookup k = some v → f v ≤ c) :
    total f m ≤ m.entries.length * c := by
  have hle := List.sum_le_card_nsmul (m.toPairs.map fun e => f e.2) c (by
    intro x hx
    obtain ⟨e, he, rfl⟩ := List.mem_map.mp hx
    exact h e.1 e.2 ((mem_toPairs m e.1 e.2).mp he))
  rw [List.length_map, length_toPairs, smul_eq_mul] at hle
  exact hle

theorem length_entries_insert_new (m : Map κ ν) {k : κ} (v : ν) (h : m.lookup k = none) :
    (m.insert k v).entries.length = m.entries.length + 1 := by
  rw [AList.entries_insert_of_notMem (AList.lookup_eq_none.mp h), List.length_cons]

theorem length_entries_insert_old (m : Map κ ν) {k : κ} (v : ν) {w : ν}
    (h : m.lookup k = some w) : (m.insert k v).entries.length = m.entries.length := by
  have hold := total_insert_old (fun _ => 1) m v h
  rw [total, total, List.map_const', List.map_const', List.sum_replicate, List.sum_replicate,
    length_toPairs, length_toPairs, smul_eq_mul, smul_eq_mul] at hold
  omega

end Map
