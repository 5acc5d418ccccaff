/-
# Writes that replace each other

A list of writes `(key, value)` is made in order, so that only the last write to a
key stays (`overwrite`).  The result depends on the writes to each key separately
(`overwrite_congr_filter`), not on how the writes to different keys interleave.

A log that is kept in several files can be read file by file (`regroup`).  This
changes the order of the log, but not the order of those elements that all stand in
one file (`filterMap_regroup`).
-/
import Mathlib

section Overwrite

variable {κ ν : Type} [DecidableEq κ]

/-- The function after some writes, made in order. -/
def overwrite (f : κ → ν) (writes : List (κ × ν)) : κ → ν :=
  writes.foldl (fun f w => Function.update f w.1 w.2) f

theorem overwrite_append (f : κ → ν) (writes writes' : List (κ × ν)) :
    overwrite f (writes ++ writes') = overwrite (overwrite f writes) writes' :=
  List.foldl_append

/-- Writes act on every key separately, and what was there before a write is lost. -/
theorem overwrite_apply_congr {f g : κ → ν} {k : κ} {writes : List (κ × ν)}
    (h : (∀ w ∈ writes, w.1 ≠ k) → f k = g k) : overwrite f writes k = overwrite g writes k := by
  induction writes generalizing f g with
  | nil => exact h fun w hw => nomatch hw
  | cons w rest ih =>
      apply ih
      intro hrest
      show Function.update f w.1 w.2 k = Function.update g w.1 w.2 k
      by_cases hk : w.1 = k
      · rw [← hk, Function.update_self, Function.update_self]
      · rw [Function.update_of_ne (Ne.symm hk), Function.update_of_ne (Ne.symm hk)]
        exact h (List.forall_mem_cons.mpr ⟨hk, hrest⟩)

/-- Only the writes to the key itself matter. -/
theorem overwrite_filter (f : κ → ν) (writes : List (κ × ν)) (k : κ) :
    overwrite f (writes.filter fun w => w.1 = k) k = overwrite f writes k := by
  induction writes generalizing f with
  | nil => rfl
  | cons w rest ih =>
      by_cases hk : w.1 = k
      · rw [List.filter_cons_of_pos (by simpa using hk)]
        exact ih _
      · rw [List.filter_cons_of_neg (by simpa using hk)]
        have hother : f k = Function.update f w.1 w.2 k := by
          rw [Function.update_of_ne (Ne.symm hk)]
        exact (overwrite_apply_congr fun _ => hother).trans (ih _)

/-- Two lists with the same writes to every key have the same result. -/
theorem overwrite_congr_filter {writes writes' : List (κ × ν)}
    (h : ∀ k, (writes.filter fun w => w.1 = k) = writes'.filter fun w => w.1 = k) (f : κ → ν) :
    overwrite f writes = overwrite f writes' := by
  funext k
  rw [← overwrite_filter f writes, h k, overwrite_filter]

end Overwrite

/-! ## Logs in several files -/

section Regroup

variable {φ α β κ : Type} [DecidableEq φ]

/-- The elements of one file. -/
def fileOf (log : List (φ × α)) (name : φ) : List α := (log.filter fun e => e.1 = name).map Prod.snd

/-- The log, read file by file. -/
def regroup (names : List φ) (log : List (φ × α)) : List α := names.flatMap (fileOf log)

/-- A file without elements of a kind. -/
theorem filterMap_fileOf_eq_nil {log : List (φ × α)} {name : φ} {g : α → Option β}
    (h : ∀ e ∈ log, e.1 = name → g e.2 = none) : (fileOf log name).filterMap g = [] := by
  rw [List.filterMap_eq_nil_iff]
  intro a ha
  obtain ⟨e, he, rfl⟩ := List.mem_map.mp ha
  obtain ⟨hlog, hname⟩ := List.mem_filter.mp he
  exact h e hlog (of_decide_eq_true hname)

/-- A file with all elements of a kind. -/
theorem filterMap_fileOf_eq {log : List (φ × α)} {name : φ} {g : α → Option β}
    (h : ∀ e ∈ log, e.1 ≠ name → g e.2 = none) :
    (fileOf log name).filterMap g = (log.map Prod.snd).filterMap g := by
  induction log with
  | nil => rfl
  | cons e rest ih =>
      have hrest := ih fun x hx => h x (List.mem_cons_of_mem e hx)
      unfold fileOf at hrest ⊢
      by_cases hname : e.1 = name
      · rw [List.filter_cons_of_pos (by simpa using hname), List.map_cons, List.map_cons,
          List.filterMap_cons, List.filterMap_cons, hrest]
      · rw [List.filter_cons_of_neg (by simpa using hname), List.map_cons, List.filterMap_cons,
          h e List.mem_cons_self hname, hrest]

/-- **The elements of a kind that all stand in one file keep their order.** -/
theorem filterMap_regroup {names : List φ} {log : List (φ × α)} {g : α → Option β}
    (hnodup : names.Nodup) (hcover : ∀ e ∈ log, e.1 ∈ names)
    (hone : ∀ e ∈ log, ∀ e' ∈ log, (g e.2).isSome → (g e'.2).isSome → e.1 = e'.1) :
    (regroup names log).filterMap g = (log.map Prod.snd).filterMap g := by
  by_cases hsome : ∃ e ∈ log, (g e.2).isSome
  · obtain ⟨e₀, hlog, he₀⟩ := hsome
    have hother : ∀ e ∈ log, e.1 ≠ e₀.1 → g e.2 = none := by
      intro e he hne
      by_contra hg
      exact hne (hone e he e₀ hlog (Option.isSome_iff_ne_none.mpr hg) he₀)
    -- the other files, before and after this one, have no such element
    obtain ⟨s, t, rfl⟩ := List.append_of_mem (hcover e₀ hlog)
    have hfiles : ∀ name, name ≠ e₀.1 → (fileOf log name).filterMap g = [] := by
      intro name hname
      apply filterMap_fileOf_eq_nil
      intro e he heq
      exact hother e he (heq ▸ hname)
    have hempty : ∀ l : List φ, e₀.1 ∉ l → (l.flatMap (fileOf log)).filterMap g = [] := by
      intro l hl
      rw [List.filterMap_flatMap, List.flatMap_eq_nil_iff]
      intro name hname
      exact hfiles name fun heq => hl (heq ▸ hname)
    obtain ⟨hs, ht⟩ : e₀.1 ∉ s ∧ e₀.1 ∉ t := by
      have hmiddle := List.nodup_middle.mp hnodup
      rw [List.nodup_cons, List.mem_append] at hmiddle
      exact ⟨fun h => hmiddle.1 (Or.inl h), fun h => hmiddle.1 (Or.inr h)⟩
    rw [regroup, List.flatMap_append, List.flatMap_cons, List.filterMap_append,
      List.filterMap_append, hempty s hs, hempty t ht, filterMap_fileOf_eq hother,
      List.nil_append, List.append_nil]
  · have hnone : ∀ e ∈ log, g e.2 = none := by
      intro e he
      by_contra hg
      exact hsome ⟨e, he, Option.isSome_iff_ne_none.mpr hg⟩
    rw [regroup, List.filterMap_flatMap, List.flatMap_eq_nil_iff.mpr, eq_comm,
      List.filterMap_eq_nil_iff]
    · intro a ha
      obtain ⟨e, he, rfl⟩ := List.mem_map.mp ha
      exact hnone e he
    · intro name _
      exact filterMap_fileOf_eq_nil fun e he _ => hnone e he

/-- The elements with one key, if no key occurs in two files. -/
theorem filter_filterMap_regroup [DecidableEq κ] {names : List φ} {log : List (φ × α)}
    {g : α → Option β} {key : β → κ} (hnodup : names.Nodup) (hcover : ∀ e ∈ log, e.1 ∈ names)
    (hone : ∀ e ∈ log, ∀ e' ∈ log, (g e.2).isSome →
      (g e.2).map key = (g e'.2).map key → e.1 = e'.1) (k : κ) :
    (((regroup names log).filterMap g).filter fun w => key w = k)
      = ((log.map Prod.snd).filterMap g).filter fun w => key w = k := by
  rw [List.filter_filterMap, List.filter_filterMap]
  apply filterMap_regroup hnodup hcover
  intro e he e' he' hk hk'
  obtain ⟨w, hw⟩ := Option.isSome_iff_exists.mp hk
  obtain ⟨w', hw'⟩ := Option.isSome_iff_exists.mp hk'
  rw [Option.filter_eq_some_iff, decide_eq_true_iff] at hw hw'
  refine hone e he e' he' ?_ ?_
  · rw [hw.1]
    rfl
  · rw [hw.1, hw'.1, Option.map_some, Option.map_some, hw.2, hw'.2]

end Regroup
