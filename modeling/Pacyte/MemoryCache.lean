/-
# The memory cache

`LruCache` of `src/storage/cache.rs`: a hash map whose entries carry the time of their last access.
When it is too long after an insertion, the entries are sorted by that time and the oldest ones are
removed.

`Recency` is what the cache is for: a list of keys and values with the one touched last in front.
Without a time to live and under a clock that never stands still the cache refines it (`Refines`),
so that the two have the same content and give the same answers (`lru_run`).
-/
import Pacyte.Grouping
import Pacyte.Runs
import Pacyte.Validators

open Exec

/-! ## The most recent keys -/

namespace Recency

variable {κ ν : Type} [DecidableEq κ]

/-- The value of a key. -/
def value (l : List (κ × ν)) (k : κ) : Option ν := (l.find? fun e => e.1 = k).map Prod.snd

/-- The list without a key. -/
def without (l : List (κ × ν)) (k : κ) : List (κ × ν) := l.filter fun e => e.1 ≠ k

/-- A key is touched: it comes to the front with its value. -/
def touch (l : List (κ × ν)) (k : κ) (v : ν) : List (κ × ν) := (k, v) :: without l k

/-- A key is put, and the list is cut to its length. -/
def put (maxSize : ℕ) (l : List (κ × ν)) (k : κ) (v : ν) : List (κ × ν) :=
  (touch l k v).take maxSize

/-- A key is looked up, which touches it. -/
def get (l : List (κ × ν)) (k : κ) : Option ν × List (κ × ν) :=
  match value l k with
  | none => (none, l)
  | some v => (some v, touch l k v)

end Recency

namespace MemoryCache

/-! ## The cache -/

/-- `LruEntry`. -/
structure LruEntry (ν : Type) where
  value : ν
  lastAccess : ℕ

/-- `LruCache`, with the readings of the monotonic clock to come. -/
structure LruCache (κ ν : Type) [DecidableEq κ] where
  maxSize : ℕ
  ttl : Option ℕ
  map : Map κ (LruEntry ν)
  clock : ℕ → ℕ

variable {κ ν : Type} [DecidableEq κ]

/-- The entry was accessed before another one, or at the same time. -/
def Older (a b : κ × LruEntry ν) : Prop := a.2.lastAccess ≤ b.2.lastAccess

instance : DecidableRel (Older (κ := κ) (ν := ν)) := fun _ _ => Nat.decLe _ _

omit [DecidableEq κ] in
instance : Std.Total (Older (κ := κ) (ν := ν)) := ⟨fun _ _ => Nat.le_total _ _⟩

omit [DecidableEq κ] in
instance : IsTrans (κ × LruEntry ν) Older := ⟨fun _ _ _ => Nat.le_trans⟩

namespace LruCache

/-- `LruCache::new`. -/
def new (maxSize : ℕ) (clock : ℕ → ℕ) : LruCache κ ν := ⟨maxSize, none, ∅, clock⟩

/-- `Instant::now`. -/
def now : Exec Empty (LruCache κ ν) ℕ := fun c =>
  (.ok (c.clock 0), { c with clock := fun k => c.clock (k + 1) })

/-- `evict_expired`. -/
def evictExpired : Exec Empty (LruCache κ ν) Unit := do
  let now ← now
  Exec.modify fun c => match c.ttl with
    | none => c
    | some ttl => { c with map := Map.retain (fun _ e => now - e.lastAccess < ttl) c.map }

/-- The keys that `evict_lru` removes, for an order of the entries. -/
def keysToRemove (order : Listing (κ × LruEntry ν)) (c : LruCache κ ν) : List κ :=
  let entries := (order.list c.map.toPairs).insertionSort Older
  (entries.take (entries.length - c.maxSize)).map Prod.fst

/-- `evict_lru`. -/
def evictLru (order : Listing (κ × LruEntry ν)) : Exec Empty (LruCache κ ν) Unit :=
  Exec.modify fun c =>
    if c.maxSize < c.map.entries.length then
      { c with map := (c.keysToRemove order).foldl (fun m k => m.erase k) c.map }
    else c

/-- `get`; the counters of hits and misses are left out. -/
def get (key : κ) : Exec Empty (LruCache κ ν) (Option ν) := do
  evictExpired
  let c ← Exec.get
  match c.map.lookup key with
  | some entry =>
    let now ← now
    Exec.modify fun c => { c with map := c.map.insert key { entry with lastAccess := now } }
    return some entry.value
  | none => return none

/-- `put`, for the order in which the eviction finds the entries. -/
def put (order : Listing (κ × LruEntry ν)) (key : κ) (value : ν) :
    Exec Empty (LruCache κ ν) Unit := do
  evictExpired
  let now ← now
  Exec.modify fun c => { c with map := c.map.insert key ⟨value, now⟩ }
  evictLru order

/-- `remove`. -/
def remove (key : κ) : Exec Empty (LruCache κ ν) Unit :=
  Exec.modify fun c => { c with map := c.map.erase key }

/-- `clear`. -/
def clear : Exec Empty (LruCache κ ν) Unit := Exec.modify fun c => { c with map := ∅ }

/-- `len`. -/
def len (c : LruCache κ ν) : ℕ := c.map.entries.length

/-- The value that is cached under a key. -/
def cached (c : LruCache κ ν) (key : κ) : Option ν := (c.map.lookup key).map LruEntry.value

end LruCache

/-- The calls. -/
inductive Call (κ ν : Type) : Type where
  | get (key : κ)
  | put (order : Listing (κ × LruEntry ν)) (key : κ) (value : ν)
  | remove (key : κ)
  | clear

/-- The cache after a call. -/
def Call.after : Call κ ν → LruCache κ ν → LruCache κ ν
  | .get key, c => (LruCache.get key c).2
  | .put order key value, c => (LruCache.put order key value c).2
  | .remove key, c => (LruCache.remove key c).2
  | .clear, c => (LruCache.clear c).2

/-- The list after a call. -/
def Call.listed (maxSize : ℕ) : Call κ ν → List (κ × ν) → List (κ × ν)
  | .get key, l => (Recency.get l key).2
  | .put _ key value, l => Recency.put maxSize l key value
  | .remove key, l => Recency.without l key
  | .clear, _ => []

/-! ## Entries after an insertion and after removals -/

theorem toPairs_insert_perm (m : Map κ ν) (k : κ) (v : ν) :
    (Map.toPairs (m.insert k v)).Perm ((k, v) :: m.toPairs.filter fun e => e.1 ≠ k) := by
  rw [List.perm_ext_iff_of_nodup (Map.nodup_toPairs _)]
  · rintro ⟨k', v'⟩
    rw [Map.mem_toPairs, Map.lookup_insert_some, List.mem_cons, List.mem_filter, Map.mem_toPairs,
      decide_eq_true_eq, Prod.mk.injEq, and_comm (a := m.lookup k' = some v')]
  · rw [List.nodup_cons, List.mem_filter, decide_eq_true_eq]
    exact ⟨fun h => h.2 rfl, (Map.nodup_toPairs m).filter _⟩

theorem lookup_foldl_erase (ks : List κ) (m : Map κ ν) {k : κ} {v : ν} :
    (ks.foldl (fun m k => m.erase k) m).lookup k = some v ↔ k ∉ ks ∧ m.lookup k = some v := by
  induction ks generalizing m with
  | nil => exact (and_iff_right List.not_mem_nil).symm
  | cons k' ks ih =>
      rw [List.foldl_cons, ih, Map.lookup_erase_some, List.mem_cons, not_or]
      tauto

/-- The entries that are left after keys were removed. -/
theorem toPairs_foldl_erase_perm (ks : List κ) (m : Map κ ν) :
    (Map.toPairs (ks.foldl (fun m k => m.erase k) m)).Perm
      (m.toPairs.filter fun e => e.1 ∉ ks) := by
  rw [List.perm_ext_iff_of_nodup (Map.nodup_toPairs _) ((Map.nodup_toPairs m).filter _)]
  rintro ⟨k, v⟩
  rw [Map.mem_toPairs, lookup_foldl_erase, List.mem_filter, Map.mem_toPairs, decide_eq_true_eq,
    and_comm]

/-! ## The refinement -/

/-- An entry without its time. -/
def stripped (e : κ × LruEntry ν) : κ × ν := (e.1, e.2.value)

/-- The cache holds the entries of a list, which are ordered by the time of their last access, the
latest first. -/
structure Holds (es : List (κ × LruEntry ν)) (c : LruCache κ ν) : Prop where
  perm : es.Perm c.map.toPairs
  recent : es.Pairwise fun a b => b.2.lastAccess < a.2.lastAccess
  past : ∀ e ∈ es, ∀ k, e.2.lastAccess < c.clock k
  clock : StrictMono c.clock
  ttl : c.ttl = none

/-- The cache refines a list of the most recent keys. -/
def Refines (l : List (κ × ν)) (c : LruCache κ ν) : Prop :=
  ∃ es, Holds es c ∧ es.map stripped = l ∧ es.length ≤ c.maxSize

variable {c : LruCache κ ν} {es : List (κ × LruEntry ν)} {l : List (κ × ν)}

theorem refines_new (maxSize : ℕ) {clock : ℕ → ℕ} (hclock : StrictMono clock) :
    Refines [] (LruCache.new maxSize clock : LruCache κ ν) :=
  ⟨[], ⟨List.Perm.refl _, List.Pairwise.nil, nofun, hclock, rfl⟩, rfl, Nat.zero_le _⟩

theorem Holds.nodup_keys (h : Holds es c) : (es.map Prod.fst).Nodup := by
  rw [(h.perm.map Prod.fst).nodup_iff, Map.map_fst_toPairs]
  exact c.map.nodupKeys

theorem Holds.lookup_iff (h : Holds es c) (k : κ) (e : LruEntry ν) :
    c.map.lookup k = some e ↔ (k, e) ∈ es := by
  rw [h.perm.mem_iff, Map.mem_toPairs]

theorem Holds.length (h : Holds es c) : c.map.entries.length = es.length := by
  rw [h.perm.length_eq, Map.length_toPairs]

/-- The value of a key in a list whose keys differ. -/
theorem value_eq_some (hnodup : (l.map Prod.fst).Nodup) {k : κ} {v : ν} :
    Recency.value l k = some v ↔ (k, v) ∈ l := by
  unfold Recency.value
  constructor
  · intro h
    obtain ⟨⟨k', v'⟩, hfind, rfl⟩ := Option.map_eq_some_iff.mp h
    have hkey : k' = k :=
      of_decide_eq_true (List.find?_some (p := fun e : κ × ν => decide (e.1 = k)) hfind)
    subst hkey
    exact List.mem_of_find?_eq_some hfind
  · intro hmem
    cases hfind : l.find? fun e => e.1 = k with
    | none => exact absurd (decide_eq_true rfl) (List.find?_eq_none.mp hfind (k, v) hmem)
    | some e =>
        have hkey : e.1 = k :=
          of_decide_eq_true (List.find?_some (p := fun e : κ × ν => decide (e.1 = k)) hfind)
        have hsame := List.inj_on_of_nodup_map hnodup (List.mem_of_find?_eq_some hfind) hmem hkey
        rw [hsame]
        rfl

omit [DecidableEq κ] in
theorem map_fst_stripped (es : List (κ × LruEntry ν)) :
    (es.map stripped).map Prod.fst = es.map Prod.fst := by
  rw [List.map_map]
  rfl

/-- The cache has the content of the list. -/
theorem Holds.cached_eq (h : Holds es c) (k : κ) :
    c.cached k = Recency.value (es.map stripped) k := by
  have hnodup : ((es.map stripped).map Prod.fst).Nodup := by
    rw [map_fst_stripped]
    exact h.nodup_keys
  apply Option.ext
  intro v
  rw [value_eq_some hnodup, List.mem_map]
  unfold LruCache.cached
  rw [Option.map_eq_some_iff]
  constructor
  · rintro ⟨e, hlookup, rfl⟩
    exact ⟨(k, e), (h.lookup_iff k e).mp hlookup, rfl⟩
  · rintro ⟨⟨k', e⟩, hmem, heq⟩
    obtain ⟨rfl, rfl⟩ := Prod.mk.inj heq
    exact ⟨e, (h.lookup_iff k' e).mpr hmem, rfl⟩

/-- A touched key comes to the front. -/
theorem Holds.touch (h : Holds es c) (k : κ) (v : ν) (n : ℕ) :
    Holds ((k, ⟨v, c.clock n⟩) :: es.filter fun e => e.1 ≠ k)
      { c with map := c.map.insert k ⟨v, c.clock n⟩, clock := fun j => c.clock (j + (n + 1)) } := by
  refine ⟨?_, ?_, ?_, fun i j hij => h.clock (Nat.add_lt_add_right hij _), h.ttl⟩
  · exact ((h.perm.filter _).cons _).trans (toPairs_insert_perm _ _ _).symm
  · rw [List.pairwise_cons]
    exact ⟨fun e he => h.past e (List.mem_filter.mp he).1 n, h.recent.filter _⟩
  · intro e he j
    rcases List.mem_cons.mp he with rfl | hold
    · exact h.clock (by omega)
    · exact h.past e (List.mem_filter.mp hold).1 _

theorem stripped_touch (es : List (κ × LruEntry ν)) (k : κ) (e : LruEntry ν) :
    ((k, e) :: es.filter fun e => e.1 ≠ k).map stripped =
      Recency.touch (es.map stripped) k e.value := by
  unfold Recency.touch Recency.without
  rw [List.map_cons, List.filter_map]
  rfl

/-- The sorted entries are those of the list, the oldest first. -/
theorem Holds.sorted_eq (h : Holds es c) (order : Listing (κ × LruEntry ν)) :
    (order.list c.map.toPairs).insertionSort Older = es.reverse := by
  have hperm : ((order.list c.map.toPairs).insertionSort Older).Perm es.reverse :=
    (List.perm_insertionSort _ _).trans
      ((order.perm _).trans (h.perm.symm.trans (List.reverse_perm es).symm))
  have htimes : (es.map fun e => e.2.lastAccess).Nodup := by
    unfold List.Nodup
    rw [List.pairwise_map]
    exact h.recent.imp fun hlt => Nat.ne_of_gt hlt
  refine List.Perm.eq_of_pairwise (fun a b ha hb hab hba => ?_)
    (List.pairwise_insertionSort Older _) ?_ hperm
  · exact List.inj_on_of_nodup_map htimes (List.mem_reverse.mp (hperm.mem_iff.mp ha))
      (List.mem_reverse.mp hb) (Nat.le_antisymm hab hba)
  · rw [List.pairwise_reverse]
    exact h.recent.imp fun hlt => Nat.le_of_lt hlt

/-- The eviction cuts the list. -/
theorem Holds.evict (h : Holds es c) (order : Listing (κ × LruEntry ν)) :
    Holds (es.take c.maxSize) (LruCache.evictLru order c).2 := by
  have hlength := h.length
  show Holds _ (if c.maxSize < c.map.entries.length then
    { c with map := (c.keysToRemove order).foldl (fun m k => m.erase k) c.map } else c)
  split_ifs with hfull
  · have hkeys : c.keysToRemove order = ((es.drop c.maxSize).reverse).map Prod.fst := by
      unfold LruCache.keysToRemove
      dsimp only
      rw [h.sorted_eq order, List.length_reverse, List.take_reverse]
      congr 3
      omega
    have hsplit := List.take_append_drop c.maxSize es
    have hnodup := h.nodup_keys
    rw [← hsplit, List.map_append, List.nodup_append] at hnodup
    have hleft : es.filter (fun e => e.1 ∉ c.keysToRemove order) = es.take c.maxSize := by
      have hmem : ∀ k, k ∈ c.keysToRemove order ↔ k ∈ (es.drop c.maxSize).map Prod.fst := by
        intro k
        rw [hkeys, List.map_reverse, List.mem_reverse]
      conv_lhs => rw [← hsplit]
      rw [List.filter_append, List.filter_eq_self.mpr, List.filter_eq_nil_iff.mpr, List.append_nil]
      · intro e he hnot
        exact of_decide_eq_true hnot ((hmem e.1).mpr (List.mem_map_of_mem he))
      · intro e he
        refine decide_eq_true fun hkey => ?_
        exact hnodup.2.2 _ (List.mem_map_of_mem he) _ ((hmem e.1).mp hkey) rfl
    refine ⟨?_, h.recent.sublist (List.take_sublist _ _),
      fun e he => h.past e (List.mem_of_mem_take he), h.clock, h.ttl⟩
    rw [← hleft]
    exact (h.perm.filter _).trans (toPairs_foldl_erase_perm _ _).symm
  · rw [List.take_of_length_le (by omega)]
    exact h

/-! ## One call -/

theorem evictExpired_run (h : c.ttl = none) :
    LruCache.evictExpired c = (.ok (), { c with clock := fun k => c.clock (k + 1) }) := by
  show (Outcome.ok (), (match c.ttl with
    | none => { c with clock := fun k => c.clock (k + 1) }
    | some ttl => _ : LruCache κ ν)) = _
  rw [h]

/-- A reading of the clock changes nothing else. -/
theorem Holds.wait (h : Holds es c) : Holds es { c with clock := fun k => c.clock (k + 1) } :=
  ⟨h.perm, h.recent, fun e he _ => h.past e he _,
    fun _ _ hij => h.clock (Nat.add_lt_add_right hij 1), h.ttl⟩

theorem get_run (h : c.ttl = none) (k : κ) :
    LruCache.get k c = match c.map.lookup k with
      | none => (.ok none, { c with clock := fun j => c.clock (j + 1) })
      | some entry => (.ok (some entry.value),
          { c with
            map := c.map.insert k ⟨entry.value, c.clock 1⟩
            clock := fun j => c.clock (j + 2) }) := by
  unfold LruCache.get
  rw [run_bind_of_ok (evictExpired_run h), run_bind, run_get]
  dsimp only
  cases c.map.lookup k <;> rfl

theorem put_run (h : c.ttl = none) (order : Listing (κ × LruEntry ν)) (k : κ) (v : ν) :
    (LruCache.put order k v c).2 = (LruCache.evictLru order
      { c with map := c.map.insert k ⟨v, c.clock 1⟩, clock := fun j => c.clock (j + 2) }).2 := by
  unfold LruCache.put
  rw [run_bind_of_ok (evictExpired_run h)]
  rfl

theorem maxSize_evictLru (order : Listing (κ × LruEntry ν)) (c : LruCache κ ν) :
    (LruCache.evictLru order c).2.maxSize = c.maxSize := by
  show (if _ then _ else c : LruCache κ ν).maxSize = _
  split_ifs <;> rfl

@[simp] theorem maxSize_after (call : Call κ ν) (h : c.ttl = none) :
    (call.after c).maxSize = c.maxSize := by
  cases call with
  | get k =>
      show (LruCache.get k c).2.maxSize = _
      rw [get_run h]
      cases c.map.lookup k <;> rfl
  | put order k v =>
      show (LruCache.put order k v c).2.maxSize = _
      rw [put_run h, maxSize_evictLru]
  | remove k => rfl
  | clear => rfl

/-- The answer to a lookup, and what it leaves. -/
theorem refines_get (h : Refines l c) (k : κ) :
    (LruCache.get k c).1 = .ok (Recency.get l k).1 ∧
      Refines (Recency.get l k).2 (LruCache.get k c).2 := by
  obtain ⟨es, hholds, rfl, hle⟩ := h
  have hcached := hholds.cached_eq k
  unfold LruCache.cached at hcached
  rw [get_run hholds.ttl]
  unfold Recency.get
  rw [← hcached]
  cases hlookup : c.map.lookup k with
  | none => exact ⟨rfl, es, hholds.wait, rfl, hle⟩
  | some entry =>
      have htouch := hholds.touch k entry.value 1
      refine ⟨rfl, _, htouch, stripped_touch es k _, ?_⟩
      rw [← htouch.length, Map.length_entries_insert_old _ _ hlookup, hholds.length]
      exact hle

/-- An insertion. -/
theorem refines_put (h : Refines l c) (order : Listing (κ × LruEntry ν)) (k : κ) (v : ν) :
    Refines (Recency.put c.maxSize l k v) (LruCache.put order k v c).2 := by
  obtain ⟨es, hholds, rfl, hle⟩ := h
  rw [put_run hholds.ttl]
  refine ⟨_, (hholds.touch k v 1).evict order, ?_, ?_⟩
  · rw [List.map_take, stripped_touch]
    rfl
  · rw [maxSize_evictLru]
    exact List.length_take_le _ _

/-- A removal. -/
theorem refines_remove (h : Refines l c) (k : κ) :
    Refines (Recency.without l k) (LruCache.remove k c).2 := by
  obtain ⟨es, hholds, rfl, hle⟩ := h
  refine ⟨es.filter fun e => e.1 ≠ k, ⟨?_, hholds.recent.filter _,
    fun e he => hholds.past e (List.mem_filter.mp he).1, hholds.clock, hholds.ttl⟩, ?_, ?_⟩
  · have herase := toPairs_foldl_erase_perm [k] c.map
    have hsame : (c.map.toPairs.filter fun e => e.1 ∉ [k]) =
        c.map.toPairs.filter fun e => e.1 ≠ k :=
      List.filter_congr fun e _ => decide_eq_decide.mpr (not_congr List.mem_singleton)
    rw [hsame] at herase
    exact (hholds.perm.filter _).trans herase.symm
  · unfold Recency.without
    rw [List.filter_map]
    rfl
  · exact (List.length_filter_le _ _).trans hle

/-- Every call keeps the refinement. -/
theorem refines_after (h : Refines l c) (call : Call κ ν) :
    Refines (call.listed c.maxSize l) (call.after c) := by
  cases call with
  | get k => exact (refines_get h k).2
  | put order k v => exact refines_put h order k v
  | remove k => exact refines_remove h k
  | clear =>
      obtain ⟨es, hholds, -, -⟩ := h
      exact ⟨[], ⟨List.Perm.refl _, List.Pairwise.nil, nofun, hholds.clock, hholds.ttl⟩, rfl,
        Nat.zero_le _⟩

/-! ## Runs -/

/-- The content and the next answers of the cache are those of a list. -/
structure Agrees (l : List (κ × ν)) (c : LruCache κ ν) : Prop where
  cached : ∀ k, c.cached k = Recency.value l k
  answer : ∀ k, (LruCache.get k c).1 = .ok (Recency.value l k)
  len : c.len = l.length
  bound : l.length ≤ c.maxSize

theorem Refines.agrees (h : Refines l c) : Agrees l c := by
  have hanswer : ∀ key, (Recency.get l key).1 = Recency.value l key := by
    intro key
    unfold Recency.get
    cases Recency.value l key <;> rfl
  refine ⟨fun k => ?_, fun k => ?_, ?_, ?_⟩
  · obtain ⟨es, hholds, rfl, -⟩ := h
    exact hholds.cached_eq k
  · rw [(refines_get h k).1, hanswer]
  · obtain ⟨es, hholds, rfl, -⟩ := h
    rw [List.length_map]
    exact hholds.length
  · obtain ⟨es, hholds, rfl, hle⟩ := h
    rw [List.length_map]
    exact hle

/-- **The cache is least-recently-used**: without a time to live and under a clock that never stands
still, after every sequence of calls it has the content of the list of the most recent keys, and
the next lookup gives the answer of the list. -/
theorem lru_run (maxSize : ℕ) {clock : ℕ → ℕ} (hclock : StrictMono clock)
    (calls : List (Call κ ν)) :
    Agrees (Runs.run (Call.listed maxSize) [] calls)
        (Runs.run Call.after (LruCache.new maxSize clock : LruCache κ ν) calls) := by
  have hrun : ∀ (calls : List (Call κ ν)) (l : List (κ × ν)) (c : LruCache κ ν),
      Refines l c → c.maxSize = maxSize →
      Refines (Runs.run (Call.listed maxSize) l calls) (Runs.run Call.after c calls) := by
    intro calls
    induction calls with
    | nil => exact fun _ _ h _ => h
    | cons call rest ih =>
        intro l c h hsize
        have hstep := refines_after h call
        have httl : c.ttl = none := by
          obtain ⟨es, hholds, -, -⟩ := h
          exact hholds.ttl
        rw [hsize] at hstep
        exact ih _ _ hstep ((maxSize_after call httl).trans hsize)
  exact (hrun calls [] _ (refines_new maxSize hclock) rfl).agrees

end MemoryCache

/-! ## A cache for two keys -/

section Example

open MemoryCache

/-- A lookup of the first key makes the second one the oldest. -/
def touchingCalls : List (Call ℕ ℕ) :=
  [.put ⟨id, List.Perm.refl⟩ 1 10, .put ⟨id, List.Perm.refl⟩ 2 20, .get 1,
    .put ⟨id, List.Perm.refl⟩ 3 30]

theorem lru_two_keys : Agrees (Runs.run (Call.listed 2) [] touchingCalls)
    (Runs.run Call.after (LruCache.new 2 id : LruCache ℕ ℕ) touchingCalls) :=
  lru_run 2 strictMono_id touchingCalls

example : Runs.run (Call.listed 2) [] touchingCalls = [(3, 30), (1, 10)] := by decide

end Example
