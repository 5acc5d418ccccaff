/-
# The block cache

`BlockCache` of `src/storage/cache.rs`: a cache of blocks by height with an index from hashes to
heights.

The index follows insertions and removals, but not what the cache drops by itself: a block that
another one replaces, and a block that is evicted.  `index_exact_iff` says that these are the only
calls that spoil the index.
-/
import Pacyte.Crypto
import Pacyte.MemoryCache

open Exec MemoryCache

/-- `BlockCache`. -/
structure BlockCache where
  cache : LruCache BlockHeight Block
  hashIndex : Map Hash BlockHeight

namespace BlockCache

/-! ## The calls -/

/-- `BlockCache::new`. -/
def new (maxSize : ℕ) (clock : ℕ → ℕ) : BlockCache := ⟨LruCache.new maxSize clock, ∅⟩

/-- A call of the cache. -/
def onCache {α : Type} (m : Exec Empty (LruCache BlockHeight Block) α) : Exec Empty BlockCache α :=
  Exec.onPart (·.cache) (fun cache s => { s with cache := cache }) m

/-- `get`. -/
def get (height : BlockHeight) : Exec Empty BlockCache (Option Block) :=
  onCache (LruCache.get height)

/-- `get_by_hash`. -/
def getByHash (hash : Hash) : Exec Empty BlockCache (Option Block) := do
  let s ← Exec.get
  match s.hashIndex.lookup hash with
  | none => return none
  | some height => onCache (LruCache.get height)

/-- `clear`. -/
def clear : Exec Empty BlockCache Unit := do
  onCache LruCache.clear
  Exec.modify fun s => { s with hashIndex := ∅ }

variable [Primitives]

/-- `put`, for the order in which the eviction finds the entries. -/
def put (order : Listing (BlockHeight × LruEntry Block)) (block : Block) :
    Exec Empty BlockCache Unit := do
  Exec.modify fun s => { s with hashIndex := s.hashIndex.insert block.hash block.header.height }
  onCache (LruCache.put order block.header.height block)

/-- `remove`. -/
def remove (height : BlockHeight) : Exec Empty BlockCache Unit := do
  let block ← onCache (LruCache.get height)
  Exec.modify fun s => match block with
    | some block => { s with hashIndex := s.hashIndex.erase block.hash }
    | none => s
  onCache (LruCache.remove height)

omit [Primitives] in
/-- The block that is cached at a height. -/
def cached (s : BlockCache) (height : BlockHeight) : Option Block := s.cache.cached height

/-- The calls. -/
inductive Call : Type where
  | get (height : BlockHeight)
  | getByHash (hash : Hash)
  | put (order : Listing (BlockHeight × LruEntry Block)) (block : Block)
  | remove (height : BlockHeight)
  | clear

/-- The cache after a call. -/
def Call.after : Call → BlockCache → BlockCache
  | .get height, s => (BlockCache.get height s).2
  | .getByHash hash, s => (BlockCache.getByHash hash s).2
  | .put order block, s => (BlockCache.put order block s).2
  | .remove height, s => (BlockCache.remove height s).2
  | .clear, s => (BlockCache.clear s).2

/-! ## The index -/

/-- What is promised of the index: a block is found by its hash exactly if it is cached, what is
found has the hash, and every entry belongs to a cached block. -/
structure IndexExact (s : BlockCache) : Prop where
  found : ∀ hash block, (getByHash hash s).1 = .ok (some block) → block.hash = hash
  finds : ∀ hash, (∃ block, (getByHash hash s).1 = .ok (some block)) ↔
    ∃ height block, s.cached height = some block ∧ block.hash = hash
  owned : ∀ hash height, s.hashIndex.lookup hash = some height →
    ∃ block, s.cached height = some block ∧ block.hash = hash

/-- The call leaves an exact index. -/
def StaysExact (s : BlockCache) (call : Call) : Prop := IndexExact (call.after s)

/-- The condition on a call: an insertion replaces no other block, and there is room for a new
height. -/
def Careful (s : BlockCache) : Call → Prop
  | .put _ block =>
    (∀ old ∈ s.cached block.header.height, old.hash = block.hash) ∧
      (s.cached block.header.height = none → s.cache.len < s.cache.maxSize)
  | _ => True

/-- The index holds the hashes of the cached blocks and nothing else. -/
def Indexed (s : BlockCache) : Prop :=
  ∀ hash height, s.hashIndex.lookup hash = some height ↔
    ∃ block, s.cached height = some block ∧ block.hash = hash

omit [Primitives] in
/-- The cached blocks stand at their heights and belong to a set; there is no time to live, and the
cache is not too long. -/
structure Keyed (blocks : Set Block) (s : BlockCache) : Prop where
  height : ∀ height block, s.cached height = some block → block.header.height = height
  mem : ∀ height block, s.cached height = some block → block ∈ blocks
  ttl : s.cache.ttl = none
  bound : s.cache.len ≤ s.cache.maxSize

variable {s : BlockCache} {blocks : Set Block}

omit [Primitives] in
theorem getByHash_run (h : s.cache.ttl = none) (hash : Hash) :
    (getByHash hash s).1 = .ok ((s.hashIndex.lookup hash).bind s.cached) := by
  unfold getByHash
  rw [run_bind, run_get]
  dsimp only
  cases s.hashIndex.lookup hash with
  | none => rfl
  | some height =>
      show (LruCache.get height s.cache).1 = .ok (s.cache.cached height)
      rw [get_run h]
      unfold LruCache.cached
      cases s.cache.map.lookup height <;> rfl

/-- The promise is that the index holds the hashes of the cached blocks. -/
theorem indexExact_iff (hkeyed : Keyed blocks s) (hinj : Set.InjOn Block.hash blocks) :
    IndexExact s ↔ Indexed s := by
  constructor
  · intro h hash height
    refine ⟨h.owned hash height, ?_⟩
    rintro ⟨block, hcached, hhash⟩
    obtain ⟨block', hget⟩ := (h.finds hash).mpr ⟨height, block, hcached, hhash⟩
    have hhash' := h.found hash block' hget
    rw [getByHash_run hkeyed.ttl, Outcome.ok.injEq, Option.bind_eq_some_iff] at hget
    obtain ⟨height', hindex, hcached'⟩ := hget
    have hsame : block' = block := hinj (hkeyed.mem _ _ hcached') (hkeyed.mem _ _ hcached)
      (hhash'.trans hhash.symm)
    rw [← hkeyed.height _ _ hcached, ← hsame, hkeyed.height _ _ hcached']
    exact hindex
  · intro h
    have hiff : ∀ hash block, (getByHash hash s).1 = .ok (some block) ↔
        ∃ height, s.cached height = some block ∧ block.hash = hash := by
      intro hash block
      rw [getByHash_run hkeyed.ttl, Outcome.ok.injEq, Option.bind_eq_some_iff]
      constructor
      · rintro ⟨height, hindex, hcached⟩
        obtain ⟨block', hcached', hhash⟩ := (h hash height).mp hindex
        obtain rfl := Option.some.inj (hcached'.symm.trans hcached)
        exact ⟨height, hcached, hhash⟩
      · rintro ⟨height, hcached, hhash⟩
        exact ⟨height, (h hash height).mpr ⟨block, hcached, hhash⟩, hcached⟩
    refine ⟨fun hash block hget => ?_, fun hash => ?_, fun hash height => (h hash height).mp⟩
    · obtain ⟨-, -, hhash⟩ := (hiff hash block).mp hget
      exact hhash
    · constructor
      · rintro ⟨block, hget⟩
        obtain ⟨height, hcached⟩ := (hiff hash block).mp hget
        exact ⟨height, block, hcached⟩
      · rintro ⟨height, block, hcached⟩
        exact ⟨block, (hiff hash block).mpr ⟨height, hcached⟩⟩

/-! ## Lookups, removals and clearing -/

omit [Primitives] in
/-- A lookup changes only access times. -/
theorem cached_get (h : s.cache.ttl = none) (height height' : BlockHeight) :
    (LruCache.get height s.cache).2.cached height' = s.cached height' := by
  rw [get_run h]
  unfold cached LruCache.cached
  cases hlookup : s.cache.map.lookup height with
  | none => rfl
  | some entry =>
      show ((s.cache.map.insert height ⟨entry.value, s.cache.clock 1⟩).lookup height').map
        LruEntry.value = _
      by_cases hh : height' = height
      · subst hh
        rw [AList.lookup_insert, hlookup]
        rfl
      · rw [AList.lookup_insert_ne hh]

omit [Primitives] in
theorem ttl_get (h : s.cache.ttl = none) (height : BlockHeight) :
    (LruCache.get height s.cache).2.ttl = none := by
  rw [get_run h]
  cases s.cache.map.lookup height <;> exact h

omit [Primitives] in
theorem len_get (h : s.cache.ttl = none) (height : BlockHeight) :
    (LruCache.get height s.cache).2.len = s.cache.len := by
  rw [get_run h]
  unfold LruCache.len
  cases hlookup : s.cache.map.lookup height with
  | none => rfl
  | some entry => exact Map.length_entries_insert_old _ _ hlookup

omit [Primitives] in
theorem maxSize_get (h : s.cache.ttl = none) (height : BlockHeight) :
    (LruCache.get height s.cache).2.maxSize = s.cache.maxSize := by
  rw [get_run h]
  cases s.cache.map.lookup height <;> rfl

omit [Primitives] in
/-- The state after a lookup of a height. -/
theorem keyed_get (h : Keyed blocks s) (height : BlockHeight) :
    Keyed blocks { s with cache := (LruCache.get height s.cache).2 } := by
  have hcached := cached_get h.ttl height
  refine ⟨fun height' block hblock => ?_, fun height' block hblock => ?_, ttl_get h.ttl height, ?_⟩
  · exact h.height height' block ((hcached height').symm.trans hblock)
  · exact h.mem height' block ((hcached height').symm.trans hblock)
  · show (LruCache.get height s.cache).2.len ≤ (LruCache.get height s.cache).2.maxSize
    rw [len_get h.ttl, maxSize_get h.ttl]
    exact h.bound

theorem indexed_get (h : Keyed blocks s) (hindexed : Indexed s) (height : BlockHeight) :
    Indexed { s with cache := (LruCache.get height s.cache).2 } := by
  intro hash height'
  have hcached : cached { s with cache := (LruCache.get height s.cache).2 } height' =
      s.cached height' := cached_get h.ttl height height'
  rw [hcached]
  exact hindexed hash height'

omit [Primitives] in
/-- A call of `get_by_hash` leaves the state as it is or looks a height up. -/
theorem getByHash_cases (s : BlockCache) (hash : Hash) :
    (getByHash hash s).2 = s ∨
      ∃ height, (getByHash hash s).2 = { s with cache := (LruCache.get height s.cache).2 } := by
  unfold getByHash
  rw [run_bind, run_get]
  dsimp only
  cases s.hashIndex.lookup hash with
  | none => exact Or.inl rfl
  | some height => exact Or.inr ⟨height, rfl⟩

omit [Primitives] in
/-- A removal from the cache. -/
theorem cached_remove (c : LruCache BlockHeight Block) (height height' : BlockHeight) :
    (LruCache.remove height c).2.cached height' =
      if height' = height then none else c.cached height' := by
  show ((c.map.erase height).lookup height').map LruEntry.value = _
  split_ifs with hh
  · subst hh
    rw [AList.lookup_erase]
    rfl
  · rw [AList.lookup_erase_ne hh]
    rfl

omit [Primitives] in
theorem len_remove (c : LruCache BlockHeight Block) (height : BlockHeight) :
    (LruCache.remove height c).2.len ≤ c.len := by
  show (c.map.entries.kerase height).length ≤ c.map.entries.length
  exact (List.kerase_sublist _ _).length_le

/-- A removal keeps the index exact. -/
theorem remove_indexed (h : Keyed blocks s) (hinj : Set.InjOn Block.hash blocks)
    (hindexed : Indexed s) (height : BlockHeight) :
    Keyed blocks (remove height s).2 ∧ Indexed (remove height s).2 := by
  have hget : (LruCache.get height s.cache).1 = .ok (s.cached height) := by
    rw [get_run h.ttl]
    unfold cached LruCache.cached
    cases s.cache.map.lookup height <;> rfl
  set index : Map Hash BlockHeight := match s.cached height with
    | some block => s.hashIndex.erase block.hash
    | none => s.hashIndex with hindex
  have hrun : (remove height s).2 =
      ⟨(LruCache.remove height (LruCache.get height s.cache).2).2, index⟩ := by
    have hlookup : onCache (LruCache.get height) s =
        (.ok (s.cached height), { s with cache := (LruCache.get height s.cache).2 }) := by
      show ((LruCache.get height s.cache).1, _) = _
      rw [hget]
    unfold remove
    rw [run_bind_of_ok hlookup, hindex]
    cases s.cached height <;> rfl
  have hleft : ∀ height', cached ⟨(LruCache.remove height (LruCache.get height s.cache).2).2,
      index⟩ height' = if height' = height then none else s.cached height' := by
    intro height'
    show (LruCache.remove height _).2.cached height' = _
    rw [cached_remove, cached_get h.ttl]
  rw [hrun]
  refine ⟨⟨fun height' block hblock => ?_, fun height' block hblock => ?_, ttl_get h.ttl height,
    ?_⟩, fun hash height' => ?_⟩
  · rw [hleft] at hblock
    split_ifs at hblock
    exact h.height height' block hblock
  · rw [hleft] at hblock
    split_ifs at hblock
    exact h.mem height' block hblock
  · refine (len_remove _ height).trans ?_
    rw [len_get h.ttl]
    exact h.bound.trans (maxSize_get h.ttl height).ge
  · show index.lookup hash = some height' ↔ _
    rw [hleft, hindex]
    cases hcached : s.cached height with
    | none =>
        dsimp only
        rw [hindexed]
        split_ifs with hh
        · subst hh
          rw [hcached]
          exact iff_of_false (fun ⟨_, hb, _⟩ => nomatch hb) fun ⟨_, hb, _⟩ => nomatch hb
        · exact Iff.rfl
    | some block =>
        dsimp only
        rw [Map.lookup_erase_some, hindexed]
        constructor
        · rintro ⟨hne, block', hcached', rfl⟩
          have hother : height' ≠ height := by
            rintro rfl
            exact hne (congrArg Block.hash (Option.some.inj (hcached'.symm.trans hcached)))
          rw [if_neg hother]
          exact ⟨block', hcached', rfl⟩
        · rintro ⟨block', hcached', hhash⟩
          split_ifs at hcached' with hh
          refine ⟨?_, block', hcached', hhash⟩
          rintro rfl
          have hsame := hinj (h.mem _ _ hcached') (h.mem _ _ hcached) hhash
          apply hh
          rw [← h.height _ _ hcached', ← h.height _ _ hcached, hsame]

/-! ## Insertions -/

omit [Primitives] in
/-- The cache after an insertion, before the eviction. -/
theorem cached_insert (c : LruCache BlockHeight Block) (block : Block) (n : ℕ)
    (clock : ℕ → ℕ) (height : BlockHeight) :
    LruCache.cached { c with
        map := c.map.insert block.header.height ⟨block, n⟩
        clock := clock } height =
      if height = block.header.height then some block else c.cached height := by
  show ((c.map.insert block.header.height ⟨block, n⟩).lookup height).map LruEntry.value = _
  split_ifs with hh
  · subst hh
    rw [AList.lookup_insert]
    rfl
  · rw [AList.lookup_insert_ne hh]
    rfl

omit [Primitives] in
/-- The eviction removes nothing while the cache is not too long. -/
theorem evictLru_of_le (order : Listing (BlockHeight × LruEntry Block))
    {c : LruCache BlockHeight Block} (h : c.len ≤ c.maxSize) : (LruCache.evictLru order c).2 = c :=
  if_neg (Nat.not_lt.mpr h)

omit [Primitives] in
/-- What is cached after the eviction was cached before. -/
theorem cached_of_evictLru {order : Listing (BlockHeight × LruEntry Block)}
    {c : LruCache BlockHeight Block} {height : BlockHeight} {block : Block}
    (h : (LruCache.evictLru order c).2.cached height = some block) :
    c.cached height = some block := by
  change LruCache.cached (if c.maxSize < c.map.entries.length then _ else c) height = _ at h
  split_ifs at h
  · unfold LruCache.cached at h ⊢
    obtain ⟨e, hlookup, rfl⟩ := Option.map_eq_some_iff.mp h
    rw [((lookup_foldl_erase _ _).mp hlookup).2]
    rfl
  · exact h

omit [Primitives] in
/-- The eviction of a cache that is too long removes a cached block. -/
theorem exists_evicted (order : Listing (BlockHeight × LruEntry Block))
    {c : LruCache BlockHeight Block} (h : c.maxSize < c.len) :
    ∃ height block, c.cached height = some block ∧
      (LruCache.evictLru order c).2.cached height = none := by
  have hlength : ((order.list c.map.toPairs).insertionSort Older).length = c.len := by
    rw [((List.perm_insertionSort _ _).trans (order.perm _)).length_eq, Map.length_toPairs]
    rfl
  cases hsorted : (order.list c.map.toPairs).insertionSort Older with
  | nil =>
      rw [hsorted, List.length_nil] at hlength
      omega
  | cons e rest =>
      obtain ⟨height, entry⟩ := e
      have hmem : (height, entry) ∈ c.map.toPairs := by
        rw [← ((List.perm_insertionSort Older _).trans (order.perm _)).mem_iff, hsorted]
        exact List.mem_cons_self
      have hlookup := (Map.mem_toPairs _ _ _).mp hmem
      have hkey : height ∈ c.keysToRemove order := by
        unfold LruCache.keysToRemove
        dsimp only
        rw [hlength, hsorted]
        obtain ⟨n, hn⟩ : ∃ n, c.len - c.maxSize = n + 1 := ⟨c.len - c.maxSize - 1, by omega⟩
        rw [hn, List.take_succ_cons, List.map_cons]
        exact List.mem_cons_self
      refine ⟨height, entry.value, ?_, ?_⟩
      · unfold LruCache.cached
        rw [hlookup]
        rfl
      · have hevicted : (LruCache.evictLru order c).2 =
            { c with map := (c.keysToRemove order).foldl (fun m k => m.erase k) c.map } := if_pos h
        rw [hevicted]
        unfold LruCache.cached
        cases hleft : ((c.keysToRemove order).foldl (fun m k => m.erase k) c.map).lookup height with
        | none => rfl
        | some e => exact absurd hkey ((lookup_foldl_erase _ _).mp hleft).1

theorem put_state (h : s.cache.ttl = none) (order : Listing (BlockHeight × LruEntry Block))
    (block : Block) : (put order block s).2 =
      ⟨(LruCache.evictLru order { s.cache with
          map := s.cache.map.insert block.header.height ⟨block, s.cache.clock 1⟩
          clock := fun j => s.cache.clock (j + 2) }).2,
        s.hashIndex.insert block.hash block.header.height⟩ := by
  rw [← put_run h]
  rfl

/-- An insertion that is careful keeps the index exact. -/
theorem put_indexed (h : Keyed blocks s) (hindexed : Indexed s)
    {order : Listing (BlockHeight × LruEntry Block)} {block : Block} (hblock : block ∈ blocks)
    (hinj : Set.InjOn Block.hash blocks) (hcareful : Careful s (.put order block)) :
    Keyed blocks (put order block s).2 ∧ Indexed (put order block s).2 := by
  obtain ⟨hreplaced, hroom⟩ := hcareful
  set c : LruCache BlockHeight Block := { s.cache with
    map := s.cache.map.insert block.header.height ⟨block, s.cache.clock 1⟩
    clock := fun j => s.cache.clock (j + 2) } with hc
  have hcached : ∀ height, c.cached height =
      if height = block.header.height then some block else s.cached height :=
    cached_insert s.cache block _ _
  have hlen : c.len ≤ c.maxSize := by
    show (s.cache.map.insert block.header.height _).entries.length ≤ s.cache.maxSize
    cases hlookup : s.cache.map.lookup block.header.height with
    | none =>
        have hnone : s.cached block.header.height = none := by
          unfold cached LruCache.cached
          rw [hlookup]
          rfl
        rw [Map.length_entries_insert_new _ _ hlookup]
        exact hroom hnone
    | some e =>
        rw [Map.length_entries_insert_old _ _ hlookup]
        exact h.bound
  rw [put_state h.ttl, ← hc, evictLru_of_le order hlen]
  refine ⟨⟨fun height b hb => ?_, fun height b hb => ?_, h.ttl, hlen⟩, fun hash height => ?_⟩
  · change c.cached height = some b at hb
    rw [hcached] at hb
    split_ifs at hb with hh
    · obtain rfl := Option.some.inj hb
      exact hh.symm
    · exact h.height height b hb
  · change c.cached height = some b at hb
    rw [hcached] at hb
    split_ifs at hb with hh
    · obtain rfl := Option.some.inj hb
      exact hblock
    · exact h.mem height b hb
  · show (s.hashIndex.insert block.hash block.header.height).lookup hash = some height ↔
      ∃ b, c.cached height = some b ∧ b.hash = hash
    rw [Map.lookup_insert_some, hcached, hindexed]
    split_ifs with hh
    · constructor
      · rintro (⟨rfl, -⟩ | ⟨hne, b, hb, hhash⟩)
        · exact ⟨block, rfl, rfl⟩
        · rw [hh] at hb
          exact absurd ((hreplaced b hb).symm.trans hhash).symm hne
      · rintro ⟨b, hb, rfl⟩
        obtain rfl := Option.some.inj hb
        exact Or.inl ⟨rfl, hh⟩
    · constructor
      · rintro (⟨-, heq⟩ | ⟨-, hold⟩)
        · exact absurd heq hh
        · exact hold
      · rintro ⟨b, hb, hhash⟩
        refine Or.inr ⟨?_, b, hb, hhash⟩
        rintro rfl
        have hsame := hinj (h.mem _ _ hb) hblock hhash
        rw [hsame] at hb
        exact hh (h.height _ _ hb).symm

/-- An insertion that is not careful spoils the index. -/
theorem careful_of_indexExact (h : Keyed blocks s) (hindexed : Indexed s)
    {order : Listing (BlockHeight × LruEntry Block)} {block : Block} (hblock : block ∈ blocks)
    (hinj : Set.InjOn Block.hash blocks) (hexact : IndexExact (put order block s).2) :
    Careful s (.put order block) := by
  rw [put_state h.ttl] at hexact
  set c : LruCache BlockHeight Block := { s.cache with
    map := s.cache.map.insert block.header.height ⟨block, s.cache.clock 1⟩
    clock := fun j => s.cache.clock (j + 2) } with hc
  have hcached : ∀ height, c.cached height =
      if height = block.header.height then some block else s.cached height :=
    cached_insert s.cache block _ _
  -- An old entry of the index still has its block in the cache.
  have howned : ∀ height b, s.cached height = some b → b.hash ≠ block.hash →
      ∃ b', (LruCache.evictLru order c).2.cached height = some b' ∧ b'.hash = b.hash := by
    intro height b hb hne
    refine hexact.owned b.hash height ?_
    show (s.hashIndex.insert block.hash block.header.height).lookup b.hash = some height
    rw [AList.lookup_insert_ne hne]
    exact (hindexed _ _).mpr ⟨b, hb, rfl⟩
  refine ⟨fun old hold => ?_, fun hnone => ?_⟩
  · by_contra hne
    obtain ⟨b', hb', hhash⟩ := howned _ old hold hne
    have hbefore := cached_of_evictLru hb'
    rw [hcached, if_pos rfl] at hbefore
    obtain rfl := Option.some.inj hbefore
    exact hne hhash.symm
  · by_contra hfull
    have hlookup : s.cache.map.lookup block.header.height = none := by
      unfold cached LruCache.cached at hnone
      exact Option.map_eq_none_iff.mp hnone
    have hlong : c.maxSize < c.len := by
      show s.cache.maxSize < (s.cache.map.insert block.header.height _).entries.length
      rw [Map.length_entries_insert_new _ _ hlookup]
      unfold LruCache.len at hfull
      omega
    obtain ⟨height, b, hb, hgone⟩ := exists_evicted order hlong
    rw [hcached] at hb
    split_ifs at hb with hh
    · obtain rfl := Option.some.inj hb
      obtain ⟨b', hb', -⟩ := hexact.owned block.hash height (by
        show (s.hashIndex.insert block.hash block.header.height).lookup block.hash = some height
        rw [AList.lookup_insert, hh])
      change (LruCache.evictLru order c).2.cached height = some b' at hb'
      rw [hgone] at hb'
      cases hb'
    · have hne : b.hash ≠ block.hash := by
        intro heq
        have hsame := hinj (h.mem _ _ hb) hblock heq
        rw [hsame] at hb
        exact hh (h.height _ _ hb).symm
      obtain ⟨b', hb', -⟩ := howned height b hb hne
      rw [hgone] at hb'
      cases hb'

/-! ## Runs -/

/-- One call, from an exact index. -/
theorem staysExact_iff (h : Keyed blocks s) (hindexed : Indexed s)
    (hinj : Set.InjOn Block.hash blocks) {call : Call}
    (hcall : ∀ order block, call = .put order block → block ∈ blocks) :
    (StaysExact s call ↔ Careful s call) ∧
      (Careful s call → Keyed blocks (call.after s) ∧ Indexed (call.after s)) := by
  have hstays : ∀ {s'}, Keyed blocks s' → Indexed s' → IndexExact s' := fun hk hi =>
    (indexExact_iff hk hinj).mpr hi
  cases call with
  | get height =>
      have hafter := And.intro (keyed_get h height) (indexed_get h hindexed height)
      exact ⟨iff_of_true (hstays hafter.1 hafter.2) trivial, fun _ => hafter⟩
  | getByHash hash =>
      have hafter : Keyed blocks (Call.after (.getByHash hash) s) ∧
          Indexed (Call.after (.getByHash hash) s) := by
        rcases getByHash_cases s hash with hsame | ⟨height, hget⟩
        · rw [Call.after, hsame]
          exact ⟨h, hindexed⟩
        · rw [Call.after, hget]
          exact ⟨keyed_get h height, indexed_get h hindexed height⟩
      exact ⟨iff_of_true (hstays hafter.1 hafter.2) trivial, fun _ => hafter⟩
  | put order block =>
      have hblock := hcall order block rfl
      have hafter : Careful s (.put order block) →
          Keyed blocks (put order block s).2 ∧ Indexed (put order block s).2 :=
        put_indexed h hindexed hblock hinj
      refine ⟨⟨careful_of_indexExact h hindexed hblock hinj, fun hcareful => ?_⟩, hafter⟩
      exact hstays (hafter hcareful).1 (hafter hcareful).2
  | remove height =>
      have hafter := remove_indexed h hinj hindexed height
      exact ⟨iff_of_true (hstays hafter.1 hafter.2) trivial, fun _ => hafter⟩
  | clear =>
      have hafter : Keyed blocks (Call.after .clear s) ∧ Indexed (Call.after .clear s) :=
        ⟨⟨fun _ _ hb => (nomatch hb), fun _ _ hb => (nomatch hb), h.ttl, Nat.zero_le _⟩,
          fun _ _ => iff_of_false nofun fun ⟨_, hb, _⟩ => (nomatch hb)⟩
      exact ⟨iff_of_true (hstays hafter.1 hafter.2) trivial, fun _ => hafter⟩

omit [Primitives] in
theorem keyed_new (maxSize : ℕ) (clock : ℕ → ℕ) : Keyed blocks (new maxSize clock) := by
  have hnone : ∀ height, (new maxSize clock).cached height = none := fun _ => rfl
  refine ⟨fun height block hb => ?_, fun height block hb => ?_, rfl, Nat.zero_le _⟩
  · rw [hnone] at hb
    cases hb
  · rw [hnone] at hb
    cases hb

theorem indexed_new (maxSize : ℕ) (clock : ℕ → ℕ) : Indexed (new maxSize clock) := by
  have hnone : ∀ height, (new maxSize clock).cached height = none := fun _ => rfl
  refine fun hash height => iff_of_false nofun ?_
  rintro ⟨block, hb, -⟩
  rw [hnone] at hb
  cases hb

theorem along_staysExact_iff (h : Keyed blocks s) (hindexed : Indexed s)
    (hinj : Set.InjOn Block.hash blocks) (calls : List Call)
    (hcalls : ∀ order block, .put order block ∈ calls → block ∈ blocks) :
    Runs.Along Call.after StaysExact s calls ↔ Runs.Along Call.after Careful s calls := by
  induction calls generalizing s with
  | nil => exact Iff.rfl
  | cons call rest ih =>
      obtain ⟨hiff, hafter⟩ := staysExact_iff h hindexed hinj
        fun order block (heq : call = .put order block) => hcalls order block (heq ▸ List.mem_cons_self)
      rw [Runs.along_cons, Runs.along_cons, hiff]
      refine and_congr_right fun hcareful => ?_
      exact ih (hafter hcareful).1 (hafter hcareful).2 fun order block hmem =>
        hcalls order block (List.mem_cons_of_mem _ hmem)

/-- **When the index is exact along a run**: if no two blocks that are put have one hash, the index
is exact after every call exactly if no insertion replaces another block or finds no room. -/
theorem index_exact_iff (maxSize : ℕ) (clock : ℕ → ℕ) (calls : List Call)
    (hinj : Set.InjOn Block.hash {block | ∃ order, Call.put order block ∈ calls}) :
    Runs.Along Call.after StaysExact (new maxSize clock) calls ↔
      Runs.Along Call.after Careful (new maxSize clock) calls :=
  along_staysExact_iff (keyed_new maxSize clock) (indexed_new maxSize clock) hinj calls
    fun order _ hmem => ⟨order, hmem⟩

end BlockCache

/-! ## A block that replaces another one -/

section Example

open BlockCache
open scoped Sample

/-- A block at the first height. -/
def blockAt (timestamp : Timestamp) : Block :=
  ⟨⟨1, zero32, zero32, zero32, timestamp, zero32, 0, 0, []⟩, ⟨[]⟩⟩

/-- Two blocks of one height. -/
def replacingCalls : List Call :=
  [.put ⟨id, List.Perm.refl⟩ (blockAt 1), .put ⟨id, List.Perm.refl⟩ (blockAt 2)]

/-- The hash of the replaced block still leads to the height. -/
theorem replaced_still_indexed :
    ¬ Runs.Along BlockCache.Call.after StaysExact (new 8 id) replacingCalls := by
  rintro ⟨-, hsecond, -⟩
  have hfound := hsecond.found (blockAt 1).hash (blockAt 2) (by decide +kernel)
  exact absurd hfound (by decide +kernel)

instance (s : BlockCache) (call : Call) : Decidable (Careful s call) :=
  match call with
  | .put _ block => inferInstanceAs (Decidable ((∀ old ∈ s.cached block.header.height, _) ∧ _))
  | .get _ | .getByHash _ | .remove _ | .clear => isTrue trivial

/-- A block at the second height. -/
def laterBlock : Block := ⟨⟨2, zero32, zero32, zero32, 1, zero32, 0, 0, []⟩, ⟨[]⟩⟩

/-- A block is put. -/
def putBlock (block : Block) : Call := .put ⟨id, List.Perm.refl⟩ block

/-- Two heights; a block is removed before another one takes its place, and one is put twice. -/
def carefulCalls : List Call :=
  [putBlock (blockAt 1), putBlock laterBlock, .get 1, .getByHash zero32, .remove 1,
    putBlock (blockAt 2), putBlock laterBlock]

/-- The index is exact after each of the calls. -/
theorem careful_calls_indexed :
    Runs.Along BlockCache.Call.after StaysExact (new 2 id) carefulCalls := by
  have hput : ∀ block, (∃ order, BlockCache.Call.put order block ∈ carefulCalls) →
      block ∈ [blockAt 1, laterBlock, blockAt 2] := by
    rintro block ⟨order, hmem⟩
    simp only [carefulCalls, putBlock, List.mem_cons, BlockCache.Call.put.injEq, reduceCtorEq,
      List.not_mem_nil, or_false, false_or] at hmem ⊢
    tauto
  have hhash : ∀ block ∈ [blockAt 1, laterBlock, blockAt 2],
      ∀ block' ∈ [blockAt 1, laterBlock, blockAt 2], block.hash = block'.hash → block = block' := by
    decide +kernel
  refine (index_exact_iff 2 id carefulCalls ?_).mpr ?_
  · rintro block hblock block' hblock' hsame
    exact hhash block (hput block hblock) block' (hput block' hblock') hsame
  · refine ⟨?_, ?_, ?_, ?_, ?_, ?_, ?_, trivial⟩
    all_goals decide +kernel

end Example
