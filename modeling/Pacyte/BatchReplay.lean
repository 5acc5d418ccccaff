/-
# Writing batches to the in-memory storage

A batch that is written to a `MemoryStorage` acts on the vector of blocks and on the
three maps independently, so a list of batches acts like their concatenation
(`writeBatches_run`).  The only way to fail is the height of a block.

What the maps hold afterwards depends on the last write to each key.  What the vector
holds depends on the order in which the blocks come, because gaps are filled with
genesis blocks; if no gap is left, it is the last block of each height
(`placeAll_congr`).
-/
import Pacyte.MemoryStorage
import Pacyte.LastWrite

namespace MemoryStorage

variable [Primitives]

/-! ## The vector of blocks -/

/-- The height of a block as an index. -/
def index (block : Block) : ℕ := block.header.height.toNat

/-- The vector has room for a block of this height. -/
def Storable (block : Block) : Prop := index block < maxBlocks

instance (block : Block) : Decidable (Storable block) := inferInstanceAs (Decidable (_ < _))

/-- `save_block` on the vector and the clock: nothing is returned for a panic. -/
def place (block : Block) (p : List Block × Clock) : Option (List Block × Clock) :=
  if p.1.length ≤ index block then
    if Storable block then
      some ((resize p.1 (index block + 1) (Block.genesis (p.2 0))).set (index block) block,
        fun k => p.2 (k + 1))
    else none
  else some (p.1.set (index block) block, p.2)

/-- Some blocks, one after the other. -/
def placeAll : List Block → List Block × Clock → Option (List Block × Clock)
  | [], p => some p
  | block :: rest, p => (place block p).bind (placeAll rest)

/-- The storage with this vector and this clock. -/
def withBlocks (s : MemoryStorage) (p : List Block × Clock) : MemoryStorage :=
  { s with blocks := p.1, clock := p.2 }

theorem placeAll_append (blocks blocks' : List Block) (p : List Block × Clock) :
    placeAll (blocks ++ blocks') p = (placeAll blocks p).bind (placeAll blocks') := by
  induction blocks generalizing p with
  | nil => rfl
  | cons block rest ih =>
      rw [List.cons_append, placeAll, placeAll, Option.bind_assoc]
      congr 1
      funext q
      exact ih q

/-- `save_block` is `place` on its part of the storage. -/
theorem saveBlock_run (block : Block) (s : MemoryStorage) :
    match place block (s.blocks, s.clock) with
    | some p => saveBlock block s = (.ok (), s.withBlocks p)
    | none => (saveBlock block s).1 = .panic := by
  have hone : UInt64.toNat 1 = 1 := rfl
  unfold saveBlock place index
  simp only [Exec.run_bind, Exec.run_get]
  by_cases hle : s.blocks.length ≤ block.header.height.toNat
  · simp only [if_pos hle, Exec.addU64, hone]
    by_cases hfit : block.header.height.toNat + 1 < 2 ^ 64
    · have hsum : (block.header.height + 1).toNat = block.header.height.toNat + 1 :=
        Exec.toNat_add_of_fits hfit
      simp only [if_pos hfit, Exec.run_bind, Exec.run_pure, hsum, resizeBlocks]
      by_cases hroom : Storable block
      · have hle' : block.header.height.toNat + 1 ≤ maxBlocks := hroom
        simp only [if_pos hroom, if_pos hle']
        rfl
      · have hover : ¬ block.header.height.toNat + 1 ≤ maxBlocks := hroom
        simp only [if_neg hroom, if_neg hover]
        rfl
    · -- a height without an index has no room either
      have hroom : ¬ Storable block := by
        unfold Storable index maxBlocks
        omega
      simp only [if_neg hfit, if_neg hroom]
      rfl
  · simp only [if_neg hle]
    rfl

theorem saveBlocks_run (entries : List (BlockHeight × Block)) (s : MemoryStorage) :
    match placeAll (entries.map Prod.snd) (s.blocks, s.clock) with
    | some p => forEach (fun e => saveBlock e.2) entries s = (.ok (), s.withBlocks p)
    | none => (forEach (fun e => saveBlock e.2) entries s).1 = .panic := by
  induction entries generalizing s with
  | nil => rfl
  | cons e rest ih =>
      have hsave := saveBlock_run e.2 s
      rw [List.map_cons, placeAll]
      cases hplace : place e.2 (s.blocks, s.clock) with
      | none =>
          simp only [hplace] at hsave
          exact Exec.fst_bind_of_panic hsave
      | some p =>
          simp only [hplace] at hsave
          rw [Option.bind_some, forEach, Exec.run_bind_of_ok hsave]
          exact ih (s.withBlocks p)

/-! ## Vectors without gaps -/

/-- The writes of some blocks to the vector. -/
def blockWrites (blocks : List Block) : List (ℕ × Option Block) :=
  blocks.map fun block => (index block, some block)

/-- Placing a block fails if there is no room for its height. -/
theorem place_eq_none_iff (block : Block) (p : List Block × Clock) (hp : p.1.length ≤ maxBlocks) :
    place block p = none ↔ ¬ Storable block := by
  unfold place
  split_ifs with hle hroom
  · exact iff_of_false not_false fun h => h hroom
  · exact iff_of_true rfl hroom
  · -- the height is below the present length
    refine iff_of_false not_false fun h => h ?_
    exact lt_of_lt_of_le (not_le.mp hle) hp

/-- The vector after a block was placed. -/
theorem place_eq_some {block : Block} {p q : List Block × Clock} (h : place block p = some q) :
    q.1.length = max p.1.length (index block + 1) ∧ q.1[index block]? = some block ∧
      ∀ i < p.1.length, i ≠ index block → q.1[i]? = p.1[i]? := by
  unfold place at h
  split_ifs at h with hle hfit
  · -- the vector grows up to the height of the block
    obtain rfl := Option.some.inj h
    have hlength : (resize p.1 (index block + 1) (Block.genesis (p.2 0))).length
        = index block + 1 := by
      simp only [resize, List.length_append, List.length_replicate]
      omega
    refine ⟨?_, ?_, ?_⟩
    · rw [List.length_set, hlength]
      omega
    · apply List.getElem?_set_self
      omega
    · intro i hi hne
      rw [List.getElem?_set_ne (Ne.symm hne), resize, List.getElem?_append_left hi]
  · obtain rfl := Option.some.inj h
    refine ⟨?_, ?_, ?_⟩
    · rw [List.length_set]
      omega
    · apply List.getElem?_set_self
      omega
    · intro i _ hi
      exact List.getElem?_set_ne (Ne.symm hi)

/-- Placing some blocks fails if there is no room for one of the heights. -/
theorem placeAll_eq_none_iff (blocks : List Block) (p : List Block × Clock)
    (hp : p.1.length ≤ maxBlocks) :
    placeAll blocks p = none ↔ ∃ block ∈ blocks, ¬ Storable block := by
  induction blocks generalizing p with
  | nil => simp [placeAll]
  | cons block rest ih =>
      rw [placeAll, List.exists_mem_cons_iff]
      cases hplace : place block p with
      | none =>
          rw [place_eq_none_iff block p hp] at hplace
          exact ⟨fun _ => Or.inl hplace, fun _ => rfl⟩
      | some q =>
          have hroom : ¬ ¬ Storable block := by
            rw [← place_eq_none_iff block p hp, hplace]
            exact Option.some_ne_none q
          have hgrown : q.1.length ≤ maxBlocks := by
            rw [(place_eq_some hplace).1]
            exact max_le hp (not_not.mp hroom)
          rw [Option.bind_some, ih q hgrown]
          exact ⟨Or.inr, fun h => h.resolve_left hroom⟩

/-- Blocks that have room are placed. -/
theorem placeAll_of_storable {blocks : List Block} (h : ∀ block ∈ blocks, Storable block)
    (p : List Block × Clock) : ∃ q, placeAll blocks p = some q := by
  induction blocks generalizing p with
  | nil => exact ⟨p, rfl⟩
  | cons block rest ih =>
      obtain ⟨p', hplace⟩ : ∃ p', place block p = some p' := by
        unfold place
        rw [if_pos (h block List.mem_cons_self)]
        split_ifs
        · exact ⟨_, rfl⟩
        · exact ⟨_, rfl⟩
      obtain ⟨q, hrest⟩ := ih (fun b hb => h b (List.mem_cons_of_mem block hb)) p'
      exact ⟨q, by rw [placeAll, hplace, Option.bind_some, hrest]⟩

/-- The vector after some blocks were placed: its length, and the last block of every
height that was there before or is among the blocks. -/
theorem placeAll_eq_some {blocks : List Block} {p q : List Block × Clock}
    (h : placeAll blocks p = some q) (i : ℕ) :
    (i < q.1.length ↔ i < p.1.length ∨ ∃ block ∈ blocks, i ≤ index block) ∧
      ((i < p.1.length ∨ ∃ block ∈ blocks, index block = i) →
        q.1[i]? = overwrite (fun j => p.1[j]?) (blockWrites blocks) i) := by
  induction blocks generalizing p with
  | nil =>
      obtain rfl := Option.some.inj h
      refine ⟨?_, fun _ => rfl⟩
      simp
  | cons block rest ih =>
      rw [placeAll] at h
      obtain ⟨p', hplace, hrest⟩ := Option.bind_eq_some_iff.mp h
      obtain ⟨hlength, hself, hother⟩ := place_eq_some hplace
      obtain ⟨hlen, hget⟩ := ih hrest
      rw [List.exists_mem_cons_iff, List.exists_mem_cons_iff]
      constructor
      · rw [hlen, hlength, lt_max_iff, Nat.lt_succ_iff, or_assoc]
      · intro hi
        have hmem : i < p'.1.length ∨ ∃ block ∈ rest, index block = i := by
          rcases hi with hold | hblock | hmore
          · left
            rw [hlength]
            exact lt_max_of_lt_left hold
          · left
            rw [hlength, ← hblock]
            exact lt_max_of_lt_right (Nat.lt_succ_self _)
          · right
            exact hmore
        rw [hget hmem]
        apply overwrite_apply_congr
        intro hnot
        show p'.1[i]? = Function.update (fun j => p.1[j]?) (index block) (some block) i
        by_cases hblock : i = index block
        · rw [hblock, Function.update_self, hself]
        · -- no later block has this height, so the index was there before
          rw [Function.update_of_ne hblock]
          rcases hi with hold | heq | ⟨later, hlater, heq⟩
          · exact hother i hold hblock
          · exact absurd heq.symm hblock
          · exact absurd heq (hnot (index later, some later) (List.mem_map.mpr ⟨later, hlater, rfl⟩))

/-- **Vectors without gaps.**  If every height below that of a block has a block, the
vector depends only on the order of the blocks of each height. -/
theorem placeAll_congr {blocks blocks' : List Block} (clock : Clock)
    (hsame : ∀ i, (blocks.filter fun b => index b = i) = blocks'.filter fun b => index b = i)
    (hgap : ∀ block ∈ blocks, ∀ height < block.header.height,
      ∃ block' ∈ blocks, block'.header.height = height) :
    (placeAll blocks ([], clock)).map Prod.fst = (placeAll blocks' ([], clock)).map Prod.fst := by
  have hmem : ∀ b, b ∈ blocks ↔ b ∈ blocks' := by
    intro b
    have hfilter : b ∈ (blocks.filter fun x => index x = index b) ↔
        b ∈ blocks'.filter fun x => index x = index b := by
      rw [hsame]
    simpa using hfilter
  have hempty : ([] : List Block).length ≤ maxBlocks := Nat.zero_le _
  cases hplace : placeAll blocks ([], clock) with
  | none =>
      rw [placeAll_eq_none_iff blocks _ hempty] at hplace
      obtain ⟨b, hb, hfit⟩ := hplace
      have hnone := (placeAll_eq_none_iff blocks' ([], clock) hempty).mpr ⟨b, (hmem b).mp hb, hfit⟩
      rw [hnone]
  | some q =>
      cases hplace' : placeAll blocks' ([], clock) with
      | none =>
          rw [placeAll_eq_none_iff blocks' _ hempty] at hplace'
          obtain ⟨b, hb, hfit⟩ := hplace'
          have hnone :=
            (placeAll_eq_none_iff blocks ([], clock) hempty).mpr ⟨b, (hmem b).mpr hb, hfit⟩
          rw [hnone] at hplace
          cases hplace
      | some q' =>
          rw [Option.map_some, Option.map_some]
          congr 1
          apply List.ext_getElem?
          intro i
          obtain ⟨hlen, hget⟩ := placeAll_eq_some hplace i
          obtain ⟨hlen', hget'⟩ := placeAll_eq_some hplace' i
          simp only [List.length_nil, Nat.not_lt_zero, false_or] at hlen hlen' hget hget'
          have hiff : i < q.1.length ↔ i < q'.1.length := by
            rw [hlen, hlen']
            simp only [hmem]
          by_cases hi : i < q.1.length
          · -- there is a block of this height, by the absence of gaps
            obtain ⟨b, hb, hle⟩ := hlen.mp hi
            have hblock : ∃ block ∈ blocks, index block = i := by
              rcases Nat.eq_or_lt_of_le hle with heq | hlt
              · exact ⟨b, hb, heq.symm⟩
              · have hword : (UInt64.ofNat i).toNat = i :=
                  UInt64.toNat_ofNat_of_lt' (lt_trans hlt b.header.height.toNat_lt)
                have hbelow : UInt64.ofNat i < b.header.height := by
                  rw [UInt64.lt_iff_toNat_lt, hword]
                  exact hlt
                obtain ⟨b', hb', hheight⟩ := hgap b hb (UInt64.ofNat i) hbelow
                exact ⟨b', hb', by rw [index, hheight, hword]⟩
            have hblock' : ∃ block ∈ blocks', index block = i := by
              obtain ⟨b', hb', hheight⟩ := hblock
              exact ⟨b', (hmem b').mp hb', hheight⟩
            rw [hget hblock, hget' hblock']
            apply congrFun
            apply overwrite_congr_filter
            intro k
            rw [blockWrites, blockWrites, List.filter_map, List.filter_map]
            exact congrArg _ (hsame k)
          · rw [List.getElem?_eq_none (not_lt.mp hi),
              List.getElem?_eq_none (not_lt.mp (mt hiff.mpr hi))]

/-! ## The maps -/

omit [Primitives] in
/-- Inserting is a write. -/
theorem lookup_insert_eq_update {κ ν : Type} [DecidableEq κ] (m : Map κ ν) (k : κ) (v : ν) :
    (m.insert k v).lookup = Function.update m.lookup k (some v) := by
  funext x
  by_cases hx : x = k
  · rw [hx, AList.lookup_insert, Function.update_self]
  · rw [AList.lookup_insert_ne hx, Function.update_of_ne hx]

omit [Primitives] in
/-- A loop of updates that are writes to one map. -/
theorem foldl_eq_overwrite {α κ ν : Type} [DecidableEq κ] (view : MemoryStorage → κ → Option ν)
    (f : α → MemoryStorage → MemoryStorage) (w : α → κ × Option ν)
    (hf : ∀ a s, view (f a s) = Function.update (view s) (w a).1 (w a).2) (l : List α)
    (s : MemoryStorage) :
    view (l.foldl (fun s a => f a s) s) = overwrite (view s) (l.map w) := by
  induction l generalizing s with
  | nil => rfl
  | cons a rest ih =>
      rw [List.foldl_cons, ih, hf]
      rfl

/-- The writes of a batch to the transactions. -/
def transactionWrites (batch : WriteBatch) : List (Hash × Option Transaction) :=
  batch.transactions.map fun e => (e.2.hash, some e.2)

/-- The writes of a batch to the state roots. -/
def stateRootWrites (batch : WriteBatch) : List (BlockHeight × Option Hash) :=
  batch.stateRoots.map fun e => (e.1, some e.2)

/-- The maps of the second storage are those of the first one after the writes of the
batch. -/
structure Wrote (batch : WriteBatch) (s s' : MemoryStorage) : Prop where
  transactions : s'.transactions.lookup
    = overwrite s.transactions.lookup (transactionWrites batch)
  accounts : s'.accounts.lookup = overwrite s.accounts.lookup batch.accounts
  stateRoots : s'.stateRoots.lookup = overwrite s.stateRoots.lookup (stateRootWrites batch)

theorem lookup_putTransaction (tx : Transaction) (s : MemoryStorage) :
    (putTransaction tx s).transactions.lookup
      = Function.update s.transactions.lookup tx.hash (some tx) :=
  lookup_insert_eq_update _ _ _

omit [Primitives] in
theorem lookup_putStateRoot (height : BlockHeight) (root : Hash) (s : MemoryStorage) :
    (putStateRoot height root s).stateRoots.lookup
      = Function.update s.stateRoots.lookup height (some root) :=
  lookup_insert_eq_update _ _ _

theorem wrote_written (batch : WriteBatch) (s : MemoryStorage) : Wrote batch s (written batch s) := by
  unfold written
  refine ⟨?_, ?_, ?_⟩
  · rw [foldl_keeps transactions (fun e : BlockHeight × Hash => putStateRoot e.1 e.2)
        (fun _ _ => rfl),
      foldl_keeps transactions (fun e : Address × Option Account => putAccount e.1 e.2)
        (fun _ _ => rfl)]
    exact foldl_eq_overwrite (fun s => s.transactions.lookup)
      (fun e : Hash × Transaction => putTransaction e.2) (fun e => (e.2.hash, some e.2))
      (fun e s => lookup_putTransaction e.2 s) batch.transactions s
  · rw [foldl_keeps accounts (fun e : BlockHeight × Hash => putStateRoot e.1 e.2)
      (fun _ _ => rfl)]
    refine (foldl_eq_overwrite (fun s => s.accounts.lookup)
      (fun e : Address × Option Account => putAccount e.1 e.2) id
      (fun e s => lookup_putAccount e.1 e.2 s) batch.accounts _).trans ?_
    rw [foldl_keeps accounts (fun e : Hash × Transaction => putTransaction e.2) (fun _ _ => rfl),
      List.map_id]
  · refine (foldl_eq_overwrite (fun s => s.stateRoots.lookup)
      (fun e : BlockHeight × Hash => putStateRoot e.1 e.2) (fun e => (e.1, some e.2))
      (fun e s => lookup_putStateRoot e.1 e.2 s) batch.stateRoots _).trans ?_
    rw [foldl_keeps stateRoots (fun e : Address × Option Account => putAccount e.1 e.2)
        (fun _ _ => rfl),
      foldl_keeps stateRoots (fun e : Hash × Transaction => putTransaction e.2) (fun _ _ => rfl)]
    rfl

theorem clock_written (batch : WriteBatch) (s : MemoryStorage) :
    (written batch s).clock = s.clock := by
  rw [written, foldl_keeps clock (fun e : BlockHeight × Hash => putStateRoot e.1 e.2)
      (fun _ _ => rfl),
    foldl_keeps clock (fun e : Address × Option Account => putAccount e.1 e.2) (fun _ _ => rfl),
    foldl_keeps clock (fun e : Hash × Transaction => putTransaction e.2) (fun _ _ => rfl)]

/-! ## Batches -/

/-- What a run that writes a batch ends with. -/
def Writes (batch : WriteBatch) (s : MemoryStorage)
    (r : Outcome PacyteError Unit × MemoryStorage) : Prop :=
  match placeAll (batch.blocks.map Prod.snd) (s.blocks, s.clock) with
  | some p => r.1 = .ok () ∧ (r.2.blocks, r.2.clock) = p ∧ Wrote batch s r.2
  | none => r.1 = .panic

theorem writes_writeBatch (batch : WriteBatch) (s : MemoryStorage) :
    Writes batch s (Storage.writeBatch batch s) := by
  have hblocks := saveBlocks_run batch.blocks s
  unfold Writes
  cases hplace : placeAll (batch.blocks.map Prod.snd) (s.blocks, s.clock) with
  | none =>
      simp only [hplace] at hblocks
      exact Exec.fst_bind_of_panic hblocks
  | some p =>
      simp only [hplace] at hblocks
      have hrun : Storage.writeBatch batch s = (.ok (), written batch (s.withBlocks p)) := by
        refine (Exec.run_bind_of_ok hblocks).trans ?_
        simp only [Exec.run_bind, forEach_modify (fun e : Hash × Transaction => putTransaction e.2),
          forEach_modify (fun e : Address × Option Account => putAccount e.1 e.2),
          forEach_modify (fun e : BlockHeight × Hash => putStateRoot e.1 e.2)]
        rfl
      rw [hrun]
      refine ⟨rfl, ?_, ?_⟩
      · rw [blocks_written, clock_written]
        rfl
      · -- the blocks do not matter for the maps
        have hwrote := wrote_written batch (s.withBlocks p)
        exact ⟨hwrote.transactions, hwrote.accounts, hwrote.stateRoots⟩

/-- Several batches as one. -/
def merge (batches : List WriteBatch) : WriteBatch where
  blocks := batches.flatMap (·.blocks)
  transactions := batches.flatMap (·.transactions)
  accounts := batches.flatMap (·.accounts)
  stateRoots := batches.flatMap (·.stateRoots)

/-- **Batches that are written one after the other act like their concatenation.** -/
theorem writes_batches (batches : List WriteBatch) (s : MemoryStorage) :
    Writes (merge batches) s (forEach Storage.writeBatch batches s) := by
  induction batches generalizing s with
  | nil => exact ⟨rfl, rfl, ⟨rfl, rfl, rfl⟩⟩
  | cons batch rest ih =>
      have hfirst := writes_writeBatch batch s
      have hmerge : (merge (batch :: rest)).blocks = batch.blocks ++ (merge rest).blocks := rfl
      unfold Writes at hfirst ⊢
      rw [hmerge, List.map_append, placeAll_append, forEach]
      cases hplace : placeAll (batch.blocks.map Prod.snd) (s.blocks, s.clock) with
      | none =>
          simp only [hplace] at hfirst
          exact Exec.fst_bind_of_panic hfirst
      | some p =>
          simp only [hplace] at hfirst
          obtain ⟨hok, hp, hwrote⟩ := hfirst
          obtain ⟨s', hrun⟩ : ∃ s', Storage.writeBatch batch s = (.ok (), s') :=
            ⟨(Storage.writeBatch batch s).2, Prod.ext hok rfl⟩
          rw [hrun] at hp hwrote
          have hrest := ih s'
          unfold Writes at hrest
          rw [Option.bind_some, ← hp, Exec.run_bind_of_ok hrun]
          dsimp only
          cases hnext : placeAll ((merge rest).blocks.map Prod.snd) (s'.blocks, s'.clock) with
          | none =>
              simp only [hnext] at hrest
              exact hrest
          | some q =>
              simp only [hnext] at hrest
              obtain ⟨hok', hq, hwrote'⟩ := hrest
              refine ⟨hok', hq, ⟨?_, ?_, ?_⟩⟩
              · rw [hwrote'.transactions, hwrote.transactions, ← overwrite_append,
                  transactionWrites, transactionWrites, ← List.map_append]
                rfl
              · rw [hwrote'.accounts, hwrote.accounts, ← overwrite_append]
                rfl
              · rw [hwrote'.stateRoots, hwrote.stateRoots, ← overwrite_append, stateRootWrites,
                  stateRootWrites, ← List.map_append]
                rfl

end MemoryStorage
