/-
# The in-memory storage

`MemoryStorage` of `src/storage/mod.rs`: the blocks in a vector indexed by
height, the rest in maps.  Saving a block above the end of the vector fills the
gap with genesis blocks, each with the clock reading of that moment.

No operation returns an error; only `save_block` can panic, for a height that has
no index or no room.
-/
import Pacyte.StateManager

/-- `MemoryStorage`, with the readings its `Block::genesis` will take. -/
structure MemoryStorage where
  blocks : List Block
  transactions : Map Hash Transaction
  accounts : Map Address Account
  stateRoots : Map BlockHeight Hash
  clock : Clock

namespace MemoryStorage

variable [Primitives]

/-- `MemoryStorage::new`. -/
def new (clock : Clock) : MemoryStorage := ⟨[], ∅, ∅, ∅, clock⟩

/-- The blocks that a vector has room for: `isize::MAX` bytes, and a `Block` takes 200.  Up to
there the allocations succeed. -/
def maxBlocks : ℕ := (2 ^ 63 - 1) / 200

/-- The elements after `Vec::resize`, for a length that is not below the present one. -/
def resize (blocks : List Block) (length : ℕ) (fill : Block) : List Block :=
  blocks ++ List.replicate (length - blocks.length) fill

/-- `Vec::resize`: a length without room is a capacity overflow. -/
def resizeBlocks (length : ℕ) (fill : Block) : Exec PacyteError MemoryStorage Unit :=
  if length ≤ maxBlocks then
    Exec.modify fun s => { s with blocks := resize s.blocks length fill }
  else
    Exec.abort

/-- `save_block`. -/
def saveBlock (block : Block) : Exec PacyteError MemoryStorage Unit := do
  let s ← Exec.get
  let height := block.header.height
  if s.blocks.length ≤ height.toNat then
    let length ← Exec.addU64 height 1
    let now ← Exec.onPart (·.clock) (fun c s => { s with clock := c }) currentTimestamp
    resizeBlocks length.toNat (Block.genesis now)
  Exec.modify fun s => { s with blocks := s.blocks.set height.toNat block }

/-- `save_account`, and `delete_account` for `none`. -/
def putAccount (address : Address) (account : Option Account) (s : MemoryStorage) :
    MemoryStorage :=
  { s with accounts := match account with
      | some acc => s.accounts.insert address acc
      | none => s.accounts.erase address }

/-- `save_transaction`. -/
def putTransaction (tx : Transaction) (s : MemoryStorage) : MemoryStorage :=
  { s with transactions := s.transactions.insert tx.hash tx }

/-- `save_state_root`. -/
def putStateRoot (height : BlockHeight) (root : Hash) (s : MemoryStorage) : MemoryStorage :=
  { s with stateRoots := s.stateRoots.insert height root }

/-- A loop that runs a storage operation for every element of a list. -/
def forEach {α : Type} (op : α → Exec PacyteError MemoryStorage Unit) :
    List α → Exec PacyteError MemoryStorage Unit
  | [] => return ()
  | a :: rest => do
    op a
    forEach op rest

instance : Storage MemoryStorage where
  saveBlock := saveBlock
  getBlock height := do
    let s ← Exec.get
    return s.blocks[height.toNat]?
  getLatestBlock := do
    let s ← Exec.get
    return s.blocks.getLast?
  getBlockHeight := do
    let s ← Exec.get
    return UInt64.ofNat (s.blocks.length - 1)
  saveTransaction tx := Exec.modify (putTransaction tx)
  getTransaction hash := do
    let s ← Exec.get
    return s.transactions.lookup hash
  saveAccount address account := Exec.modify (putAccount address (some account))
  getAccount address := do
    let s ← Exec.get
    return s.accounts.lookup address
  deleteAccount address := Exec.modify (putAccount address none)
  accountExists address := do
    let s ← Exec.get
    return (s.accounts.lookup address).isSome
  saveStateRoot height root := Exec.modify (putStateRoot height root)
  getStateRoot height := do
    let s ← Exec.get
    return s.stateRoots.lookup height
  writeBatch batch := do
    forEach (fun e => saveBlock e.2) batch.blocks
    forEach (fun e => Exec.modify (putTransaction e.2)) batch.transactions
    forEach (fun e => Exec.modify (putAccount e.1 e.2)) batch.accounts
    forEach (fun e => Exec.modify (putStateRoot e.1 e.2)) batch.stateRoots

/-! ## The laws -/

omit [Primitives] in
/-- A loop of plain updates succeeds and makes them in order. -/
theorem forEach_modify {α : Type} (f : α → MemoryStorage → MemoryStorage) (l : List α)
    (s : MemoryStorage) :
    forEach (fun a => Exec.modify (f a)) l s = (.ok (), l.foldl (fun s a => f a s) s) := by
  induction l generalizing s with
  | nil => rfl
  | cons a rest ih =>
      rw [forEach, Exec.run_bind, Exec.run_modify, List.foldl_cons]
      exact ih (f a s)

omit [Primitives] in
theorem lookup_putAccount (address : Address) (account : Option Account) (s : MemoryStorage) :
    (putAccount address account s).accounts.lookup
      = Function.update s.accounts.lookup address account := by
  funext x
  by_cases hx : x = address
  · subst hx
    cases account <;> simp [putAccount]
  · cases account <;> simp [putAccount, hx, AList.lookup_insert_ne, AList.lookup_erase_ne]

omit [Primitives] in
theorem foldl_putAccount (entries : List (Address × Option Account)) (s : MemoryStorage) :
    (entries.foldl (fun s e => putAccount e.1 e.2 s) s).accounts.lookup
        = writeAccounts s.accounts.lookup entries ∧
      (entries.foldl (fun s e => putAccount e.1 e.2 s) s).blocks = s.blocks := by
  induction entries generalizing s with
  | nil => exact ⟨rfl, rfl⟩
  | cons e rest ih =>
      rw [List.foldl_cons, writeAccounts, ← lookup_putAccount]
      exact ih (putAccount e.1 e.2 s)

omit [Primitives] in
/-- A part of the storage that no update of a list touches. -/
theorem foldl_keeps {α β : Type} (part : MemoryStorage → β) (f : α → MemoryStorage → MemoryStorage)
    (hf : ∀ a s, part (f a s) = part s) (l : List α) (s : MemoryStorage) :
    part (l.foldl (fun s a => f a s) s) = part s := by
  induction l generalizing s with
  | nil => rfl
  | cons a rest ih => rw [List.foldl_cons, ih, hf]

/-- The storage after the updates of a batch without blocks. -/
def written (batch : WriteBatch) (s : MemoryStorage) : MemoryStorage :=
  batch.stateRoots.foldl (fun s e => putStateRoot e.1 e.2 s)
    (batch.accounts.foldl (fun s e => putAccount e.1 e.2 s)
      (batch.transactions.foldl (fun s e => putTransaction e.2 s) s))

theorem writeBatch_run (batch : WriteBatch) (h : batch.blocks = []) (s : MemoryStorage) :
    Storage.writeBatch batch s = (.ok (), written batch s) := by
  simp only [Storage.writeBatch, h, forEach, Exec.run_bind, Exec.run_pure,
    forEach_modify (fun e : Hash × Transaction => putTransaction e.2),
    forEach_modify (fun e : Address × Option Account => putAccount e.1 e.2),
    forEach_modify (fun e : BlockHeight × Hash => putStateRoot e.1 e.2)]
  rfl

theorem blocks_written (batch : WriteBatch) (s : MemoryStorage) :
    (written batch s).blocks = s.blocks := by
  rw [written, foldl_keeps blocks (fun e : BlockHeight × Hash => putStateRoot e.1 e.2) (fun _ _ => rfl),
    (foldl_putAccount _ _).2,
    foldl_keeps blocks (fun e : Hash × Transaction => putTransaction e.2) (fun _ _ => rfl)]

theorem accounts_written (batch : WriteBatch) (s : MemoryStorage) :
    (written batch s).accounts.lookup = writeAccounts s.accounts.lookup batch.accounts := by
  rw [written, foldl_keeps accounts (fun e : BlockHeight × Hash => putStateRoot e.1 e.2) (fun _ _ => rfl),
    (foldl_putAccount _ _).1,
    foldl_keeps accounts (fun e : Hash × Transaction => putTransaction e.2) (fun _ _ => rfl)]

instance : LawfulStorage MemoryStorage where
  accountAt s := s.accounts.lookup
  blockAt s height := s.blocks[height.toNat]?
  getAccount_view _ _ := ⟨rfl, rfl⟩
  getAccount_eq _ _ _ h := by
    cases h
    rfl
  getAccount_ne_panic _ _ h := by cases h
  saveStateRoot_view _ _ _ := ⟨rfl, rfl⟩
  writeBatch_ok batch s hblocks _ := by
    rw [writeBatch_run batch hblocks s]
    refine ⟨accounts_written batch s, ?_⟩
    funext height
    rw [blocks_written]

/-! ## The latest block -/

/-- The vector ends at the height of its last block. -/
def Tall (s : MemoryStorage) : Prop :=
  ∃ b, s.blocks.getLast? = some b ∧ s.blocks.length = b.header.height.toNat + 1

/-- The last block of the vector. -/
def latest (s : MemoryStorage) : Block := s.blocks.getLast?.getD (Block.genesis 0)

/-- `save_block` returns no error, and appends a block whose height is the length
of the vector. -/
theorem saveBlock_spec (block : Block) (s : MemoryStorage) :
    Exec.Post (saveBlock block) s fun o s' =>
      match o with
      | .ok _ => s.blocks.length = block.header.height.toNat → s'.blocks = s.blocks ++ [block]
      | .err _ => False
      | .panic => True := by
  unfold saveBlock
  simp only [Exec.post_bind, Exec.post_get]
  by_cases hle : s.blocks.length ≤ block.header.height.toNat
  · rw [if_pos hle]
    simp only [Exec.post_bind, Exec.post_addU64, Exec.post_onPart, resizeBlocks, Exec.post_ite]
    refine ⟨fun hfit => ⟨fun _ h => ?_, fun _ => trivial⟩, fun _ => trivial⟩
    have hlen : (block.header.height + 1).toNat = block.header.height.toNat + 1 :=
      Exec.toNat_add_of_fits hfit
    simp [resize, hlen, ← h]
  · rw [if_neg hle]
    exact fun h => absurd h.le hle

theorem tall_congr {s s' : MemoryStorage} (h : s'.blocks = s.blocks) (hs : Tall s) :
    Tall s' ∧ s'.latest = s.latest := by
  refine ⟨?_, ?_⟩
  · unfold Tall
    rw [h]
    exact hs
  · rw [latest, latest, h]

/-- No operation but `save_block` touches what depends on the blocks alone. -/
theorem dependable {β : Type} {Good : MemoryStorage → Prop} {view : MemoryStorage → β}
    (h : ∀ s s' : MemoryStorage, s'.blocks = s.blocks → Good s → Good s' ∧ view s' = view s) :
    Storage.Dependable Good view where
  getLatestBlock := fun s hs => h s _ rfl hs
  getBlockHeight := fun s hs => h s _ rfl hs
  getAccount := fun _ s hs => h s _ rfl hs
  saveStateRoot := fun _ _ s hs => h s _ rfl hs
  writeBatch := by
    intro batch hblocks s hs
    rw [writeBatch_run batch hblocks s]
    exact h s _ (blocks_written batch s) hs
  writeBatch_noErr := by
    rintro batch s hblocks - ⟨e, he⟩
    rw [writeBatch_run batch hblocks s] at he
    cases he
  saveBlock_noErr := by
    rintro block s - ⟨e, he⟩
    have hspec := saveBlock_spec block s
    rw [Exec.Post, show (saveBlock block s).1 = .err e from he] at hspec
    exact hspec

/-- **The in-memory storage keeps its latest block**: a chain without gaps is
stored without gaps. -/
theorem keepsLatest : Storage.KeepsLatest Tall latest where
  toDependable := dependable fun _ _ h hs => tall_congr h hs
  getLatestBlock_eq := by
    rintro s r ⟨b, hb, -⟩ h
    cases h
    rw [latest, hb]
    rfl
  saveBlock := by
    rintro block s ⟨b, hb, hlen⟩ hnext hok
    have hlatest : s.latest = b := by
      rw [latest, hb]
      rfl
    have hspec := saveBlock_spec block s
    rw [Exec.Post, show (saveBlock block s).1 = .ok () from hok] at hspec
    have happ := hspec (by rw [hlen, hnext, hlatest])
    have hlast : (Storage.saveBlock block s).2.blocks = s.blocks ++ [block] := happ
    refine ⟨⟨block, ?_, ?_⟩, ?_⟩
    · rw [hlast, List.getLast?_concat]
    · rw [hlast, List.length_append, hlen, hnext, hlatest]
      rfl
    · rw [latest, hlast, List.getLast?_concat]
      rfl

/-- The height that `get_block_height` returns. -/
def saved (s : MemoryStorage) : BlockHeight := UInt64.ofNat (s.blocks.length - 1)

/-- The in-memory storage reports the height of its last block. -/
theorem keepsHeight : Storage.KeepsHeight (fun _ => True) saved where
  toDependable := dependable fun s s' h _ => ⟨trivial, by rw [saved, saved, h]⟩
  getBlockHeight_eq := fun _ _ => rfl
  saveBlock := fun _ _ _ _ => trivial

end MemoryStorage
