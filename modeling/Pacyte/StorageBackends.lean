/-
# Two storages side by side

`MemoryStorage` keeps the chain as a vector that grows, `RocksDBStorage` as a map of blocks
and the height that was saved last.  Run the same operations on both, reads and writes: as long
as no operation comes to use a damaged handle of RocksDB, the vector has room for the blocks,
batches leave no gap in the chain, and `get_latest_block` is not asked for a genesis block
without an account of the zero address, every read gives the same result on both
(`backends_agree`).

Each of the conditions is needed: a damaged handle crashes, a gap is filled with genesis blocks
by the one and left open by the other, and `get_latest_block` takes the zero account for a sign
that there is a genesis block.

Every database call succeeds here.
-/
import Pacyte.StorageCaches
import Pacyte.CommitCertificate
import Pacyte.BatchReplay

section Backends

variable [Primitives]

/-! ## The conditions -/

namespace MemoryStorage

/-- The zero address has an account. -/
def HasZero (m : MemoryStorage) : Prop := (m.accounts.lookup zero32).isSome = true

instance (m : MemoryStorage) : Decidable m.HasZero := inferInstanceAs (Decidable (_ = true))

/-- Once the blocks are written there is no gap below the block. -/
def NoGap (m : MemoryStorage) (entries : List (BlockHeight × Block)) (block : Block) : Prop :=
  ∀ i < index block, i < m.blocks.length ∨ ∃ e ∈ entries, index e.2 = i

instance (m : MemoryStorage) (entries : List (BlockHeight × Block)) (block : Block) :
    Decidable (m.NoGap entries block) := inferInstanceAs (Decidable (∀ _ < _, _))

/-- The operation means the same to both storages. -/
def Fits (m : MemoryStorage) : StorageOp → Prop
  | .saveBlock block => Storable block
  | .getLatestBlock => m.blocks.length = 1 → m.HasZero
  | .writeBatch batch =>
      (∀ e ∈ batch.blocks, e.1 = e.2.header.height ∧ Storable e.2 ∧ m.NoGap batch.blocks e.2) ∧
      ∀ e ∈ batch.transactions, e.1 = e.2.hash
  | _ => True

instance (m : MemoryStorage) (op : StorageOp) : Decidable (m.Fits op) := by
  cases op <;> unfold Fits <;> infer_instance

end MemoryStorage

namespace RocksDBStorage

omit [Primitives] in
instance (r : RocksDBStorage) (height : BlockHeight) : Decidable (r.Readable height) :=
  inferInstanceAs (Decidable (_ ∨ _))

/-- The operation does not come to use a damaged handle.  `get_latest_block` damages the handle
of the blocks itself, before it reads one. -/
def Serves (r : RocksDBStorage) : StorageOp → Prop
  | .saveBlock _ => r.blocksDamaged = false ∧ r.metadataDamaged = false
  | .getBlock height => r.Readable height
  | .getBlockHeight => r.metadataDamaged = false
  | .getLatestBlock => r.metadataDamaged = false ∧
      (r.saved = 0 ∧ (r.cfAccounts.lookup zero32).isSome = false ∨
        (r.blockCache.lookup r.saved).isSome = true)
  | .writeBatch batch => batch.blocks ≠ [] → r.blocksDamaged = false
  | _ => True

instance (r : RocksDBStorage) (op : StorageOp) : Decidable (r.Serves op) := by
  cases op <;> unfold Serves <;> infer_instance

end RocksDBStorage

/-- The two storages. -/
abbrev Backends : Type := MemoryStorage × RocksDBStorage

namespace Backends

/-- Both run the operation. -/
def after (op : StorageOp) (p : Backends) : Backends := (op.after p.1, op.after p.2)

/-- The operation fits, and RocksDB gets through it. -/
def Fits (p : Backends) (op : StorageOp) : Prop := p.1.Fits op ∧ p.2.Serves op

instance (p : Backends) (op : StorageOp) : Decidable (p.Fits op) :=
  inferInstanceAs (Decidable (_ ∧ _))

/-- A read gives the same result on both. -/
def SameResult (p : Backends) : StorageOp → Prop
  | .getBlock height => (Storage.getBlock height p.1).1 = (Storage.getBlock height p.2).1
  | .getBlockHeight => (Storage.getBlockHeight p.1).1 = (Storage.getBlockHeight p.2).1
  | .getLatestBlock => (Storage.getLatestBlock p.1).1 = (Storage.getLatestBlock p.2).1
  | .getTransaction hash =>
      (Storage.getTransaction hash p.1).1 = (Storage.getTransaction hash p.2).1
  | .getAccount address => (Storage.getAccount address p.1).1 = (Storage.getAccount address p.2).1
  | .accountExists address =>
      (Storage.accountExists address p.1).1 = (Storage.accountExists address p.2).1
  | .getStateRoot height => (Storage.getStateRoot height p.1).1 = (Storage.getStateRoot height p.2).1
  | _ => True

end Backends

/-- **The relation of the two states.**  It speaks of the blocks and of the height only as far as
RocksDB can still be asked for them. -/
structure Match (m : MemoryStorage) (r : RocksDBStorage) : Prop where
  healthy : r.Healthy
  coherent : r.Coherent
  blocks : ∀ height, r.Readable height → r.cfBlocks.lookup height = m.blocks[height.toNat]?
  saved : r.metadataDamaged = false → r.saved = m.saved
  /-- As long as nothing is damaged, no block was saved. -/
  fresh : r.blocksDamaged = false → r.metadataDamaged = false → m.blocks = []
  room : m.blocks.length ≤ MemoryStorage.maxBlocks
  transactions : r.cfTransactions.lookup = m.transactions.lookup
  accounts : r.cfAccounts.lookup = m.accounts.lookup
  stateRoots : r.cfStateRoots.lookup = m.stateRoots.lookup

/-! ## Maps and writes -/

section Maps

variable {κ ν : Type} [DecidableEq κ]

omit [Primitives] in
theorem Map.lookup_erase_eq (m : Map κ ν) (k : κ) :
    (m.erase k).lookup = Function.update m.lookup k none := by
  funext x
  by_cases hx : x = k
  · subst hx
    rw [AList.lookup_erase, Function.update_self]
  · rw [AList.lookup_erase_ne hx, Function.update_of_ne hx]

omit [Primitives] in
/-- Insertions are writes. -/
theorem Map.lookup_foldl_insert (m : Map κ ν) (entries : List (κ × ν)) :
    (entries.foldl (fun m e => m.insert e.1 e.2) m).lookup
      = overwrite m.lookup (entries.map fun e => (e.1, some e.2)) := by
  induction entries generalizing m with
  | nil => rfl
  | cons e entries ih =>
      rw [List.foldl_cons, ih, MemoryStorage.lookup_insert_eq_update]
      rfl

omit [Primitives] in
/-- A key that is not written keeps its value. -/
theorem overwrite_of_notMem {κ ν : Type} [DecidableEq κ] (f : κ → ν) {writes : List (κ × ν)} {k : κ}
    (h : ∀ w ∈ writes, w.1 ≠ k) : overwrite f writes k = f k := by
  induction writes generalizing f with
  | nil => rfl
  | cons w rest ih =>
      refine (ih _ fun w' hw' => h w' (List.mem_cons_of_mem w hw')).trans ?_
      exact Function.update_of_ne (h w List.mem_cons_self).symm _ _

omit [Primitives] in
/-- The same blocks, written by height and written by index. -/
theorem overwrite_index {entries : List (BlockHeight × Block)}
    (hkeys : ∀ e ∈ entries, e.1 = e.2.header.height) {f : BlockHeight → Option Block}
    {g : ℕ → Option Block} (h : ∀ height, f height = g height.toNat) (height : BlockHeight) :
    overwrite f (entries.map fun e => (e.1, some e.2)) height
      = overwrite g (MemoryStorage.blockWrites (entries.map Prod.snd)) height.toNat := by
  induction entries generalizing f g with
  | nil => exact h height
  | cons e rest ih =>
      refine ih (fun e' he' => hkeys e' (List.mem_cons_of_mem e he')) fun k => ?_
      have hindex : MemoryStorage.index e.2 = e.1.toNat := by
        rw [hkeys e List.mem_cons_self]
        rfl
      show Function.update f e.1 (some e.2) k
        = Function.update g (MemoryStorage.index e.2) (some e.2) k.toNat
      rw [hindex]
      by_cases hk : k = e.1
      · rw [hk, Function.update_self, Function.update_self]
      · rw [Function.update_of_ne hk, Function.update_of_ne fun hn => hk (UInt64.toNat_inj.mp hn), h]

end Maps

/-! ## Reads of the database -/

namespace RocksDBStorage

omit [Primitives] in
theorem read_healthy {α : Type} (f : RocksDBStorage → α) {r : RocksDBStorage} (h : r.Healthy) :
    read f r = (.ok (f { r with faults := fun k => r.faults (k + 1) }),
      { r with faults := fun k => r.faults (k + 1) }) := by
  unfold read
  rw [Exec.run_bind_of_ok (call_healthy id h)]
  rfl

omit [Primitives] in
theorem readCf_healthy {α : Type} (family : ColumnFamily) (f : RocksDBStorage → α)
    {r : RocksDBStorage} (h : r.Healthy) (hsound : r.damaged family = false) :
    readCf family f r = (.ok (f { r with faults := fun k => r.faults (k + 1) }),
      { r with faults := fun k => r.faults (k + 1) }) := by
  unfold readCf
  rw [Exec.run_bind_of_ok (use_sound hsound), read_healthy f h]

omit [Primitives] in
theorem callCf_healthy (family : ColumnFamily) (f : RocksDBStorage → RocksDBStorage)
    {r : RocksDBStorage} (h : r.Healthy) (hsound : r.damaged family = false) :
    callCf family f r = (.ok (), f { r with faults := fun k => r.faults (k + 1) }) := by
  unfold callCf
  rw [Exec.run_bind_of_ok (use_sound hsound), call_healthy f h]

omit [Primitives] in
/-- The height, and what is left of the handle of the blocks. -/
theorem getBlockHeight_healthy {r : RocksDBStorage} (h : r.Healthy)
    (hsound : r.metadataDamaged = false) :
    getBlockHeight r = (.ok r.saved,
      { r with faults := fun k => r.faults (k + 1), blocksDamaged := true }) := by
  unfold getBlockHeight withHandle
  rw [Exec.run_bind_of_ok (readCf_healthy .metadata _ h hsound)]
  rfl

omit [Primitives] in
/-- On a working database an answer is what the database holds. -/
theorem Answers.eq_ok {α : Type} {r : RocksDBStorage} {o : Outcome PacyteError α} {content : α}
    (h : Answers r o content) (hr : r.Healthy) : o = .ok content := by
  rcases h with hok | ⟨message, hfault, -⟩
  · exact hok
  · rw [hr 0] at hfault
    cases hfault

/-- What a read leaves as it is; and what can be asked for afterwards could be asked for
before. -/
structure Unwritten (r r' : RocksDBStorage) : Prop where
  cfBlocks : r'.cfBlocks = r.cfBlocks
  cfTransactions : r'.cfTransactions = r.cfTransactions
  cfAccounts : r'.cfAccounts = r.cfAccounts
  cfStateRoots : r'.cfStateRoots = r.cfStateRoots
  blockHeight : r'.blockHeight = r.blockHeight
  faults : r.Healthy → r'.Healthy
  readable : ∀ height, r'.Readable height → r.Readable height
  blocksDamaged : r'.blocksDamaged = false → r.blocksDamaged = false
  metadataDamaged : r'.metadataDamaged = false → r.metadataDamaged = false

instance : Std.Refl Unwritten := ⟨fun _ => ⟨rfl, rfl, rfl, rfl, rfl, id, fun _ => id, id, id⟩⟩

instance : IsTrans RocksDBStorage Unwritten :=
  ⟨fun _ _ _ h h' => ⟨h'.cfBlocks.trans h.cfBlocks, h'.cfTransactions.trans h.cfTransactions,
    h'.cfAccounts.trans h.cfAccounts, h'.cfStateRoots.trans h.cfStateRoots,
    h'.blockHeight.trans h.blockHeight, fun hr => h'.faults (h.faults hr),
    fun height hr => h.readable height (h'.readable height hr),
    fun hr => h.blocksDamaged (h'.blocksDamaged hr),
    fun hr => h.metadataDamaged (h'.metadataDamaged hr)⟩⟩

omit [Primitives] in
/-- A drop takes something away. -/
theorem drop_unwritten (family : ColumnFamily) (r : RocksDBStorage) :
    Unwritten r (r.drop family) := by
  cases family with
  | metadata =>
      exact ⟨rfl, rfl, rfl, rfl, rfl, id, fun _ h => h.imp id (by rintro ⟨⟩), by rintro ⟨⟩, id⟩
  | transactions => exact ⟨rfl, rfl, rfl, rfl, rfl, id, fun _ => id, id, by rintro ⟨⟩⟩
  | blocks => exact refl_of Unwritten r
  | accounts => exact refl_of Unwritten r
  | stateRoots => exact refl_of Unwritten r

omit [Primitives] in
theorem read_unwritten {α : Type} (f : RocksDBStorage → α) : Exec.Within Unwritten (read f) := by
  intro r
  have hshift : Unwritten r { r with faults := fun k => r.faults (k + 1) } :=
    ⟨rfl, rfl, rfl, rfl, rfl, fun hr k => hr (k + 1), fun _ => id, id, id⟩
  have hpost : Exec.Post (read f) r fun _ r' => Unwritten r r' := by
    rw [read_spec]
    cases r.faults 0 with
    | some message => exact hshift
    | none => exact hshift
  exact hpost

omit [Primitives] in
theorem readCf_unwritten {α : Type} (family : ColumnFamily) (f : RocksDBStorage → α) :
    Exec.Within Unwritten (withHandle family (readCf family f)) :=
  within_withHandle (drop_unwritten family) (within_readCf (read_unwritten f))

omit [Primitives] in
theorem getBlock_unwritten (height : BlockHeight) : Exec.Within Unwritten (getBlock height) := by
  intro r
  have hpost : Exec.Post (getBlock height) r fun _ r' => Unwritten r r' := by
    unfold getBlock
    rw [Exec.post_bind, Exec.post_get]
    dsimp only
    cases r.blockCache.lookup height with
    | some block => exact refl_of Unwritten r
    | none =>
        dsimp only
        rw [post_withHandle, Exec.post_bind]
        cases hdamaged : r.blocksDamaged with
        | true =>
            rw [post_readCf_damaged (show r.damaged .blocks = true from hdamaged)]
            exact refl_of Unwritten r
        | false =>
            rw [post_readCf_sound (show r.damaged .blocks = false from hdamaged), read_spec]
            have hkept : ∀ cache : Map BlockHeight Block, Unwritten r { r with
                faults := fun k => r.faults (k + 1), blockCache := cache } := fun _ =>
              ⟨rfl, rfl, rfl, rfl, rfl, fun hr k => hr (k + 1), fun _ _ => Or.inr hdamaged, id, id⟩
            cases r.faults 0 with
            | some message => exact hkept r.blockCache
            | none =>
                dsimp only
                cases r.cfBlocks.lookup height with
                | none => exact hkept r.blockCache
                | some block => exact hkept (r.blockCache.insert height block)
  exact hpost

omit [Primitives] in
theorem getAccount_unwritten (address : Address) : Exec.Within Unwritten (getAccount address) := by
  refine Exec.Within.get.bind fun r => ?_
  cases r.accountCache.lookup address with
  | some account => exact Exec.Within.pure _
  | none =>
      refine within_withHandle (drop_unwritten .accounts)
        ((within_readCf (read_unwritten _)).bind fun stored => ?_)
      cases stored with
      | none => exact Exec.Within.pure _
      | some account =>
          exact Exec.Within.bind (R := Unwritten)
            (fun _ => ⟨rfl, rfl, rfl, rfl, rfl, id, fun _ => id, id, id⟩) fun _ =>
            Exec.Within.pure _

omit [Primitives] in
theorem accountExists_unwritten (address : Address) :
    Exec.Within Unwritten (accountExists address) :=
  Exec.Within.get.bind fun _ => Exec.Within.ite (Exec.Within.pure _)
    (within_withHandle (drop_unwritten .accounts)
      ((within_readCf (read_unwritten _)).bind fun _ => Exec.Within.pure _))

omit [Primitives] in
theorem getBlockHeight_unwritten : Exec.Within Unwritten getBlockHeight :=
  within_withHandle (drop_unwritten .metadata)
    ((within_readCf (read_unwritten _)).bind fun _ => Exec.Within.pure _)

omit [Primitives] in
theorem getLatestBlock_unwritten : Exec.Within Unwritten getLatestBlock := by
  refine getBlockHeight_unwritten.bind fun height => Exec.Within.ite ?_ (getBlock_unwritten _)
  exact (accountExists_unwritten zero32).bind fun _ =>
    Exec.Within.ite (getBlock_unwritten _) (Exec.Within.pure _)

omit [Primitives] in
/-- A block of the cache. -/
theorem getBlock_cached {height : BlockHeight} {r : RocksDBStorage} (hc : r.Coherent)
    (hcached : (r.blockCache.lookup height).isSome = true) :
    (getBlock height r).1 = .ok (r.cfBlocks.lookup height) := by
  obtain ⟨block, hblock⟩ := Option.isSome_iff_exists.mp hcached
  unfold getBlock
  rw [Exec.run_bind, Exec.run_get]
  dsimp only
  rw [hblock, hc.blocks.lookup_eq hblock]
  rfl

omit [Primitives] in
/-- Looking for an account on a working database. -/
theorem accountExists_healthy (address : Address) {r : RocksDBStorage} (h : r.Healthy)
    (hc : r.Coherent) :
    ∃ r', accountExists address r = (.ok (r.cfAccounts.lookup address).isSome, r') ∧
      r'.Coherent ∧ r'.blockCache = r.blockCache ∧ r'.cfBlocks = r.cfBlocks := by
  have hspec := accountExists_coherent address hc
  refine ⟨(accountExists address r).2, Prod.ext (hspec.2.eq_ok h) rfl, hspec.1, ?_⟩
  have hkept : Exec.Within (fun r r' : RocksDBStorage =>
      r'.blockCache = r.blockCache ∧ r'.cfBlocks = r.cfBlocks) (accountExists address) := by
    intro r
    have hpost : Exec.Post (accountExists address) r fun _ r' =>
        r'.blockCache = r.blockCache ∧ r'.cfBlocks = r.cfBlocks := by
      unfold accountExists
      rw [Exec.post_bind, Exec.post_get]
      dsimp only
      rw [Exec.post_ite, post_withHandle, Exec.post_bind, post_readCf_sound rfl, read_spec]
      refine ⟨fun _ => ⟨rfl, rfl⟩, fun _ => ?_⟩
      cases r.faults 0 with
      | some message => exact ⟨rfl, rfl⟩
      | none => exact ⟨rfl, rfl⟩
    exact hpost
  exact hkept r

omit [Primitives] in
/-- `get_latest_block` on a working database, where it gets through. -/
theorem getLatestBlock_healthy {r : RocksDBStorage} (hr : r.Healthy) (hc : r.Coherent)
    (hserves : r.Serves .getLatestBlock) :
    (getLatestBlock r).1 = .ok
      (if r.saved = 0 ∧ (r.cfAccounts.lookup zero32).isSome = false then none
        else r.cfBlocks.lookup r.saved) := by
  obtain ⟨hsound, hlast⟩ := hserves
  set r₁ : RocksDBStorage :=
    { r with faults := fun k => r.faults (k + 1), blocksDamaged := true }
  have hr₁ : r₁.Healthy := fun k => hr (k + 1)
  have hc₁ : r₁.Coherent := hc.congr rfl rfl rfl rfl
  unfold getLatestBlock
  rw [Exec.run_bind_of_ok (getBlockHeight_healthy hr hsound)]
  by_cases hfirst : r.saved = 0 ∧ (r.cfAccounts.lookup zero32).isSome = false
  · obtain ⟨r₂, hexists, -⟩ := accountExists_healthy zero32 hr₁ hc₁
    rw [if_pos hfirst, if_pos hfirst.1, Exec.run_bind_of_ok hexists, if_neg]
    · rfl
    · rw [show r₁.cfAccounts = r.cfAccounts from rfl, hfirst.2]
      exact Bool.false_ne_true
  · have hcached := hlast.resolve_left hfirst
    rw [if_neg hfirst]
    by_cases hzero : r.saved = 0
    · obtain ⟨r₂, hexists, hc₂, hcache, hblocks⟩ := accountExists_healthy zero32 hr₁ hc₁
      have hpresent : (r₁.cfAccounts.lookup zero32).isSome = true :=
        eq_true_of_ne_false fun hnone => hfirst ⟨hzero, hnone⟩
      rw [if_pos hzero, Exec.run_bind_of_ok hexists, if_pos hpresent]
      rw [getBlock_cached hc₂ (by rw [hcache]; exact hcached), hblocks]
    · rw [if_neg hzero]
      exact getBlock_cached hc₁ hcached

end RocksDBStorage

/-! ## Matching states answer alike -/

omit [Primitives] in
/-- The height of the vector, as a word. -/
theorem MemoryStorage.toNat_saved {m : MemoryStorage} (h : m.blocks.length ≤ maxBlocks) :
    m.saved.toNat = m.blocks.length - 1 := by
  unfold maxBlocks at h
  rw [MemoryStorage.saved, UInt64.toNat_ofNat']
  omega

namespace Match

variable {m : MemoryStorage} {r : RocksDBStorage}

/-- **A read that fits gives the same result.** -/
theorem sameResult (h : Match m r) {op : StorageOp} (hfit : Backends.Fits (m, r) op) :
    Backends.SameResult (m, r) op := by
  obtain ⟨hfits, hserves⟩ := hfit
  cases op with
  | getBlock height =>
      show Outcome.ok m.blocks[height.toNat]? = (RocksDBStorage.getBlock height r).1
      rw [((RocksDBStorage.getBlock_coherent height h.coherent).2.1 hserves).eq_ok h.healthy,
        h.blocks height hserves]
  | getBlockHeight =>
      show Outcome.ok m.saved = (RocksDBStorage.getBlockHeight r).1
      rw [RocksDBStorage.getBlockHeight_healthy h.healthy hserves, h.saved hserves]
  | getLatestBlock =>
      show Outcome.ok m.blocks.getLast? = (RocksDBStorage.getLatestBlock r).1
      rw [RocksDBStorage.getLatestBlock_healthy h.healthy h.coherent hserves,
        List.getLast?_eq_getElem?, ← MemoryStorage.toNat_saved h.room, ← h.saved hserves.1]
      congr 1
      split_ifs with hfirst
      · -- there is no block: the zero account would be there
        have hsaved := MemoryStorage.toNat_saved h.room
        rw [← h.saved hserves.1, hfirst.1, UInt64.toNat_zero] at hsaved
        have hne : m.blocks.length ≠ 1 := fun hone => by
          have hzero : (m.accounts.lookup zero32).isSome = true := hfits hone
          have hsame : r.cfAccounts.lookup zero32 = m.accounts.lookup zero32 :=
            congrFun h.accounts zero32
          rw [← hsame, hfirst.2] at hzero
          cases hzero
        rw [hfirst.1, UInt64.toNat_zero, List.getElem?_eq_none]
        omega
      · exact (h.blocks r.saved (Or.inl (hserves.2.resolve_left hfirst))).symm
  | getTransaction hash =>
      have hread : (Storage.getTransaction hash r).1 = .ok (r.cfTransactions.lookup hash) :=
        congrArg Prod.fst
          (RocksDBStorage.readCf_healthy .transactions (·.cfTransactions.lookup hash) h.healthy rfl)
      exact (congrArg Outcome.ok (congrFun h.transactions hash).symm).trans hread.symm
  | getAccount address =>
      have hread := (RocksDBStorage.getAccount_coherent address h.coherent).2.eq_ok h.healthy
      exact (congrArg Outcome.ok (congrFun h.accounts address).symm).trans hread.symm
  | accountExists address =>
      have hread := (RocksDBStorage.accountExists_coherent address h.coherent).2.eq_ok h.healthy
      have hsame := congrArg Option.isSome (congrFun h.accounts address)
      exact (congrArg Outcome.ok hsame.symm).trans hread.symm
  | getStateRoot height =>
      have hread : (Storage.getStateRoot height r).1 = .ok (r.cfStateRoots.lookup height) :=
        congrArg Prod.fst
          (RocksDBStorage.readCf_healthy .stateRoots (·.cfStateRoots.lookup height) h.healthy rfl)
      exact (congrArg Outcome.ok (congrFun h.stateRoots height).symm).trans hread.symm
  | saveBlock block => trivial
  | saveTransaction tx => trivial
  | saveAccount address account => trivial
  | deleteAccount address => trivial
  | saveStateRoot height root => trivial
  | writeBatch batch => trivial

/-! ## One operation -/

omit [Primitives] in
/-- A read changes nothing that the relation speaks of. -/
theorem unwritten (h : Match m r) {r' : RocksDBStorage} (hr : RocksDBStorage.Unwritten r r')
    (hc : r'.Coherent) : Match m r' where
  healthy := hr.faults h.healthy
  coherent := hc
  blocks height hread := by
    rw [hr.cfBlocks]
    exact h.blocks height (hr.readable height hread)
  saved hsound := by
    rw [RocksDBStorage.saved, hr.blockHeight]
    exact h.saved (hr.metadataDamaged hsound)
  fresh hblocks hsound := h.fresh (hr.blocksDamaged hblocks) (hr.metadataDamaged hsound)
  room := h.room
  transactions := by
    rw [hr.cfTransactions]
    exact h.transactions
  accounts := by
    rw [hr.cfAccounts]
    exact h.accounts
  stateRoots := by
    rw [hr.cfStateRoots]
    exact h.stateRoots

end Match

namespace RocksDBStorage

/-- What `save_block` leaves behind on a working database, however the counters end. -/
structure Stored (block : Block) (r r' : RocksDBStorage) : Prop where
  healthy : r'.Healthy
  cfBlocks : r'.cfBlocks = r.cfBlocks.insert block.header.height block
  blockCache : r'.blockCache = r.blockCache.insert block.header.height block
  blockHeight : r'.blockHeight = some block.header.height
  blocksDamaged : r'.blocksDamaged = true
  cfTransactions : r'.cfTransactions = r.cfTransactions
  cfAccounts : r'.cfAccounts = r.cfAccounts
  cfStateRoots : r'.cfStateRoots = r.cfStateRoots

omit [Primitives] in
theorem saveBlock_stored (block : Block) {r : RocksDBStorage} (h : r.Healthy)
    (hblocks : r.blocksDamaged = false) (hmetadata : r.metadataDamaged = false) :
    Exec.Post (saveBlock block) r fun _ r' => Stored block r r' := by
  have hf : ∀ k, r.faults k = none := h
  unfold saveBlock
  rw [post_withHandle, Exec.post_bind,
    post_callCf_sound (show r.damaged .blocks = false from hblocks), post_call, hf]
  dsimp only
  rw [Exec.post_bind, Exec.post_modify]
  dsimp only
  rw [Exec.post_bind, writeMetadata, post_withHandle, post_callCf_sound, post_call]
  · dsimp only
    rw [hf]
    dsimp only [drop]
    -- the counters are all that is left
    unfold incrementStat read
    simp only [Exec.post_bind, post_call, Exec.post_get, Exec.post_modify, Exec.post_pure,
      Exec.post_addU64, hf, id]
    exact ⟨fun _ => ⟨fun _ => ⟨fun _ => rfl, rfl, rfl, rfl, rfl, rfl, rfl, rfl⟩,
      fun _ => ⟨fun _ => rfl, rfl, rfl, rfl, rfl, rfl, rfl, rfl⟩⟩,
      fun _ => ⟨fun _ => rfl, rfl, rfl, rfl, rfl, rfl, rfl, rfl⟩⟩
  · exact hmetadata

/-- What `save_transaction` leaves behind on a working database. -/
structure Indexed (tx : Transaction) (r r' : RocksDBStorage) : Prop where
  healthy : r'.Healthy
  cfBlocks : r'.cfBlocks = r.cfBlocks
  blockCache : r'.blockCache = r.blockCache
  blocksDamaged : r'.blocksDamaged = r.blocksDamaged
  metadataDamaged : r'.metadataDamaged = true
  cfTransactions : r'.cfTransactions = r.cfTransactions.insert tx.hash tx
  cfAccounts : r'.cfAccounts = r.cfAccounts
  cfStateRoots : r'.cfStateRoots = r.cfStateRoots

theorem saveTransaction_indexed (tx : Transaction) {r : RocksDBStorage} (h : r.Healthy) :
    Exec.Post (Storage.saveTransaction tx) r fun _ r' => Indexed tx r r' := by
  have hf : ∀ k, r.faults k = none := h
  simp only [Storage.saveTransaction]
  rw [post_withHandle, Exec.post_bind, post_callCf_sound rfl, post_call, hf]
  dsimp only [drop]
  simp only [incrementStat, read, Exec.post_bind, post_call, Exec.post_get, Exec.post_pure,
    Exec.post_addU64, hf, id]
  exact ⟨fun _ => ⟨fun _ => rfl, rfl, rfl, rfl, rfl, rfl, rfl, rfl⟩,
    fun _ => ⟨fun _ => rfl, rfl, rfl, rfl, rfl, rfl, rfl, rfl⟩⟩

omit [Primitives] in
/-- A change of the accounts, in the database and in the cache. -/
theorem changeAccount_healthy (f g : RocksDBStorage → RocksDBStorage) {r : RocksDBStorage}
    (h : r.Healthy) :
    withHandle .accounts (callCf .accounts f >>= fun _ => Exec.modify g) r
      = (.ok (), g (f { r with faults := fun k => r.faults (k + 1) })) := by
  unfold withHandle
  rw [Exec.run_bind_of_ok (callCf_healthy .accounts f h rfl)]
  rfl

/-- A batch on a working database, with the handles that it needs. -/
theorem writeBatch_healthy {batch : WriteBatch} {r : RocksDBStorage} (h : r.Healthy)
    (hserves : batch.blocks ≠ [] → r.blocksDamaged = false) :
    Storage.writeBatch batch r = (.ok (), { putBatch batch r with
      faults := fun k => r.faults (k + 1)
      blockCache := batch.blocks.foldl (fun m e => m.insert e.1 e.2) r.blockCache
      accountCache := batch.accounts.foldl putAccount r.accountCache
      metadataDamaged := true }) := by
  have hsound : ¬ (batch.blocks ≠ [] ∧ r.blocksDamaged = true) := fun h' =>
    ne_true_of_eq_false (hserves h'.1) h'.2
  have hspec := (post_writeBatch batch r fun o r' =>
    (o, r') = (.ok (), { putBatch batch r with
      faults := fun k => r.faults (k + 1)
      blockCache := batch.blocks.foldl (fun m e => m.insert e.1 e.2) r.blockCache
      accountCache := batch.accounts.foldl putAccount r.accountCache
      metadataDamaged := true })).mpr ⟨fun h' => absurd h' hsound, fun _ => by rw [h 0]⟩
  exact hspec

omit [Primitives] in
theorem lookup_foldl_putAccount (entries : List (Address × Option Account))
    (db : Map Address Account) :
    (entries.foldl putAccount db).lookup = overwrite db.lookup entries := by
  induction entries generalizing db with
  | nil => rfl
  | cons e entries ih =>
      obtain ⟨address, account⟩ := e
      rw [List.foldl_cons, ih]
      refine congrArg (overwrite · entries) ?_
      cases account with
      | some account => exact MemoryStorage.lookup_insert_eq_update db address account
      | none => exact Map.lookup_erase_eq db address

end RocksDBStorage

/-- Where there was room for the vector and there is for the blocks, there still is. -/
theorem MemoryStorage.length_placeAll_le {blocks : List Block}
    (hstorable : ∀ block ∈ blocks, Storable block) {p q : List Block × Clock}
    (hplace : placeAll blocks p = some q) (hroom : p.1.length ≤ maxBlocks) :
    q.1.length ≤ maxBlocks := by
  by_contra hlong
  -- the last index belongs to one of the blocks, or was there before
  rcases (placeAll_eq_some hplace maxBlocks).1.mp (not_le.mp hlong) with hold | ⟨block, hmem, hle⟩
  · exact absurd hroom (not_le.mpr hold)
  · exact absurd (hstorable block hmem) (not_lt.mpr hle)

namespace Match

variable {m : MemoryStorage} {r : RocksDBStorage}

/-- **The first block** is saved by both: before, there was none. -/
theorem saveBlock (h : Match m r) {block : Block} (hroom : MemoryStorage.Storable block)
    (hblocks : r.blocksDamaged = false) (hmetadata : r.metadataDamaged = false) :
    Match (MemoryStorage.saveBlock block m).2 (RocksDBStorage.saveBlock block r).2 := by
  have hempty := h.fresh hblocks hmetadata
  obtain ⟨p, hplace⟩ : ∃ p, MemoryStorage.place block (m.blocks, m.clock) = some p := by
    have hall : ∀ b ∈ [block], MemoryStorage.Storable b := List.forall_mem_singleton.mpr hroom
    obtain ⟨q, hq⟩ := MemoryStorage.placeAll_of_storable hall (m.blocks, m.clock)
    obtain ⟨p, hp, -⟩ := Option.bind_eq_some_iff.mp hq
    exact ⟨p, hp⟩
  have hrun := MemoryStorage.saveBlock_run block m
  rw [hplace] at hrun
  dsimp only at hrun
  obtain ⟨hlength, hself, -⟩ := MemoryStorage.place_eq_some hplace
  rw [hempty, List.length_nil, Nat.zero_max] at hlength
  have hr := RocksDBStorage.saveBlock_stored block h.healthy hblocks hmetadata
  have hcoherent := RocksDBStorage.Coherent.after h.coherent (.saveBlock block)
  unfold Exec.Post at hr
  rw [hrun]
  constructor
  · exact hr.healthy
  · exact hcoherent
  · intro height hread
    -- only what is cached can be read, and that is the new block
    rcases hread with hcached | hsound
    · rw [hr.blockCache] at hcached
      rw [hr.cfBlocks]
      by_cases heq : height = block.header.height
      · rw [heq, AList.lookup_insert]
        exact hself.symm
      · rw [AList.lookup_insert_ne heq] at hcached
        obtain ⟨b, hb⟩ := Option.isSome_iff_exists.mp hcached
        have hold := h.blocks height (Or.inl hcached)
        rw [h.coherent.blocks.lookup_eq hb, hempty] at hold
        cases hold
    · rw [hr.blocksDamaged] at hsound
      cases hsound
  · intro _
    show RocksDBStorage.saved _ = UInt64.ofNat (p.1.length - 1)
    rw [RocksDBStorage.saved, hr.blockHeight, hlength, Option.getD_some, Nat.add_sub_cancel,
      MemoryStorage.index, UInt64.ofNat_toNat]
  · intro hsound
    rw [hr.blocksDamaged] at hsound
    cases hsound
  · show p.1.length ≤ _
    rw [hlength]
    exact hroom
  · rw [hr.cfTransactions]
    exact h.transactions
  · rw [hr.cfAccounts]
    exact h.accounts
  · rw [hr.cfStateRoots]
    exact h.stateRoots

/-- **The blocks of a batch**, which leave no gap: the vector and the map look alike. -/
theorem placed {batch : WriteBatch} (hfits : m.Fits (.writeBatch batch))
    {cf : Map BlockHeight Block} (hcf : ∀ height, cf.lookup height = m.blocks[height.toNat]?)
    {p : List Block × Clock}
    (hplace : MemoryStorage.placeAll (batch.blocks.map Prod.snd) (m.blocks, m.clock) = some p)
    (height : BlockHeight) :
    (batch.blocks.foldl (fun m e => m.insert e.1 e.2) cf).lookup height
      = p.1[height.toNat]? := by
  obtain ⟨hblocks, -⟩ := hfits
  obtain ⟨hlen, hget⟩ := MemoryStorage.placeAll_eq_some hplace height.toNat
  refine (congrFun (Map.lookup_foldl_insert cf batch.blocks) height).trans ?_
  rw [overwrite_index (fun e he => (hblocks e he).1) hcf]
  by_cases hknown : height.toNat < m.blocks.length ∨
      ∃ block ∈ batch.blocks.map Prod.snd, MemoryStorage.index block = height.toNat
  · exact (hget hknown).symm
  · rw [not_or] at hknown
    rw [overwrite_of_notMem, List.getElem?_eq_none (not_lt.mp hknown.1), List.getElem?_eq_none]
    · -- a higher block would leave a gap here
      rw [← not_lt, hlen]
      rintro (hold | ⟨block, hmem, hle⟩)
      · exact hknown.1 hold
      · obtain ⟨e, he, rfl⟩ := List.mem_map.mp hmem
        rcases Nat.lt_or_eq_of_le hle with hlt | heq
        · rcases (hblocks e he).2.2 height.toNat hlt with hold | ⟨e', he', hindex⟩
          · exact hknown.1 hold
          · exact hknown.2 ⟨e'.2, List.mem_map_of_mem he', hindex⟩
        · exact hknown.2 ⟨e.2, hmem, heq.symm⟩
    · intro w hw heq
      obtain ⟨block, hmem, rfl⟩ := List.mem_map.mp hw
      exact hknown.2 ⟨block, hmem, heq⟩

/-- A batch that leaves no gap is written by both. -/
theorem writeBatch (h : Match m r) {batch : WriteBatch} (hfits : m.Fits (.writeBatch batch))
    (hserves : batch.blocks ≠ [] → r.blocksDamaged = false) :
    Match (Storage.writeBatch batch m).2 (Storage.writeBatch batch r).2 := by
  have hstorable : ∀ block ∈ batch.blocks.map Prod.snd, MemoryStorage.Storable block := by
    intro block hmem
    obtain ⟨e, he, rfl⟩ := List.mem_map.mp hmem
    exact (hfits.1 e he).2.1
  obtain ⟨p, hplace⟩ := MemoryStorage.placeAll_of_storable hstorable (m.blocks, m.clock)
  have hmemory := MemoryStorage.writes_writeBatch batch m
  unfold MemoryStorage.Writes at hmemory
  rw [hplace] at hmemory
  obtain ⟨-, hp, hwrote⟩ := hmemory
  set m' := (Storage.writeBatch batch m).2
  have hvector : m'.blocks = p.1 := congrArg Prod.fst hp
  have hcoherent := RocksDBStorage.Coherent.after h.coherent (.writeBatch batch)
  change ((Storage.writeBatch batch r).2).Coherent at hcoherent
  rw [RocksDBStorage.writeBatch_healthy h.healthy hserves] at hcoherent ⊢
  constructor
  · exact fun k => h.healthy (k + 1)
  · exact hcoherent
  · intro height hread
    rw [hvector]
    by_cases hnil : batch.blocks = []
    · rw [hnil] at hplace
      obtain rfl := Option.some.inj hplace
      have hread' : r.Readable height := by
        rcases hread with hcached | hblocks
        · dsimp only at hcached
          rw [hnil] at hcached
          exact Or.inl hcached
        · exact Or.inr hblocks
      show (batch.blocks.foldl (fun m e => m.insert e.1 e.2) r.cfBlocks).lookup height = _
      rw [hnil]
      exact h.blocks height hread'
    · exact placed hfits (fun k => h.blocks k (Or.inr (hserves hnil))) hplace height
  · exact fun hmetadata => absurd hmetadata.symm Bool.false_ne_true
  · exact fun _ hmetadata => absurd hmetadata.symm Bool.false_ne_true
  · rw [hvector]
    exact MemoryStorage.length_placeAll_le hstorable hplace h.room
  · show (batch.transactions.foldl (fun m e => m.insert e.1 e.2) r.cfTransactions).lookup = _
    rw [Map.lookup_foldl_insert, hwrote.transactions, h.transactions, MemoryStorage.transactionWrites]
    congr 1
    exact List.map_congr_left fun e he => by rw [hfits.2 e he]
  · show (batch.accounts.foldl RocksDBStorage.putAccount r.cfAccounts).lookup = _
    rw [RocksDBStorage.lookup_foldl_putAccount, hwrote.accounts, h.accounts]
  · show (batch.stateRoots.foldl (fun m e => m.insert e.1 e.2) r.cfStateRoots).lookup = _
    rw [Map.lookup_foldl_insert, hwrote.stateRoots, h.stateRoots, MemoryStorage.stateRootWrites]

omit [Primitives] in
/-- A change of one of the maps, made by both. -/
theorem change (h : Match m r) {m' : MemoryStorage} {r' : RocksDBStorage}
    (hblocks : m'.blocks = m.blocks) (hhealthy : r'.Healthy) (hcoherent : r'.Coherent)
    (hcf : r'.cfBlocks = r.cfBlocks) (hcache : r'.blockCache = r.blockCache)
    (hheight : r'.metadataDamaged = false →
      r'.blockHeight = r.blockHeight ∧ r.metadataDamaged = false)
    (hdamaged : r'.blocksDamaged = r.blocksDamaged)
    (htransactions : r'.cfTransactions.lookup = m'.transactions.lookup)
    (haccounts : r'.cfAccounts.lookup = m'.accounts.lookup)
    (hroots : r'.cfStateRoots.lookup = m'.stateRoots.lookup) : Match m' r' where
  healthy := hhealthy
  coherent := hcoherent
  blocks height hread := by
    rw [RocksDBStorage.Readable, hcache, hdamaged] at hread
    rw [hcf, hblocks]
    exact h.blocks height hread
  saved hsound := by
    obtain ⟨hsame, hsound'⟩ := hheight hsound
    rw [RocksDBStorage.saved, hsame, MemoryStorage.saved, hblocks]
    exact h.saved hsound'
  fresh hsound hmetadata := by
    rw [hblocks]
    exact h.fresh (hdamaged.symm.trans hsound) (hheight hmetadata).2
  room := by
    rw [hblocks]
    exact h.room
  transactions := htransactions
  accounts := haccounts
  stateRoots := hroots

/-- **One operation that fits** keeps the relation. -/
theorem after (h : Match m r) {op : StorageOp} (hfit : Backends.Fits (m, r) op) :
    Match (op.after m) (op.after r) := by
  have hcoherent := h.coherent.after op
  obtain ⟨hfits, hserves⟩ := hfit
  cases op with
  | saveBlock block => exact h.saveBlock hfits hserves.1 hserves.2
  | getBlock height => exact h.unwritten (RocksDBStorage.getBlock_unwritten height r) hcoherent
  | getLatestBlock => exact h.unwritten (RocksDBStorage.getLatestBlock_unwritten r) hcoherent
  | getBlockHeight => exact h.unwritten (RocksDBStorage.getBlockHeight_unwritten r) hcoherent
  | saveTransaction tx =>
      have hr := RocksDBStorage.saveTransaction_indexed tx h.healthy
      unfold Exec.Post at hr
      refine h.change rfl hr.healthy hcoherent hr.cfBlocks hr.blockCache ?_ hr.blocksDamaged ?_ ?_ ?_
      · exact fun hsound => Bool.noConfusion (hr.metadataDamaged.symm.trans hsound)
      · show (Storage.saveTransaction tx r).2.cfTransactions.lookup = (m.transactions.insert _ _).lookup
        rw [hr.cfTransactions, MemoryStorage.lookup_insert_eq_update,
          MemoryStorage.lookup_insert_eq_update, h.transactions]
      · show (Storage.saveTransaction tx r).2.cfAccounts.lookup = _
        rw [hr.cfAccounts, h.accounts]
        rfl
      · show (Storage.saveTransaction tx r).2.cfStateRoots.lookup = _
        rw [hr.cfStateRoots, h.stateRoots]
        rfl
  | getTransaction hash => exact h.unwritten (RocksDBStorage.readCf_unwritten _ _ r) hcoherent
  | saveAccount address account =>
      have hr : (StorageOp.saveAccount address account).after r = { r with
          faults := fun k => r.faults (k + 1)
          cfAccounts := r.cfAccounts.insert address account
          accountCache := r.accountCache.insert address account } :=
        congrArg Prod.snd (RocksDBStorage.changeAccount_healthy _ _ h.healthy)
      rw [hr] at hcoherent ⊢
      refine h.change rfl (fun k => h.healthy (k + 1)) hcoherent rfl rfl (fun hs => ⟨rfl, hs⟩) rfl
        h.transactions ?_ h.stateRoots
      show (r.cfAccounts.insert address account).lookup = (m.accounts.insert address account).lookup
      rw [MemoryStorage.lookup_insert_eq_update, MemoryStorage.lookup_insert_eq_update, h.accounts]
  | getAccount address => exact h.unwritten (RocksDBStorage.getAccount_unwritten address r) hcoherent
  | deleteAccount address =>
      have hr : (StorageOp.deleteAccount address).after r = { r with
          faults := fun k => r.faults (k + 1)
          cfAccounts := r.cfAccounts.erase address
          accountCache := r.accountCache.erase address } :=
        congrArg Prod.snd (RocksDBStorage.changeAccount_healthy _ _ h.healthy)
      rw [hr] at hcoherent ⊢
      refine h.change rfl (fun k => h.healthy (k + 1)) hcoherent rfl rfl (fun hs => ⟨rfl, hs⟩) rfl
        h.transactions ?_ h.stateRoots
      show (r.cfAccounts.erase address).lookup = (m.accounts.erase address).lookup
      rw [Map.lookup_erase_eq, Map.lookup_erase_eq, h.accounts]
  | accountExists address =>
      exact h.unwritten (RocksDBStorage.accountExists_unwritten address r) hcoherent
  | saveStateRoot height root =>
      have hr : (StorageOp.saveStateRoot height root).after r = { r with
          faults := fun k => r.faults (k + 1)
          cfStateRoots := r.cfStateRoots.insert height root } :=
        congrArg Prod.snd (RocksDBStorage.callCf_healthy .stateRoots
          (fun s => { s with cfStateRoots := s.cfStateRoots.insert height root }) h.healthy rfl)
      rw [hr] at hcoherent ⊢
      refine h.change rfl (fun k => h.healthy (k + 1)) hcoherent rfl rfl (fun hs => ⟨rfl, hs⟩) rfl
        h.transactions h.accounts ?_
      show (r.cfStateRoots.insert height root).lookup = (m.stateRoots.insert height root).lookup
      rw [MemoryStorage.lookup_insert_eq_update, MemoryStorage.lookup_insert_eq_update, h.stateRoots]
  | getStateRoot height => exact h.unwritten (RocksDBStorage.readCf_unwritten _ _ r) hcoherent
  | writeBatch batch => exact h.writeBatch hfits hserves

omit [Primitives] in
/-- The empty storages match. -/
theorem new (clock : Clock) :
    Match (MemoryStorage.new clock) (RocksDBStorage.new fun _ => none) where
  healthy _ := rfl
  coherent := ⟨Map.CachedIn.empty _, Map.CachedIn.empty _⟩
  blocks _ _ := rfl
  saved _ := rfl
  fresh _ _ := rfl
  room := Nat.zero_le _
  transactions := rfl
  accounts := rfl
  stateRoots := rfl

end Match

/-- **The two storages agree.**  In every run of operations from the empty storages, each of
which fits in the states that it finds, every read gives the same result on both. -/
theorem backends_agree (clock : Clock) (ops : List StorageOp)
    (hfit : Runs.Along Backends.after Backends.Fits
      (MemoryStorage.new clock, RocksDBStorage.new fun _ => none) ops) :
    Runs.Along Backends.after Backends.SameResult
      (MemoryStorage.new clock, RocksDBStorage.new fun _ => none) ops :=
  hfit.imp (I := fun p : Backends => Match p.1 p.2) (fun _ _ h hfits => h.after hfits)
    (fun _ _ h hfits => h.sameResult hfits) (Match.new clock)

end Backends

section Example

open scoped Sample
open Sample

/-- The genesis block is saved into the empty storages.  The one has a latest block, the
other has none: there is no account of the zero address. -/
theorem genesis_is_hidden :
    ¬ Runs.Along Backends.after Backends.SameResult
      (MemoryStorage.new fun _ => 0, RocksDBStorage.new fun _ => none)
      [.saveBlock blockZero, .getLatestBlock] := by
  rintro ⟨-, hlatest, -⟩
  unfold Backends.SameResult at hlatest
  revert hlatest
  decide

/-- The second block is not saved by RocksDB; the gap below a block of a batch is filled by the
one and left open by the other; after a batch the height is not answered by RocksDB. -/
theorem gaps_and_heights_differ :
    let p : Backends := (MemoryStorage.new fun _ => 0, RocksDBStorage.new fun _ => none)
    ¬ Runs.Along Backends.after Backends.SameResult p
      [.saveBlock blockZero, .saveBlock blockOne, .getBlock 1] ∧
    ¬ Runs.Along Backends.after Backends.SameResult p
      [.writeBatch ⟨[(1, blockOne)], [], [], []⟩, .getBlock 0] ∧
    ¬ Runs.Along Backends.after Backends.SameResult p
      [.writeBatch ⟨[(0, blockZero), (1, blockOne)], [], [], []⟩, .getBlockHeight] := by
  intro p
  refine ⟨?_, ?_, ?_⟩
  · rintro ⟨-, -, hblock, -⟩
    unfold Backends.SameResult at hblock
    revert hblock
    decide
  · rintro ⟨-, hblock, -⟩
    unfold Backends.SameResult at hblock
    revert hblock
    decide
  · rintro ⟨-, hheight, -⟩
    unfold Backends.SameResult at hheight
    revert hheight
    decide

/-- A genesis block over the zero account with everything that can still be asked for; and a
chain that comes in batches, out of order within the first one. -/
theorem chain_on_both :
    let p : Backends := (MemoryStorage.new fun _ => 0, RocksDBStorage.new fun _ => none)
    Runs.Along Backends.after Backends.SameResult p
      [.saveAccount zero32 (Account.new zero32 0 0), .saveBlock blockZero, .getBlock 0,
        .getBlockHeight, .getLatestBlock, .saveStateRoot 0 zero32, .getStateRoot 0,
        .deleteAccount zero32, .accountExists zero32, .getBlockHeight] ∧
    Runs.Along Backends.after Backends.SameResult p
      [.writeBatch ⟨[(1, blockOne), (0, blockZero)], [], [(zero32, some (Account.new zero32 5 0))], []⟩,
        .getBlock 0, .getBlock 1, .getBlock 2, .writeBatch ⟨[(1, blockOne)], [], [(zero32, none)], []⟩,
        .getAccount zero32, .getBlock 1, .getTransaction zero32] := by
  intro p
  refine ⟨backends_agree _ _ ?_, backends_agree _ _ ?_⟩
  · refine ⟨?_, ?_, ?_, ?_, ?_, ?_, ?_, ?_, ?_, ?_, trivial⟩ <;> decide
  · refine ⟨?_, ?_, ?_, ?_, ?_, ?_, ?_, ?_, trivial⟩ <;> decide

end Example
