/-
# The blocks of a snapshot

`SnapshotManager::save_blocks` of `src/storage/snapshot.rs` writes the blocks up to a height as
length-prefixed records, and `restore_blocks` reads them back.

A storage that has every block up to the height, each with the height that it is stored at, is
restored into an empty in-memory storage block for block (`restore_saved`), if it answers and if
the vector has room for the blocks.  A database with a damaged handle does not answer, and a
vector takes `isize::MAX` bytes (`not_always_restored`).
-/
import Pacyte.SnapshotRestore
import Pacyte.WalRecovery

open Exec

/-- `bincode::serialize` of a block, or the text of the error. -/
class BlockSerializer where
  serializeBlock : Block → Except String Bytes

namespace SnapshotManager

/-! ## Saving -/

/-- The heights of the loop `0..=max_height`. -/
def heightsUpTo (maxHeight : BlockHeight) : List BlockHeight :=
  (List.range (maxHeight.toNat + 1)).map UInt64.ofNat

section Save

variable {σ : Type} [Storage σ] [BlockSerializer]

/-- The loop of `save_blocks`, with the bytes that are written so far. -/
def saveLoop : List BlockHeight → Bytes → Exec PacyteError σ Bytes
  | [], file => return file
  | height :: rest, file => do
    match ← Storage.getBlock height with
    | none => saveLoop rest file
    | some block =>
      match BlockSerializer.serializeBlock block with
      | .error e => Exec.throw (.diskIoFailure e)
      | .ok bytes => saveLoop rest (file ++ frame bytes)

/-- `save_blocks`, with the bytes of `blocks.bin` as its result. -/
def saveBlocks (maxHeight : BlockHeight) : Exec PacyteError σ Bytes :=
  saveLoop (heightsUpTo maxHeight) []

end Save

/-! ## What the storage holds -/

/-- A state that reads of blocks lead to. -/
inductive ReadTo {σ : Type} [Storage σ] (s : σ) : σ → Prop
  | refl : ReadTo s s
  | step {s' : σ} (height : BlockHeight) : ReadTo s s' → ReadTo s (Storage.getBlock height s').2

/-- Every block up to the height is there, and stays there when blocks are read. -/
def Holds {σ : Type} [Storage σ] (block : BlockHeight → Block) (maxHeight : BlockHeight) (s : σ) :
    Prop :=
  ∀ s', ReadTo s s' → ∀ k ≤ maxHeight, (Storage.getBlock k s').1 = .ok (some (block k))

/-- A read keeps the blocks. -/
theorem Holds.read {σ : Type} [Storage σ] {block : BlockHeight → Block} {maxHeight : BlockHeight}
    {s : σ} (h : Holds block maxHeight s) (k : BlockHeight) :
    Holds block maxHeight (Storage.getBlock k s).2 := by
  intro s' hread
  refine h s' ?_
  induction hread with
  | refl => exact ReadTo.step k ReadTo.refl
  | step height _ ih => exact ReadTo.step height ih

/-- What holds before every read and is kept by it may take the place of the states. -/
theorem holds_of_invariant {σ : Type} [Storage σ] {block : BlockHeight → Block}
    {maxHeight : BlockHeight} {I : σ → Prop} {s : σ} (hs : I s)
    (hkeep : ∀ k s, I s → I (Storage.getBlock k s).2)
    (hget : ∀ k ≤ maxHeight, ∀ s, I s → (Storage.getBlock k s).1 = .ok (some (block k))) :
    Holds block maxHeight s := by
  intro s' hread
  have hs' : I s' := by
    induction hread with
    | refl => exact hs
    | step height _ ih => exact hkeep height _ ih
  exact fun k hk => hget k hk s' hs'

/-- The in-memory storage holds what its vector does. -/
theorem holds_memory [Primitives] {block : BlockHeight → Block} {maxHeight : BlockHeight}
    {s : MemoryStorage} (h : ∀ k ≤ maxHeight, s.blocks[k.toNat]? = some (block k)) :
    Holds block maxHeight s :=
  holds_of_invariant (I := fun s' => s'.blocks = s.blocks) rfl (fun _ _ hs' => hs')
    fun k hk s' hs' => congrArg Outcome.ok (by rw [hs', h k hk])

/-! ## The file -/

section File

variable [SnapshotCodec] [BlockSerializer]

/-- The block is written as fewer than `2 ^ 32` bytes. -/
def Encodes (block : Block) (bytes : Bytes) : Prop :=
  BlockSerializer.serializeBlock block = .ok bytes ∧ bytes.length < 2 ^ 32

/-- `bincode` reads back what it has written. -/
def RoundTrips : Prop :=
  ∀ block bytes, Encodes block bytes → SnapshotCodec.deserializeBlock bytes = .ok block

omit [BlockSerializer] in
/-- A frame in front of records is a record. -/
theorem records_frame {bytes rest : Bytes} {block : Block} {blocks : List Block}
    (hlen : bytes.length < 2 ^ 32) (hread : SnapshotCodec.deserializeBlock bytes = .ok block)
    (h : Records rest blocks) : Records (frame bytes ++ rest) (block :: blocks) := by
  have hlength : readLength (frame bytes ++ rest) = bytes.length := by
    rw [frame, List.append_assoc, WalManager.readLength_leBytes]
    exact Nat.mod_eq_of_lt hlen
  have hdrop : (frame bytes ++ rest).drop 4 = bytes ++ rest := by
    rw [frame, List.append_assoc, List.drop_left' (length_leBytes 4 _)]
  refine Records.cons ?_ ?_ ?_ ?_
  · rw [List.length_append, WalManager.length_frame]
    omega
  · rw [hlength, hdrop, List.length_append]
    omega
  · rw [hlength, hdrop, List.take_left' rfl, hread]
  · rw [hlength, hdrop, List.drop_left' rfl]
    exact h

/-- The loop writes a record for each height. -/
theorem saveLoop_records {σ : Type} [Storage σ] (hround : RoundTrips)
    {block : BlockHeight → Block} {maxHeight : BlockHeight}
    (hshort : ∀ k ≤ maxHeight, ∃ bytes, Encodes (block k) bytes) (heights : List BlockHeight)
    (hle : ∀ k ∈ heights, k ≤ maxHeight) (file : Bytes) {s : σ} (hs : Holds block maxHeight s) :
    ∃ bytes, (saveLoop heights file s).1 = .ok (file ++ bytes) ∧
      Records bytes (heights.map block) := by
  induction heights generalizing file s with
  | nil => exact ⟨[], by rw [List.append_nil]; rfl, Records.nil⟩
  | cons k rest ih =>
      have hk := hle k List.mem_cons_self
      obtain ⟨bytes, hbytes⟩ := hshort k hk
      obtain ⟨more, hmore, hrecords⟩ := ih (fun k' hk' => hle k' (List.mem_cons_of_mem _ hk'))
        (file ++ frame bytes) (hs.read k)
      have hget : Storage.getBlock k s = (.ok (some (block k)), (Storage.getBlock k s).2) :=
        Prod.ext (hs s ReadTo.refl k hk) rfl
      refine ⟨frame bytes ++ more, ?_, ?_⟩
      · rw [saveLoop, run_bind_of_ok hget]
        dsimp only
        rw [hbytes.1]
        dsimp only
        rw [hmore, List.append_assoc]
      · rw [List.map_cons]
        exact records_frame hbytes.2 (hround _ _ hbytes) hrecords

end File

/-! ## Reading the file -/

/-- The groups of some blocks, the last one with what is left over. -/
def groupsOf (blocks : List Block) : List (List Block) :=
  (batchesOf [] blocks).1 ++
    if (batchesOf [] blocks).2.isEmpty then [] else [(batchesOf [] blocks).2]

theorem flatten_groupsOf (blocks : List Block) : (groupsOf blocks).flatten = blocks := by
  have hall := flatten_batchesOf blocks []
  have hlast : (if (batchesOf [] blocks).2.isEmpty then []
      else [(batchesOf [] blocks).2]).flatten = (batchesOf [] blocks).2 := by
    cases (batchesOf [] blocks).2 with
    | nil => rfl
    | cons b rest => exact List.append_nil _
  rw [groupsOf, List.flatten_append, hlast, hall, List.nil_append]

/-- `restore_blocks` of complete records writes the groups of their blocks. -/
theorem restoreBlocks_records {σ : Type} [Storage σ] [SnapshotCodec] {bytes : Bytes}
    {blocks : List Block} (h : Records bytes blocks) :
    restoreBlocks (σ := σ) (some bytes) = writeBlocks (groupsOf blocks) := by
  have hloop := restoreLoop_eq (σ := σ) (bytes.length + 1) bytes []
  rw [(decodeRecords_complete _ bytes (Nat.lt_succ_self _) blocks).mpr h] at hloop
  unfold restoreBlocks
  dsimp only
  rw [show WriteBatch.new = WriteBatch.ofBlocks [] from rfl, hloop, groupsOf, writeBlocks_append,
    bind_assoc]
  congr 1
  funext _
  show (if (WriteBatch.ofBlocks (batchesOf [] blocks).2).isEmpty then pure ()
    else Storage.writeBatch (WriteBatch.ofBlocks (batchesOf [] blocks).2)) = _
  rw [WriteBatch.isEmpty_ofBlocks]
  cases (batchesOf [] blocks).2 with
  | nil => rfl
  | cons b rest =>
      funext s
      show Storage.writeBatch (WriteBatch.ofBlocks (b :: rest)) s =
        (Storage.writeBatch (WriteBatch.ofBlocks (b :: rest)) >>= fun _ => pure ()) s
      rw [run_bind]
      rcases (Storage.writeBatch (WriteBatch.ofBlocks (b :: rest)) : Exec PacyteError σ Unit) s with
        ⟨_ | _ | _, s'⟩ <;> rfl

end SnapshotManager

/-! ## The restored blocks -/

/-- A key whose writes all have one value. -/
theorem overwrite_eq {κ ν : Type} [DecidableEq κ] {f : κ → ν} {writes : List (κ × ν)} {k : κ}
    {v : ν} (hmem : ∃ w ∈ writes, w.1 = k) (hv : ∀ w ∈ writes, w.1 = k → w.2 = v) :
    overwrite f writes k = v := by
  have hall : ∀ (writes : List (κ × ν)) (g : κ → ν), g k = v →
      (∀ w ∈ writes, w.1 = k → w.2 = v) → overwrite g writes k = v := by
    intro writes
    induction writes with
    | nil => exact fun g hg _ => hg
    | cons w rest ih =>
        intro g hg hrest
        refine ih _ ?_ fun w' hw' => hrest w' (List.mem_cons_of_mem _ hw')
        show Function.update g w.1 w.2 k = v
        by_cases hk : w.1 = k
        · rw [← hk, Function.update_self]
          exact hrest w List.mem_cons_self hk
        · rw [Function.update_of_ne (Ne.symm hk), hg]
  obtain ⟨w, hw, hk⟩ := hmem
  rw [overwrite_apply_congr (g := fun _ => v) fun hnone => absurd hk (hnone w hw)]
  exact hall writes _ rfl hv

namespace SnapshotManager

theorem mem_heightsUpTo {maxHeight k : BlockHeight} : k ∈ heightsUpTo maxHeight ↔ k ≤ maxHeight := by
  rw [heightsUpTo, List.mem_map, UInt64.le_iff_toNat_le]
  constructor
  · rintro ⟨n, hn, rfl⟩
    rw [List.mem_range] at hn
    have hmax := maxHeight.toNat_lt
    rw [UInt64.toNat_ofNat', Nat.mod_eq_of_lt (by omega)]
    omega
  · intro hk
    exact ⟨k.toNat, List.mem_range.mpr (by omega), UInt64.ofNat_toNat⟩

section Restore

variable [Primitives] {block : BlockHeight → Block} {maxHeight : BlockHeight}

/-- The blocks up to a height fit into an empty vector if the last one does. -/
theorem placeAll_heightsUpTo (hkeys : ∀ k ≤ maxHeight, (block k).header.height = k) (clock : Clock) :
    (maxHeight.toNat < MemoryStorage.maxBlocks →
      ∃ p, MemoryStorage.placeAll ((heightsUpTo maxHeight).map block) ([], clock) = some p ∧
        p.1.length = maxHeight.toNat + 1 ∧ ∀ k ≤ maxHeight, p.1[k.toNat]? = some (block k)) ∧
      (MemoryStorage.maxBlocks ≤ maxHeight.toNat →
        MemoryStorage.placeAll ((heightsUpTo maxHeight).map block) ([], clock) = none) := by
  have hindex : ∀ k ≤ maxHeight, MemoryStorage.index (block k) = k.toNat := fun k hk => by
    rw [MemoryStorage.index, hkeys k hk]
  refine ⟨fun hroom => ?_, fun hfull => ?_⟩
  · have hstorable : ∀ b ∈ (heightsUpTo maxHeight).map block, MemoryStorage.Storable b := by
      intro b hb
      obtain ⟨k, hk, rfl⟩ := List.mem_map.mp hb
      rw [mem_heightsUpTo] at hk
      rw [MemoryStorage.Storable, hindex k hk]
      exact lt_of_le_of_lt (UInt64.le_iff_toNat_le.mp hk) hroom
    obtain ⟨p, hplace⟩ := MemoryStorage.placeAll_of_storable hstorable ([], clock)
    have hspec := fun i => MemoryStorage.placeAll_eq_some hplace i
    have hex : ∀ k ≤ maxHeight, block k ∈ (heightsUpTo maxHeight).map block := fun k hk =>
      List.mem_map.mpr ⟨k, mem_heightsUpTo.mpr hk, rfl⟩
    refine ⟨p, hplace, ?_, fun k hk => ?_⟩
    · -- the highest index is the last height
      have hlt : ∀ i, i < p.1.length ↔ i ≤ maxHeight.toNat := by
        intro i
        rw [(hspec i).1]
        constructor
        · rintro (h | ⟨b, hb, hi⟩)
          · exact absurd h (Nat.not_lt_zero i)
          · obtain ⟨k, hk, rfl⟩ := List.mem_map.mp hb
            rw [mem_heightsUpTo] at hk
            rw [hindex k hk] at hi
            exact hi.trans (UInt64.le_iff_toNat_le.mp hk)
        · intro hi
          refine Or.inr ⟨block maxHeight, hex maxHeight (UInt64.le_refl _), ?_⟩
          rw [hindex maxHeight (UInt64.le_refl _)]
          exact hi
      have hge := (hlt maxHeight.toNat).mpr (Nat.le_refl _)
      have hnot : ¬ maxHeight.toNat + 1 < p.1.length := fun h => by
        have := (hlt (maxHeight.toNat + 1)).mp h
        omega
      omega
    · rw [(hspec k.toNat).2 (Or.inr ⟨block k, hex k hk, hindex k hk⟩)]
      refine overwrite_eq ⟨(k.toNat, some (block k)), ?_, rfl⟩ ?_
      · exact List.mem_map.mpr ⟨block k, hex k hk, by rw [hindex k hk]⟩
      · intro w hw hkey
        obtain ⟨b, hb, rfl⟩ := List.mem_map.mp hw
        obtain ⟨k', hk', rfl⟩ := List.mem_map.mp hb
        rw [mem_heightsUpTo] at hk'
        have hsame : k' = k := UInt64.toNat_inj.mp (by rw [← hindex k' hk']; exact hkey)
        rw [hsame]
  · refine (MemoryStorage.placeAll_eq_none_iff _ ([], clock) (Nat.zero_le _)).mpr
      ⟨block maxHeight, ?_, ?_⟩
    · exact List.mem_map.mpr ⟨maxHeight, mem_heightsUpTo.mpr (UInt64.le_refl _), rfl⟩
    · rw [MemoryStorage.Storable, hindex maxHeight (UInt64.le_refl _)]
      exact not_lt.mpr hfull

variable [SnapshotCodec] [BlockSerializer]

omit [Primitives] in
/-- The saved file is complete records of the blocks. -/
theorem saveBlocks_records {σ : Type} [Storage σ] (hround : RoundTrips)
    (hshort : ∀ k ≤ maxHeight, ∃ bytes, Encodes (block k) bytes) {s : σ}
    (hs : Holds block maxHeight s) :
    ∃ file, (saveBlocks maxHeight s).1 = .ok file ∧
      Records file ((heightsUpTo maxHeight).map block) :=
  saveLoop_records hround hshort (heightsUpTo maxHeight) (fun _ hk => mem_heightsUpTo.mp hk) [] hs

/-- **Snapshot blocks come back**: what was saved up to a height is restored into an empty
in-memory storage, block for block and with that height. -/
theorem restore_saved {σ : Type} [Storage σ] (hround : RoundTrips)
    (hlast : maxHeight.toNat < MemoryStorage.maxBlocks) {s : σ} (hs : Holds block maxHeight s)
    (hkeys : ∀ k ≤ maxHeight, (block k).header.height = k)
    (hshort : ∀ k ≤ maxHeight, ∃ bytes, Encodes (block k) bytes) (clock : Clock) :
    ∃ file, (saveBlocks maxHeight s).1 = .ok file ∧
      Exec.Post (restoreBlocks (some file)) (MemoryStorage.new clock) fun o m =>
        o = .ok () ∧ (∀ k ≤ maxHeight, (Storage.getBlock k m).1 = .ok (some (block k))) ∧
          (Storage.getBlockHeight m).1 = .ok maxHeight := by
  obtain ⟨file, hfile, hrecords⟩ := saveBlocks_records hround hshort hs
  refine ⟨file, hfile, ?_⟩
  rw [restoreBlocks_records hrecords]
  refine (MemoryStorage.writeBlocks_spec _ (MemoryStorage.new clock)).mono fun o m hwrites => ?_
  obtain ⟨p, hplace, hlength, hget⟩ := (placeAll_heightsUpTo hkeys clock).1 hlast
  rw [flatten_groupsOf, show ((MemoryStorage.new clock).blocks, (MemoryStorage.new clock).clock)
    = ([], clock) from rfl, hplace] at hwrites
  obtain ⟨hok, hblocks, -⟩ := hwrites
  refine ⟨hok, fun k hk => ?_, ?_⟩
  · show Outcome.ok m.blocks[k.toNat]? = _
    rw [hblocks, hget k hk]
  · show Outcome.ok (UInt64.ofNat (m.blocks.length - 1)) = _
    rw [hblocks, hlength, Nat.add_sub_cancel, UInt64.ofNat_toNat]

/-- With a block that the vector has no room for, the restore panics. -/
theorem restore_full {σ : Type} [Storage σ] (hround : RoundTrips)
    (hfull : MemoryStorage.maxBlocks ≤ maxHeight.toNat) {s : σ} (hs : Holds block maxHeight s)
    (hkeys : ∀ k ≤ maxHeight, (block k).header.height = k)
    (hshort : ∀ k ≤ maxHeight, ∃ bytes, Encodes (block k) bytes) (clock : Clock) :
    ∃ file, (saveBlocks maxHeight s).1 = .ok file ∧
      (restoreBlocks (some file) (MemoryStorage.new clock)).1 = .panic := by
  obtain ⟨file, hfile, hrecords⟩ := saveBlocks_records hround hshort hs
  refine ⟨file, hfile, ?_⟩
  rw [restoreBlocks_records hrecords]
  have hwrites := MemoryStorage.writeBlocks_spec (groupsOf ((heightsUpTo maxHeight).map block))
    (MemoryStorage.new clock)
  rw [Exec.Post, flatten_groupsOf, show ((MemoryStorage.new clock).blocks,
    (MemoryStorage.new clock).clock) = ([], clock) from rfl,
    (placeAll_heightsUpTo hkeys clock).2 hfull] at hwrites
  exact hwrites

end Restore

end SnapshotManager

/-! ## Two blocks, and too many of them -/

section Example

open scoped Sample
open Sample SnapshotManager

/-- The layout of `bincode` for blocks. -/
noncomputable scoped instance Layout.codec : SnapshotCodec where
  parseManifest _ := .error "expected value"
  deserializeBlock bytes := open scoped Classical in
    if h : ∃ block, encodeBlock block = bytes then .ok h.choose else .error "io error"

scoped instance Layout.serializer : BlockSerializer where
  serializeBlock block := .ok (encodeBlock block)

open scoped Layout

theorem layout_roundTrips : RoundTrips := by
  rintro block bytes ⟨hbytes, hlen⟩
  obtain rfl := Except.ok.inj hbytes
  have hex : ∃ b, encodeBlock b = encodeBlock block := ⟨block, rfl⟩
  have hlen' : (encodeBlock block ++ []).length < 2 ^ 64 := by
    rw [List.append_nil]
    omega
  have hsame : block = hex.choose := (prefixCode_block block hex.choose [] [] hlen' (by
    rw [hex.choose_spec])).1
  exact (dif_pos hex).trans (by rw [← hsame])

/-- A chain of two blocks is saved and restored. -/
theorem two_blocks_restored :
    ∃ file, (saveBlocks 1 (⟨[blockZero, blockOne], ∅, ∅, ∅, fun _ => 0⟩ : MemoryStorage)).1
        = .ok file ∧
      Exec.Post (restoreBlocks (some file)) (MemoryStorage.new fun _ => 5) fun o m =>
        o = .ok () ∧
          (∀ k ≤ 1, (Storage.getBlock k m).1 = .ok (some (if k = 0 then blockZero else blockOne))) ∧
          (Storage.getBlockHeight m).1 = .ok 1 := by
  have hle : ∀ k : BlockHeight, k ≤ 1 → k = 0 ∨ k = 1 := fun k hk => by
    rw [UInt64.le_iff_toNat_le] at hk
    rcases Nat.le_one_iff_eq_zero_or_eq_one.mp hk with h | h
    · exact Or.inl (UInt64.toNat_inj.mp h)
    · exact Or.inr (UInt64.toNat_inj.mp h)
  refine restore_saved layout_roundTrips (by decide) (holds_memory fun k hk => ?_) (fun k hk => ?_)
    (fun k hk => ?_) _
  · rcases hle k hk with rfl | rfl <;> rfl
  · rcases hle k hk with rfl | rfl <;> rfl
  · refine ⟨_, rfl, ?_⟩
    rcases hle k hk with rfl | rfl <;>
      simp [blockOne, blockZero, Block.genesis, Block.new, encodeBlock, encodeHeader, encodeBody,
        encodeBytes]

/-- A block at a height. -/
def blockAtHeight (height : BlockHeight) : Block :=
  { blockZero with header := { blockZero.header with height := height } }

theorem nodup_heightsUpTo (maxHeight : BlockHeight) : (heightsUpTo maxHeight).Nodup := by
  refine (List.nodup_range).map_on fun n hn n' hn' h => ?_
  rw [List.mem_range] at hn hn'
  have hmax := maxHeight.toNat_lt
  have hnat := congrArg UInt64.toNat h
  rwa [UInt64.toNat_ofNat', UInt64.toNat_ofNat', Nat.mod_eq_of_lt (by omega),
    Nat.mod_eq_of_lt (by omega)] at hnat

/-- The blocks up to a height, as the column family of a database. -/
def chainUpTo (maxHeight : BlockHeight) : Map BlockHeight Block where
  entries := (heightsUpTo maxHeight).map fun k => ⟨k, blockAtHeight k⟩
  nodupKeys := by
    rw [List.NodupKeys, List.keys, List.map_map]
    exact (List.map_id (heightsUpTo maxHeight)).symm ▸ nodup_heightsUpTo maxHeight

/-- A database with these blocks, and nothing in its caches. -/
def chainDatabase (maxHeight : BlockHeight) : RocksDBStorage :=
  { RocksDBStorage.new fun _ => none with cfBlocks := chainUpTo maxHeight }

theorem lookup_chainUpTo {maxHeight k : BlockHeight} (hk : k ≤ maxHeight) :
    (chainUpTo maxHeight).lookup k = some (blockAtHeight k) :=
  AList.mem_lookup_iff.mpr (List.mem_map.mpr ⟨k, mem_heightsUpTo.mpr hk, rfl⟩)

/-- What reads of blocks keep in it. -/
structure ChainUpTo (maxHeight : BlockHeight) (r : RocksDBStorage) : Prop where
  blocks : r.cfBlocks = chainUpTo maxHeight
  cache : ∀ k b, r.blockCache.lookup k = some b → b = blockAtHeight k
  healthy : r.Healthy
  sound : r.blocksDamaged = false

theorem getBlock_chainUpTo {maxHeight : BlockHeight} (k : BlockHeight) {r : RocksDBStorage}
    (h : ChainUpTo maxHeight r) :
    ChainUpTo maxHeight (Storage.getBlock k r).2 ∧
      (k ≤ maxHeight → (Storage.getBlock k r).1 = .ok (some (blockAtHeight k))) := by
  rw [show Storage.getBlock k r = RocksDBStorage.getBlock k r from rfl]
  unfold RocksDBStorage.getBlock
  rw [run_bind, run_get]
  dsimp only
  cases hk : r.blockCache.lookup k with
  | some b => exact ⟨h, fun _ => by rw [h.cache k b hk]; rfl⟩
  | none =>
      set r' : RocksDBStorage := { r with faults := fun n => r.faults (n + 1) } with hr'
      have hread : RocksDBStorage.readCf .blocks (·.cfBlocks.lookup k) r =
          (.ok ((chainUpTo maxHeight).lookup k), r') := by
        rw [RocksDBStorage.readCf_healthy .blocks _ h.healthy h.sound, ← hr',
          show r'.cfBlocks = chainUpTo maxHeight from h.blocks]
      dsimp only
      rw [RocksDBStorage.withHandle, run_bind_of_ok hread]
      cases hlookup : (chainUpTo maxHeight).lookup k with
      | none =>
          refine ⟨⟨h.blocks, h.cache, fun n => h.healthy (n + 1), h.sound⟩, fun hle => ?_⟩
          rw [lookup_chainUpTo hle] at hlookup
          cases hlookup
      | some b =>
          have hb : b = blockAtHeight k := by
            obtain ⟨k', -, heq⟩ := List.mem_map.mp (AList.mem_lookup_iff.mp hlookup)
            cases heq
            rfl
          refine ⟨⟨h.blocks, fun k' b' hb' => ?_, fun n => h.healthy (n + 1), h.sound⟩,
            fun _ => by rw [hb]; rfl⟩
          by_cases hkk : k' = k
          · subst hkk
            have hsame : some b = some b' := (AList.lookup_insert _).symm.trans hb'
            rw [← Option.some.inj hsame, hb]
          · exact h.cache k' b' ((AList.lookup_insert_ne hkk).symm.trans hb')

theorem holds_chainDatabase (maxHeight : BlockHeight) :
    Holds blockAtHeight maxHeight (chainDatabase maxHeight) := by
  have hstart : ChainUpTo maxHeight (chainDatabase maxHeight) :=
    ⟨rfl, fun k b hb => absurd hb (by rintro ⟨⟩), fun _ => rfl, rfl⟩
  exact holds_of_invariant hstart (fun k r hr => (getBlock_chainUpTo k hr).1)
    fun k hk r hr => (getBlock_chainUpTo k hr).2 hk

/-- Two snapshots that do not come back.  The first is of a database of two blocks that was asked
for its height before: it crashes when it is asked for a block.  The second has a block more than
the vector has room for. -/
theorem not_always_restored :
    ((saveBlocks 1 (Storage.getBlockHeight (chainDatabase 1)).2).1 = .panic ∧
      ∀ k ≤ 1, (Storage.getBlockHeight (chainDatabase 1)).2.cfBlocks.lookup k
        = some (blockAtHeight k)) ∧
      ∃ file, (saveBlocks 46116860184273879 (chainDatabase 46116860184273879)).1 = .ok file ∧
        (restoreBlocks (some file) (MemoryStorage.new fun _ => 0)).1 = .panic := by
  refine ⟨⟨?_, fun k hk => lookup_chainUpTo hk⟩, ?_⟩
  · rfl
  · refine restore_full layout_roundTrips (Nat.le_refl _) (holds_chainDatabase _)
      (fun _ _ => rfl) (fun k _ => ⟨_, rfl, ?_⟩) _
    simp [blockAtHeight, blockZero, Block.genesis, Block.new, encodeBlock, encodeHeader, encodeBody,
      encodeBytes]

end Example
