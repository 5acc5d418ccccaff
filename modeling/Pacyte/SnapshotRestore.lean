/-
# All or nothing

A restore should either bring in the whole snapshot or leave the storage as it was
(`AllOrNothing`).  On the RocksDB storage it writes the groups of blocks as they are read, stops
at the first database call that fails, and only afterwards finds out whether the rest of the
files is readable.  A batch does not move the stored height, and after it the handle of the
metadata is damaged, so that `get_block_height` crashes.

`restore_allOrNothing_iff` says on which snapshots and in which states the restore keeps the
law.  The files are arbitrary, and so are the failures of the database.
-/
import Pacyte.Snapshot
import Pacyte.StorageBackends
import Pacyte.BatchReplay
import Pacyte.Bincode
import Pacyte.CommitCertificate

/-! ## Placing blocks -/

/-- The stored blocks after some blocks were written, each at its own height. -/
def placeBlocks (blocks : List Block) (stored : BlockHeight → Option Block) :
    BlockHeight → Option Block :=
  overwrite stored (blocks.map fun b => (b.header.height, some b))

theorem placeBlocks_append (blocks blocks' : List Block) (stored : BlockHeight → Option Block) :
    placeBlocks (blocks ++ blocks') stored = placeBlocks blocks' (placeBlocks blocks stored) := by
  rw [placeBlocks, List.map_append, overwrite_append]
  rfl

/-- The blocks of the groups that are written before the first database call that fails. -/
def landed : (ℕ → Option String) → List (List Block) → List Block
  | _, [] => []
  | faults, group :: rest =>
    match faults 0 with
    | some _ => []
    | none => group ++ landed (fun k => faults (k + 1)) rest

/-- Grouping does not lose blocks. -/
theorem flatten_batchesOf (blocks pending : List Block) :
    (batchesOf pending blocks).1.flatten ++ (batchesOf pending blocks).2 = pending ++ blocks := by
  induction blocks generalizing pending with
  | nil =>
      rw [batchesOf, List.append_nil]
      rfl
  | cons block rest ih =>
      rw [batchesOf]
      split_ifs
      · rw [List.flatten_cons, List.append_assoc, ih, List.nil_append, List.append_assoc]
        rfl
      · rw [ih, List.append_assoc]
        rfl

/-- The groups that are full are not empty. -/
theorem ne_nil_of_mem_batchesOf {blocks pending group : List Block}
    (h : group ∈ (batchesOf pending blocks).1) : group ≠ [] := by
  induction blocks generalizing pending with
  | nil => cases h
  | cons block rest ih =>
      rw [batchesOf] at h
      split_ifs at h
      · rcases List.mem_cons.mp h with rfl | hrest
        · exact List.append_ne_nil_of_right_ne_nil _ (List.cons_ne_nil _ _)
        · exact ih hrest
      · exact ih h

namespace DecodedSnapshot

/-- No group that is written is empty. -/
theorem ne_nil_of_mem_writes {d : DecodedSnapshot} {group : List Block} (h : group ∈ d.writes) :
    group ≠ [] := by
  have hlast : group ∈ (if (batchesOf [] d.blocks).2.isEmpty then []
      else [(batchesOf [] d.blocks).2]) → group ≠ [] := by
    intro hmem hnil
    split_ifs at hmem with hempty
    · cases hmem
    · rw [← List.mem_singleton.mp hmem, hnil] at hempty
      exact hempty rfl
  rw [writes] at h
  rcases List.mem_append.mp h with hfull | hrest
  · exact ne_nil_of_mem_batchesOf hfull
  · cases hending : d.ending with
    | broken message =>
        rw [hending] at hrest
        cases hrest
    | complete =>
        rw [hending] at hrest
        exact hlast hrest
    | leftover =>
        rw [hending] at hrest
        exact hlast hrest

/-- The end of the file was reached. -/
def Unbroken (d : DecodedSnapshot) : Prop := ∀ message, d.ending ≠ .broken message

/-- `state.bin` is there and has the two totals. -/
def StateFits (d : DecodedSnapshot) : Prop := ∃ bytes, d.state = some bytes ∧ 24 ≤ bytes.length

/-- The restore gets to its end. -/
structure Succeeds (d : DecodedSnapshot) (faults : ℕ → Option String) : Prop where
  unbroken : d.Unbroken
  works : ∀ k < d.writes.length, faults k = none
  state : d.StateFits

/-- The end of a restore reads files only, and succeeds if they are good. -/
theorem finish_run {σ : Type} (d : DecodedSnapshot) (s : σ) :
    (d.finish s).2 = s ∧
      ((d.Unbroken ∧ d.StateFits ∧ (d.finish s).1 = .ok ()) ∨
        (¬ (d.Unbroken ∧ d.StateFits) ∧ (d.finish s).1.IsErr)) := by
  have hstate : (SnapshotManager.restoreState d.state s).2 = s ∧
      ((d.StateFits ∧ (SnapshotManager.restoreState d.state s).1 = .ok ()) ∨
        (¬ d.StateFits ∧ (SnapshotManager.restoreState d.state s).1.IsErr)) := by
    unfold SnapshotManager.restoreState StateFits
    cases d.state with
    | none => exact ⟨rfl, Or.inr ⟨fun ⟨_, h, _⟩ => (nomatch h), _, rfl⟩⟩
    | some bytes =>
        dsimp only
        rw [List.length_drop]
        split_ifs with hshort
        · refine ⟨rfl, Or.inr ⟨?_, _, rfl⟩⟩
          rintro ⟨bytes', heq, hlen⟩
          obtain rfl := Option.some.inj heq
          omega
        · exact ⟨rfl, Or.inl ⟨⟨bytes, rfl, by omega⟩, rfl⟩⟩
  unfold finish Unbroken
  cases d.ending with
  | broken message => exact ⟨rfl, Or.inr ⟨fun h => h.1 message rfl, _, rfl⟩⟩
  | complete =>
      refine ⟨hstate.1, hstate.2.imp (fun h => ⟨fun _ h' => (nomatch h'), h.1, h.2⟩) fun h => ?_⟩
      exact ⟨fun h' => h.1 h'.2, h.2⟩
  | leftover =>
      refine ⟨hstate.1, hstate.2.imp (fun h => ⟨fun _ h' => (nomatch h'), h.1, h.2⟩) fun h => ?_⟩
      exact ⟨fun h' => h.1 h'.2, h.2⟩

end DecodedSnapshot

/-! ## The law -/

/-- What a restore is judged by: the block at a height, the height that `get_block_height`
answers, if it does not crash, and when two states answer alike. -/
structure StorageView (σ : Type) where
  blockAt : σ → BlockHeight → Option Block
  saved : σ → Option BlockHeight
  Same : σ → σ → Prop

section Law

variable {σ : Type} [Primitives] [Storage σ] [SnapshotCodec]

/-- The snapshot is in the storage: `blocks.bin` was a sequence of complete records, and the
storage holds the block of the manifest, at the stored height. -/
def Restored (V : StorageView σ) (files : Option SnapshotFiles) (s : σ) : Prop :=
  ∃ f text manifest bytes blocks block, files = some f ∧ f.manifest = some text ∧
    SnapshotCodec.parseManifest text = .ok manifest ∧ f.blocks = some bytes ∧
    Records bytes blocks ∧ V.blockAt s manifest.height = some block ∧
    block.hash = manifest.blockHash ∧ V.saved s = some manifest.height

omit [Storage σ] in
/-- The stored height is the one of the manifest. -/
theorem Restored.saved_eq {V : StorageView σ} {files : Option SnapshotFiles} {s : σ}
    (h : Restored V files s) {f : SnapshotFiles} {text : Bytes} {manifest : SnapshotManifest}
    (hf : files = some f) (htext : f.manifest = some text)
    (hparse : SnapshotCodec.parseManifest text = .ok manifest) :
    V.saved s = some manifest.height := by
  obtain ⟨f', text', manifest', -, -, -, hf', htext', hparse', -, -, -, -, hheight⟩ := h
  obtain rfl := Option.some.inj (hf.symm.trans hf')
  obtain rfl := Option.some.inj (htext.symm.trans htext')
  rw [hparse] at hparse'
  obtain rfl := Except.ok.inj hparse'
  exact hheight

/-- A restore that reports success is complete, and one that fails changes nothing. -/
def AllOrNothing (V : StorageView σ) (manager : SnapshotManager) (height : BlockHeight) (s : σ) :
    Prop :=
  Exec.Post (manager.restoreFromSnapshot height) s fun o s' =>
    (o = .ok () → Restored V (manager.directories (manager.path height)) s') ∧
      ((∃ e, o = .err e) → V.Same s s')

/-- The restore keeps the law, where the writes lead to the blocks `held` and to the answered
height `saved`. -/
structure SafeToRestore (d : DecodedSnapshot) (succeeds : Prop)
    (held : BlockHeight → Option Block) (saved : Option BlockHeight) (unchanged : Prop) : Prop where
  complete : succeeds → d.ending = .complete
  block : succeeds → ∃ block, held d.manifest.height = some block ∧
    block.hash = d.manifest.blockHash
  height : succeeds → saved = some d.manifest.height
  unchanged : ¬ succeeds → unchanged

/-- What a decoded snapshot says about the files. -/
theorem decodeSnapshot_spec {files : Option SnapshotFiles} {d : DecodedSnapshot}
    (h : decodeSnapshot files = some d) :
    ∃ f text bytes, files = some f ∧ f.manifest = some text ∧
      SnapshotCodec.parseManifest text = .ok d.manifest ∧ f.blocks = some bytes ∧
      decodeRecords (bytes.length + 1) bytes = (d.blocks, d.ending) := by
  unfold decodeSnapshot at h
  rcases files with _ | ⟨_ | text, blocks, state⟩
  · cases h
  · cases h
  · dsimp only [Option.bind_some, bind] at h
    cases hparse : SnapshotCodec.parseManifest text with
    | error e =>
        rw [hparse] at h
        cases h
    | ok manifest =>
        rw [hparse] at h
        dsimp only [Except.toOption, Option.bind_some, bind] at h
        cases hverify : manifest.verify with
        | false =>
            rw [hverify] at h
            cases h
        | true =>
            rw [hverify] at h
            cases blocks with
            | none => cases h
            | some bytes =>
                obtain rfl := Option.some.inj h
                exact ⟨_, text, bytes, rfl, rfl, hparse, rfl, rfl⟩

omit [Storage σ] in
/-- The restored snapshot, in terms of the decoded files. -/
theorem restored_iff (V : StorageView σ) {files : Option SnapshotFiles} {d : DecodedSnapshot}
    (h : decodeSnapshot files = some d) (s : σ) :
    Restored V files s ↔ d.ending = .complete ∧
      (∃ block, V.blockAt s d.manifest.height = some block ∧ block.hash = d.manifest.blockHash) ∧
      V.saved s = some d.manifest.height := by
  obtain ⟨f, text, bytes, rfl, htext, hparse, hbytes, hrecords⟩ := decodeSnapshot_spec h
  have hcomplete := decodeRecords_complete (bytes.length + 1) bytes (Nat.lt_succ_self _)
  constructor
  · rintro ⟨f', text', manifest, bytes', blocks, block, hf, htext', hparse', hbytes', hrec, hblock,
      hhash, hsaved⟩
    obtain rfl := Option.some.inj hf
    obtain rfl := Option.some.inj (htext.symm.trans htext')
    obtain rfl := Option.some.inj (hbytes.symm.trans hbytes')
    rw [hparse] at hparse'
    obtain rfl := Except.ok.inj hparse'
    rw [← hcomplete, hrecords] at hrec
    exact ⟨(Prod.mk.inj hrec).2, ⟨block, hblock, hhash⟩, hsaved⟩
  · rintro ⟨hending, ⟨block, hblock, hhash⟩, hsaved⟩
    rw [hending, hcomplete] at hrecords
    exact ⟨f, text, d.manifest, bytes, d.blocks, block, rfl, htext, hparse, hbytes, hrecords,
      hblock, hhash, hsaved⟩

/-- A restore that is refused before it reads a block is all or nothing. -/
theorem allOrNothing_of_refused (V : StorageView σ) (hsame : ∀ s, V.Same s s)
    (manager : SnapshotManager) (height : BlockHeight)
    (h : decodeSnapshot (manager.directories (manager.path height)) = none) (s : σ) :
    AllOrNothing V manager height s := by
  have hrun := SnapshotManager.restoreFromSnapshot_eq (σ := σ) manager height
  rw [h] at hrun
  obtain ⟨e, hrefused⟩ := hrun
  unfold AllOrNothing
  rw [hrefused, Exec.post_throw]
  exact ⟨fun h => (nomatch h), fun _ => hsame s⟩

/-- A restore that panics or crashes says nothing. -/
theorem allOrNothing_of_panic (V : StorageView σ) (manager : SnapshotManager)
    (height : BlockHeight) {d : DecodedSnapshot}
    (hdecode : decodeSnapshot (manager.directories (manager.path height)) = some d) (s : σ)
    (h : Exec.Post (do
      SnapshotManager.writeBlocks d.writes
      d.finish) s fun o _ => o = .panic) : AllOrNothing V manager height s := by
  have hrun := SnapshotManager.restoreFromSnapshot_eq (σ := σ) manager height
  rw [hdecode] at hrun
  dsimp only at hrun
  rw [AllOrNothing, hrun]
  refine h.mono ?_
  rintro o s' rfl
  exact ⟨by rintro ⟨⟩, by rintro ⟨_, ⟨⟩⟩⟩

/-- Any other restore is all or nothing exactly if it is safe. -/
theorem allOrNothing_iff_safe (V : StorageView σ) (manager : SnapshotManager)
    (height : BlockHeight) {d : DecodedSnapshot}
    (hdecode : decodeSnapshot (manager.directories (manager.path height)) = some d) (s : σ)
    {succeeds unchanged : Prop} {held : BlockHeight → Option Block} {saved : Option BlockHeight}
    (h : Exec.Post (do
      SnapshotManager.writeBlocks d.writes
      d.finish) s fun o s' => V.blockAt s' = held ∧ V.saved s' = saved ∧
        (V.Same s s' ↔ unchanged) ∧
        ((succeeds ∧ o = .ok ()) ∨ (¬ succeeds ∧ o.IsErr))) :
    AllOrNothing V manager height s ↔ SafeToRestore d succeeds held saved unchanged := by
  have hrun := SnapshotManager.restoreFromSnapshot_eq (σ := σ) manager height
  rw [hdecode] at hrun
  dsimp only at hrun
  unfold AllOrNothing
  rw [hrun]
  obtain ⟨hblocks, hsaved, hsame, hend⟩ := h
  set o := ((SnapshotManager.writeBlocks d.writes >>= fun _ => d.finish) s).1
  set s' := ((SnapshotManager.writeBlocks d.writes >>= fun _ => d.finish) s).2
  change (o = .ok () → Restored V _ s') ∧ ((∃ e, o = .err e) → V.Same s s') ↔ _
  rw [restored_iff V hdecode, hsame, hblocks, hsaved]
  rcases hend with ⟨hsucceeds, hok⟩ | ⟨hfails, e, herr⟩
  · rw [hok]
    constructor
    · rintro ⟨h, -⟩
      obtain ⟨hcomplete, hblock, hheight⟩ := h rfl
      exact ⟨fun _ => hcomplete, fun _ => hblock, fun _ => hheight, fun h => absurd hsucceeds h⟩
    · intro h
      exact ⟨fun _ => ⟨h.complete hsucceeds, h.block hsucceeds, h.height hsucceeds⟩,
        fun ⟨_, herr⟩ => (nomatch herr)⟩
  · rw [herr]
    constructor
    · rintro ⟨-, h⟩
      exact ⟨fun h => absurd h hfails, fun h => absurd h hfails, fun h => absurd h hfails,
        fun _ => h ⟨e, rfl⟩⟩
    · intro h
      exact ⟨fun h => (nomatch h), fun _ => h.unchanged hfails⟩

end Law

/-! ## The writes of the database -/

namespace RocksDBStorage

/-- Two states whose answers are the same, or crash alike. -/
structure SameContents (r r' : RocksDBStorage) : Prop where
  blockAt : r'.blockAt = r.blockAt
  accountAt : r'.accountAt = r.accountAt
  transactions : r'.cfTransactions = r.cfTransactions
  stateRoots : r'.cfStateRoots = r.cfStateRoots
  saved : r'.saved = r.saved
  blocksDamaged : r'.blocksDamaged = r.blocksDamaged
  metadataDamaged : r'.metadataDamaged = r.metadataDamaged

/-- What is the same where only blocks were written by batches. -/
structure BlocksOnly (r r' : RocksDBStorage) : Prop where
  accountAt : r'.accountAt = r.accountAt
  transactions : r'.cfTransactions = r.cfTransactions
  stateRoots : r'.cfStateRoots = r.cfStateRoots
  saved : r'.saved = r.saved
  blocksDamaged : r'.blocksDamaged = r.blocksDamaged

theorem BlocksOnly.trans {r r' r'' : RocksDBStorage} (h : BlocksOnly r r')
    (h' : BlocksOnly r' r'') : BlocksOnly r r'' :=
  ⟨h'.accountAt.trans h.accountAt, h'.transactions.trans h.transactions,
    h'.stateRoots.trans h.stateRoots, h'.saved.trans h.saved,
    h'.blocksDamaged.trans h.blocksDamaged⟩

theorem BlocksOnly.sameContents_iff {r r' : RocksDBStorage} (h : BlocksOnly r r') :
    SameContents r r' ↔ r'.blockAt = r.blockAt ∧ r'.metadataDamaged = r.metadataDamaged :=
  ⟨fun hs => ⟨hs.blockAt, hs.metadataDamaged⟩, fun hb => ⟨hb.1, h.accountAt, h.transactions,
    h.stateRoots, h.saved, h.blocksDamaged, hb.2⟩⟩

/-- Blocks in the cache and in the database at once are blocks that a reader sees. -/
theorem blockAt_placeBlocks (blocks : List Block) (cache db : Map BlockHeight Block)
    (height : BlockHeight) :
    ((((WriteBatch.ofBlocks blocks).blocks.foldl (fun m e => m.insert e.1 e.2) cache).lookup height).or
      (((WriteBatch.ofBlocks blocks).blocks.foldl (fun m e => m.insert e.1 e.2) db).lookup height))
      = placeBlocks blocks (fun h => (cache.lookup h).or (db.lookup h)) height := by
  induction blocks generalizing cache db with
  | nil => rfl
  | cons b rest ih =>
      have hone : (fun h => ((cache.insert b.header.height b).lookup h).or
          ((db.insert b.header.height b).lookup h))
          = Function.update (fun h => (cache.lookup h).or (db.lookup h)) b.header.height (some b) := by
        funext h
        by_cases hh : h = b.header.height
        · rw [hh, AList.lookup_insert, AList.lookup_insert, Function.update_self]
          rfl
        · rw [AList.lookup_insert_ne hh, AList.lookup_insert_ne hh, Function.update_of_ne hh]
      refine (ih (cache.insert b.header.height b) (db.insert b.header.height b)).trans ?_
      rw [hone]
      rfl

/-- A batch of blocks is written, or the database call fails; the handle of the metadata is
damaged in both cases. -/
theorem writeBatch_ofBlocks (blocks : List Block) {r : RocksDBStorage}
    (hsound : r.blocksDamaged = false) :
    Exec.Post (writeBatch (WriteBatch.ofBlocks blocks)) r fun o r' =>
      BlocksOnly r r' ∧ r'.metadataDamaged = true ∧ r'.faults = (fun k => r.faults (k + 1)) ∧
      match r.faults 0 with
      | some message => o = .err (.rocksDBError message) ∧ r'.blockAt = r.blockAt
      | none => o = .ok () ∧ r'.blockAt = placeBlocks blocks r.blockAt := by
  rw [post_writeBatch]
  refine ⟨fun h => absurd h.2 (ne_true_of_eq_false hsound), fun _ => ?_⟩
  cases r.faults 0 with
  | some message => exact ⟨⟨rfl, rfl, rfl, rfl, rfl⟩, rfl, rfl, rfl, rfl⟩
  | none =>
      refine ⟨⟨rfl, rfl, rfl, rfl, rfl⟩, rfl, rfl, rfl, ?_⟩
      funext height
      exact blockAt_placeBlocks blocks r.blockCache r.cfBlocks height

/-- With a damaged handle of the blocks the first batch crashes. -/
theorem writeBlocks_crashes [Primitives] {group : List Block} (hne : group ≠ [])
    (groups : List (List Block)) {r : RocksDBStorage} (hdamaged : r.blocksDamaged = true) :
    (SnapshotManager.writeBlocks (group :: groups) r).1 = .panic := by
  have hbatch : Exec.Post (writeBatch (WriteBatch.ofBlocks group)) r fun o _ => o = .panic := by
    have hblocks : (WriteBatch.ofBlocks group).blocks ≠ [] := fun h => hne (List.map_eq_nil_iff.mp h)
    rw [post_writeBatch]
    exact ⟨fun _ => rfl, fun h => absurd ⟨hblocks, hdamaged⟩ h⟩
  exact Exec.fst_bind_of_panic hbatch

/-- **What the groups of a restore leave in the database.** -/
theorem writeBlocks_spec [Primitives] (groups : List (List Block)) {r : RocksDBStorage}
    (hsound : groups ≠ [] → r.blocksDamaged = false) :
    Exec.Post (SnapshotManager.writeBlocks groups) r fun o r' =>
      BlocksOnly r r' ∧ r'.metadataDamaged = (r.metadataDamaged || !groups.isEmpty) ∧
      r'.blockAt = placeBlocks (landed r.faults groups) r.blockAt ∧
      (((∀ k < groups.length, r.faults k = none) ∧ o = .ok ()) ∨
        (¬ (∀ k < groups.length, r.faults k = none) ∧ o.IsErr)) := by
  induction groups generalizing r with
  | nil =>
      exact ⟨⟨rfl, rfl, rfl, rfl, rfl⟩, (Bool.or_false _).symm, rfl,
        Or.inl ⟨fun k hk => absurd hk (Nat.not_lt_zero k), rfl⟩⟩
  | cons group rest ih =>
      rw [SnapshotManager.writeBlocks, landed]
      have hsound' : r.blocksDamaged = false := hsound (List.cons_ne_nil _ _)
      have hdamaged : (r.metadataDamaged || !(group :: rest).isEmpty) = true := Bool.or_true _
      refine Exec.Post.seq (writeBatch_ofBlocks group hsound') ?_ ?_ ?_
      · rintro ⟨⟩ r₁ ⟨honly, hmetadata, hfaults, hstep⟩
        cases hfault : r.faults 0 with
        | some message =>
            rw [hfault] at hstep
            exact absurd hstep.1 (by rintro ⟨⟩)
        | none =>
            rw [hfault] at hstep
            refine (ih fun _ => honly.blocksDamaged.trans hsound').mono ?_
            rintro o r₂ ⟨honly', hmetadata', hblocks, hend⟩
            rw [hfaults] at hblocks hend
            refine ⟨honly.trans honly', ?_, ?_, ?_⟩
            · rw [hmetadata', hmetadata, hdamaged, Bool.true_or]
            · rw [hblocks, hstep.2, ← placeBlocks_append]
            · have hall : (∀ k < (group :: rest).length, r.faults k = none) ↔
                  ∀ k < rest.length, r.faults (k + 1) = none := by
                refine ⟨fun h k hk => h (k + 1) (Nat.succ_lt_succ hk), fun h k hk => ?_⟩
                cases k with
                | zero => exact hfault
                | succ k => exact h k (Nat.lt_of_succ_lt_succ hk)
              rw [hall]
              exact hend
      · rintro e r₁ ⟨honly, hmetadata, -, hstep⟩
        cases hfault : r.faults 0 with
        | none =>
            rw [hfault] at hstep
            exact absurd hstep.1 (by rintro ⟨⟩)
        | some message =>
            rw [hfault] at hstep
            refine ⟨honly, hmetadata.trans hdamaged.symm, hstep.2, Or.inr ⟨fun h => ?_, e, rfl⟩⟩
            rw [h 0 (Nat.zero_lt_succ _)] at hfault
            cases hfault
      · rintro r₁ ⟨-, -, -, hstep⟩
        cases hfault : r.faults 0 with
        | none =>
            rw [hfault] at hstep
            exact absurd hstep.1 (by rintro ⟨⟩)
        | some message =>
            rw [hfault] at hstep
            exact absurd hstep.1 (by rintro ⟨⟩)

/-- The height that `get_block_height` answers: with a damaged handle it crashes. -/
def answeredHeight (damaged : Bool) (r : RocksDBStorage) : Option BlockHeight :=
  if damaged then none else some r.saved

/-- The contents of the RocksDB storage, and its handles. -/
def contents : StorageView RocksDBStorage :=
  ⟨blockAt, fun r => r.answeredHeight r.metadataDamaged, SameContents⟩

/-- `get_block_height` answers this height, or the error of the database. -/
theorem getBlockHeight_answers (r : RocksDBStorage) :
    Exec.Post getBlockHeight r fun o _ =>
      match contents.saved r with
      | some height => Answers r o height
      | none => o = .panic := by
  have hsaved : contents.saved r = if r.metadataDamaged then none else some r.saved := rfl
  rw [hsaved, getBlockHeight, post_withHandle, Exec.post_bind]
  cases hmetadata : r.metadataDamaged with
  | true =>
      rw [post_readCf_damaged (show r.damaged .metadata = true from hmetadata)]
      rfl
  | false =>
      rw [post_readCf_sound (show r.damaged .metadata = false from hmetadata), read_spec]
      cases hfault : r.faults 0 with
      | some message => exact Or.inr ⟨message, hfault, rfl⟩
      | none => exact Or.inl rfl

/-- The restore gets through its writes: it has none, or a sound handle for them. -/
def Writable (r : RocksDBStorage) (d : DecodedSnapshot) : Prop :=
  d.writes ≠ [] → r.blocksDamaged = false

/-- What a restore that is not refused at once leaves behind, and how it ends. -/
theorem writes_finish_spec [Primitives] (d : DecodedSnapshot) {r : RocksDBStorage}
    (hwritable : r.Writable d) :
    Exec.Post (do
      SnapshotManager.writeBlocks d.writes
      d.finish) r fun o r' =>
      BlocksOnly r r' ∧ r'.metadataDamaged = (r.metadataDamaged || !d.writes.isEmpty) ∧
      r'.blockAt = placeBlocks (landed r.faults d.writes) r.blockAt ∧
      ((d.Succeeds r.faults ∧ o = .ok ()) ∨ (¬ d.Succeeds r.faults ∧ o.IsErr)) := by
  refine (writeBlocks_spec d.writes hwritable).seq ?_ ?_ ?_
  · rintro ⟨⟩ r₁ ⟨honly, hmetadata, hblocks, ⟨hworks, -⟩ | ⟨-, e, he⟩⟩
    · obtain ⟨hstate, hend⟩ := d.finish_run r₁
      rw [Exec.Post, hstate]
      refine ⟨honly, hmetadata, hblocks,
        hend.imp (fun h => ⟨⟨h.1, hworks, h.2.1⟩, h.2.2⟩) fun h => ?_⟩
      exact ⟨fun hs => h.1 ⟨hs.unbroken, hs.state⟩, h.2⟩
    · cases he
  · rintro e r₁ ⟨honly, hmetadata, hblocks, ⟨-, he⟩ | ⟨hfails, -⟩⟩
    · cases he
    · exact ⟨honly, hmetadata, hblocks, Or.inr ⟨fun hs => hfails hs.works, e, rfl⟩⟩
  · rintro r₁ ⟨-, -, -, ⟨-, he⟩ | ⟨-, e, he⟩⟩
    · cases he
    · cases he

/-- What a restore of the snapshot must meet on the RocksDB storage. -/
def SafeOn [Primitives] (r : RocksDBStorage) (d : DecodedSnapshot) : Prop :=
  SafeToRestore d (d.Succeeds r.faults) (placeBlocks (landed r.faults d.writes) r.blockAt)
    (r.answeredHeight (r.metadataDamaged || !d.writes.isEmpty))
    (placeBlocks (landed r.faults d.writes) r.blockAt = r.blockAt ∧
      (d.writes ≠ [] → r.metadataDamaged = true))

/-- **When a restore to the RocksDB storage is all or nothing**, for all files, all failures of
the database and all states: a restore that crashes says nothing. -/
theorem allOrNothing_iff [Primitives] [SnapshotCodec] (manager : SnapshotManager)
    (height : BlockHeight) (r : RocksDBStorage) :
    AllOrNothing contents manager height r ↔
      ∀ d, decodeSnapshot (manager.directories (manager.path height)) = some d →
        r.Writable d → r.SafeOn d := by
  cases hdecode : decodeSnapshot (manager.directories (manager.path height)) with
  | none =>
      exact iff_of_true (allOrNothing_of_refused contents
        (fun _ => ⟨rfl, rfl, rfl, rfl, rfl, rfl, rfl⟩) manager height hdecode r)
        (by rintro d ⟨⟩)
  | some d =>
      have hd : (∀ d', some d = some d' → r.Writable d' → r.SafeOn d') ↔
          (r.Writable d → r.SafeOn d) :=
        ⟨fun h => h d rfl, fun h d' heq => Option.some.inj heq ▸ h⟩
      rw [hd]
      by_cases hwritable : r.Writable d
      · rw [imp_iff_right hwritable]
        refine allOrNothing_iff_safe contents manager height hdecode r ?_
        refine (writes_finish_spec d hwritable).mono ?_
        rintro o r' ⟨honly, hmetadata, hblocks, hend⟩
        refine ⟨hblocks, ?_, ?_, hend⟩
        · show answeredHeight _ r' = answeredHeight _ r
          rw [answeredHeight, answeredHeight, hmetadata, honly.saved]
        · refine honly.sameContents_iff.trans ?_
          rw [hblocks, hmetadata]
          refine and_congr Iff.rfl ?_
          cases hwrites : d.writes with
          | nil => exact iff_of_true (Bool.or_false _) fun h => absurd rfl h
          | cons group groups =>
              have hdamaged : (r.metadataDamaged || !(group :: groups).isEmpty) = true :=
                Bool.or_true _
              rw [hdamaged]
              exact ⟨fun h _ => h.symm, fun h => (h (List.cons_ne_nil _ _)).symm⟩
      · rw [Writable, Classical.not_imp] at hwritable
        obtain ⟨hwrites, hdamaged⟩ := hwritable
        refine iff_of_true ?_ fun h => absurd (h hwrites) hdamaged
        refine allOrNothing_of_panic contents manager height hdecode r ?_
        obtain ⟨group, groups, hgroups⟩ := List.exists_cons_of_ne_nil hwrites
        have hne : group ≠ [] := d.ne_nil_of_mem_writes (by rw [hgroups]; exact List.mem_cons_self)
        rw [hgroups]
        exact Exec.fst_bind_of_panic
          (writeBlocks_crashes hne groups (eq_true_of_ne_false hdamaged))

end RocksDBStorage

/-! ## The in-memory storage -/

namespace MemoryStorage

variable [Primitives]

/-- Two states whose answers are the same. -/
structure SameContents (m m' : MemoryStorage) : Prop where
  blocks : m'.blocks = m.blocks
  accounts : m'.accounts.lookup = m.accounts.lookup
  transactions : m'.transactions.lookup = m.transactions.lookup
  stateRoots : m'.stateRoots.lookup = m.stateRoots.lookup

/-- **What the groups of a restore leave in the vector.** -/
theorem writeBlocks_spec (groups : List (List Block)) (m : MemoryStorage) :
    Exec.Post (SnapshotManager.writeBlocks groups) m fun o m' =>
      match placeAll groups.flatten (m.blocks, m.clock) with
      | some p => o = .ok () ∧ m'.blocks = p.1 ∧ (SameContents m m' ↔ m'.blocks = m.blocks)
      | none => o = .panic := by
  have hloop : SnapshotManager.writeBlocks groups
      = forEach Storage.writeBatch (groups.map WriteBatch.ofBlocks) := by
    induction groups with
    | nil => rfl
    | cons group rest ih => rw [SnapshotManager.writeBlocks, List.map_cons, forEach, ih]
  have hmerge : merge (groups.map WriteBatch.ofBlocks) = WriteBatch.ofBlocks groups.flatten := by
    have hempty : ∀ l : List (List Block), (l.flatMap fun _ => ([] : List (Hash × Transaction))) = [] ∧
        (l.flatMap fun _ => ([] : List (Address × Option Account))) = [] ∧
        (l.flatMap fun _ => ([] : List (BlockHeight × Hash))) = [] := by
      intro l
      simp
    rw [merge, WriteBatch.ofBlocks, List.map_flatten, List.flatMap_map, List.flatMap_map,
      List.flatMap_map, List.flatMap_map]
    simp only [WriteBatch.mk.injEq]
    exact ⟨rfl, hempty groups⟩
  have hblocks : (WriteBatch.ofBlocks groups.flatten).blocks.map Prod.snd = groups.flatten := by
    rw [WriteBatch.ofBlocks, List.map_map]
    exact List.map_id _
  have hwrites := writes_batches (groups.map WriteBatch.ofBlocks) m
  rw [hmerge] at hwrites
  unfold Writes at hwrites
  rw [hblocks] at hwrites
  rw [Exec.Post, hloop]
  cases hplace : placeAll groups.flatten (m.blocks, m.clock) with
  | none =>
      rw [hplace] at hwrites
      exact hwrites
  | some p =>
      rw [hplace] at hwrites
      obtain ⟨hok, hp, hwrote⟩ := hwrites
      refine ⟨hok, congrArg Prod.fst hp, fun h => h.blocks, fun h => ?_⟩
      exact ⟨h, hwrote.accounts, hwrote.transactions, hwrote.stateRoots⟩

/-- The contents of the in-memory storage. -/
def contents : StorageView MemoryStorage :=
  ⟨fun m height => m.blocks[height.toNat]?, fun m => some m.saved, SameContents⟩

/-- **When a restore to the in-memory storage is all or nothing**: a write that panics says
nothing. -/
theorem allOrNothing_iff [SnapshotCodec] (manager : SnapshotManager) (height : BlockHeight)
    (m : MemoryStorage) :
    AllOrNothing contents manager height m ↔
      ∀ d, decodeSnapshot (manager.directories (manager.path height)) = some d →
        ∀ p, placeAll d.writes.flatten (m.blocks, m.clock) = some p →
          SafeToRestore d (d.Succeeds fun _ => none) (fun h => p.1[h.toNat]?)
            (some (UInt64.ofNat (p.1.length - 1))) (p.1 = m.blocks) := by
  cases hdecode : decodeSnapshot (manager.directories (manager.path height)) with
  | none =>
      exact iff_of_true (allOrNothing_of_refused contents (fun _ => ⟨rfl, rfl, rfl, rfl⟩)
        manager height hdecode m) (fun d h => (nomatch h))
  | some d =>
      have hd : ∀ P : DecodedSnapshot → Prop, (∀ d', some d = some d' → P d') ↔ P d :=
        fun P => ⟨fun h => h d rfl, fun h d' heq => Option.some.inj heq ▸ h⟩
      rw [hd]
      have hwrites := writeBlocks_spec d.writes m
      cases hplace : placeAll d.writes.flatten (m.blocks, m.clock) with
      | none =>
          rw [hplace] at hwrites
          have hpanic : Exec.Post (do
              SnapshotManager.writeBlocks d.writes
              d.finish) m fun o _ => o = .panic := Exec.fst_bind_of_panic hwrites
          exact iff_of_true (allOrNothing_of_panic contents manager height hdecode m hpanic)
            (by rintro p ⟨⟩)
      | some p =>
          rw [hplace] at hwrites
          have hp : ∀ P : List Block × Clock → Prop, (∀ p', some p = some p' → P p') ↔ P p :=
            fun P => ⟨fun h => h p rfl, fun h p' heq => Option.some.inj heq ▸ h⟩
          rw [hp]
          refine allOrNothing_iff_safe contents manager height hdecode m ?_
          refine Exec.Post.seq hwrites ?_ (fun e m' h => (nomatch h.1)) (fun m' h => (nomatch h.1))
          rintro ⟨⟩ m₁ ⟨-, hblocks, hsame⟩
          obtain ⟨hstate, hend⟩ := d.finish_run m₁
          rw [Exec.Post, hstate]
          refine ⟨?_, ?_, ?_, hend.imp (fun h => ⟨⟨h.1, fun _ _ => rfl, h.2.1⟩, h.2.2⟩) fun h =>
            ⟨fun hs => h.1 ⟨hs.unbroken, hs.state⟩, h.2⟩⟩
          · funext h
            show m₁.blocks[h.toNat]? = p.1[h.toNat]?
            rw [hblocks]
          · show some (saved m₁) = some (UInt64.ofNat (p.1.length - 1))
            rw [saved, hblocks]
          · rw [← hblocks]
            exact hsame

end MemoryStorage

/-- **When a restore is all or nothing**, on either storage. -/
theorem restore_allOrNothing_iff [Primitives] [SnapshotCodec] (manager : SnapshotManager)
    (height : BlockHeight) :
    (∀ r : RocksDBStorage, AllOrNothing RocksDBStorage.contents manager height r ↔
      ∀ d, decodeSnapshot (manager.directories (manager.path height)) = some d →
        r.Writable d → r.SafeOn d) ∧
    ∀ m : MemoryStorage, AllOrNothing MemoryStorage.contents manager height m ↔
      ∀ d, decodeSnapshot (manager.directories (manager.path height)) = some d →
        ∀ p, MemoryStorage.placeAll d.writes.flatten (m.blocks, m.clock) = some p →
          SafeToRestore d (d.Succeeds fun _ => none) (fun h => p.1[h.toNat]?)
            (some (UInt64.ofNat (p.1.length - 1))) (p.1 = m.blocks) :=
  ⟨RocksDBStorage.allOrNothing_iff manager height, MemoryStorage.allOrNothing_iff manager height⟩

/-! ## A restore into an empty database -/

section Example

open scoped Sample
open Sample

namespace Sample

/-- The bytes of an ASCII text. -/
def ascii (text : String) : Bytes := text.toList.map fun c => UInt8.ofNat c.toNat

/-- An array of bytes in JSON. -/
def jsonHash (h : Hash) : String :=
  "[" ++ ",".intercalate (h.toList.map fun b => toString b.toNat) ++ "]"

/-- A manifest in JSON. -/
def jsonManifest (m : SnapshotManifest) : Bytes :=
  ascii ("\x7b\"version\":" ++ toString m.version.toNat ++ ",\"height\":" ++
    toString m.height.toNat ++ ",\"block_hash\":" ++ jsonHash m.blockHash ++ ",\"state_root\":" ++
    jsonHash m.stateRoot ++ ",\"timestamp\":" ++ toString m.timestamp.toNat ++
    ",\"total_accounts\":" ++ toString m.totalAccounts.toNat ++ ",\"total_supply\":" ++
    toString m.totalSupply.toNat ++ ",\"checksum\":" ++ jsonHash m.checksum ++ "\x7d")

/-- The manifest of the first two blocks. -/
def twoBlocksManifest : SnapshotManifest :=
  SnapshotManifest.computeChecksum ⟨1, 1, blockOne.hash, zero32, 7, 0, 0, zero32⟩

/-- The readers of the JSON of one manifest and of the `bincode` of two blocks. -/
scoped instance twoBlocksCodec : SnapshotCodec where
  parseManifest text :=
    if text = jsonManifest twoBlocksManifest then .ok twoBlocksManifest else .error "expected value"
  deserializeBlock bytes :=
    if bytes = encodeBlock blockZero then .ok blockZero
    else if bytes = encodeBlock blockOne then .ok blockOne
    else .error "io error"

/-- The files that `create_snapshot` writes for the first two blocks. -/
def twoBlocksFiles : SnapshotFiles where
  manifest := some (jsonManifest twoBlocksManifest)
  blocks := some (frame (encodeBlock blockZero) ++ frame (encodeBlock blockOne))
  state := some (leBytes 8 0 ++ leBytes 16 0)

/-- A manager with this snapshot only. -/
def twoBlocksManager : SnapshotManager := ⟨"snapshots", fun _ => some twoBlocksFiles⟩

end Sample

/-- A good snapshot of height one, restored into an empty database: the restore reports
success, and then `get_block_height` crashes. -/
theorem restored_height_unreadable :
    (twoBlocksManager.restoreFromSnapshot 1 (RocksDBStorage.new fun _ => none)).1 = .ok () ∧
      (Storage.getBlockHeight (twoBlocksManager.restoreFromSnapshot 1
        (RocksDBStorage.new fun _ => none)).2).1 = .panic ∧
      ¬ AllOrNothing RocksDBStorage.contents twoBlocksManager 1
        (RocksDBStorage.new fun _ => none) := by
  have hparse : SnapshotCodec.parseManifest (jsonManifest twoBlocksManifest)
      = .ok twoBlocksManifest := if_pos rfl
  have hverify : twoBlocksManifest.verify = true := by decide +kernel
  have hrun : twoBlocksManager.restoreFromSnapshot (σ := RocksDBStorage) 1 = (do
      SnapshotManager.restoreBlocks twoBlocksFiles.blocks
      SnapshotManager.restoreState twoBlocksFiles.state) := by
    unfold SnapshotManager.restoreFromSnapshot twoBlocksManager
    dsimp only
    unfold twoBlocksFiles
    dsimp only
    rw [hparse]
    dsimp only
    rw [hverify]
    rfl
  have hok : (twoBlocksManager.restoreFromSnapshot 1 (RocksDBStorage.new fun _ => none)).1
      = .ok () := by
    rw [hrun]
    decide +kernel
  have hdamaged : (twoBlocksManager.restoreFromSnapshot 1
      (RocksDBStorage.new fun _ => none)).2.metadataDamaged = true := by
    rw [hrun]
    decide +kernel
  unfold AllOrNothing Exec.Post
  generalize twoBlocksManager.restoreFromSnapshot 1 (RocksDBStorage.new fun _ => none) = run
    at hok hdamaged
  have hsaved : RocksDBStorage.contents.saved run.2 = none := if_pos hdamaged
  have hcrash := RocksDBStorage.getBlockHeight_answers run.2
  rw [Exec.Post, hsaved] at hcrash
  refine ⟨hok, hcrash, fun h => ?_⟩
  have hheight := (h.1 hok).saved_eq (f := twoBlocksFiles) rfl rfl hparse
  rw [hsaved] at hheight
  cases hheight

end Example
