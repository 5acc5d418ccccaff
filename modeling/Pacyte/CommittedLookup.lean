/-
# The transactions of committed blocks

A commit touches three stores: the blocks, the accounts and the mempool.  The index behind
`get_transaction` is not among them: `save_block` and the batches of
`commit_dirty_accounts` do not write to it, and `save_transaction` is not called
(`Storage.KeepsIndex`).  In a run of the engine the index is therefore always the one of the
start, and after the cleanup of a commit the pool holds none of the block's transactions
(`Engine.Tidy`).

A committed transaction can be looked up exactly if the index had it before the run
(`committed_lookup_iff`).
-/
import Pacyte.Mempool
import Pacyte.Steady
import Pacyte.Upheld
import Pacyte.StorageBackends
import Pacyte.BlockIntegrity

/-! ## The index of a storage -/

/-- The relation that keeps a view of the state. -/
def SameView {σ β : Type} (view : σ → β) (s s' : σ) : Prop := view s' = view s

instance {σ β : Type} (view : σ → β) : Std.Refl (SameView view) := ⟨fun _ => rfl⟩

instance {σ β : Type} (view : σ → β) : IsTrans σ (SameView view) :=
  ⟨fun _ _ _ h h' => Eq.trans h' h⟩

namespace Storage

variable {σ : Type} [Storage σ]

/-- `get_transaction` answers from `index`, which the other operations of the engine
leave as it is. -/
structure KeepsIndex (index : σ → Hash → Option Transaction) : Prop where
  getLatestBlock : Exec.Within (SameView index) (Storage.getLatestBlock (σ := σ))
  getBlockHeight : Exec.Within (SameView index) (Storage.getBlockHeight (σ := σ))
  getAccount : ∀ a, Exec.Within (SameView index) (Storage.getAccount (σ := σ) a)
  saveBlock : ∀ block, Exec.Within (SameView index) (Storage.saveBlock (σ := σ) block)
  saveStateRoot : ∀ height root,
    Exec.Within (SameView index) (Storage.saveStateRoot (σ := σ) height root)
  writeBatch : ∀ batch, batch.blocks = [] → batch.transactions = [] →
    Exec.Within (SameView index) (Storage.writeBatch (σ := σ) batch)
  getTransaction_eq : ∀ hash s r, (Storage.getTransaction hash s).1 = .ok r → r = index s hash

end Storage

/-- The index of the in-memory storage. -/
def MemoryStorage.txIndex (m : MemoryStorage) : Hash → Option Transaction := m.transactions.lookup

/-- The index of the RocksDB storage. -/
def RocksDBStorage.txIndex (r : RocksDBStorage) : Hash → Option Transaction :=
  r.cfTransactions.lookup

section Backends

variable [Primitives]

theorem MemoryStorage.keepsIndex : Storage.KeepsIndex MemoryStorage.txIndex where
  getLatestBlock _ := rfl
  getBlockHeight _ := rfl
  getAccount _ _ := rfl
  saveBlock block m := by
    have hpost : Exec.Post (MemoryStorage.saveBlock block) m fun _ m' =>
        SameView MemoryStorage.txIndex m m' := by
      unfold MemoryStorage.saveBlock
      simp only [Exec.post_bind, Exec.post_get]
      split_ifs
      · simp only [Exec.post_bind, Exec.post_addU64, Exec.post_onPart, Exec.post_modify,
          MemoryStorage.resizeBlocks, Exec.post_ite]
        exact ⟨fun _ => ⟨fun _ => rfl, fun _ => rfl⟩, fun _ => rfl⟩
      · exact rfl
    exact hpost
  saveStateRoot _ _ _ := rfl
  writeBatch batch hblocks htransactions m := by
    rw [MemoryStorage.writeBatch_run batch hblocks]
    show (MemoryStorage.written batch m).transactions.lookup = m.transactions.lookup
    rw [MemoryStorage.written, htransactions,
      MemoryStorage.foldl_keeps MemoryStorage.transactions
        (fun e : BlockHeight × Hash => MemoryStorage.putStateRoot e.1 e.2) (fun _ _ => rfl),
      MemoryStorage.foldl_keeps MemoryStorage.transactions
        (fun e : Address × Option Account => MemoryStorage.putAccount e.1 e.2) (fun _ _ => rfl)]
    rfl
  getTransaction_eq hash m r h := by
    cases h
    rfl

namespace RocksDBStorage

omit [Primitives] in
theorem sameIndex_of_eq {r r' : RocksDBStorage} (h : r'.cfTransactions = r.cfTransactions) :
    SameView txIndex r r' := by
  unfold SameView txIndex
  rw [h]

omit [Primitives] in
/-- What leaves the transactions in the database alone keeps the index. -/
theorem sameIndex_of_unwritten {α : Type} {m : Exec PacyteError RocksDBStorage α}
    (h : Exec.Within Unwritten m) : Exec.Within (SameView txIndex) m :=
  fun r => sameIndex_of_eq (h r).cfTransactions

omit [Primitives] in
/-- A database call that does not write to the transactions. -/
theorem call_sameIndex {f : RocksDBStorage → RocksDBStorage}
    (hf : ∀ r, (f r).cfTransactions = r.cfTransactions) : Exec.Within (SameView txIndex) (call f) := by
  intro r
  have hpost : Exec.Post (call f) r fun _ r' => SameView txIndex r r' := by
    rw [post_call]
    cases r.faults 0 with
    | some message => exact rfl
    | none => exact sameIndex_of_eq (hf _)
  exact hpost

omit [Primitives] in
theorem drop_sameIndex (family : ColumnFamily) (r : RocksDBStorage) :
    SameView txIndex r (r.drop family) :=
  sameIndex_of_eq (drop_unwritten family r).cfTransactions

omit [Primitives] in
theorem saveBlock_sameIndex (block : Block) : Exec.Within (SameView txIndex) (saveBlock block) := by
  have hcount : Exec.Within (SameView txIndex) (incrementStat (·.statBlocks)
      (fun n s => { s with statBlocks := some n })) :=
    (sameIndex_of_unwritten (read_unwritten _)).bind fun _ =>
      (Exec.Within.addU64 _ _).bind fun _ => call_sameIndex fun _ => rfl
  refine within_withHandle (drop_sameIndex .blocks) ?_
  refine Exec.Within.bind (within_callCf (call_sameIndex fun _ => rfl)) fun _ => ?_
  refine Exec.Within.bind (R := SameView txIndex) (fun _ => rfl) fun _ => ?_
  refine Exec.Within.bind (within_withHandle (drop_sameIndex .metadata)
    (within_callCf (call_sameIndex fun _ => rfl))) fun _ => ?_
  refine hcount.bind fun _ => (Exec.Within.addU64 _ _).bind fun _ => ?_
  exact Exec.Within.modify fun _ => rfl

theorem keepsIndex : Storage.KeepsIndex txIndex where
  getLatestBlock := sameIndex_of_unwritten getLatestBlock_unwritten
  getBlockHeight := sameIndex_of_unwritten getBlockHeight_unwritten
  getAccount a := sameIndex_of_unwritten (getAccount_unwritten a)
  saveBlock := saveBlock_sameIndex
  saveStateRoot _ _ := within_withHandle (drop_sameIndex .stateRoots)
    (within_callCf (call_sameIndex fun _ => rfl))
  writeBatch batch _ htransactions := by
    intro r
    have hpost : Exec.Post (writeBatch batch) r fun _ r' => SameView txIndex r r' := by
      rw [post_writeBatch]
      refine ⟨fun _ => rfl, fun _ => ?_⟩
      cases r.faults 0 with
      | some message => rfl
      | none =>
          refine sameIndex_of_eq ?_
          rw [putBatch, htransactions]
          rfl
    exact hpost
  getTransaction_eq hash r o h := by
    have hpost : Exec.Post (Storage.getTransaction hash) r fun o _ =>
        ∀ x, o = .ok x → x = r.txIndex hash := by
      simp only [Storage.getTransaction]
      rw [post_withHandle, post_readCf_sound rfl, read_spec]
      cases r.faults 0 with
      | some message => rintro x ⟨⟩
      | none =>
          rintro x ⟨⟩
          rfl
    exact hpost o h

end RocksDBStorage

end Backends

/-! ## The state manager -/

namespace StateManager

open Exec

variable {σ : Type} [Storage σ] {index : σ → Hash → Option Transaction}

/-- The relation that keeps the index of the storage. -/
abbrev SameIndex (index : σ → Hash → Option Transaction) (sm sm' : StateManager σ) : Prop :=
  SameView (fun sm : StateManager σ => index sm.storage) sm sm'

omit [Storage σ] in
theorem onStorage_sameIndex {α : Type} {m : Exec PacyteError σ α}
    (h : Within (SameView index) m) : Within (SameIndex index) (onStorage m) := fun sm => h sm.storage

theorem inert_sameIndex (h : Storage.KeepsIndex index) : Inert (SameIndex index) where
  fields _ _ hstorage _ := congrArg index hstorage
  stored a := onStorage_sameIndex (h.getAccount a)

omit [Storage σ] in
/-- The uncommitted accounts are written without transactions. -/
theorem transactions_dirtyBatch (sm : StateManager σ) : sm.dirtyBatch.transactions = [] := by
  have hfold : ∀ (pairs : List (Address × Account)) (batch : WriteBatch),
      (pairs.foldl (fun b e => b.addAccount e.1 e.2) batch).transactions = batch.transactions := by
    intro pairs
    induction pairs with
    | nil => exact fun batch => rfl
    | cons e rest ih => exact fun batch => ih (batch.addAccount e.1 e.2)
  exact hfold sm.dirtyAccounts.toPairs WriteBatch.new

theorem commitDirtyAccounts_sameIndex (h : Storage.KeepsIndex index) :
    Within (SameIndex index) (commitDirtyAccounts (σ := σ)) := by
  intro sm
  have hblocks : sm.dirtyBatch.blocks = [] :=
    (foldl_addAccount sm.dirtyAccounts.toPairs WriteBatch.new).2
  rw [commitDirtyAccounts_run]
  split_ifs
  · exact rfl
  · exact h.writeBatch sm.dirtyBatch hblocks sm.transactions_dirtyBatch sm.storage

/-- **`apply_block` does not index the transactions.** -/
theorem applyBlock_sameIndex [Primitives] (h : Storage.KeepsIndex index) (block : Block) :
    Within (SameIndex index) (applyBlock block) := by
  have hroot : Within (SameIndex index) (computeStateRoot (σ := σ)) := by
    intro sm
    obtain ⟨root, hrun⟩ := computeStateRoot_run sm
    rw [hrun]
    exact rfl
  refine Within.bind Within.get fun sm => Within.bind (Within.addU64 _ _) fun expected => ?_
  refine Within.ite (Within.throw _) ?_
  refine Within.bind ((inert_sameIndex h).applyTransactions _) fun _ => ?_
  refine Within.bind hroot fun root => Within.bind ((inert_sameIndex h).onClock _) fun now => ?_
  refine Within.bind (R := SameIndex index) (fun _ => rfl) fun _ => ?_
  refine Within.bind (onStorage_sameIndex (h.saveStateRoot _ _)) fun _ => ?_
  refine Within.bind (R := SameIndex index) (fun _ => rfl) fun _ => ?_
  exact Within.bind (commitDirtyAccounts_sameIndex h) fun _ => Within.pure _

end StateManager

/-! ## The engine -/

namespace Engine

open Exec

variable {σ ν : Type} {index : σ → Hash → Option Transaction}

/-- The index has not changed since it was `start`, and no transaction of a committed block
is in the pool. -/
structure Tidy (index : σ → Hash → Option Transaction) (start : Hash → Option Transaction)
    [Primitives] (e : Engine σ MempoolImpl ν) : Prop where
  index : index e.stateManager.storage = start
  pool : ∀ k ∈ e.commits, ∀ tx ∈ k.block.body.transactions,
    e.mempool.transactions.lookup tx.hash = none

/-- The height, the commits and the index stay, and the pool gets thinner. -/
structure Thins (index : σ → Hash → Option Transaction) (e e' : Engine σ MempoolImpl ν) : Prop where
  height : e'.height = e.height
  commits : e'.commits = e.commits
  index : index e'.stateManager.storage = index e.stateManager.storage
  pool : MempoolImpl.Thinner e.mempool e'.mempool

instance : Std.Refl (Thins (σ := σ) (ν := ν) index) :=
  ⟨fun e => ⟨rfl, rfl, rfl, MempoolImpl.Thinner.refl e.mempool⟩⟩

instance : IsTrans (Engine σ MempoolImpl ν) (Thins index) :=
  ⟨fun _ _ _ h h' => ⟨h'.height.trans h.height, h'.commits.trans h.commits,
    h'.index.trans h.index, h.pool.trans h'.pool⟩⟩

/-- A change of other fields. -/
theorem Thins.of_eq {e e' : Engine σ MempoolImpl ν} (h₁ : e'.height = e.height)
    (h₂ : e'.commits = e.commits) (h₃ : e'.stateManager.storage = e.stateManager.storage)
    (h₄ : e'.mempool = e.mempool) : Thins index e e' :=
  ⟨h₁, h₂, congrArg index h₃, h₄ ▸ MempoolImpl.Thinner.refl e.mempool⟩

theorem Tidy.thins [Primitives] {start : Hash → Option Transaction} {e e' : Engine σ MempoolImpl ν}
    (h : Tidy index start e) (hs : Thins index e e') : Tidy index start e' := by
  refine ⟨hs.index.trans h.index, ?_⟩
  rw [hs.commits]
  exact fun k hk tx htx => hs.pool.gone (h.pool k hk tx htx)

theorem onState_thins {α : Type} {m : Exec PacyteError (StateManager σ) α}
    (h : Within (StateManager.SameIndex index) m) :
    Within (Thins index) (onState m : Exec PacyteError (Engine σ MempoolImpl ν) α) :=
  fun e => ⟨rfl, rfl, h e.stateManager, MempoolImpl.Thinner.refl e.mempool⟩

variable [Storage σ]

/-- A mempool operation that takes transactions out and looks up accounts. -/
theorem onMempool_post (h : Storage.KeepsIndex index) {α : Type}
    {m : Exec Empty (MempoolImpl × StateManager σ) α} {P : MempoolImpl → Prop}
    (e : Engine σ MempoolImpl ν)
    (hm : Post m (e.mempool, e.stateManager) fun _ p => MempoolImpl.Thinner e.mempool p.1 ∧
      P p.1 ∧ ∃ as, p.2 = e.stateManager.lookups as) :
    Post (onMempool m) e fun _ e' => Thins index e e' ∧ P e'.mempool := by
  have hmove : ∀ p : MempoolImpl × StateManager σ, MempoolImpl.Thinner e.mempool p.1 ∧
      P p.1 ∧ (∃ as, p.2 = e.stateManager.lookups as) →
      Thins index e { e with mempool := p.1, stateManager := p.2 } ∧ P p.1 := by
    rintro p ⟨hthinner, hp, as, hstate⟩
    refine ⟨⟨rfl, rfl, ?_, hthinner⟩, hp⟩
    show index p.2.storage = index e.stateManager.storage
    rw [hstate]
    exact (StateManager.inert_sameIndex h).lookups as e.stateManager
  rw [onMempool, post_onPart, post_infallible]
  refine hm.mono ?_
  rintro (a | x | _) p hp
  · exact hmove p hp
  · exact x.elim
  · exact hmove p hp

/-- Reads, votes and messages do not change the index or put transactions into the pool. -/
theorem voteInert_thins (h : Storage.KeepsIndex index) :
    VoteInert (Thins (σ := σ) (ν := ν) index) where
  clock _ _ := Thins.of_eq rfl rfl rfl rfl
  latestBlock := onState_thins (StateManager.onStorage_sameIndex h.getLatestBlock)
  selectForBlock count size e := by
    have hselect : Post (Mempool.selectForBlock count size) (e.mempool, e.stateManager)
        fun _ p => MempoolImpl.Thinner e.mempool p.1 ∧ True ∧
          ∃ as, p.2 = e.stateManager.lookups as := by
      refine ⟨?_, trivial, [], rfl⟩
      show MempoolImpl.Thinner e.mempool (MempoolImpl.selectForBlock count size e.mempool).2
      rw [MempoolImpl.selectForBlock_snd]
      exact MempoolImpl.Thinner.refl e.mempool
    exact (onMempool_post (P := fun _ => True) h e hselect).1
  event _ _ := Thins.of_eq rfl rfl rfl rfl
  sent _ _ := Thins.of_eq rfl rfl rfl rfl
  network _ _ := Thins.of_eq rfl rfl rfl rfl
  commands _ _ := Thins.of_eq rfl rfl rfl rfl
  recorded e v := by
    unfold addVote
    cases v.voteType <;> exact Thins.of_eq rfl rfl rfl rfl
  voted _ _ := Thins.of_eq rfl rfl rfl rfl

section Commit

variable [Primitives] {start : Hash → Option Transaction}

theorem tidy_proposes (h : Storage.KeepsIndex index) :
    Proposes (Thins (σ := σ) (ν := ν) index) (fun _ _ => True) (Tidy index start)
      (Tidy index start) where
  inert := voteInert_thins h
  height _ _ hs := hs.height
  panic _ he := he
  moves _ _ hs he := he.thins hs
  round _ _ _ _ he := ⟨he.index, he.pool⟩
  fits _ _ _ _ _ _ := trivial
  created _ _ _ _ _ := trivial
  validated _ _ _ _ := trivial
  proposal _ _ he _ := ⟨he.index, he.pool⟩

variable [Network ν]

/-- The cleanup after a block was saved takes its transactions out of the pool. -/
theorem tidy_afterSave (h : Storage.KeepsIndex index) (height : BlockHeight)
    (certificate : Certificate) (block : Block) (e : Engine σ MempoolImpl ν)
    (he : Tidy index start e) :
    Post (afterSave height block) { e with commits := e.commits ++ [⟨certificate, block⟩] }
      (Ends (Tidy index start) (Tidy index start)) := by
  have hpr : Proposes (Thins (σ := σ) (ν := ν) index) (fun _ _ => True) (Tidy index start)
      (Tidy index start) := tidy_proposes h
  set e₁ : Engine σ MempoolImpl ν := { e with commits := e.commits ++ [⟨certificate, block⟩] }
  have hclean : Post (onMempool (Mempool.cleanup (block.body.transactions.map Transaction.hash)))
      e₁ (Ends (Tidy index start) (Tidy index start)) := by
    have hspec := MempoolImpl.cleanup_spec (block.body.transactions.map Transaction.hash)
      (e₁.mempool, e₁.stateManager)
    refine Post.mono (onMempool_post (P := fun pool => ∀ hash ∈ block.body.transactions.map
      Transaction.hash, pool.transactions.lookup hash = none) h e₁ hspec) ?_
    have htidy : ∀ e' : Engine σ MempoolImpl ν, Thins index e₁ e' ∧
        (∀ hash ∈ block.body.transactions.map Transaction.hash,
          e'.mempool.transactions.lookup hash = none) → Tidy index start e' := by
      rintro e' ⟨hs, hgone⟩
      refine ⟨hs.index.trans he.index, ?_⟩
      rw [hs.commits]
      intro k hk tx htx
      rcases List.mem_append.mp hk with hold | hnew
      · exact hs.pool.gone (he.pool k hold tx htx)
      · obtain rfl := List.mem_singleton.mp hnew
        exact hgone tx.hash (List.mem_map_of_mem htx)
    rintro (_ | _ | _) e' h'
    · exact htidy e' h'
    · exact htidy e' h'
    · exact htidy e' h'
  have hrest : ∀ _ : Unit, Keeps (Tidy index start) (Tidy index start) (do
      Exec.modify fun e : Engine σ MempoolImpl ν =>
        { e with committedBlocks := e.committedBlocks ++ [block.hash], state := .committed }
      emit (.blockCommitted block height)
      let next ← Exec.addU64 height 1
      Exec.modify fun e => { e with height := next, round := 0 }
      startNewRound next 0) := by
    intro _
    refine Keeps.bind (Keeps.modify fun e he => ⟨he.index, he.pool⟩) fun _ => ?_
    refine Keeps.bind (hpr.keeps (hpr.inert.emit _)) fun _ => ?_
    refine Keeps.bind (hpr.keeps (Within.addU64 _ _)) fun next => ?_
    refine Keeps.bind (Keeps.modify fun e he => ?_) fun _ => hpr.startNewRound next 0
    exact ⟨he.index, he.pool⟩
  exact hclean.seq (fun _ e' he' => hrest () e' he') (fun _ _ he' => he') (fun _ he' => he')

/-- **A commit keeps the index and leaves none of its transactions in the pool.** -/
theorem tidy_commit (h : Storage.KeepsIndex index) (height : BlockHeight)
    (certificate : Certificate) :
    Keeps (Tidy index start) (Tidy index start)
      (commitBlock height certificate : Exec PacyteError (Engine σ MempoolImpl ν) Unit) := by
  have hpr : Proposes (Thins (σ := σ) (ν := ν) index) (fun _ _ => True) (Tidy index start)
      (Tidy index start) := tidy_proposes h
  refine Keeps.bind Keeps.get fun e => ?_
  cases e.currentProposal with
  | none => exact hpr.keeps (Within.throw _)
  | some p =>
      refine Keeps.bind (hpr.keeps (onState_thins (StateManager.applyBlock_sameIndex h p.block)))
        fun _ => ?_
      refine Keeps.bind (hpr.keeps (onState_thins
        (StateManager.onStorage_sameIndex (h.saveBlock p.block)))) fun _ e' he' => ?_
      rw [post_bind, post_modify]
      exact tidy_afterSave h height certificate p.block e' he'

theorem tidy_upheld (h : Storage.KeepsIndex index) :
    Upheld (Thins (σ := σ) (ν := ν) index) (fun _ _ => True) (Tidy index start)
      (Tidy index start) where
  toProposes := tidy_proposes h
  commit e certificate he := tidy_commit h e.height certificate e he

theorem tidy_startUp (h : Storage.KeepsIndex index) :
    Keeps (Tidy index start) (Tidy index start)
      (startUp : Exec PacyteError (Engine σ MempoolImpl ν) Unit) := by
  have hpr : Proposes (Thins (σ := σ) (ν := ν) index) (fun _ _ => True) (Tidy index start)
      (Tidy index start) := tidy_proposes h
  have hraise : Keeps (Tidy index start) (Tidy index start)
      (raiseHeight : Exec PacyteError (Engine σ MempoolImpl ν) Unit) := by
    have hread : Within (Thins (ν := ν) index) (onStorage Storage.getBlockHeight) :=
      onState_thins (StateManager.onStorage_sameIndex h.getBlockHeight)
    refine Keeps.bind (hpr.keeps (hread.unwrapOr 0)) fun saved => Keeps.modify fun e he => ?_
    split_ifs
    · exact ⟨he.index, he.pool⟩
    · exact he
  exact Keeps.bind hraise fun _ => Keeps.bind Keeps.get fun e =>
    Keeps.bind (hpr.startNewRound _ _) fun _ => hraise

end Commit

end Engine

/-! ## Runs -/

namespace Node

open Engine

variable {σ ν : Type} [Primitives] [Storage σ] [Network ν]

/-- In a run the index stays and the pool has no committed transaction. -/
theorem run_tidy {index : σ → Hash → Option Transaction} (h : Storage.KeepsIndex index)
    (e : Engine σ MempoolImpl ν) (hcommits : e.commits = []) (commands : List ConsensusCommand) :
    Tidy index (index e.stateManager.storage) ((boot e).run commands).engine := by
  have hinit : Tidy index (index e.stateManager.storage) e := by
    refine ⟨rfl, ?_⟩
    rw [hcommits]
    rintro k ⟨⟩
  have hheld := run_holds (tidy_upheld h) (boot e) commands
    (boot_holds (fun _ he => he) (tidy_startUp h e hinit))
  rw [Holds, ite_self] at hheld
  exact hheld

/-- The block's transactions can be looked up, and none of them is in the pool. -/
def Findable (e : Engine σ MempoolImpl ν) (block : Block) : Prop :=
  ∀ tx ∈ block.body.transactions,
    (Storage.getTransaction tx.hash e.stateManager.storage).1 = .ok (some tx) ∧
      e.mempool.transactions.lookup tx.hash = none

omit [Network ν] in
/-- On an answering storage, the transactions of a tidy engine's block can be looked up
exactly if the index had them at the start. -/
theorem findable_iff {index : σ → Hash → Option Transaction} (h : Storage.KeepsIndex index)
    {start : Hash → Option Transaction} {e : Engine σ MempoolImpl ν} (he : Tidy index start e)
    {k : Commit} (hk : k ∈ e.commits)
    (hanswers : ∀ hash, ∃ r, (Storage.getTransaction hash e.stateManager.storage).1 = .ok r) :
    Findable e k.block ↔ ∀ tx ∈ k.block.body.transactions, start tx.hash = some tx := by
  have hlookup : ∀ hash, (Storage.getTransaction hash e.stateManager.storage).1
      = .ok (start hash) := by
    intro hash
    obtain ⟨r, hr⟩ := hanswers hash
    rw [hr, h.getTransaction_eq hash _ r hr, he.index]
  refine forall₂_congr fun tx htx => ?_
  rw [hlookup, Outcome.ok.injEq]
  exact and_iff_left (he.pool k hk tx htx)

end Node

/-- **Which committed transactions can be looked up.**  In every run on either storage, a
block that was committed has all its transactions in the index, and none in the pool, exactly
if the index had them before the run.  On the RocksDB storage the call that looks up a
transaction must not fail. -/
theorem committed_lookup_iff {ν : Type} [Primitives] [Network ν] :
    (∀ (e : Engine MemoryStorage MempoolImpl ν) (commands : List ConsensusCommand),
      e.commits = [] → ∀ k ∈ ((Node.boot e).run commands).engine.commits,
        (Node.Findable ((Node.boot e).run commands).engine k.block ↔
          ∀ tx ∈ k.block.body.transactions,
            e.stateManager.storage.transactions.lookup tx.hash = some tx)) ∧
    ∀ (e : Engine RocksDBStorage MempoolImpl ν) (commands : List ConsensusCommand),
      e.commits = [] → ∀ k ∈ ((Node.boot e).run commands).engine.commits,
        ((Node.boot e).run commands).engine.stateManager.storage.faults 0 = none →
        (Node.Findable ((Node.boot e).run commands).engine k.block ↔
          ∀ tx ∈ k.block.body.transactions,
            e.stateManager.storage.cfTransactions.lookup tx.hash = some tx) := by
  refine ⟨fun e commands hcommits k hk => ?_, fun e commands hcommits k hk hfault => ?_⟩
  · have htidy := Node.run_tidy MemoryStorage.keepsIndex e hcommits commands
    exact Node.findable_iff MemoryStorage.keepsIndex htidy hk fun hash => ⟨_, rfl⟩
  · have htidy := Node.run_tidy RocksDBStorage.keepsIndex e hcommits commands
    refine Node.findable_iff RocksDBStorage.keepsIndex htidy hk fun hash => ?_
    set r := ((Node.boot e).run commands).engine.stateManager.storage
    refine ⟨r.cfTransactions.lookup hash, ?_⟩
    have hpost : Exec.Post (Storage.getTransaction hash) r fun o _ =>
        o = .ok (r.cfTransactions.lookup hash) := by
      simp only [Storage.getTransaction]
      rw [RocksDBStorage.post_withHandle, RocksDBStorage.post_readCf_sound rfl,
        RocksDBStorage.read_spec, hfault]
    exact hpost

/-! ## A transfer that is committed -/

section Example

open scoped Sample
open Sample

/-- A transfer between two accounts. -/
def Sample.payment : Transaction := validTransfer 5

/-- The account that pays. -/
def Sample.payer : Account := Account.new payment.from 100 0

/-- The engine of the only validator over a storage, with an empty pool. -/
def Sample.poolEngine {σ : Type} (storage : σ) : Engine σ MempoolImpl OpenNetwork :=
  ((Engine.new ⟨1000000, 10⟩ (StateManager.new storage fun _ => 7)
    (MempoolImpl.new ⟨100, 3600, 0, 10, 10⟩) ⟨⟩).setValidator 1 fun _ => [1]).updateValidatorSet
      (validators [1])

/-- The first two blocks and the account that pays, with any index. -/
def Sample.paidStorage (index : Map Hash Transaction) : MemoryStorage :=
  { storage with
    accounts := AList.insert payment.from payer ∅
    transactions := index }

/-- The validator's proposal of a block with the transfer. -/
def Sample.paymentProposal : Proposal :=
  (Proposal.new 1 0 (Block.new 1 blockOne.hash [payment] zero32 7) 1 7).signed (some fun _ => [1])

/-- The block with the transfer is committed and the transfer cannot be looked up. -/
theorem payment_not_found :
    let node := (Node.boot (poolEngine (paidStorage ∅))).run [.proposalReceived paymentProposal]
    node.engine.commits.length = 1 ∧
      ¬ ∀ k ∈ node.engine.commits, Node.Findable node.engine k.block := by
  intro node
  refine ⟨by decide +kernel, fun h => ?_⟩
  have hmissing : ∃ k ∈ node.engine.commits, ∃ tx ∈ k.block.body.transactions,
      (Storage.getTransaction tx.hash node.engine.stateManager.storage).1 = .ok none := by
    decide +kernel
  obtain ⟨k, hk, tx, htx, hnone⟩ := hmissing
  rw [(h k hk tx htx).1] at hnone
  cases hnone

/-- With the transfer in the index before the run, it is found after the commit. -/
theorem indexed_payment_found :
    let index := AList.insert payment.hash payment ∅
    let commands := [ConsensusCommand.proposalReceived paymentProposal]
    let node := (Node.boot (poolEngine (paidStorage index))).run commands
    node.engine.commits.length = 1 ∧ ∀ k ∈ node.engine.commits, Node.Findable node.engine k.block := by
  intro index commands node
  have hindex : index.lookup payment.hash = some payment := AList.lookup_insert _
  have hblocks : ∀ k ∈ node.engine.commits, k.block.body.transactions = [payment] := by
    decide +kernel
  refine ⟨by decide +kernel, fun k hk => ?_⟩
  refine (committed_lookup_iff.1 (poolEngine (paidStorage index)) commands rfl k hk).mpr ?_
  rw [hblocks k hk]
  intro tx htx
  rw [List.mem_singleton.mp htx]
  exact hindex

end Example
