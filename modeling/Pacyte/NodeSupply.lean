/-
# The supply of a running node

A node takes transactions into its mempool, makes blocks of them, takes blocks from the
network, and moves the accounts when a block is committed.  Whatever commands and
transactions arrive, and in whatever order, this creates no money: the balances never add up
to more than at the start, and no nonce ever falls.

* A payment to somebody else takes from the total at least what it charges more than it pays
  (`Book.Spends`), also where an addition saturates.
* A block becomes the current proposal only if all of its payments go to somebody else
  (`Block.Proper`): `validate_block` looks at the blocks of the network, and an own block is
  made of pooled transactions.
* `apply_block` may stop half way, and the database may fail; what was paid until then has
  been paid by somebody, and the accounts that were not written are still in the cache
  (`StateManager.Backed`).
-/
import Pacyte.CommitCertificate
import Pacyte.MempoolSelection
import Pacyte.Steady
import Pacyte.Upheld
import Pacyte.RocksDBStorage
import Pacyte.Coherence
import Pacyte.Runs

/-! ## Payments -/

namespace Book

variable {A : Type} [DecidableEq A] [Fintype A] {M N : ℕ}

/-- The balances do not add up to more than before, and no nonce has fallen. -/
structure Spends (b b' : Book A) : Prop where
  total : b'.total ≤ b.total
  nonce : ∀ a, b.nonce a ≤ b'.nonce a

omit [DecidableEq A] in
theorem Spends.refl (b : Book A) : Spends b b := ⟨le_rfl, fun _ => le_rfl⟩

omit [DecidableEq A] in
theorem Spends.trans {b b' b'' : Book A} (h : Spends b b') (h' : Spends b' b'') :
    Spends b b'' :=
  ⟨h'.total.trans h.total, fun a => (h.nonce a).trans (h'.nonce a)⟩

/-- **A payment to somebody else spends.**  A cap on the cost forgives at most the fee. -/
theorem spends_pay {p : Payment A} {b : Book A} (hne : p.src ≠ p.dst) (hamount : p.amount ≤ M)
    (hcost : cost M p ≤ b.balance p.src) (hnonce : ∀ a, b.nonce a ≤ N) :
    Spends b (pay M N p b) := by
  constructor
  · have htotal := total_pay M N p b hne hcost
    unfold excess at htotal
    omega
  · intro a
    have hle := hnonce a
    simp only [pay]
    by_cases hdst : a = p.dst
    · subst hdst
      simp
    · by_cases hsrc : a = p.src
      · subst hsrc
        simp only [Function.update_of_ne hdst, Function.update_self]
        omega
      · simp only [Function.update_of_ne hdst, Function.update_of_ne hsrc, le_refl]

omit [DecidableEq A] in
/-- No balance is larger than the total. -/
theorem balance_le_total (b : Book A) (a : A) : b.balance a ≤ b.total :=
  Finset.single_le_sum (fun _ _ => Nat.zero_le _) (Finset.mem_univ a)

end Book

/-- All payments of the block go to somebody else. -/
def Block.Proper (block : Block) : Prop := ∀ tx ∈ block.body.transactions, tx.from ≠ tx.to

/-- Nothing but a successful batch and the reading of an account touches the stored
accounts. -/
structure Storage.KeepsAccounts (σ : Type) [LawfulStorage σ] : Prop where
  getLatestBlock : ∀ s : σ, LawfulStorage.accountAt (Storage.getLatestBlock s).2
    = LawfulStorage.accountAt s
  getBlockHeight : ∀ s : σ, LawfulStorage.accountAt (Storage.getBlockHeight s).2
    = LawfulStorage.accountAt s
  saveBlock : ∀ block (s : σ), LawfulStorage.accountAt (Storage.saveBlock block s).2
    = LawfulStorage.accountAt s
  writeBatch : ∀ batch (s : σ), batch.blocks = [] → (Storage.writeBatch batch s).1 ≠ .ok () →
    LawfulStorage.accountAt (Storage.writeBatch batch s).2 = LawfulStorage.accountAt s

/-! ## The two storages -/

namespace MemoryStorage

/-- A block that is saved changes no account. -/
theorem saveBlock_accounts [Primitives] (block : Block) (s : MemoryStorage) :
    Exec.Post (saveBlock block) s fun _ s' => s'.accounts = s.accounts := by
  unfold saveBlock
  simp only [Exec.post_bind, Exec.post_get]
  by_cases hle : s.blocks.length ≤ block.header.height.toNat
  · rw [if_pos hle]
    simp only [Exec.post_bind, Exec.post_addU64, Exec.post_onPart, resizeBlocks, Exec.post_ite]
    exact ⟨fun _ => ⟨fun _ => rfl, fun _ => rfl⟩, fun _ => trivial⟩
  · rw [if_neg hle]
    rfl

theorem keepsAccounts [Primitives] : Storage.KeepsAccounts MemoryStorage where
  getLatestBlock _ := rfl
  getBlockHeight _ := rfl
  saveBlock block s := by
    have hspec := saveBlock_accounts block s
    funext a
    show AList.lookup a (saveBlock block s).2.accounts = AList.lookup a s.accounts
    rw [show (saveBlock block s).2.accounts = s.accounts from hspec]
  writeBatch batch s hblocks hfail := by
    rw [writeBatch_run batch hblocks s] at hfail
    exact absurd rfl hfail

end MemoryStorage

namespace RocksDBStorage

open Exec

/-- The accounts that a reader sees are the same. -/
def SameAccounts (s s' : RocksDBStorage) : Prop := s'.accountAt = s.accountAt

instance : Std.Refl SameAccounts := ⟨fun _ => rfl⟩

instance : IsTrans RocksDBStorage SameAccounts := ⟨fun _ _ _ h h' => Eq.trans h' h⟩

theorem call_sameAccounts {f : RocksDBStorage → RocksDBStorage}
    (hf : ∀ s, SameAccounts s (f s)) : Within SameAccounts (call f) := by
  intro s
  have hspec : Post (call f) s fun _ s' => SameAccounts s s' := by
    rw [post_call]
    cases s.faults 0 with
    | some message => rfl
    | none => exact hf _
  exact hspec

theorem read_sameAccounts {α : Type} (f : RocksDBStorage → α) : Within SameAccounts (read f) :=
  Within.bind (call_sameAccounts fun s => refl_of SameAccounts s) fun _ =>
    Within.bind Within.get fun _ => Within.pure _

theorem drop_sameAccounts (family : ColumnFamily) (s : RocksDBStorage) :
    SameAccounts s (s.drop family) := by
  cases family <;> rfl

theorem getBlockHeight_sameAccounts : Within SameAccounts getBlockHeight :=
  within_withHandle (drop_sameAccounts .metadata)
    (Within.bind (within_readCf (read_sameAccounts _)) fun _ => Within.pure _)

theorem getBlock_sameAccounts (height : BlockHeight) : Within SameAccounts (getBlock height) := by
  refine Within.bind Within.get fun s => ?_
  cases s.blockCache.lookup height with
  | some block => exact Within.pure _
  | none =>
      refine within_withHandle (drop_sameAccounts .blocks)
        (Within.bind (within_readCf (read_sameAccounts _)) fun r => ?_)
      cases r with
      | none => exact Within.pure _
      | some block => exact Within.bind (Within.modify fun _ => rfl) fun _ => Within.pure _

theorem getLatestBlock_sameAccounts : Within SameAccounts getLatestBlock := by
  have hexists : Within SameAccounts (accountExists zero32) :=
    Within.bind Within.get fun _ => Within.ite (Within.pure _)
      (within_withHandle (drop_sameAccounts .accounts)
        (Within.bind (within_readCf (read_sameAccounts _)) fun _ => Within.pure _))
  refine Within.bind getBlockHeight_sameAccounts fun height =>
    Within.ite ?_ (getBlock_sameAccounts _)
  exact Within.bind hexists fun _ => Within.ite (getBlock_sameAccounts _) (Within.pure _)

theorem saveBlock_sameAccounts (block : Block) : Within SameAccounts (saveBlock block) := by
  refine within_withHandle (drop_sameAccounts .blocks) ?_
  refine Within.bind (within_callCf (call_sameAccounts fun _ => rfl)) fun _ => ?_
  refine Within.bind (Within.modify fun _ => rfl) fun _ => ?_
  refine Within.bind (within_withHandle (drop_sameAccounts .metadata)
    (within_callCf (call_sameAccounts fun _ => rfl))) fun _ => ?_
  refine Within.bind ?_ fun _ => Within.bind (Within.addU64 _ _) fun _ => Within.modify fun _ => rfl
  exact Within.bind (read_sameAccounts _) fun _ => Within.bind (Within.addU64 _ _) fun _ =>
    call_sameAccounts fun _ => rfl

/-- **Whatever the database refuses**, only a batch that is written moves the accounts. -/
theorem keepsAccounts [Primitives] : Storage.KeepsAccounts RocksDBStorage where
  getLatestBlock := getLatestBlock_sameAccounts
  getBlockHeight := getBlockHeight_sameAccounts
  saveBlock := saveBlock_sameAccounts
  writeBatch batch s _ hfail := by
    have hspec : Post (writeBatch batch) s fun o s' => o ≠ .ok () → s'.accountAt = s.accountAt := by
      rw [post_writeBatch]
      refine ⟨fun _ _ => rfl, fun _ => ?_⟩
      cases s.faults 0 with
      | some message => exact fun _ => rfl
      | none => exact fun h => absurd rfl h
    exact hspec hfail

end RocksDBStorage

/-! ## The state manager -/

namespace StateManager

open Exec Book

variable {σ : Type} [LawfulStorage σ]

/-- Every account that is not committed yet is in the cache. -/
def Backed (sm : StateManager σ) : Prop :=
  ∀ a acc, sm.dirtyAccounts.lookup a = some acc → sm.accountCache.lookup a = some acc

/-- The accounts spend, and stay backed. -/
def Frugal (sm sm' : StateManager σ) : Prop :=
  Backed sm → Backed sm' ∧ Spends sm.book sm'.book

instance : Std.Refl (Frugal (σ := σ)) := ⟨fun sm h => ⟨h, Spends.refl sm.book⟩⟩

instance : IsTrans (StateManager σ) Frugal :=
  ⟨fun _ _ _ h h' hb => ⟨(h' (h hb).1).1, (h hb).2.trans (h' (h hb).1).2⟩⟩

/-- A change that keeps the view. -/
theorem frugal_of_account {sm sm' : StateManager σ} (hbacked : Backed sm → Backed sm')
    (haccount : Backed sm → sm'.account = sm.account) : Frugal sm sm' := by
  intro hb
  refine ⟨hbacked hb, ?_⟩
  rw [book_congr (haccount hb)]
  exact Spends.refl sm.book

/-- A change of the other fields. -/
theorem frugal_of_eq {sm sm' : StateManager σ} (hcache : sm'.accountCache = sm.accountCache)
    (hdirty : sm'.dirtyAccounts = sm.dirtyAccounts)
    (hstored : LawfulStorage.accountAt sm'.storage = LawfulStorage.accountAt sm.storage) :
    Frugal sm sm' := by
  apply frugal_of_account
  · intro hb a acc
    rw [hcache, hdirty]
    exact hb a acc
  · intro _
    funext a
    simp only [account, hcache, hdirty, hstored]

theorem onClock_frugal {α : Type} (m : Exec PacyteError Clock α) :
    Within Frugal (onClock m : Exec PacyteError (StateManager σ) α) :=
  fun _ => frugal_of_eq rfl rfl rfl

theorem onStorage_frugal {α : Type} {m : Exec PacyteError σ α}
    (h : ∀ s, LawfulStorage.accountAt (m s).2 = LawfulStorage.accountAt s) :
    Within Frugal (onStorage m) :=
  fun sm => frugal_of_eq rfl rfl (h sm.storage)

/-- What was read keeps its place in the cache. -/
theorem Reads.backed {T : Address → Prop} {sm sm' : StateManager σ} (h : Reads T sm sm')
    (hb : Backed sm) : Backed sm' := by
  intro a acc hdirty
  rw [h.dirtyAccounts] at hdirty
  have hcache := hb a acc hdirty
  rw [h.cached a (AList.lookup_isSome.mp (by rw [hcache]; rfl)), hcache]

theorem getAccount_frugal (a : Address) :
    Within Frugal (getAccount a : Exec PacyteError (StateManager σ) (Option Account)) := by
  intro sm
  have hreads := getAccount_reads a sm
  have hspec := getAccount_spec a sm
  exact frugal_of_account (Reads.backed hreads) fun _ => hspec.1.account

theorem lookups_frugal (addresses : List Address) (sm : StateManager σ) :
    Frugal sm (sm.lookups addresses) := by
  induction addresses generalizing sm with
  | nil => exact refl_of Frugal sm
  | cons a rest ih => exact trans_of Frugal (getAccount_frugal a sm) (ih _)

omit [LawfulStorage σ] in
/-- An account that is written is both cached and uncommitted. -/
theorem backed_withAccount {sm : StateManager σ} (hb : Backed sm) (a : Address) (acc : Account) :
    Backed (sm.withAccount a acc) := by
  intro x y hxy
  by_cases hx : x = a
  · subst hx
    rw [withAccount, AList.lookup_insert] at hxy ⊢
    exact hxy
  · rw [withAccount, AList.lookup_insert_ne hx] at hxy ⊢
    exact hb x y hxy

/-- The cache backs the changes, however a transfer ends. -/
theorem applyTransfer_backed («from» «to» : Address) (amount fee : U128) :
    Keeps Backed Backed (applyTransfer «from» «to» amount fee :
      Exec PacyteError (StateManager σ) Unit) := by
  have hread : ∀ a, Keeps Backed Backed
      (getAccount a : Exec PacyteError (StateManager σ) (Option Account)) :=
    fun a => Keeps.of_within (getAccount_frugal a) (fun _ _ h hb => (h hb).1) fun _ hb => hb
  have hnow : Keeps Backed Backed
      (onClock currentTimestamp : Exec PacyteError (StateManager σ) Timestamp) :=
    Keeps.of_within (onClock_frugal _) (fun _ _ h hb => (h hb).1) fun _ hb => hb
  have hwrite : ∀ a acc, Keeps Backed Backed
      (setAccount a acc : Exec PacyteError (StateManager σ) Unit) := by
    intro a acc sm hb
    rw [post_setAccount]
    exact backed_withAccount hb a acc
  have hfail : ∀ e, Keeps Backed Backed
      (Exec.throw e : Exec PacyteError (StateManager σ) Unit) := fun e sm hb => hb
  refine Keeps.bind (hread «from») fun r => ?_
  cases r with
  | none => exact hfail _
  | some payer =>
      refine Keeps.ite (hfail _) (Keeps.bind hnow fun _ => Keeps.bind ?_ fun payee => ?_)
      · refine Keeps.bind (hread «to») fun r => ?_
        cases r with
        | none => exact Keeps.bind hnow fun _ => Keeps.pure _
        | some payee => exact Keeps.pure _
      · exact Keeps.bind hnow fun _ => Keeps.bind (hwrite _ _) fun _ => hwrite _ _

/-- **A transfer to somebody else spends**, or is refused. -/
theorem applyTransfer_frugal {tx : Transaction} (hne : tx.from ≠ tx.to) :
    Within Frugal (applyTransfer tx.from tx.to tx.amount tx.fee :
      Exec PacyteError (StateManager σ) Unit) := by
  intro sm hb
  have hkeep := applyTransfer_backed tx.from tx.to tx.amount tx.fee sm hb
  have hspec := applyTransfer_spec tx.from tx.to tx.amount tx.fee sm
  rw [Post] at hkeep hspec
  generalize applyTransfer tx.from tx.to tx.amount tx.fee sm = run at hkeep hspec ⊢
  obtain ⟨⟨⟨⟩⟩ | e | _, sm'⟩ := run
  · obtain ⟨fa, ta, i, j, htransferred⟩ := hspec
    obtain ⟨hbook, hcost⟩ := htransferred.book
    refine ⟨hkeep, ?_⟩
    rw [hbook]
    exact spends_pay hne tx.amount_le hcost sm.nonce_le
  · refine ⟨hkeep, ?_⟩
    rw [book_congr (hspec : SameLedger sm sm').account]
    exact Spends.refl sm.book
  · exact (hspec : False).elim

theorem applyTransactions_frugal {txs : List Transaction} (h : ∀ tx ∈ txs, tx.from ≠ tx.to) :
    Within Frugal (applyTransactions txs : Exec PacyteError (StateManager σ) Unit) := by
  induction txs with
  | nil => exact Within.pure _
  | cons tx rest ih =>
      rw [List.forall_mem_cons] at h
      exact Within.bind (applyTransfer_frugal h.1) fun _ => ih h.2

/-- A commit that fails leaves the changes in the cache. -/
theorem commitDirtyAccounts_frugal (h : Storage.KeepsAccounts σ) :
    Within Frugal (commitDirtyAccounts : Exec PacyteError (StateManager σ) Unit) := by
  intro sm
  have hempty : ∀ st : σ, Backed { sm with dirtyAccounts := ∅, storage := st } := by
    intro st a acc hdirty
    rw [AList.lookup_empty] at hdirty
    cases hdirty
  have hspec := commitDirtyAccounts_spec sm
  rw [Post, commitDirtyAccounts_run] at hspec
  rw [commitDirtyAccounts_run]
  split_ifs at hspec ⊢
  · exact frugal_of_account (fun _ => hempty sm.storage) fun _ => (hspec.2.2.2.2 rfl).1
  · refine frugal_of_account (fun _ => hempty _) fun hb => ?_
    by_cases hok : (Storage.writeBatch sm.dirtyBatch sm.storage).1 = .ok ()
    · exact (hspec.2.2.2.2 hok).1
    · have hblocks : sm.dirtyBatch.blocks = [] :=
        (foldl_addAccount sm.dirtyAccounts.toPairs WriteBatch.new).2
      funext a
      simp only [account, h.writeBatch _ _ hblocks hok, AList.lookup_empty]
      cases hcache : sm.accountCache.lookup a with
      | some acc => rfl
      | none =>
          -- what is not in the cache is not among the changes
          cases hdirty : sm.dirtyAccounts.lookup a with
          | none => rfl
          | some acc =>
              rw [hb a acc hdirty] at hcache
              cases hcache

/-- **A proper block spends**, whether it is applied or not. -/
theorem applyBlock_frugal [Primitives] (h : Storage.KeepsAccounts σ) {block : Block}
    (hproper : block.Proper) :
    Within Frugal (applyBlock block : Exec PacyteError (StateManager σ) StateVersion) := by
  have hroot : Within Frugal (computeStateRoot : Exec PacyteError (StateManager σ) Hash) := by
    intro sm
    obtain ⟨root, hrun⟩ := computeStateRoot_run sm
    rw [hrun]
    exact refl_of Frugal sm
  refine Within.bind Within.get fun sm => Within.bind (Within.addU64 _ _) fun expected => ?_
  refine Within.ite (Within.throw _) ?_
  refine Within.bind (applyTransactions_frugal hproper) fun _ => ?_
  refine Within.bind hroot fun root => Within.bind (onClock_frugal _) fun now => ?_
  refine Within.bind (Within.modify fun _ => frugal_of_eq rfl rfl rfl) fun _ => ?_
  refine Within.bind (onStorage_frugal fun s => (LawfulStorage.saveStateRoot_view _ _ s).1)
    fun _ => ?_
  refine Within.bind (Within.modify fun _ => frugal_of_eq rfl rfl rfl) fun _ => ?_
  exact Within.bind (commitDirtyAccounts_frugal h) fun _ => Within.pure _

end StateManager

/-! ## The engine -/

namespace Engine

open Exec MempoolImpl

variable {σ ν : Type} [LawfulStorage σ]

/-- Between two commits: the pool stays indexed and the accounts spend. -/
structure Frugal (e e' : Engine σ MempoolImpl ν) : Prop where
  height : e'.height = e.height
  currentProposal : e'.currentProposal = e.currentProposal
  pool : Indexed e.mempool → Indexed e'.mempool
  stateManager : StateManager.Frugal e.stateManager e'.stateManager

instance : Std.Refl (Frugal (σ := σ) (ν := ν)) :=
  ⟨fun e => ⟨rfl, rfl, id, refl_of StateManager.Frugal e.stateManager⟩⟩

instance : IsTrans (Engine σ MempoolImpl ν) Frugal :=
  ⟨fun _ _ _ h h' => ⟨h'.height.trans h.height, h'.currentProposal.trans h.currentProposal,
    h'.pool ∘ h.pool, trans_of StateManager.Frugal h.stateManager h'.stateManager⟩⟩

/-- A change of other fields. -/
theorem Frugal.of_eq {e e' : Engine σ MempoolImpl ν} (h₁ : e'.height = e.height)
    (h₂ : e'.currentProposal = e.currentProposal) (h₃ : e'.mempool = e.mempool)
    (h₄ : e'.stateManager = e.stateManager) : Frugal e e' :=
  ⟨h₁, h₂, fun h => h₃ ▸ h, h₄ ▸ refl_of StateManager.Frugal e.stateManager⟩

theorem onState_frugal {α : Type} {m : Exec PacyteError (StateManager σ) α}
    (h : Within StateManager.Frugal m) :
    Within Frugal (onState m : Exec PacyteError (Engine σ MempoolImpl ν) α) :=
  fun e => ⟨rfl, rfl, id, h e.stateManager⟩

/-- A mempool operation that keeps the pool indexed and looks up accounts. -/
theorem onMempool_frugal {α : Type} {m : Exec Empty (MempoolImpl × StateManager σ) α}
    (hpool : ∀ p, Indexed p.1 → Indexed (m p).2.1)
    (hstate : ∀ p sm, ∃ as, (m (p, sm)).2.2 = sm.lookups as) :
    Within Frugal (onMempool m : Exec PacyteError (Engine σ MempoolImpl ν) α) := by
  intro e
  obtain ⟨as, has⟩ := hstate e.mempool e.stateManager
  have hindexed := hpool (e.mempool, e.stateManager)
  have hrun : (onMempool m e : Outcome PacyteError α × Engine σ MempoolImpl ν).2
      = { e with
          mempool := (m (e.mempool, e.stateManager)).2.1
          stateManager := (m (e.mempool, e.stateManager)).2.2 } := by
    rw [onMempool, run_onPart, infallible]
    rcases m (e.mempool, e.stateManager) with ⟨_ | x | _, p⟩
    · rfl
    · exact x.elim
    · rfl
  rw [hrun]
  refine ⟨rfl, rfl, hindexed, ?_⟩
  show StateManager.Frugal e.stateManager (m (e.mempool, e.stateManager)).2.2
  rw [has]
  exact StateManager.lookups_frugal as e.stateManager

theorem selectForBlock_frugal (count size : ℕ) :
    Within Frugal (onMempool (Mempool.selectForBlock count size) :
      Exec PacyteError (Engine σ MempoolImpl ν) (List Transaction)) := by
  refine onMempool_frugal (fun p hp => ?_) (LawfulMempool.selectForBlock_lookups count size)
  show Indexed (MempoolImpl.selectForBlock count size p.1).2
  rwa [selectForBlock_snd]

theorem cleanup_frugal (hashes : List Hash) :
    Within Frugal (onMempool (Mempool.cleanup hashes) :
      Exec PacyteError (Engine σ MempoolImpl ν) Unit) := by
  refine onMempool_frugal (fun p hp => ?_) (LawfulMempool.cleanup_lookups hashes)
  obtain ⟨stale, hstale⟩ := cleanup_removes hashes p
  show Indexed (MempoolImpl.cleanup hashes p).2.1
  rw [hstale]
  exact (hp.removeAll hashes).removeAll stale

/-- Reads, votes and messages are frugal. -/
theorem voteInert_frugal (h : Storage.KeepsAccounts σ) :
    VoteInert (Frugal (σ := σ) (ν := ν)) where
  clock _ _ := ⟨rfl, rfl, id, StateManager.frugal_of_eq rfl rfl rfl⟩
  latestBlock := onState_frugal (StateManager.onStorage_frugal h.getLatestBlock)
  selectForBlock := selectForBlock_frugal
  event _ _ := Frugal.of_eq rfl rfl rfl rfl
  sent _ _ := Frugal.of_eq rfl rfl rfl rfl
  network _ _ := Frugal.of_eq rfl rfl rfl rfl
  commands _ _ := Frugal.of_eq rfl rfl rfl rfl
  recorded e v := by
    unfold addVote
    cases v.voteType <;> exact Frugal.of_eq rfl rfl rfl rfl
  voted _ _ := Frugal.of_eq rfl rfl rfl rfl

/-! ## Where proposals come from -/

/-- The selected transactions are pooled, so they go to somebody else. -/
theorem selected_proper {pool : MempoolImpl} (h : Indexed pool) {count size : ℕ}
    {txs : List Transaction} (hselect : (MempoolImpl.selectForBlock count size pool).1 = .ok txs) :
    ∀ tx ∈ txs, tx.from ≠ tx.to := by
  rw [selectForBlock_choice h] at hselect
  cases hchoice : choice count size pool with
  | none =>
      rw [hchoice] at hselect
      cases hselect
  | some taken =>
      rw [hchoice] at hselect
      obtain rfl := Outcome.ok.inj hselect
      intro tx htx
      obtain ⟨q, hq, rfl⟩ := List.mem_map.mp htx
      obtain ⟨hash, hlookup⟩ := mem_order (mem_of_chosen hchoice hq)
      exact (h.wellFormed hash q hlookup).1

variable [Primitives]

/-- **An own block is proper.** -/
theorem createBlock_proper (h : Storage.KeepsAccounts σ) (height : BlockHeight)
    (e : Engine σ MempoolImpl ν) (hpool : Indexed e.mempool) :
    Post (createBlock height) e fun o _ => ∀ block, o = .ok block → block.Proper := by
  unfold createBlock
  refine ((voteInert_frugal (ν := ν) h).latestBlock.post e).seq ?_ (by rintro _ _ - _ ⟨⟩)
    (by rintro _ - _ ⟨⟩)
  rintro (_ | prev) e₁ h₁
  · exact Returns.bind (P := Block.Proper) _ (fun _ => Returns.throw _) e₁
  · dsimp only
    rw [post_bind, post_get]
    dsimp only
    have hselect : Post (onMempool (Mempool.selectForBlock 10000 e₁.config.maxBlockSize)) e₁
        fun o _ => ∀ txs, o = Outcome.ok txs → ∀ tx ∈ txs, tx.from ≠ tx.to := by
      rw [onMempool, post_onPart, post_infallible]
      have hproper : ∀ txs, (MempoolImpl.selectForBlock 10000 e₁.config.maxBlockSize
          e₁.mempool).1 = .ok txs → ∀ tx ∈ txs, tx.from ≠ tx.to :=
        fun _ => selected_proper (h₁.pool hpool)
      have hfst : (Mempool.selectForBlock 10000 e₁.config.maxBlockSize
          (e₁.mempool, e₁.stateManager)).1
            = (MempoolImpl.selectForBlock 10000 e₁.config.maxBlockSize e₁.mempool).1 := rfl
      rw [Post, hfst]
      revert hproper
      rcases (MempoolImpl.selectForBlock 10000 e₁.config.maxBlockSize e₁.mempool).1
        with txs | x | _ <;> intro hproper
      · rintro txs' hok
        obtain rfl := Outcome.ok.inj hok
        exact hproper txs rfl
      · exact x.elim
      · rintro _ ⟨⟩
    refine hselect.seq ?_ (by rintro _ _ - _ ⟨⟩) (by rintro _ - _ ⟨⟩)
    intro txs e₂ htxs
    refine Returns.bind (P := Block.Proper) _ (fun proposer => ?_) e₂
    exact Returns.bind _ fun now => Returns.pure (htxs txs rfl)

omit [LawfulStorage σ] [Primitives] in
/-- The loop of `validate_block` lets only proper transactions pass. -/
theorem validateTransactions_proper (txs : List Transaction) (e : Engine σ MempoolImpl ν) :
    Post (validateTransactions txs) e fun o _ => o = .ok true → ∀ tx ∈ txs, tx.from ≠ tx.to := by
  induction txs generalizing e with
  | nil => exact fun _ tx htx => nomatch htx
  | cons tx rest ih =>
      have hbasic : Post (onClock (tx.validateBasic 3600)) e fun o _ =>
          o = .ok true → tx.from ≠ tx.to ∧ tx.amount ≠ 0 :=
        validateBasic_wellFormed tx 3600 e.stateManager.clock
      refine hbasic.seq ?_ (by rintro _ _ - ⟨⟩) (by rintro _ - ⟨⟩)
      rintro (_ | _) e₁ hok
      · exact fun h => nomatch h
      · refine (ih e₁).mono ?_
        intro o _ hrest ho
        rw [List.forall_mem_cons]
        exact ⟨(hok rfl).1, hrest ho⟩

/-- **A block that passes the check is proper.** -/
theorem validateBlock_proper (block : Block) (e : Engine σ MempoolImpl ν) :
    Post (validateBlock block) e fun o _ => o = .ok true → block.Proper := by
  unfold validateBlock
  rw [post_bind, post_get]
  dsimp only
  rw [post_ite]
  refine ⟨by rintro - ⟨⟩, fun _ => ?_⟩
  refine Post.seq (R := fun _ _ => True) trivial ?_ (by rintro _ _ - ⟨⟩) (by rintro _ - ⟨⟩)
  rintro (_ | prev) e₁ -
  · exact validateTransactions_proper _ e₁
  · dsimp only
    rw [post_ite]
    exact ⟨by rintro - ⟨⟩, fun _ => validateTransactions_proper _ e₁⟩

/-! ## The invariant -/

/-- What holds from the start on: the pool is indexed, the accounts have spent since, and a
current proposal is proper. -/
structure Capped (start : Book Address) (e : Engine σ MempoolImpl ν) : Prop where
  pool : Indexed e.mempool
  backed : StateManager.Backed e.stateManager
  book : Book.Spends start e.stateManager.book
  proposal : ∀ p, e.currentProposal = some p → p.block.Proper

variable {start : Book Address}

omit [Primitives] in
theorem Capped.frugal {e e' : Engine σ MempoolImpl ν} (h : Capped start e) (hs : Frugal e e') :
    Capped start e' := by
  obtain ⟨hbacked, hspends⟩ := hs.stateManager h.backed
  refine ⟨hs.pool h.pool, hbacked, h.book.trans hspends, ?_⟩
  rw [hs.currentProposal]
  exact h.proposal

theorem capped_proposes (h : Storage.KeepsAccounts σ) :
    Proposes (Frugal (σ := σ) (ν := ν)) (fun _ block => block.Proper) (Capped start)
      (Capped start) where
  inert := voteInert_frugal h
  height _ _ hs := hs.height
  panic _ he := he
  moves _ _ hs he := he.frugal hs
  round _ _ _ _ he := ⟨he.pool, he.backed, he.book, he.proposal⟩
  fits _ _ _ _ _ hproper := hproper
  created height e block he := createBlock_proper h height e he.pool block
  validated e block _ := validateBlock_proper block e
  proposal e p he hproper := by
    refine ⟨he.pool, he.backed, he.book, ?_⟩
    rintro q ⟨⟩
    exact hproper

variable [Network ν]

/-- What `commit_block` does once the block is saved. -/
theorem capped_afterSave (h : Storage.KeepsAccounts σ) (height : BlockHeight) (block : Block) :
    Keeps (Capped start) (Capped start)
      (afterSave height block : Exec PacyteError (Engine σ MempoolImpl ν) Unit) := by
  have hpr : Proposes (Frugal (σ := σ) (ν := ν)) (fun _ block => block.Proper) (Capped start)
      (Capped start) := capped_proposes h
  refine Keeps.bind (hpr.keeps (cleanup_frugal _)) fun _ => ?_
  refine Keeps.bind (Keeps.modify fun e he => ⟨he.pool, he.backed, he.book, he.proposal⟩)
    fun _ => ?_
  refine Keeps.bind (hpr.keeps (hpr.inert.emit _)) fun _ => ?_
  refine Keeps.bind (hpr.keeps (Within.addU64 _ _)) fun next => ?_
  exact Keeps.bind (Keeps.modify fun e he => ⟨he.pool, he.backed, he.book, he.proposal⟩)
    fun _ => hpr.startNewRound next 0

/-- **A commit spends**, also one that fails. -/
theorem capped_commit (h : Storage.KeepsAccounts σ) (height : BlockHeight)
    (certificate : Certificate) :
    Keeps (Capped start) (Capped start)
      (commitBlock height certificate : Exec PacyteError (Engine σ MempoolImpl ν) Unit) := by
  have hpr : Proposes (Frugal (σ := σ) (ν := ν)) (fun _ block => block.Proper) (Capped start)
      (Capped start) := capped_proposes h
  intro e he
  unfold commitBlock
  rw [post_bind, post_get]
  dsimp only
  cases hp : e.currentProposal with
  | none => exact he
  | some p =>
      have happly : Within Frugal (onState (StateManager.applyBlock p.block) :
          Exec PacyteError (Engine σ MempoolImpl ν) StateVersion) :=
        onState_frugal (StateManager.applyBlock_frugal h (he.proposal p hp))
      have hsave : Within Frugal (onStorage (Storage.saveBlock p.block) :
          Exec PacyteError (Engine σ MempoolImpl ν) Unit) :=
        onState_frugal (StateManager.onStorage_frugal (h.saveBlock p.block))
      refine Keeps.bind (hpr.keeps happly) (fun _ => ?_) e he
      refine Keeps.bind (hpr.keeps hsave) fun _ => ?_
      exact Keeps.bind (Keeps.modify fun e he => ⟨he.pool, he.backed, he.book, he.proposal⟩)
        fun _ => capped_afterSave h height p.block

theorem capped_upheld (h : Storage.KeepsAccounts σ) :
    Upheld (Frugal (σ := σ) (ν := ν)) (fun _ block => block.Proper) (Capped start)
      (Capped start) where
  toProposes := capped_proposes h
  commit e certificate he := capped_commit h e.height certificate e he

theorem capped_startUp (h : Storage.KeepsAccounts σ) :
    Keeps (Capped start) (Capped start)
      (startUp : Exec PacyteError (Engine σ MempoolImpl ν) Unit) := by
  have hpr : Proposes (Frugal (σ := σ) (ν := ν)) (fun _ block => block.Proper) (Capped start)
      (Capped start) := capped_proposes h
  have hraise : Keeps (Capped start) (Capped start)
      (raiseHeight : Exec PacyteError (Engine σ MempoolImpl ν) Unit) := by
    have hread : Within (Frugal (ν := ν)) (onStorage Storage.getBlockHeight) :=
      onState_frugal (StateManager.onStorage_frugal h.getBlockHeight)
    refine Keeps.bind (hpr.keeps (hread.unwrapOr 0)) fun saved => Keeps.modify fun e he => ?_
    split_ifs
    · exact ⟨he.pool, he.backed, he.book, he.proposal⟩
    · exact he
  exact Keeps.bind hraise fun _ => Keeps.bind Keeps.get fun e =>
    Keeps.bind (hpr.startNewRound _ _) fun _ => hraise

/-! ## Submitted transactions -/

section Submit

variable (F : Type) [FeeFloat F] [Verifiers]

/-- `add_transaction` on the mempool of the node. -/
def submit (tx : Transaction) (e : Engine σ MempoolImpl ν) : Engine σ MempoolImpl ν :=
  { e with
    mempool := (addTransaction F tx (e.mempool, e.stateManager)).2.1
    stateManager := (addTransaction F tx (e.mempool, e.stateManager)).2.2 }

omit [Network ν] in
/-- The checks of the mempool look up accounts and read the clock. -/
theorem validateTransaction_frugal (config : MempoolConfig) (tx : Transaction) :
    Within StateManager.Frugal (validateTransaction config tx :
      Exec PacyteError (StateManager σ) (Option String)) := by
  have hbalance : Within StateManager.Frugal (MempoolValidator.knownBalance tx.from :
      Exec PacyteError (StateManager σ) U128) := by
    apply Within.unwrapOr
    refine Within.bind (StateManager.getAccount_frugal tx.from) fun r => ?_
    cases r <;> exact Within.pure _
  have hnonce : Within StateManager.Frugal (MempoolValidator.knownNonce tx.from :
      Exec PacyteError (StateManager σ) UInt64) := by
    apply Within.unwrapOr
    refine Within.bind (StateManager.getAccount_frugal tx.from) fun r => ?_
    cases r <;> exact Within.pure _
  refine Within.bind (StateManager.onClock_frugal _) fun basic => ?_
  refine Within.ite (Within.ite ?_ (Within.pure _)) (Within.pure _)
  refine Within.bind (Within.bind hbalance fun _ => Within.pure _) fun covered => ?_
  refine Within.ite (Within.bind ?_ fun result => ?_) (Within.pure _)
  · refine Within.bind hnonce fun current => Within.ite (Within.pure _) ?_
    exact Within.bind (Within.addU64 _ _) fun _ => Within.ite (Within.pure _) (Within.pure _)
  · exact Within.ite (Within.ite (Within.pure _) (Within.pure _)) (Within.pure _)

omit [Network ν] in
/-- **A submission is frugal**, whether the transaction is taken or not. -/
theorem submit_frugal (tx : Transaction) (e : Engine σ MempoolImpl ν) :
    Frugal e (submit F tx e) := by
  refine ⟨rfl, rfl, fun h => ?_, ?_⟩
  · exact (h.add (addTransaction_spec F tx (e.mempool, e.stateManager))).1
  · -- on the pair of pool and state manager
    let R : MempoolImpl × StateManager σ → MempoolImpl × StateManager σ → Prop :=
      fun p p' => StateManager.Frugal p.2 p'.2
    have : Std.Refl R := ⟨fun p => refl_of StateManager.Frugal p.2⟩
    have : IsTrans (MempoolImpl × StateManager σ) R :=
      ⟨fun _ _ _ h h' => trans_of StateManager.Frugal h h'⟩
    have hinsert : Within R (insertNew F tx) :=
      Within.bind (fun p => StateManager.onClock_frugal currentTimestamp p.2) fun _ p =>
        refl_of StateManager.Frugal p.2
    have hadd : Within R (addTransaction F tx) := by
      refine Within.bind Within.get fun p => Within.ite (Within.pure _) ?_
      refine Within.ite (Within.pure _) (Within.ite (Within.pure _) ?_)
      refine Within.bind (fun p => validateTransaction_frugal _ tx p.2) fun reason => ?_
      cases reason with
      | some reason => exact Within.pure _
      | none =>
          dsimp only
          cases conflicting tx p.1 with
          | none => exact Within.bind hinsert fun _ => Within.pure _
          | some existing =>
              refine Within.ite ?_ (Within.pure _)
              exact Within.bind (fun p => refl_of StateManager.Frugal p.2) fun _ =>
                Within.bind hinsert fun _ => Within.pure _
    exact hadd (e.mempool, e.stateManager)

end Submit

end Engine

/-! ## Runs -/

/-- A command of the loop, or a transaction that is submitted to the mempool. -/
inductive NodeEvent : Type where
  | command (command : ConsensusCommand)
  | submit (tx : Transaction)

namespace Node

open Engine MempoolImpl

variable (F : Type) [FeeFloat F] [Primitives] [Verifiers] {σ ν : Type} [LawfulStorage σ]
  [Network ν]

/-- The node after an event. -/
def react (event : NodeEvent) (node : Node σ MempoolImpl ν) : Node σ MempoolImpl ν :=
  match event with
  | .command command => node.step command
  | .submit tx => { node with engine := node.engine.submit F tx }

/-- The node that is started with an engine, after the events. -/
def history (e : Engine σ MempoolImpl ν) (events : List NodeEvent) : Node σ MempoolImpl ν :=
  Runs.run (react F) (boot e) events

/-- **A node creates no money.**  On a storage that keeps its accounts, started with an empty
cache, an indexed pool and no current proposal: whatever commands and transactions arrive, the
balances never add up to more than at the start, so no account ever has more than that, and no
nonce falls. -/
theorem supply_never_grows (h : Storage.KeepsAccounts σ) (e : Engine σ MempoolImpl ν)
    (hpool : Indexed e.mempool) (hproposal : e.currentProposal = none)
    (hdirty : e.stateManager.dirtyAccounts = ∅) (events : List NodeEvent) :
    let book := (history F e events).engine.stateManager.book
    book.total ≤ e.stateManager.book.total ∧
      (∀ a, book.balance a ≤ e.stateManager.book.total) ∧
      ∀ a, e.stateManager.book.nonce a ≤ book.nonce a := by
  have hstart : Capped e.stateManager.book e := by
    refine ⟨hpool, ?_, Book.Spends.refl _, ?_⟩
    · intro a acc hacc
      rw [hdirty, AList.lookup_empty] at hacc
      cases hacc
    · rw [hproposal]
      rintro p ⟨⟩
  have hboot : Holds (Capped e.stateManager.book) (Capped e.stateManager.book) (boot e) :=
    boot_holds (fun _ he => he) (capped_startUp h e hstart)
  have hholds : ∀ node : Node σ MempoolImpl ν,
      Holds (Capped e.stateManager.book) (Capped e.stateManager.book) node ↔
        Capped e.stateManager.book node.engine := by
    intro node
    unfold Holds
    split_ifs <;> exact Iff.rfl
  have hrun : Capped e.stateManager.book (history F e events).engine := by
    refine Runs.invariant (I := fun node : Node σ MempoolImpl ν =>
      Capped e.stateManager.book node.engine) ?_ ((hholds _).mp hboot) events
    intro node event hnode
    cases event with
    | command command =>
        exact (hholds _).mp (step_holds (capped_upheld h) node command ((hholds _).mpr hnode))
    | submit tx => exact hnode.frugal (submit_frugal F tx node.engine)
  refine ⟨hrun.book.total, fun a => ?_, hrun.book.nonce⟩
  exact (Book.balance_le_total _ a).trans hrun.book.total

end Node

/-! ## A committed transfer -/

section Example

open scoped Sample
open Sample

/-- The first transfer of an account, which the pool holds from the start on. -/
def Sample.pooledPool : MempoolImpl × StateManager MemoryStorage :=
  poolAfter [(sampleAddress 1, 5000)] [.add (signedTransfer 1 2 10 1000 0)]

/-- The only validator over two blocks, before its start, with the given pool and accounts. -/
def Sample.payingEngine (p : MempoolImpl × StateManager MemoryStorage) :
    Engine MemoryStorage MempoolImpl OpenNetwork :=
  let stored := { p.2.storage with blocks := [blockZero, blockOne] }
  ((Engine.new ⟨1000000, 10⟩ { p.2 with storage := stored } p.1 ⟨⟩).setValidator 1
    fun _ => [1]).updateValidatorSet (validators [1])

theorem Sample.payingEngine_fresh (p : MempoolImpl × StateManager MemoryStorage) :
    (payingEngine p).mempool = p.1 ∧ (payingEngine p).currentProposal = none ∧
      (payingEngine p).stateManager.dirtyAccounts = p.2.dirtyAccounts := ⟨rfl, rfl, rfl⟩

/-- The transfer is in the first block that is made, another one waits, and a precommit for
the block moves the money. -/
theorem transfer_keeps_supply :
    let events := [NodeEvent.submit (signedTransfer 2 1 1 1000 0),
      .command (.voteReceived (vote .precommit 1 0 zero32))]
    let node := Node.history ℚ (payingEngine pooledPool) events
    node.engine.height = 2 ∧
      node.engine.stateManager.book.balance (sampleAddress 2) = 10 ∧
      node.engine.stateManager.book.total ≤ (payingEngine pooledPool).stateManager.book.total := by
  intro events node
  refine ⟨by decide +kernel, by decide +kernel, ?_⟩
  have hreachable : MempoolImpl.Reachable ℚ poolConfig pooledPool :=
    ⟨sampleState [(sampleAddress 1, 5000)], [.add (signedTransfer 1 2 10 1000 0)], rfl⟩
  obtain ⟨hmempool, hproposal, hdirty⟩ := payingEngine_fresh pooledPool
  have hpool : MempoolImpl.Indexed (payingEngine pooledPool).mempool := by
    rw [hmempool]
    exact (MempoolImpl.Reachable.indexed ℚ hreachable).1
  have hlength : pooledPool.2.dirtyAccounts.entries.length = 0 := by decide +kernel
  have hclean : pooledPool.2.dirtyAccounts = ∅ := AList.ext (List.length_eq_zero_iff.mp hlength)
  have hsupply := Node.supply_never_grows ℚ MemoryStorage.keepsAccounts (payingEngine pooledPool)
    hpool hproposal (hdirty.trans hclean) events
  have hnode : node = Node.history ℚ (payingEngine pooledPool) events := rfl
  rw [hnode]
  exact hsupply.1

end Example
