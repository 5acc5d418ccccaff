/-
# What the state manager's operations do to the accounts

The specifications of `get_account`, `set_account`, `apply_transfer` and
`commit_dirty_accounts` over a lawful storage, in terms of the account view
`StateManager.account`.

* Reads, and transfers that are refused, leave the ledger as it was
  (`SameLedger`): only the cache and the clock may move.
* A transfer that succeeds writes the sender's and then the recipient's account
  (`Transferred`).  For `from = to` the second write replaces the first.
-/
import Pacyte.StateManager

namespace StateManager

open Exec

variable {σ : Type} [LawfulStorage σ]

/-! ## The view -/

/-- The account that `get_account` finds for an address. -/
def account (sm : StateManager σ) (address : Address) : Option Account :=
  match sm.accountCache.lookup address with
  | some account => some account
  | none =>
    match sm.dirtyAccounts.lookup address with
    | some account => some account
    | none => LawfulStorage.accountAt sm.storage address

/-- The later state differs from the earlier one in its caches and in the number
of clock readings taken, and in nothing else. -/
structure SameLedger (sm sm' : StateManager σ) : Prop where
  account : sm'.account = sm.account
  blocks : LawfulStorage.blockAt sm'.storage = LawfulStorage.blockAt sm.storage
  dirtyAccounts : sm'.dirtyAccounts = sm.dirtyAccounts
  versions : sm'.versions = sm.versions
  currentRoot : sm'.currentRoot = sm.currentRoot
  currentHeight : sm'.currentHeight = sm.currentHeight
  clock : ∃ n, sm'.clock = fun k => sm.clock (k + n)

theorem SameLedger.refl (sm : StateManager σ) : SameLedger sm sm :=
  ⟨rfl, rfl, rfl, rfl, rfl, rfl, 0, rfl⟩

theorem SameLedger.trans {sm₁ sm₂ sm₃ : StateManager σ} (h : SameLedger sm₁ sm₂)
    (h' : SameLedger sm₂ sm₃) : SameLedger sm₁ sm₃ := by
  obtain ⟨n, hn⟩ := h.clock
  obtain ⟨n', hn'⟩ := h'.clock
  refine ⟨h'.account.trans h.account, h'.blocks.trans h.blocks,
    h'.dirtyAccounts.trans h.dirtyAccounts, h'.versions.trans h.versions,
    h'.currentRoot.trans h.currentRoot, h'.currentHeight.trans h.currentHeight,
    n' + n, ?_⟩
  rw [hn', hn]
  funext k
  rw [← Nat.add_assoc]

/-- A clock reading leaves the ledger as it was. -/
theorem sameLedger_clock (sm : StateManager σ) (n : ℕ) :
    SameLedger sm { sm with clock := fun k => sm.clock (k + n) } :=
  ⟨rfl, rfl, rfl, rfl, rfl, rfl, n, rfl⟩

omit [LawfulStorage σ] in
theorem post_now (sm : StateManager σ) (Q : Outcome PacyteError Timestamp → StateManager σ → Prop) :
    Post (onClock currentTimestamp) sm Q ↔
      Q (.ok (sm.clock 0)) { sm with clock := fun k => sm.clock (k + 1) } := Iff.rfl

/-! ## Reading accounts -/

/-- Caching the stored account does not change the view. -/
theorem account_cached (sm : StateManager σ) (st : σ) (a : Address) (acc : Account)
    (hcache : sm.accountCache.lookup a = none) (hdirty : sm.dirtyAccounts.lookup a = none)
    (hst : LawfulStorage.accountAt st = LawfulStorage.accountAt sm.storage)
    (hacc : LawfulStorage.accountAt sm.storage a = some acc) :
    StateManager.account { sm with
      storage := st, accountCache := sm.accountCache.insert a acc } = sm.account := by
  funext x
  unfold account
  by_cases hx : x = a
  · subst hx
    simp [hcache, hdirty, hacc]
  · simp only [AList.lookup_insert_ne hx, hst]

/-- `get_account` returns the view and leaves the ledger as it was. -/
theorem getAccount_spec (a : Address) (sm : StateManager σ) :
    Post (getAccount a) sm fun o sm' =>
      SameLedger sm sm' ∧ sm'.clock = sm.clock ∧
        match o with
        | .ok r => r = sm.account a
        | .err _ => True
        | .panic => False := by
  unfold getAccount
  simp only [post_bind, post_get]
  cases hcache : sm.accountCache.lookup a with
  | some acc => exact ⟨SameLedger.refl sm, rfl, by simp [account, hcache]⟩
  | none =>
      cases hdirty : sm.dirtyAccounts.lookup a with
      | some acc => exact ⟨SameLedger.refl sm, rfl, by simp [account, hcache, hdirty]⟩
      | none =>
          have hview := LawfulStorage.getAccount_view a sm.storage
          have hval := LawfulStorage.getAccount_eq a sm.storage
          have hpanic := LawfulStorage.getAccount_ne_panic a sm.storage
          have hread : sm.account a = LawfulStorage.accountAt sm.storage a := by
            simp [account, hcache, hdirty]
          simp only [post_bind, onStorage, post_onPart]
          rw [Post]
          rcases hr : Storage.getAccount a sm.storage with ⟨o, st⟩
          rw [hr] at hview hval hpanic
          have hsame : SameLedger sm { sm with storage := st } := by
            refine ⟨?_, hview.2, rfl, rfl, rfl, rfl, 0, rfl⟩
            funext x
            simp only [account, hview.1]
          cases o with
          | ok r =>
              have hacc := hval r rfl
              cases r with
              | none => exact ⟨hsame, rfl, hacc.trans hread.symm⟩
              | some acc =>
                  refine ⟨⟨?_, hview.2, rfl, rfl, rfl, rfl, 0, rfl⟩, rfl, hacc.trans hread.symm⟩
                  exact account_cached sm st a acc hcache hdirty hview.1 hacc.symm
          | err e => exact ⟨hsame, trivial, trivial⟩
          | panic => exact absurd rfl hpanic

/-- The account a transfer to `a` adds to: the one in the view, or a new one. -/
def Recipient (sm : StateManager σ) (a : Address) (acc : Account) : Prop :=
  sm.account a = some acc ∨ sm.account a = none ∧ ∃ i, acc = Account.new a 0 (sm.clock i)

theorem getAccountOrNew_spec (a : Address) (sm : StateManager σ) :
    Post (getAccountOrNew a) sm fun o sm' =>
      SameLedger sm sm' ∧
        match o with
        | .ok acc => Recipient sm a acc
        | .err _ => True
        | .panic => False := by
  unfold getAccountOrNew
  refine (getAccount_spec a sm).seq ?_ ?_ ?_
  · rintro r sm' ⟨hsame, hclock, hr⟩
    cases r with
    | some acc => exact ⟨hsame, Or.inl hr.symm⟩
    | none =>
        refine ⟨hsame.trans (sameLedger_clock sm' 1), Or.inr ⟨hr.symm, 0, ?_⟩⟩
        exact congrArg (fun c => Account.new a 0 (c 0)) hclock
  · rintro e sm' ⟨hsame, -, -⟩
    exact ⟨hsame, trivial⟩
  · rintro sm' ⟨-, -, hfalse⟩
    exact hfalse.elim

/-! ## Writing accounts -/

/-- The state after `set_account`. -/
def withAccount (sm : StateManager σ) (a : Address) (acc : Account) : StateManager σ :=
  { sm with
    dirtyAccounts := sm.dirtyAccounts.insert a acc
    accountCache := sm.accountCache.insert a acc }

omit [LawfulStorage σ] in
theorem post_setAccount (a : Address) (acc : Account) (sm : StateManager σ)
    (Q : Outcome PacyteError Unit → StateManager σ → Prop) :
    Post (setAccount a acc) sm Q ↔ Q (.ok ()) (sm.withAccount a acc) := Iff.rfl

/-- Writing an account changes the view at that address. -/
theorem account_withAccount (sm : StateManager σ) (a : Address) (acc : Account) :
    (sm.withAccount a acc).account = Function.update sm.account a (some acc) := by
  funext x
  by_cases hx : x = a
  · subst hx
    simp [account, withAccount]
  · simp only [account, withAccount, AList.lookup_insert_ne hx, Function.update_of_ne hx]

/-! ## Transfers -/

/-- What a successful transfer does: the sender `fa` can pay, the debited sender
is written, then the credited recipient `ta`. -/
structure Transferred («from» «to» : Address) (amount fee : U128)
    (sm sm' : StateManager σ) (fa ta : Account) (i j : ℕ) : Prop where
  sender : sm.account «from» = some fa
  funds : (U128.saturatingAdd amount fee).toNat ≤ fa.balance.toNat
  recipient : Recipient sm «to» ta
  account : sm'.account =
    Function.update
      (Function.update sm.account «from»
        (some ((debit fa (U128.saturatingAdd amount fee)).recordActivity (sm.clock i))))
      «to» (some ((credit ta amount).recordActivity (sm.clock j)))
  blocks : LawfulStorage.blockAt sm'.storage = LawfulStorage.blockAt sm.storage
  versions : sm'.versions = sm.versions
  currentRoot : sm'.currentRoot = sm.currentRoot
  currentHeight : sm'.currentHeight = sm.currentHeight
  clock : ∃ n, sm'.clock = fun k => sm.clock (k + n)

/-- **A transfer succeeds as `Transferred`, or is refused and changes nothing.** -/
theorem applyTransfer_spec («from» «to» : Address) (amount fee : U128) (sm : StateManager σ) :
    Post (applyTransfer «from» «to» amount fee) sm fun o sm' =>
      match o with
      | .ok () => ∃ fa ta i j, Transferred «from» «to» amount fee sm sm' fa ta i j
      | .err _ => SameLedger sm sm'
      | .panic => False := by
  unfold applyTransfer
  refine (getAccount_spec «from» sm).seq ?_ ?_ ?_
  · rintro r sm₁ ⟨hsame₁, hclock₁, hr⟩
    cases r with
    | none => exact hsame₁
    | some fa =>
        simp only [post_ite]
        refine ⟨fun _ => hsame₁, fun hfunds => ?_⟩
        simp only [post_bind, post_now, post_setAccount]
        -- reading the clock and the recipient only moves the cache and the clock
        have hsame₂ := hsame₁.trans (sameLedger_clock sm₁ 1)
        refine Post.mono (getAccountOrNew_spec «to»
          { sm₁ with clock := fun k => sm₁.clock (k + 1) }) ?_
        rintro (ta | e | _) sm₂ ⟨hsame, hta⟩
        · have hsame₃ := (hsame₂.trans hsame).trans (sameLedger_clock sm₂ 1)
          obtain ⟨n, hn⟩ := (hsame₂.trans hsame).clock
          refine ⟨fa, ta, 0, n, hr.symm, ?_, ?_, ?_, hsame₃.blocks, hsame₃.versions,
            hsame₃.currentRoot, hsame₃.currentHeight, hsame₃.clock⟩
          · simpa [BitVec.lt_def] using hfunds
          · rcases hta with h | ⟨h, i, hi⟩
            · exact Or.inl (by rw [← hsame₂.account]; exact h)
            · refine Or.inr ⟨by rw [← hsame₂.account]; exact h, i + 1, ?_⟩
              rw [hi, hclock₁]
          · rw [account_withAccount, account_withAccount, hsame₃.account, hclock₁, hn]
            simp only [Nat.zero_add]
        · exact hsame₂.trans hsame
        · exact hta.elim
  · rintro e sm₁ ⟨hsame, -, -⟩
    exact hsame
  · rintro sm₁ ⟨-, -, hfalse⟩
    exact hfalse.elim

/-- The transfers of a list of transactions, one after the other. -/
inductive Transfers : List Transaction → StateManager σ → StateManager σ → Prop
  | nil (sm : StateManager σ) : Transfers [] sm sm
  | cons {tx : Transaction} {rest : List Transaction} {sm₁ sm₂ sm₃ : StateManager σ}
      {fa ta : Account} {i j : ℕ} :
      applyTransfer tx.from tx.to tx.amount tx.fee sm₁ = (.ok (), sm₂) →
      Transferred tx.from tx.to tx.amount tx.fee sm₁ sm₂ fa ta i j →
      Transfers rest sm₂ sm₃ → Transfers (tx :: rest) sm₁ sm₃

theorem Transfers.run {txs : List Transaction} {sm sm' : StateManager σ}
    (h : Transfers txs sm sm') : applyTransactions txs sm = (.ok (), sm') := by
  induction h with
  | nil => rfl
  | cons hrun _ _ ih =>
      rw [applyTransactions, run_bind, hrun]
      exact ih

/-- What all the transfers leave alone. -/
theorem Transfers.frame {txs : List Transaction} {sm sm' : StateManager σ}
    (h : Transfers txs sm sm') :
    LawfulStorage.blockAt sm'.storage = LawfulStorage.blockAt sm.storage ∧
      sm'.versions = sm.versions ∧ sm'.currentRoot = sm.currentRoot ∧
      sm'.currentHeight = sm.currentHeight ∧ ∃ n, sm'.clock = fun k => sm.clock (k + n) := by
  induction h with
  | nil => exact ⟨rfl, rfl, rfl, rfl, 0, rfl⟩
  | cons _ htr _ ih =>
      obtain ⟨hb, hv, hr, hh, n, hn⟩ := ih
      obtain ⟨m, hm⟩ := htr.clock
      refine ⟨hb.trans htr.blocks, hv.trans htr.versions, hr.trans htr.currentRoot,
        hh.trans htr.currentHeight, n + m, ?_⟩
      rw [hn, hm]
      funext k
      rw [← Nat.add_assoc]

/-- The refused transaction of a list, and the state it was refused in. -/
structure Refusal (txs done : List Transaction) (tx : Transaction)
    (sm mid sm' : StateManager σ) : Prop where
  split : ∃ rest, txs = done ++ tx :: rest
  transfers : Transfers done sm mid
  isErr : (applyTransfer tx.from tx.to tx.amount tx.fee mid).1.IsErr
  same : SameLedger mid sm'

/-- The loop over the transactions makes all transfers, or stops at the first one
that is refused. -/
theorem applyTransactions_spec (txs : List Transaction) (sm : StateManager σ) :
    Post (applyTransactions txs) sm fun o sm' =>
      match o with
      | .ok () => Transfers txs sm sm'
      | .err _ => ∃ done tx mid, Refusal txs done tx sm mid sm'
      | .panic => False := by
  induction txs generalizing sm with
  | nil => exact Transfers.nil sm
  | cons tx rest ih =>
      unfold applyTransactions
      refine (applyTransfer_spec tx.from tx.to tx.amount tx.fee sm).run.seq ?_ ?_ ?_
      · rintro ⟨⟩ sm₁ ⟨hrun, fa, ta, i, j, htr⟩
        refine (ih sm₁).mono ?_
        rintro (⟨⟩ | e | _) sm₂ h
        · exact Transfers.cons hrun htr h
        · obtain ⟨done, tx', mid, ⟨rest', hsplit⟩, hdone, herr, hsame⟩ := h
          refine ⟨tx :: done, tx', mid, ⟨rest', ?_⟩, Transfers.cons hrun htr hdone, herr, hsame⟩
          rw [hsplit, List.cons_append]
        · exact h
      · rintro e sm₁ ⟨hrun, hsame⟩
        refine ⟨[], tx, sm, ⟨rest, rfl⟩, Transfers.nil sm, ?_, hsame⟩
        rw [hrun]
        exact Outcome.isErr_err e
      · rintro sm₁ ⟨-, hfalse⟩
        exact hfalse

/-! ## Committing the changes -/

omit [LawfulStorage σ] in
/-- The batch of `commit_dirty_accounts` writes the given accounts and no blocks. -/
theorem foldl_addAccount (pairs : List (Address × Account)) (batch : WriteBatch) :
    (pairs.foldl (fun b e => b.addAccount e.1 e.2) batch).accounts
        = batch.accounts ++ pairs.map (fun e => (e.1, some e.2)) ∧
      (pairs.foldl (fun b e => b.addAccount e.1 e.2) batch).blocks = batch.blocks := by
  induction pairs generalizing batch with
  | nil => simp
  | cons e rest ih =>
      rw [List.foldl_cons]
      obtain ⟨h₁, h₂⟩ := ih (batch.addAccount e.1 e.2)
      refine ⟨?_, h₂⟩
      rw [h₁, WriteBatch.addAccount, List.map_cons, List.append_assoc]
      rfl

/-- Writing all entries of a map: its accounts replace the stored ones. -/
theorem writeAccounts_toPairs (m : Map Address Account)
    (accounts : Address → Option Account) (a : Address) :
    writeAccounts accounts (m.toPairs.map fun e => (e.1, some e.2)) a
      = match m.lookup a with
        | some acc => some acc
        | none => accounts a := by
  have hkeys : ((m.toPairs.map fun e => (e.1, some e.2)).map Prod.fst) = m.keys := by
    simp [Map.toPairs, AList.keys, List.keys, List.map_map, Function.comp_def]
  cases hl : m.lookup a with
  | some acc =>
      apply writeAccounts_of_mem
      · rw [hkeys]
        exact m.keys_nodup
      · have hmem : (⟨a, acc⟩ : Sigma fun _ : Address => Account) ∈ m.entries :=
          AList.mem_lookup_iff.mp hl
        simp only [Map.toPairs, List.map_map, List.mem_map, Function.comp_def]
        exact ⟨_, hmem, rfl⟩
  | none =>
      apply writeAccounts_of_notMem
      intro e he heq
      have ha : a ∈ m.keys := by
        rw [← hkeys, ← heq]
        exact List.mem_map_of_mem he
      rw [AList.lookup_eq_none] at hl
      exact hl ha

/-- The batch that `commit_dirty_accounts` writes. -/
def dirtyBatch (sm : StateManager σ) : WriteBatch :=
  sm.dirtyAccounts.toPairs.foldl (fun b e => b.addAccount e.1 e.2) WriteBatch.new

omit [LawfulStorage σ] in
theorem commitDirtyAccounts_run [Storage σ] (sm : StateManager σ) :
    commitDirtyAccounts sm =
      if sm.dirtyAccounts.entries.isEmpty then (.ok (), { sm with dirtyAccounts := ∅ })
      else ((Storage.writeBatch sm.dirtyBatch sm.storage).1,
        { sm with
          dirtyAccounts := ∅
          storage := (Storage.writeBatch sm.dirtyBatch sm.storage).2 }) := by
  unfold commitDirtyAccounts
  simp only [run_bind, run_get, run_modify]
  split_ifs <;> rfl

/-- The view after a successful batch write is the view of before. -/
theorem account_dirtyBatch (sm : StateManager σ) (st : σ)
    (h : LawfulStorage.accountAt st
      = writeAccounts (LawfulStorage.accountAt sm.storage) sm.dirtyBatch.accounts) :
    StateManager.account { sm with dirtyAccounts := ∅, storage := st } = sm.account := by
  have hbatch := (foldl_addAccount sm.dirtyAccounts.toPairs WriteBatch.new).1
  rw [dirtyBatch, hbatch] at h
  funext a
  simp only [account, h, WriteBatch.new, List.nil_append, writeAccounts_toPairs, AList.lookup_empty]

/-- `commit_dirty_accounts` empties the changes; when it succeeds, the accounts
and blocks are those of before. -/
theorem commitDirtyAccounts_spec (sm : StateManager σ) :
    Post commitDirtyAccounts sm fun o sm' =>
      sm'.versions = sm.versions ∧ sm'.currentRoot = sm.currentRoot ∧
      sm'.currentHeight = sm.currentHeight ∧ sm'.dirtyAccounts = ∅ ∧
      (o = .ok () → sm'.account = sm.account ∧
        LawfulStorage.blockAt sm'.storage = LawfulStorage.blockAt sm.storage) := by
  rw [Post, commitDirtyAccounts_run]
  split_ifs with hempty
  · refine ⟨rfl, rfl, rfl, rfl, fun _ => ⟨?_, rfl⟩⟩
    have hdirty : sm.dirtyAccounts = ∅ := AList.ext (by simpa using hempty)
    funext a
    simp only [account, hdirty]
  · refine ⟨rfl, rfl, rfl, rfl, fun hok => ?_⟩
    have hblocks : sm.dirtyBatch.blocks = [] :=
      (foldl_addAccount sm.dirtyAccounts.toPairs WriteBatch.new).2
    obtain ⟨hacc, hblk⟩ := LawfulStorage.writeBatch_ok sm.dirtyBatch sm.storage hblocks hok
    exact ⟨account_dirtyBatch sm _ hacc, hblk⟩

/-! ## Applying a block -/

variable [Primitives]

omit [LawfulStorage σ] in
/-- `compute_state_root` only reads. -/
theorem computeStateRoot_run [Storage σ] (sm : StateManager σ) :
    ∃ root, computeStateRoot sm = (.ok root, sm) := by
  unfold computeStateRoot
  rw [run_bind, run_get]
  dsimp only
  split_ifs
  · exact ⟨_, rfl⟩
  · exact ⟨_, rfl⟩

/-- The block has the height that comes after the manager's height. -/
def NextHeight (sm : StateManager σ) (block : Block) : Prop :=
  block.header.height.toNat = sm.currentHeight.toNat + 1

/-- What a successful `apply_block` does. -/
structure Applied (block : Block) (sm sm' : StateManager σ) : Prop where
  next : NextHeight sm block
  transfers : ∃ mid, Transfers block.body.transactions sm mid ∧ sm'.account = mid.account
  blocks : LawfulStorage.blockAt sm'.storage = LawfulStorage.blockAt sm.storage
  dirtyAccounts : sm'.dirtyAccounts = ∅
  currentHeight : sm'.currentHeight = block.header.height

/-- What is left when all transfers are made and the root cannot be saved. -/
structure RootNotSaved (block : Block) (sm mid sm' : StateManager σ) : Prop where
  transfers : Transfers block.body.transactions sm mid
  isErr : ∃ root, (computeStateRoot mid).1 = .ok root ∧
    (Storage.saveStateRoot block.header.height root mid.storage).1.IsErr
  account : sm'.account = mid.account
  blocks : LawfulStorage.blockAt sm'.storage = LawfulStorage.blockAt sm.storage
  currentRoot : sm'.currentRoot = sm.currentRoot
  currentHeight : sm'.currentHeight = sm.currentHeight
  versions : ∃ version i, version.timestamp = mid.clock i ∧
    sm'.versions = mid.versions.insert block.header.height version

/-- The four places where `apply_block` can return an error. -/
inductive ApplyFailed (block : Block) (sm sm' : StateManager σ) : Prop
  | wrongHeight : ¬ NextHeight sm block → SameLedger sm sm' → ApplyFailed block sm sm'
  | refused {done : List Transaction} {tx : Transaction} {mid : StateManager σ} :
      NextHeight sm block → Refusal block.body.transactions done tx sm mid sm' →
      ApplyFailed block sm sm'
  | rootNotSaved {mid : StateManager σ} :
      NextHeight sm block → RootNotSaved block sm mid sm' → ApplyFailed block sm sm'
  | batchNotWritten {mid : StateManager σ} :
      NextHeight sm block → Transfers block.body.transactions sm mid →
      sm'.currentHeight = block.header.height → ApplyFailed block sm sm'

/-- **`apply_block` succeeds as `Applied` or fails as `ApplyFailed`.** -/
theorem applyBlock_spec (block : Block) (sm : StateManager σ) :
    Post (applyBlock block) sm fun o sm' =>
      match o with
      | .ok _ => Applied block sm sm'
      | .err _ => ApplyFailed block sm sm'
      | .panic => True := by
  unfold applyBlock
  simp only [post_bind, post_get, post_addU64]
  refine ⟨fun hfit => ?_, fun _ => trivial⟩
  have hnext : (sm.currentHeight + 1).toNat = sm.currentHeight.toNat + 1 :=
    toNat_add_of_fits hfit
  rw [post_ite]
  refine ⟨fun hne => ?_, fun heq => ?_⟩
  · refine ApplyFailed.wrongHeight (fun h => hne ?_) (SameLedger.refl sm)
    exact UInt64.toNat_inj.mp (h.trans hnext.symm)
  · have hheight : NextHeight sm block := by
      rw [NextHeight, not_not.mp heq, hnext]
    refine (applyTransactions_spec block.body.transactions sm).seq ?_ ?_ ?_
    · rintro ⟨⟩ mid htr
      obtain ⟨root, hroot⟩ := computeStateRoot_run mid
      rw [post_bind, Post, hroot]
      simp only [post_bind, post_now, post_modify, onStorage, post_onPart]
      rw [Post]
      obtain ⟨hacc, hblk⟩ := LawfulStorage.saveStateRoot_view block.header.height root mid.storage
      rcases hsave : Storage.saveStateRoot block.header.height root mid.storage with ⟨o, st⟩
      rw [hsave] at hacc hblk
      have hview : ∀ (m : StateManager σ), m.accountCache = mid.accountCache →
          m.dirtyAccounts = mid.dirtyAccounts → m.storage = st → m.account = mid.account := by
        intro m h₁ h₂ h₃
        funext a
        simp only [account, h₁, h₂, h₃, hacc]
      cases o with
      | ok u =>
          refine Post.mono (commitDirtyAccounts_spec _) ?_
          rintro (⟨⟩ | e | _) sm' ⟨-, -, hh, hd, hok⟩
          · obtain ⟨ha, hb⟩ := hok rfl
            refine ⟨hheight, ⟨mid, htr, ?_⟩, ?_, hd, hh⟩
            · exact ha.trans (hview _ rfl rfl rfl)
            · exact hb.trans (hblk.trans htr.frame.1)
          · exact ApplyFailed.batchNotWritten hheight htr hh
          · trivial
      | err e =>
          obtain ⟨hb, -, hr, hh, -⟩ := htr.frame
          refine ApplyFailed.rootNotSaved hheight ⟨htr, ⟨root, by rw [hroot], e, by rw [hsave]⟩, ?_,
            hblk.trans hb, hr, hh, _, 0, rfl, rfl⟩
          exact hview _ rfl rfl rfl
      | panic => trivial
    · rintro e sm' ⟨done, tx, mid, href⟩
      exact ApplyFailed.refused hheight href
    · intro sm' hfalse
      exact hfalse.elim

end StateManager
