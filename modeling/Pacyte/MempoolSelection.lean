/-
# Selecting transactions for a block

`select_for_block` of `src/mempool/pool.rs` walks through the index from the highest priority
down and keeps, for every sender, the last nonce it took.

* The block that is made of a selection is accepted by `apply_block` if and only if every
  transaction is covered when its turn comes (`selection_applies_iff`): the selection looks at
  nonces and sizes, and never at balances.
* The selection starts to count at zero for every sender, and not at the nonce of the state.
  `selection_serves_iff` says when every sender is served with the row of its next nonces.
-/
import Pacyte.GapPick
import Pacyte.MempoolIndex
import Pacyte.VaultPayments

/-! ## Storages that do not fail -/

/-- Reading an account, saving a state root and writing a batch of accounts always succeed. -/
structure Storage.Unfailing (σ : Type) [Storage σ] : Prop where
  getAccount : ∀ a (s : σ), (Storage.getAccount a s).1.IsOk
  saveStateRoot : ∀ height root (s : σ), (Storage.saveStateRoot height root s).1.IsOk
  writeBatch : ∀ batch (s : σ), batch.blocks = [] → (Storage.writeBatch batch s).1.IsOk

/-- The in-memory storage does not fail. -/
theorem MemoryStorage.unfailing [Primitives] : Storage.Unfailing MemoryStorage where
  getAccount _ _ := trivial
  saveStateRoot _ _ _ := trivial
  writeBatch batch s hblocks := by
    rw [writeBatch_run batch hblocks s]
    trivial

namespace StateManager

open Exec Book

variable {σ : Type}

theorem getAccount_isOk [Storage σ] (h : Storage.Unfailing σ) (a : Address)
    (sm : StateManager σ) : (getAccount a sm).1.IsOk := by
  unfold getAccount
  rw [run_bind, run_get]
  dsimp only
  cases sm.accountCache.lookup a with
  | some account => trivial
  | none =>
      dsimp only
      cases sm.dirtyAccounts.lookup a with
      | some account => trivial
      | none =>
          have hread := h.getAccount a sm.storage
          dsimp only
          rw [run_bind, onStorage, run_onPart]
          rcases hrun : Storage.getAccount a sm.storage with ⟨(_ | account) | e | _, st⟩
          · trivial
          · trivial
          · rw [hrun] at hread
            exact hread.elim
          · rw [hrun] at hread
            exact hread.elim

theorem readable_of_unfailing [Storage σ] (h : Storage.Unfailing σ) (as : List Address)
    (sm : StateManager σ) : Readable as sm := by
  induction as generalizing sm with
  | nil => trivial
  | cons a as ih => exact ⟨getAccount_isOk h a sm, ih _⟩

section Lawful

variable [LawfulStorage σ]

/-- A payment that costs something and is covered is made. -/
theorem applyTransfer_isOk_of_covered (h : Storage.Unfailing σ) {tx : Transaction}
    (hamount : tx.amount ≠ 0) {sm : StateManager σ}
    (hcost : cost maxU128 tx.payment ≤ sm.book.balance tx.from) :
    (applyTransfer tx.from tx.to tx.amount tx.fee sm).1.IsOk := by
  have htotal : (U128.saturatingAdd tx.amount tx.fee).toNat = cost maxU128 tx.payment :=
    U128.toNat_saturatingAdd tx.amount tx.fee
  have hpos : 0 < cost maxU128 tx.payment := by
    have hne : tx.amount.toNat ≠ 0 := fun hzero => hamount (BitVec.eq_of_toNat_eq hzero)
    show 0 < min (tx.amount.toNat + tx.fee.toNat) maxU128
    have hmax : 0 < maxU128 := by decide
    omega
  refine (VaultManager.applyTransfer_isOk_iff tx.from tx.to tx.amount tx.fee sm).mpr
    ⟨readable_of_unfailing h _ sm, ?_⟩
  cases hfrom : sm.account tx.from with
  | none =>
      have hzero : sm.book.balance tx.from = 0 := by
        simp [book, hfrom]
      omega
  | some fa =>
      have hbalance : sm.book.balance tx.from = fa.balance.toNat := by
        simp [book, hfrom]
      refine ⟨fa, rfl, ?_⟩
      rw [htotal, ← hbalance]
      exact hcost

/-- Covered payments are all made. -/
theorem applyTransactions_isOk_of_covered (h : Storage.Unfailing σ) {txs : List Transaction}
    (hamounts : ∀ tx ∈ txs, tx.amount ≠ 0) {sm : StateManager σ}
    (hcovered : Covered maxU128 maxU64 (txs.map Transaction.payment) sm.book) :
    (applyTransactions txs sm).1.IsOk := by
  induction txs generalizing sm with
  | nil => trivial
  | cons tx rest ih =>
      rw [List.map_cons, Covered] at hcovered
      have hok : (applyTransfer tx.from tx.to tx.amount tx.fee sm).1.IsOk :=
        applyTransfer_isOk_of_covered h (hamounts tx (List.mem_cons_self ..)) hcovered.1
      have hbook := VaultManager.applyTransfer_book hok
      unfold applyTransactions
      rw [run_bind]
      rcases hrun : applyTransfer tx.from tx.to tx.amount tx.fee sm with ⟨u | e | _, sm'⟩
      · rw [hrun] at hbook
        refine ih (fun tx' htx' => hamounts tx' (List.mem_cons_of_mem _ htx')) ?_
        have hbook' : sm'.book = pay maxU128 maxU64 tx.payment sm.book := hbook
        rw [hbook']
        exact hcovered.2
      · rw [hrun] at hok
        exact hok.elim
      · rw [hrun] at hok
        exact hok.elim

omit [LawfulStorage σ] in
theorem commitDirtyAccounts_isOk [Storage σ] (h : Storage.Unfailing σ) (sm : StateManager σ) :
    (commitDirtyAccounts sm).1.IsOk := by
  rw [commitDirtyAccounts_run]
  split_ifs
  · trivial
  · exact h.writeBatch _ _ (foldl_addAccount sm.dirtyAccounts.toPairs WriteBatch.new).2

/-- The rest of `apply_block` needs the storage only. -/
theorem applyBlock_isOk_of_transactions [Primitives] (h : Storage.Unfailing σ) {block : Block}
    {sm : StateManager σ} (hnext : NextHeight sm block)
    (hok : (applyTransactions block.body.transactions sm).1.IsOk) :
    (applyBlock block sm).1.IsOk := by
  have hfits : sm.currentHeight.toNat + 1 < 2 ^ 64 := hnext ▸ block.header.height.toNat_lt
  have hheight : block.header.height = sm.currentHeight + 1 := by
    apply UInt64.toNat_inj.mp
    rw [toNat_add_of_fits hfits]
    exact hnext
  have hpost : Post (applyBlock block) sm fun o _ => o.IsOk := by
    unfold applyBlock
    rw [post_bind, post_get]
    dsimp only
    rw [post_bind, post_addU64]
    refine ⟨fun _ => ?_, fun hnot => absurd hfits hnot⟩
    dsimp only
    rw [post_ite]
    refine ⟨fun hne => absurd hheight hne, fun _ => ?_⟩
    refine Post.seq (R := fun o _ => o.IsOk) hok ?_ (fun _ _ h => h) (fun _ h => h)
    rintro ⟨⟩ mid -
    obtain ⟨root, hroot⟩ := computeStateRoot_run mid
    rw [post_bind, Post, hroot]
    simp only [post_bind, post_now, post_modify]
    refine Post.mono (Q := fun o _ => o.IsOk) (h.saveStateRoot _ _ _) ?_
    rintro (⟨⟩ | e | _) st hsaved
    · refine Post.mono (Q := fun o _ => o.IsOk) (commitDirtyAccounts_isOk h _) ?_
      rintro (⟨⟩ | e | _) sm' hwritten
      · exact trivial
      · exact hwritten
      · exact hwritten
    · exact hsaved
    · exact hsaved
  exact hpost

end Lawful

end StateManager

namespace MempoolImpl

open Exec

/-! ## The walk -/

/-- The accumulator after a transaction was taken. -/
def takes (hash : Hash) (q : PooledTx) (acc : Selection) : Selection where
  selected := acc.selected ++ [q.tx]
  selectedHashes := insert hash acc.selectedHashes
  currentSize := acc.currentSize + q.size
  nonceTracker := acc.nonceTracker.insert q.tx.from q.tx.nonce

/-- The last nonce that was taken from a sender. -/
def tracked (acc : Selection) (a : Address) : Option ℕ :=
  (acc.nonceTracker.lookup a).map UInt64.toNat

/-- The walk does not go on. -/
def Full (maxCount maxSize : ℕ) (acc : Selection) : Prop :=
  maxCount ≤ acc.selected.length ∨ maxSize ≤ acc.currentSize

theorem run_addU64 {ε τ : Type} (a b : UInt64) (s : τ) : (addU64 a b : Exec ε τ UInt64) s =
    (if a.toNat + b.toNat < 2 ^ 64 then .ok (a + b) else .panic, s) := by
  unfold addU64
  split_ifs <;> rfl

/-- The next nonce of a sender. -/
theorem expectedNonce_run (a : Address) (acc : Selection) (pool : MempoolImpl) :
    (2 ^ 64 ≤ GapPick.next (tracked acc a) ∧ expectedNonce a acc pool = (.panic, pool)) ∨
      ∃ expected : UInt64, expected.toNat = GapPick.next (tracked acc a) ∧
        expectedNonce a acc pool = (.ok expected, pool) := by
  unfold expectedNonce tracked
  cases acc.nonceTracker.lookup a with
  | none => exact Or.inr ⟨0, rfl, rfl⟩
  | some n =>
      dsimp only [Option.map_some]
      rw [run_addU64]
      have hone : (1 : UInt64).toNat = 1 := rfl
      by_cases hfits : n.toNat + (1 : UInt64).toNat < 2 ^ 64
      · rw [if_pos hfits]
        exact Or.inr ⟨n + 1, (toNat_add_of_fits hfits).trans (by rw [hone]; rfl), rfl⟩
      · rw [if_neg hfits]
        rw [hone] at hfits
        exact Or.inl ⟨Nat.le_of_not_lt hfits, rfl⟩

/-- **What the walk does with a pooled transaction.** -/
theorem consider_run (maxSize : ℕ) (gap : UInt64) (hash : Hash) (q : PooledTx) (acc : Selection)
    (pool : MempoolImpl) :
    consider maxSize gap hash q acc pool =
      (match GapPick.verdict (2 ^ 64) gap.toNat (GapPick.next (tracked acc q.tx.from))
          q.tx.nonce.toNat with
        | none => .panic
        | some false => .ok acc
        | some true => .ok (if maxSize < acc.currentSize + q.size then acc else takes hash q acc),
        pool) := by
  unfold consider
  rw [run_bind]
  rcases expectedNonce_run q.tx.from acc pool with ⟨hover, hrun⟩ | ⟨expected, hexpected, hrun⟩
  · rw [hrun]
    unfold GapPick.verdict
    rw [if_pos hover]
  · have hlt := expected.toNat_lt
    rw [hrun]
    dsimp only
    rw [← hexpected]
    unfold GapPick.verdict
    rw [if_neg (Nat.not_le_of_lt hlt)]
    by_cases hold : q.tx.nonce < expected
    · rw [if_pos hold, if_pos (UInt64.lt_iff_toNat_lt.mp hold)]
      rfl
    · rw [if_neg hold, if_neg fun h => hold (UInt64.lt_iff_toNat_lt.mpr h), run_bind, run_addU64]
      by_cases hfits : expected.toNat + gap.toNat < 2 ^ 64
      · rw [if_pos hfits, if_neg (Nat.not_le_of_lt hfits)]
        dsimp only
        have hreach : expected + gap < q.tx.nonce ↔
            ¬ q.tx.nonce.toNat ≤ expected.toNat + gap.toNat := by
          rw [UInt64.lt_iff_toNat_lt, toNat_add_of_fits hfits, not_le]
        by_cases hle : q.tx.nonce.toNat ≤ expected.toNat + gap.toNat
        · rw [decide_eq_true hle]
          dsimp only
          by_cases hsize : maxSize < acc.currentSize + q.size
          · rw [if_pos (Or.inr hsize), if_pos hsize]
            rfl
          · rw [if_neg (fun h => h.elim (fun h => hreach.mp h hle) hsize), if_neg hsize]
            rfl
        · rw [decide_eq_false hle, if_pos (Or.inl (hreach.mpr hle))]
          rfl
      · rw [if_neg hfits, if_pos (Nat.le_of_not_lt hfits)]

theorem selectAmong_full {maxCount maxSize : ℕ} {acc : Selection} (h : Full maxCount maxSize acc)
    (hashes : List Hash) : selectAmong maxCount maxSize hashes acc = pure acc := by
  cases hashes with
  | nil => rfl
  | cons hash rest => exact if_pos h

/-- The loop goes on with the next hash. -/
theorem selectAmong_open {maxCount maxSize : ℕ} {acc : Selection} (hfull : ¬ Full maxCount maxSize acc)
    (hash : Hash) (rest : List Hash) (pool : MempoolImpl) :
    selectAmong maxCount maxSize (hash :: rest) acc pool =
      if hash ∈ acc.selectedHashes then selectAmong maxCount maxSize rest acc pool
      else match pool.transactions.lookup hash with
        | none => selectAmong maxCount maxSize rest acc pool
        | some q => (consider maxSize pool.config.maxNonceGap hash q acc >>=
            selectAmong maxCount maxSize rest) pool := by
  have hprog : selectAmong maxCount maxSize (hash :: rest) acc = _ := if_neg hfull
  rw [hprog]
  split_ifs
  · rfl
  · rw [run_bind, run_get]
    dsimp only
    cases pool.transactions.lookup hash <;> rfl

/-- The walk goes on where an earlier list ended. -/
theorem selectAmong_append (maxCount maxSize : ℕ) (xs ys : List Hash) (acc : Selection)
    (pool : MempoolImpl) :
    selectAmong maxCount maxSize (xs ++ ys) acc pool =
      (selectAmong maxCount maxSize xs acc >>= selectAmong maxCount maxSize ys) pool := by
  induction xs generalizing acc with
  | nil => rfl
  | cons hash xs ih =>
      by_cases hfull : Full maxCount maxSize acc
      · rw [selectAmong_full hfull, selectAmong_full hfull, Exec.pure_bind,
          selectAmong_full hfull]
      · rw [run_bind, List.cons_append, selectAmong_open hfull, selectAmong_open hfull]
        split_ifs with hmem
        · exact ih acc
        · cases pool.transactions.lookup hash with
          | none => exact ih acc
          | some q =>
              dsimp only
              rw [run_bind, run_bind]
              have hsnd := consider_snd maxSize pool.config.maxNonceGap hash q acc pool
              rcases hrun : consider maxSize pool.config.maxNonceGap hash q acc pool with
                ⟨acc' | e | _, pool'⟩
              · rw [hrun] at hsnd
                change pool' = pool at hsnd
                subst hsnd
                exact ih acc'
              · rfl
              · rfl

/-- The two loops are one walk through the listed hashes. -/
theorem selectFrom_run (maxCount maxSize : ℕ) (index : List (UInt64 × List Hash))
    (acc : Selection) (pool : MempoolImpl) :
    selectFrom maxCount maxSize index acc pool =
      selectAmong maxCount maxSize (listed index) acc pool := by
  induction index generalizing acc pool with
  | nil => rfl
  | cons entry rest ih =>
      obtain ⟨key, hashes⟩ := entry
      rw [listed_cons, selectAmong_append, selectFrom, run_bind, run_bind]
      rcases selectAmong maxCount maxSize hashes acc pool with ⟨acc' | e | _, pool'⟩
      · exact ih acc' pool'
      · rfl
      · rfl

/-! ## The transactions that are chosen -/

/-- The pooled transactions in the order of the walk: by descending priority. -/
def order (pool : MempoolImpl) : List PooledTx :=
  (listed pool.priorityIndex.reverse).filterMap pool.transactions.lookup

/-- The transactions that a walk chooses, with the number and the size of those chosen before
and the last nonce of every sender.  There is no choice where a nonce, or a nonce with the gap,
does not fit. -/
def chosen (maxCount maxSize gap : ℕ) :
    ℕ → ℕ → (Address → Option ℕ) → List PooledTx → Option (List PooledTx)
  | _, _, _, [] => some []
  | count, size, last, q :: rest =>
    if maxCount ≤ count ∨ maxSize ≤ size then some []
    else
      match GapPick.verdict (2 ^ 64) gap (GapPick.next (last q.tx.from)) q.tx.nonce.toNat with
      | none => none
      | some false => chosen maxCount maxSize gap count size last rest
      | some true =>
        if maxSize < size + q.size then chosen maxCount maxSize gap count size last rest
        else (chosen maxCount maxSize gap (count + 1) (size + q.size)
          (Function.update last q.tx.from (some q.tx.nonce.toNat)) rest).map (q :: ·)

section Chosen

variable {maxCount maxSize gap count size : ℕ} {last : Address → Option ℕ} {q : PooledTx}
  {rest : List PooledTx}

theorem chosen_full (hfull : maxCount ≤ count ∨ maxSize ≤ size) (qs : List PooledTx) :
    chosen maxCount maxSize gap count size last qs = some [] := by
  cases qs with
  | nil => rfl
  | cons q qs => exact if_pos hfull

theorem chosen_fail (hopen : ¬ (maxCount ≤ count ∨ maxSize ≤ size))
    (h : GapPick.verdict (2 ^ 64) gap (GapPick.next (last q.tx.from)) q.tx.nonce.toNat = none) :
    chosen maxCount maxSize gap count size last (q :: rest) = none := by
  rw [chosen, if_neg hopen, h]

theorem chosen_skip (hopen : ¬ (maxCount ≤ count ∨ maxSize ≤ size))
    (h : GapPick.verdict (2 ^ 64) gap (GapPick.next (last q.tx.from)) q.tx.nonce.toNat
      = some false) :
    chosen maxCount maxSize gap count size last (q :: rest)
      = chosen maxCount maxSize gap count size last rest := by
  rw [chosen, if_neg hopen, h]

theorem chosen_large (hopen : ¬ (maxCount ≤ count ∨ maxSize ≤ size))
    (h : GapPick.verdict (2 ^ 64) gap (GapPick.next (last q.tx.from)) q.tx.nonce.toNat
      = some true) (hsize : maxSize < size + q.size) :
    chosen maxCount maxSize gap count size last (q :: rest)
      = chosen maxCount maxSize gap count size last rest := by
  rw [chosen, if_neg hopen, h]
  exact if_pos hsize

theorem chosen_take (hopen : ¬ (maxCount ≤ count ∨ maxSize ≤ size))
    (h : GapPick.verdict (2 ^ 64) gap (GapPick.next (last q.tx.from)) q.tx.nonce.toNat
      = some true) (hsize : ¬ maxSize < size + q.size) :
    chosen maxCount maxSize gap count size last (q :: rest)
      = (chosen maxCount maxSize gap (count + 1) (size + q.size)
          (Function.update last q.tx.from (some q.tx.nonce.toNat)) rest).map (q :: ·) := by
  rw [chosen, if_neg hopen, h]
  exact if_neg hsize

end Chosen

/-- Only transactions of the list are chosen. -/
theorem mem_of_chosen {maxCount maxSize gap count size : ℕ} {last : Address → Option ℕ}
    {qs taken : List PooledTx} (h : chosen maxCount maxSize gap count size last qs = some taken)
    {q : PooledTx} (hq : q ∈ taken) : q ∈ qs := by
  induction qs generalizing count size last taken with
  | nil =>
      cases h
      cases hq
  | cons first rest ih =>
      by_cases hfull : maxCount ≤ count ∨ maxSize ≤ size
      · rw [chosen_full hfull] at h
        cases h
        cases hq
      rcases hverdict : GapPick.verdict (2 ^ 64) gap (GapPick.next (last first.tx.from))
          first.tx.nonce.toNat with _ | _ | _
      · rw [chosen_fail hfull hverdict] at h
        cases h
      · rw [chosen_skip hfull hverdict] at h
        exact List.mem_cons_of_mem _ (ih h hq)
      · by_cases hsize : maxSize < size + first.size
        · rw [chosen_large hfull hverdict hsize] at h
          exact List.mem_cons_of_mem _ (ih h hq)
        · rw [chosen_take hfull hverdict hsize] at h
          obtain ⟨taken', htaken, rfl⟩ := Option.map_eq_some_iff.mp h
          rcases List.mem_cons.mp hq with rfl | hq
          · exact List.mem_cons_self
          · exact List.mem_cons_of_mem _ (ih htaken hq)

/-- A walk from `acc` ends like a choice. -/
def Agrees (acc : Selection) : Outcome Empty Selection → Option (List PooledTx) → Prop
  | .ok acc', some taken => acc'.selected = acc.selected ++ taken.map (·.tx)
  | .panic, none => True
  | _, _ => False

/-- A transaction that is taken first is the first one of the choice. -/
theorem Agrees.cons {hash : Hash} {q : PooledTx} {acc : Selection} {o : Outcome Empty Selection}
    {c : Option (List PooledTx)} (h : Agrees (takes hash q acc) o c) :
    Agrees acc o (c.map (q :: ·)) := by
  cases o with
  | ok acc' =>
      cases c with
      | none => exact h
      | some taken =>
          refine Eq.trans h ?_
          change (acc.selected ++ [q.tx]) ++ _ = acc.selected ++ (q.tx :: _)
          rw [List.append_assoc, List.singleton_append]
  | err e => exact e.elim
  | panic =>
      cases c with
      | none => trivial
      | some taken => exact h

theorem tracked_takes (hash : Hash) (q : PooledTx) (acc : Selection) :
    tracked (takes hash q acc)
      = Function.update (tracked acc) q.tx.from (some q.tx.nonce.toNat) := by
  funext a
  unfold tracked takes
  by_cases ha : a = q.tx.from
  · rw [ha, AList.lookup_insert, Function.update_self]
    rfl
  · rw [AList.lookup_insert_ne ha, Function.update_of_ne ha]

/-- **The walk chooses.** -/
theorem selectAmong_agrees (maxCount maxSize : ℕ) (hashes : List Hash) (hnodup : hashes.Nodup)
    (acc : Selection) (hfresh : ∀ hash ∈ hashes, hash ∉ acc.selectedHashes) (pool : MempoolImpl) :
    Agrees acc (selectAmong maxCount maxSize hashes acc pool).1
      (chosen maxCount maxSize pool.config.maxNonceGap.toNat acc.selected.length acc.currentSize
        (tracked acc) (hashes.filterMap pool.transactions.lookup)) := by
  induction hashes generalizing acc with
  | nil => exact (List.append_nil _).symm
  | cons hash rest ih =>
      obtain ⟨hnew, hnodup⟩ := List.nodup_cons.mp hnodup
      have hrest : ∀ hash' ∈ rest, hash' ∉ acc.selectedHashes :=
        fun hash' h => hfresh hash' (List.mem_cons_of_mem _ h)
      by_cases hfull : Full maxCount maxSize acc
      · rw [selectAmong_full hfull, chosen_full hfull]
        exact (List.append_nil _).symm
      have hprog : selectAmong maxCount maxSize (hash :: rest) acc = _ := if_neg hfull
      rw [hprog, if_neg (hfresh hash List.mem_cons_self), run_bind, run_get]
      dsimp only
      rw [List.filterMap_cons]
      cases hlookup : pool.transactions.lookup hash with
      | none => exact ih hnodup acc hrest
      | some q =>
          dsimp only
          rw [run_bind, consider_run]
          rcases hverdict : GapPick.verdict (2 ^ 64) pool.config.maxNonceGap.toNat
            (GapPick.next (tracked acc q.tx.from)) q.tx.nonce.toNat with _ | _ | _
          · rw [chosen_fail hfull hverdict]
            trivial
          · rw [chosen_skip hfull hverdict]
            exact ih hnodup acc hrest
          · dsimp only
            by_cases hsize : maxSize < acc.currentSize + q.size
            · rw [if_pos hsize, chosen_large hfull hverdict hsize]
              exact ih hnodup acc hrest
            · rw [if_neg hsize, chosen_take hfull hverdict hsize]
              have hagrees := ih hnodup (takes hash q acc) (by
                intro hash' hmem
                change hash' ∉ insert hash acc.selectedHashes
                rw [Finset.mem_insert, not_or]
                exact ⟨fun heq => hnew (heq ▸ hmem), hrest hash' hmem⟩)
              rw [tracked_takes] at hagrees
              change Agrees (takes hash q acc) _ (chosen maxCount maxSize _
                (acc.selected ++ [q.tx]).length (acc.currentSize + q.size) _ _) at hagrees
              rw [List.length_append, List.length_singleton] at hagrees
              exact hagrees.cons

/-- The selection from a pool. -/
def choice (maxCount maxSize : ℕ) (pool : MempoolImpl) : Option (List PooledTx) :=
  chosen maxCount maxSize pool.config.maxNonceGap.toNat 0 0 (fun _ => none) pool.order

theorem listed_reverse_perm (index : List (UInt64 × List Hash)) :
    (listed index.reverse).Perm (listed index) := by
  unfold listed
  exact (List.reverse_perm index).flatMap_right _

/-- **`select_for_block` returns the choice**, and panics if there is none. -/
theorem selectForBlock_choice {pool : MempoolImpl} (h : Indexed pool) (maxCount maxSize : ℕ) :
    (selectForBlock maxCount maxSize pool).1 =
      match choice maxCount maxSize pool with
      | none => .panic
      | some taken => .ok (taken.map (·.tx)) := by
  have hnodup : (listed pool.priorityIndex.reverse).Nodup :=
    (listed_reverse_perm _).nodup_iff.mpr h.listed_nodup
  have hagrees := selectAmong_agrees maxCount maxSize _ hnodup ⟨[], ∅, 0, ∅⟩
    (fun _ _ => Finset.notMem_empty _) pool
  unfold selectForBlock
  rw [run_bind, run_get]
  dsimp only
  rw [run_bind, selectFrom_run]
  have htracked : tracked ⟨[], ∅, 0, ∅⟩ = fun _ => none := by
    funext a
    rfl
  rw [htracked] at hagrees
  change Agrees _ _ (choice maxCount maxSize pool) at hagrees
  rcases hrun : selectAmong maxCount maxSize (listed pool.priorityIndex.reverse) ⟨[], ∅, 0, ∅⟩ pool
    with ⟨acc' | e | _, pool'⟩
  · rw [hrun] at hagrees
    cases hchoice : choice maxCount maxSize pool with
    | none =>
        rw [hchoice] at hagrees
        exact hagrees.elim
    | some taken =>
        rw [hchoice] at hagrees
        exact congrArg Outcome.ok (hagrees.trans (List.nil_append _))
  · exact e.elim
  · rw [hrun] at hagrees
    cases hchoice : choice maxCount maxSize pool with
    | none => rfl
    | some taken =>
        rw [hchoice] at hagrees
        exact hagrees.elim

/-- The transactions of the walk are pooled. -/
theorem mem_order {pool : MempoolImpl} {q : PooledTx} (h : q ∈ pool.order) :
    ∃ hash, pool.transactions.lookup hash = some q := by
  obtain ⟨hash, -, hlookup⟩ := List.mem_filterMap.mp h
  exact ⟨hash, hlookup⟩

/-! ## Blocks made of a selection -/

section Blocks

variable (F : Type) [FeeFloat F] [Primitives] [Verifiers] {σ : Type} [LawfulStorage σ]

/-- **A self-made block is applied exactly when it is covered**: in the order of the selection,
every transaction has to be covered by what its sender has after the earlier ones. -/
theorem selection_applies_iff {config : MempoolConfig} {p : MempoolImpl × StateManager σ}
    (h : Reachable F config p) (hstorage : Storage.Unfailing σ) {maxCount maxSize : ℕ}
    {block : Block}
    (hselect : (selectForBlock maxCount maxSize p.1).1 = .ok block.body.transactions)
    (hnext : StateManager.NextHeight p.2 block) :
    (StateManager.applyBlock block p.2).1.IsOk ↔
      ∀ taken, choice maxCount maxSize p.1 = some taken →
        Book.Covered maxU128 maxU64 (taken.map fun q => q.tx.payment) p.2.book := by
  have hindexed := (Reachable.indexed F h).1
  rw [selectForBlock_choice hindexed] at hselect
  cases hchoice : choice maxCount maxSize p.1 with
  | none =>
      rw [hchoice] at hselect
      cases hselect
  | some taken =>
      rw [hchoice] at hselect
      have htxs : block.body.transactions = taken.map (·.tx) := (Outcome.ok.inj hselect).symm
      have hpayments : block.payments = taken.map fun q => q.tx.payment := by
        rw [Block.payments, htxs, List.map_map]
        rfl
      constructor
      · rintro hok _ ⟨⟩
        rw [← hpayments]
        exact (StateManager.book_applyBlock block p.2 hok).2
      · intro hcovered
        apply StateManager.applyBlock_isOk_of_transactions hstorage hnext
        apply StateManager.applyTransactions_isOk_of_covered hstorage
        · rw [htxs]
          intro tx htx
          obtain ⟨q, hq, rfl⟩ := List.mem_map.mp htx
          obtain ⟨hash, hlookup⟩ := mem_order (mem_of_chosen hchoice hq)
          exact (hindexed.wellFormed hash q hlookup).2
        · have hpaid := hcovered taken rfl
          rw [← hpayments] at hpaid
          exact hpaid

end Blocks

/-! ## The nonces of a sender -/

/-- The nonces of a sender, in the order of the list. -/
def noncesOf (a : Address) (qs : List PooledTx) : List ℕ :=
  (qs.filter fun q => decide (q.tx.from = a)).map fun q => q.tx.nonce.toNat

theorem noncesOf_cons_self (q : PooledTx) (qs : List PooledTx) :
    noncesOf q.tx.from (q :: qs) = q.tx.nonce.toNat :: noncesOf q.tx.from qs := by
  rw [noncesOf, List.filter_cons_of_pos (by simp)]
  rfl

theorem noncesOf_cons_ne {a : Address} {q : PooledTx} (h : q.tx.from ≠ a) (qs : List PooledTx) :
    noncesOf a (q :: qs) = noncesOf a qs := by
  rw [noncesOf, List.filter_cons_of_neg (by simpa using h)]
  rfl

/-- A choice is, sender by sender, a pick from the nonces. -/
def Picks (gap : ℕ) (last : Address → Option ℕ) (qs : List PooledTx) :
    Option (List PooledTx) → Prop
  | none => ∃ a, GapPick.pick (2 ^ 64) gap (last a) (noncesOf a qs) = none
  | some taken => ∀ a, GapPick.pick (2 ^ 64) gap (last a) (noncesOf a qs) = some (noncesOf a taken)

/-- A transaction that is passed over. -/
theorem Picks.skip {gap : ℕ} {last : Address → Option ℕ} {q : PooledTx} {qs : List PooledTx}
    {c : Option (List PooledTx)}
    (hverdict : GapPick.verdict (2 ^ 64) gap (GapPick.next (last q.tx.from)) q.tx.nonce.toNat
      = some false) (h : Picks gap last qs c) : Picks gap last (q :: qs) c := by
  have hsame : ∀ a, GapPick.pick (2 ^ 64) gap (last a) (noncesOf a (q :: qs))
      = GapPick.pick (2 ^ 64) gap (last a) (noncesOf a qs) := by
    intro a
    by_cases ha : q.tx.from = a
    · subst ha
      rw [noncesOf_cons_self, GapPick.pick_cons_skip _ _ hverdict]
    · rw [noncesOf_cons_ne ha]
  cases c with
  | none =>
      obtain ⟨a, hnone⟩ := h
      exact ⟨a, (hsame a).trans hnone⟩
  | some taken => exact fun a => (hsame a).trans (h a)

/-- A transaction that is taken. -/
theorem Picks.take {gap : ℕ} {last : Address → Option ℕ} {q : PooledTx} {qs : List PooledTx}
    {c : Option (List PooledTx)}
    (hverdict : GapPick.verdict (2 ^ 64) gap (GapPick.next (last q.tx.from)) q.tx.nonce.toNat
      = some true)
    (h : Picks gap (Function.update last q.tx.from (some q.tx.nonce.toNat)) qs c) :
    Picks gap last (q :: qs) (c.map (q :: ·)) := by
  have hself : GapPick.pick (2 ^ 64) gap (last q.tx.from) (noncesOf q.tx.from (q :: qs))
      = (GapPick.pick (2 ^ 64) gap (some q.tx.nonce.toNat) (noncesOf q.tx.from qs)).map
          (q.tx.nonce.toNat :: ·) := by
    rw [noncesOf_cons_self, GapPick.pick_cons_take _ _ hverdict]
  cases c with
  | none =>
      obtain ⟨a, hnone⟩ := h
      by_cases ha : q.tx.from = a
      · subst ha
        rw [Function.update_self] at hnone
        exact ⟨q.tx.from, by rw [hself, hnone]; rfl⟩
      · rw [Function.update_of_ne (Ne.symm ha)] at hnone
        exact ⟨a, by rw [noncesOf_cons_ne ha]; exact hnone⟩
  | some taken =>
      intro a
      have hpick := h a
      by_cases ha : q.tx.from = a
      · subst ha
        rw [Function.update_self] at hpick
        rw [hself, hpick, Option.map_some, noncesOf_cons_self]
      · rw [Function.update_of_ne (Ne.symm ha)] at hpick
        rw [noncesOf_cons_ne ha, noncesOf_cons_ne ha]
        exact hpick

/-- **A choice with enough room picks for every sender.**  The induction is on the list; what is
left of it always fits. -/
theorem picks_chosen {maxCount maxSize gap : ℕ} (qs : List PooledTx) {count size : ℕ}
    (last : Address → Option ℕ) (hcount : count + qs.length ≤ maxCount)
    (hsize : size + (qs.map (·.size)).sum ≤ maxSize) (hpos : ∀ q ∈ qs, 0 < q.size) :
    Picks gap last qs (chosen maxCount maxSize gap count size last qs) := by
  induction qs generalizing count size last with
  | nil => exact fun a => rfl
  | cons q rest ih =>
      rw [List.length_cons] at hcount
      rw [List.map_cons, List.sum_cons] at hsize
      have hq := hpos q List.mem_cons_self
      have hrest : ∀ q' ∈ rest, 0 < q'.size := fun q' h => hpos q' (List.mem_cons_of_mem _ h)
      have hopen : ¬ (maxCount ≤ count ∨ maxSize ≤ size) := by omega
      rcases hverdict : GapPick.verdict (2 ^ 64) gap (GapPick.next (last q.tx.from))
          q.tx.nonce.toNat with _ | _ | _
      · rw [chosen_fail hopen hverdict]
        refine ⟨q.tx.from, ?_⟩
        rw [noncesOf_cons_self, GapPick.pick_cons_fail _ _ hverdict]
      · rw [chosen_skip hopen hverdict]
        exact Picks.skip hverdict (ih last (by omega) (by omega) hrest)
      · rw [chosen_take hopen hverdict (by omega)]
        exact Picks.take hverdict (ih _ (by omega) (by omega) hrest)

/-! ## All transactions of an indexed pool -/

theorem Indexed.nodup_order {pool : MempoolImpl} (h : Indexed pool) : pool.order.Nodup := by
  have hnodup : (listed pool.priorityIndex.reverse).Nodup :=
    (listed_reverse_perm _).nodup_iff.mpr h.listed_nodup
  refine hnodup.filterMap fun hash hash' q hq hq' => ?_
  rw [← h.hash hash q hq, h.hash hash' q hq']

/-- The walk meets every pooled transaction once. -/
theorem Indexed.order_perm {pool : MempoolImpl} (h : Indexed pool) :
    pool.order.Perm (pool.transactions.toPairs.map Prod.snd) := by
  have hvalues : (pool.transactions.toPairs.map Prod.snd).Nodup := by
    refine pool.transactions.nodup_toPairs.map_on fun e he e' he' heq => ?_
    have hhash := h.hash e.1 e.2 ((Map.mem_toPairs _ _ _).mp he)
    have hhash' := h.hash e'.1 e'.2 ((Map.mem_toPairs _ _ _).mp he')
    rw [heq, hhash'] at hhash
    exact Prod.ext hhash.symm heq
  rw [List.perm_ext_iff_of_nodup h.nodup_order hvalues]
  intro q
  constructor
  · intro hq
    obtain ⟨hash, hlookup⟩ := mem_order hq
    exact List.mem_map.mpr ⟨(hash, q), (Map.mem_toPairs _ _ _).mpr hlookup, rfl⟩
  · intro hq
    obtain ⟨e, he, rfl⟩ := List.mem_map.mp hq
    have hlookup := (Map.mem_toPairs _ e.1 e.2).mp he
    refine List.mem_filterMap.mpr ⟨e.1, ?_, hlookup⟩
    rw [(listed_reverse_perm _).mem_iff, h.listed_iff, hlookup]
    rfl

/-- No sender has a nonce twice. -/
theorem Indexed.nodup_noncesOf {pool : MempoolImpl} (h : Indexed pool) (a : Address) :
    (noncesOf a pool.order).Nodup := by
  refine (h.nodup_order.filter _).map_on fun q hq q' hq' heq => ?_
  obtain ⟨hq, hfrom⟩ := List.mem_filter.mp hq
  obtain ⟨hq', hfrom'⟩ := List.mem_filter.mp hq'
  obtain ⟨hash, hlookup⟩ := mem_order hq
  obtain ⟨hash', hlookup'⟩ := mem_order hq'
  have hsender : q.tx.from = q'.tx.from :=
    (of_decide_eq_true hfrom).trans (of_decide_eq_true hfrom').symm
  have hhash := h.unique hash q hash' q' hlookup hlookup' hsender (UInt64.toNat_inj.mp heq)
  rw [← hhash, hlookup] at hlookup'
  exact Option.some.inj hlookup'

/-- Every pooled transaction is kept with its size. -/
def Measured (pool : MempoolImpl) : Prop :=
  ∀ hash q, pool.transactions.lookup hash = some q → q.size = q.tx.size

theorem Measured.thinner {pool pool' : MempoolImpl} (h : Measured pool)
    (hthinner : Thinner pool pool') : Measured pool' := by
  intro hash q hlookup
  rcases hthinner hash with hnone | hsame
  · rw [hnone] at hlookup
    cases hlookup
  · exact h hash q (hsame ▸ hlookup)

theorem Measured.insert {pool : MempoolImpl} (h : Measured pool) (key : UInt64) {q : PooledTx}
    (hq : q.size = q.tx.size) : Measured (insertPooled key q pool) := by
  intro hash q' hlookup
  rcases pool.transactions.lookup_insert_some.mp hlookup with ⟨-, rfl⟩ | ⟨-, hold⟩
  · exact hq
  · exact h hash q' hold

theorem Reachable.measured (F : Type) [FeeFloat F] [Primitives] [Verifiers] {σ : Type}
    [Storage σ] {config : MempoolConfig} {p : MempoolImpl × StateManager σ}
    (h : Reachable F config p) : Measured p.1 := by
  refine Reachable.induction F (J := fun p => Measured p.1) (fun _ _ _ h => nomatch h) ?_ h
  intro c p hp
  cases c with
  | add tx =>
      have hend := addTransaction_spec F tx p
      rw [Exec.Post] at hend
      change Measured (addTransaction F tx p).2.1
      generalize addTransaction F tx p = run at hend ⊢
      obtain ⟨o, p'⟩ := run
      cases hend with
      | refused _ _ hsame =>
          change Measured p'.1
          rw [hsame]
          exact hp
      | added now _ _ _ _ _ hinserted =>
          change Measured p'.1
          rw [hinserted]
          exact hp.insert _ rfl
      | replaced now existing _ _ _ _ _ hinserted =>
          change Measured p'.1
          rw [hinserted]
          exact (hp.thinner (removeTransaction_thinner existing.hash p.1)).insert _ rfl
  | remove hash => exact hp.thinner (removeTransaction_thinner hash p.1)
  | cleanup processed => exact hp.thinner (cleanup_spec processed p).1
  | pruneExpired currentTime => exact hp.thinner (removeAll_thinner _ p.1)
  | elsewhere stateManager => exact hp

/-! ## Senders that are served -/

instance (n : ℕ) (l : List ℕ) : DecidablePred (GapPick.InRow n l) := fun m =>
  decidable_of_iff (n ≤ m ∧ ∀ j ∈ List.range (m + 1), n ≤ j → j ∈ l)
    (and_congr_right fun _ =>
      ⟨fun h j hn hj => h j (List.mem_range.mpr (Nat.lt_succ_of_le hj)) hn,
        fun h j hj hn => h j hn (Nat.le_of_lt_succ (List.mem_range.mp hj))⟩)

/-- Of the nonces of a sender the selected ones are `n`, `n + 1` and so on, as far as they
go. -/
def Served (n : ℕ) (pooled selected : List ℕ) : Prop :=
  ∃ k, selected = List.range' n k ∧ ∀ m, GapPick.InRow n pooled m ↔ n ≤ m ∧ m < n + k

/-- A pick serves a sender exactly when every nonce is met rightly. -/
theorem served_pick_iff {gap n : ℕ} {pooled selected : List ℕ} (hnodup : pooled.Nodup)
    (hpick : GapPick.pick (2 ^ 64) gap none pooled = some selected) :
    Served n pooled selected ↔
      GapPick.AllMet (2 ^ 64) gap (GapPick.InRow n pooled) n 0 pooled := by
  obtain ⟨k, hk⟩ := GapPick.exists_row n pooled
  have hiff : GapPick.pick (2 ^ 64) gap none pooled = some (List.range' n k) ↔
      GapPick.AllMet (2 ^ 64) gap (GapPick.InRow n pooled) n 0 pooled :=
    GapPick.pick_range_iff pooled hnodup hk fun m hm => hm.2 m hm.1 (Nat.le_refl m)
  rw [← hiff, hpick]
  constructor
  · rintro ⟨k', hselected, hk'⟩
    have heq : k' = k := by
      by_contra hne
      rcases Nat.lt_or_gt_of_ne hne with hlt | hlt
      · have hin := (hk' (n + k')).mp ((hk (n + k')).mpr ⟨Nat.le_add_right _ _, by omega⟩)
        omega
      · have hin := (hk (n + k)).mp ((hk' (n + k)).mpr ⟨Nat.le_add_right _ _, by omega⟩)
        omega
    rw [hselected, heq]
  · intro heq
    exact ⟨k, Option.some.inj heq, hk⟩

/-- **A selection with enough room serves every sender** if and only if, in the order of the
walk, every pooled nonce is met rightly: a nonce of the row that starts at the nonce of the state
as the next one of the row and within the gap, any other one out of reach. -/
theorem selection_serves_iff (F : Type) [FeeFloat F] [Primitives] [Verifiers] {σ : Type}
    [LawfulStorage σ] {config : MempoolConfig} {p : MempoolImpl × StateManager σ}
    (h : Reachable F config p) {maxCount maxSize : ℕ}
    (hcount : p.1.transactions.entries.length ≤ maxCount)
    (hsize : Map.total (·.size) p.1.transactions ≤ maxSize) :
    (∃ txs, (selectForBlock maxCount maxSize p.1).1 = .ok txs ∧ ∀ a,
      Served (p.2.book.nonce a) (noncesOf a p.1.order)
        ((txs.filter fun tx => decide (tx.from = a)).map fun tx => tx.nonce.toNat)) ↔
    ∀ a, GapPick.AllMet (2 ^ 64) p.1.config.maxNonceGap.toNat
      (GapPick.InRow (p.2.book.nonce a) (noncesOf a p.1.order)) (p.2.book.nonce a) 0
      (noncesOf a p.1.order) := by
  have hindexed := (Reachable.indexed F h).1
  have hmeasured := Reachable.measured F h
  have hperm := hindexed.order_perm
  have hpicks : Picks p.1.config.maxNonceGap.toNat (fun _ => none) p.1.order
      (choice maxCount maxSize p.1) := by
    apply picks_chosen
    · rw [Nat.zero_add, hperm.length_eq, List.length_map, Map.length_toPairs]
      exact hcount
    · have hsum := (hperm.map (·.size)).sum_eq
      rw [List.map_map] at hsum
      rw [Nat.zero_add, hsum]
      exact hsize
    · intro q hq
      obtain ⟨hash, hlookup⟩ := mem_order hq
      rw [hmeasured hash q hlookup]
      exact q.tx.size_pos
  rw [selectForBlock_choice hindexed]
  cases hchoice : choice maxCount maxSize p.1 with
  | none =>
      rw [hchoice] at hpicks
      obtain ⟨a, hnone⟩ := hpicks
      refine iff_of_false (fun ⟨txs, htxs, _⟩ => nomatch htxs) fun hmet => ?_
      obtain ⟨k, hk⟩ := GapPick.exists_row (p.2.book.nonce a) (noncesOf a p.1.order)
      have hsome := (GapPick.pick_range_iff _ (hindexed.nodup_noncesOf a) hk
        fun m hm => hm.2 m hm.1 (Nat.le_refl m)).mpr (hmet a)
      rw [hnone] at hsome
      cases hsome
  | some taken =>
      rw [hchoice] at hpicks
      have hnonces : ∀ a, ((taken.map (·.tx)).filter fun tx => decide (tx.from = a)).map
          (fun tx => tx.nonce.toNat) = noncesOf a taken := by
        intro a
        rw [List.filter_map, List.map_map]
        rfl
      constructor
      · rintro ⟨txs, htxs, hserved⟩ a
        have heq := Outcome.ok.inj htxs
        subst heq
        have hone := hserved a
        rw [hnonces] at hone
        exact (served_pick_iff (hindexed.nodup_noncesOf a) (hpicks a)).mp hone
      · intro hmet
        refine ⟨_, rfl, fun a => ?_⟩
        rw [hnonces]
        exact (served_pick_iff (hindexed.nodup_noncesOf a) (hpicks a)).mpr (hmet a)

end MempoolImpl

/-! ## Small selections -/

section Example

open scoped Sample

open MempoolImpl

/-- A block of height one. -/
def Sample.firstBlock (txs : List Transaction) : Block where
  header := ⟨1, zero32, zero32, zero32, 0, zero32, UInt32.ofNat txs.length, 0, []⟩
  body := ⟨txs⟩

/-- Two payments of 3000 with their fees, from a balance of 5000. -/
def Sample.overdrawn : MempoolImpl × StateManager MemoryStorage :=
  Sample.poolAfter [(sampleAddress 1, 5000)]
    [.add (Sample.signedTransfer 1 2 2000 1000 0), .add (Sample.signedTransfer 1 2 2000 1000 1)]

/-- The later nonce pays more. -/
def Sample.overtaken : MempoolImpl × StateManager MemoryStorage :=
  Sample.poolAfter [(sampleAddress 1, 9000)]
    [.add (Sample.signedTransfer 1 2 1000 1000 0), .add (Sample.signedTransfer 1 2 1000 2000 1)]

instance [Primitives] (sm : StateManager MemoryStorage) (block : Block) :
    Decidable (StateManager.NextHeight sm block) := Nat.decEq _ _

/-- Both payments are selected, and the block is not applied. -/
theorem selection_overdraws :
    Reachable ℚ Sample.poolConfig Sample.overdrawn ∧ Storage.Unfailing MemoryStorage ∧
      ∃ block, (selectForBlock 10 10000 Sample.overdrawn.1).1 = .ok block.body.transactions ∧
        StateManager.NextHeight Sample.overdrawn.2 block ∧
        ¬ (StateManager.applyBlock block Sample.overdrawn.2).1.IsOk := by
  refine ⟨⟨sampleState [(sampleAddress 1, 5000)], _, rfl⟩, MemoryStorage.unfailing,
    Sample.firstBlock [Sample.signedTransfer 1 2 2000 1000 0,
      Sample.signedTransfer 1 2 2000 1000 1], ?_, ?_, ?_⟩
  · decide +kernel
  · decide +kernel
  · decide +kernel

/-- Three payments of one sender; the earlier nonces pay more. -/
def Sample.rowOfPayments : List Transaction :=
  [Sample.signedTransfer 1 2 1000 3000 0, Sample.signedTransfer 1 2 1000 2000 1,
    Sample.signedTransfer 1 2 1000 1000 2]

/-- They are added in another order. -/
def Sample.inRow : MempoolImpl × StateManager MemoryStorage :=
  Sample.poolAfter [(sampleAddress 1, 9000)]
    [.add (Sample.signedTransfer 1 2 1000 2000 1), .add (Sample.signedTransfer 1 2 1000 1000 2),
      .add (Sample.signedTransfer 1 2 1000 3000 0)]

theorem Sample.inRow_reachable : Reachable ℚ Sample.poolConfig Sample.inRow :=
  ⟨sampleState [(sampleAddress 1, 9000)], _, rfl⟩

/-- The three payments are applied, and covered one after the other. -/
theorem selection_applies_row :
    (StateManager.applyBlock (Sample.firstBlock Sample.rowOfPayments) Sample.inRow.2).1.IsOk ∧
      ∀ taken, choice 10 10000 Sample.inRow.1 = some taken →
        Book.Covered maxU128 maxU64 (taken.map fun q => q.tx.payment) Sample.inRow.2.book := by
  have hselect : (selectForBlock 10 10000 Sample.inRow.1).1
      = .ok (Sample.firstBlock Sample.rowOfPayments).body.transactions := by
    decide +kernel
  have hnext : StateManager.NextHeight Sample.inRow.2 (Sample.firstBlock Sample.rowOfPayments) := by
    decide +kernel
  have hiff :=
    selection_applies_iff ℚ Sample.inRow_reachable MemoryStorage.unfailing hselect hnext
  exact ⟨by decide +kernel, hiff.mp (by decide +kernel)⟩

/-- The nonce that comes first is skipped. -/
theorem selection_skips :
    Reachable ℚ Sample.poolConfig Sample.overtaken ∧
      Sample.overtaken.1.transactions.entries.length ≤ 10 ∧
      Map.total (·.size) Sample.overtaken.1.transactions ≤ 10000 ∧
      ¬ ∃ txs, (selectForBlock 10 10000 Sample.overtaken.1).1 = .ok txs ∧ ∀ a,
        Served (Sample.overtaken.2.book.nonce a) (noncesOf a Sample.overtaken.1.order)
          ((txs.filter fun tx => decide (tx.from = a)).map fun tx => tx.nonce.toNat) := by
  refine ⟨⟨sampleState [(sampleAddress 1, 9000)], _, rfl⟩, by decide +kernel, by decide +kernel,
    ?_⟩
  rintro ⟨txs, htxs, hserved⟩
  have hselect : (selectForBlock 10 10000 Sample.overtaken.1).1
      = .ok [Sample.signedTransfer 1 2 1000 2000 1] := by
    decide +kernel
  rw [hselect] at htxs
  obtain rfl := Outcome.ok.inj htxs
  obtain ⟨k, hk, -⟩ := hserved (sampleAddress 1)
  have hnonce : Sample.overtaken.2.book.nonce (sampleAddress 1) = 0 := by
    decide +kernel
  rw [hnonce] at hk
  have hone : (List.filter (fun tx : Transaction => decide (tx.from = sampleAddress 1))
      [Sample.signedTransfer 1 2 1000 2000 1]).map (fun tx => tx.nonce.toNat) = [1] := by
    decide
  rw [hone] at hk
  cases k with
  | zero => cases hk
  | succ k => cases hk

/-- The sender of the three payments is served. -/
theorem selection_serves_row :
    ∃ txs, (selectForBlock 10 10000 Sample.inRow.1).1 = .ok txs ∧ ∀ a,
      Served (Sample.inRow.2.book.nonce a) (noncesOf a Sample.inRow.1.order)
        ((txs.filter fun tx => decide (tx.from = a)).map fun tx => tx.nonce.toNat) := by
  have hcount : Sample.inRow.1.transactions.entries.length ≤ 10 := by
    decide +kernel
  have hsize : Map.total (·.size) Sample.inRow.1.transactions ≤ 10000 := by
    decide +kernel
  refine (selection_serves_iff ℚ Sample.inRow_reachable hcount hsize).mpr fun a => ?_
  have hgap : Sample.inRow.1.config.maxNonceGap.toNat = 3 := by
    decide +kernel
  rw [hgap]
  by_cases ha : a = sampleAddress 1
  · subst ha
    have hnonces : noncesOf (sampleAddress 1) Sample.inRow.1.order = [0, 1, 2] := by
      decide +kernel
    have hzero : Sample.inRow.2.book.nonce (sampleAddress 1) = 0 := by
      decide +kernel
    have hrow : ∀ m ∈ [0, 1, 2], GapPick.InRow 0 [0, 1, 2] m := by
      decide
    rw [hnonces, hzero, GapPick.allMet_cons, GapPick.allMet_cons, GapPick.allMet_cons,
      if_pos (hrow 0 (by decide)), if_pos (hrow 1 (by decide)), if_pos (hrow 2 (by decide))]
    refine ⟨⟨by decide, fun _ => by decide, fun hnot => absurd (hrow 0 (by decide)) hnot⟩,
      ⟨by decide, fun _ => by decide, fun hnot => absurd (hrow 1 (by decide)) hnot⟩,
      ⟨by decide, fun _ => by decide, fun hnot => absurd (hrow 2 (by decide)) hnot⟩, ?_⟩
    intro before m after hsplit
    cases before <;> cases hsplit
  · have hfrom : ∀ q ∈ Sample.inRow.1.order, q.tx.from = sampleAddress 1 := by
      decide +kernel
    have hnone : noncesOf a Sample.inRow.1.order = [] := by
      rw [noncesOf, List.filter_eq_nil_iff.mpr, List.map_nil]
      intro q hq hqa
      exact ha ((of_decide_eq_true hqa).symm.trans (hfrom q hq))
    rw [hnone]
    intro before m after hsplit
    cases before <;> cases hsplit

end Example
