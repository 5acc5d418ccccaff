/-
# Atomicity of `apply_block`

`apply_block` writes into the cache and the map of uncommitted changes while it
goes through the transactions, and has no way back.  An error leaves the state
as it was exactly when nothing had been done yet: the height is wrong, or the
very first transaction is refused (`FailsFirst`).

That every other error shows needs a clock that has moved on since the stored
times were taken (`ClockMoved`): a transfer of nothing by an account with the
largest nonce, at the time of its last activity, rewrites what was there.
-/
import Pacyte.Conservation

namespace StateManager

variable {σ : Type} [LawfulStorage σ]

/-! ## States that look the same -/

/-- The accounts, the uncommitted changes, the versions, the root and the height
are the same. -/
structure Unchanged (sm sm' : StateManager σ) : Prop where
  account : sm'.account = sm.account
  dirtyAccounts : ∀ a, sm'.dirtyAccounts.lookup a = sm.dirtyAccounts.lookup a
  versions : ∀ h, sm'.versions.lookup h = sm.versions.lookup h
  currentRoot : sm'.currentRoot = sm.currentRoot
  currentHeight : sm'.currentHeight = sm.currentHeight

theorem SameLedger.unchanged {sm sm' : StateManager σ} (h : SameLedger sm sm') :
    Unchanged sm sm' where
  account := h.account
  dirtyAccounts a := by rw [h.dirtyAccounts]
  versions v := by rw [h.versions]
  currentRoot := h.currentRoot
  currentHeight := h.currentHeight

/-- No stored time is among the readings that the clock will give. -/
structure ClockMoved (sm : StateManager σ) : Prop where
  accounts : ∀ a acc i, sm.account a = some acc → acc.lastActivity ≠ sm.clock i
  versions : ∀ h v i, sm.versions.lookup h = some v → v.timestamp ≠ sm.clock i

/-- The error comes before anything is written: the height is not the next one,
or the first transaction is refused. -/
def FailsFirst (sm : StateManager σ) (block : Block) : Prop :=
  ¬ NextHeight sm block ∨
    ∃ tx rest, block.body.transactions = tx :: rest ∧
      (applyTransfer tx.from tx.to tx.amount tx.fee sm).1.IsErr

/-! ## What transfers leave behind -/

/-- The recipient of the last transaction shows the time of its transfer. -/
theorem Transfers.stamped_last {txs : List Transaction} {sm sm' : StateManager σ}
    (h : Transfers txs sm sm') {tx : Transaction} (hlast : txs.getLast? = some tx) :
    ∃ acc k, sm'.account tx.to = some acc ∧ acc.lastActivity = sm.clock k := by
  induction h with
  | nil => cases hlast
  | @cons tx₀ rest sm₁ sm₂ sm₃ fa ta i j _ htr hrest ih =>
      cases rest with
      | nil =>
          obtain rfl : tx₀ = tx := by simpa using hlast
          -- the last transfer wrote its recipient last
          cases hrest
          refine ⟨(credit ta tx₀.amount).recordActivity (sm₁.clock j), j, ?_, rfl⟩
          rw [htr.account, Function.update_self]
      | cons tx₁ rest =>
          obtain ⟨acc, k, hacc, htime⟩ := ih (by simpa using hlast)
          obtain ⟨n, hn⟩ := htr.clock
          exact ⟨acc, k + n, hacc, by rw [htime, hn]⟩

/-- After some transfers an account shows the time of one of them. -/
theorem Transfers.stamped {txs : List Transaction} {sm sm' : StateManager σ}
    (h : Transfers txs sm sm') :
    txs = [] ∨ ∃ a acc k, sm'.account a = some acc ∧ acc.lastActivity = sm.clock k := by
  cases hlast : txs.getLast? with
  | none => exact Or.inl (List.getLast?_eq_none_iff.mp hlast)
  | some tx => exact Or.inr ⟨tx.to, h.stamped_last hlast⟩

/-- A first transaction that is refused is not among transfers that were made. -/
theorem Transfers.head_not_isErr {tx : Transaction} {rest : List Transaction}
    {sm sm' : StateManager σ} (h : Transfers (tx :: rest) sm sm') :
    ¬ (applyTransfer tx.from tx.to tx.amount tx.fee sm).1.IsErr := by
  cases h with
  | cons hrun _ _ =>
      rw [hrun]
      exact Outcome.not_isErr_ok ()

variable [Primitives]

/-- A failed `apply_block`, as a case of `ApplyFailed`. -/
theorem applyFailed_of_isErr (block : Block) (sm : StateManager σ)
    (h : (applyBlock block sm).1.IsErr) : ApplyFailed block sm (applyBlock block sm).2 := by
  obtain ⟨e, he⟩ := h
  have hspec := applyBlock_spec block sm
  rw [Exec.Post, he] at hspec
  exact hspec

omit [Primitives] in
/-- Transfers that include the first transaction contradict its refusal. -/
theorem FailsFirst.not_transfers {block : Block} {sm mid : StateManager σ}
    (h : FailsFirst sm block) (hheight : NextHeight sm block) :
    ¬ Transfers block.body.transactions sm mid := by
  intro htr
  rcases h with hne | ⟨tx, rest, htxs, herr⟩
  · exact hne hheight
  · rw [htxs] at htr
    exact htr.head_not_isErr herr

/-- An error before anything is written leaves the ledger as it was. -/
theorem ApplyFailed.sameLedger {block : Block} {sm sm' : StateManager σ}
    (h : ApplyFailed block sm sm') (hfirst : FailsFirst sm block) : SameLedger sm sm' := by
  cases h with
  | wrongHeight _ hsame => exact hsame
  | @refused done tx mid hheight href =>
      obtain ⟨rest, hsplit⟩ := href.split
      cases done with
      | nil =>
          have hmid := href.transfers
          cases hmid
          exact href.same
      | cons tx₀ done =>
          rcases hfirst with hne | ⟨tx₁, rest₁, htxs, herr⟩
          · exact absurd hheight hne
          · obtain ⟨rfl, -⟩ : tx₁ = tx₀ ∧ _ := List.cons.inj (htxs.symm.trans hsplit)
            exact absurd herr href.transfers.head_not_isErr
  | rootNotSaved hheight hroot => exact absurd hroot.transfers (hfirst.not_transfers hheight)
  | batchNotWritten hheight htr _ => exact absurd htr (hfirst.not_transfers hheight)

/-- The state root of an empty block cannot be saved. -/
def RootFails (sm : StateManager σ) (block : Block) : Prop :=
  NextHeight sm block ∧ block.body.transactions = [] ∧
    ∃ root, (computeStateRoot sm).1 = .ok root ∧
      (Storage.saveStateRoot block.header.height root sm.storage).1.IsErr

/-- With a clock that has moved on, an error that leaves the accounts and the
height as they were came before any transfer. -/
theorem ApplyFailed.early {block : Block} {sm sm' : StateManager σ}
    (h : ApplyFailed block sm sm') (hclock : ClockMoved sm) (haccount : sm'.account = sm.account)
    (hheight : sm'.currentHeight = sm.currentHeight) :
    FailsFirst sm block ∨ RootFails sm block := by
  -- an account that a transfer has written shows a time to come
  have hnone : ∀ {txs : List Transaction} {mid : StateManager σ}, Transfers txs sm mid →
      mid.account = sm.account → txs = [] := by
    intro txs mid htr hacc
    rcases htr.stamped with rfl | ⟨a, acc, k, hlookup, htime⟩
    · rfl
    · rw [hacc] at hlookup
      exact absurd htime (hclock.accounts a acc k hlookup)
  cases h with
  | wrongHeight hne _ => exact Or.inl (Or.inl hne)
  | @refused done tx mid _ href =>
      obtain ⟨rest, hsplit⟩ := href.split
      have hdone := hnone href.transfers (href.same.account.symm.trans haccount)
      have hmid := href.transfers
      subst hdone
      cases hmid
      exact Or.inl (Or.inr ⟨tx, rest, hsplit, href.isErr⟩)
  | @rootNotSaved mid hnext hroot =>
      have htxs := hnone hroot.transfers (hroot.account.symm.trans haccount)
      have hmid := hroot.transfers
      rw [htxs] at hmid
      cases hmid
      exact Or.inr ⟨hnext, htxs, hroot.isErr⟩
  | batchNotWritten hnext _ hh =>
      rw [NextHeight, ← hh, hheight] at hnext
      omega

/-- The recorded version shows when the root of an empty block was not saved. -/
theorem ApplyFailed.failsFirst {block : Block} {sm sm' : StateManager σ}
    (h : ApplyFailed block sm sm') (hclock : ClockMoved sm) (hsame : Unchanged sm sm') :
    FailsFirst sm block := by
  refine (h.early hclock hsame.account hsame.currentHeight).resolve_right ?_
  rintro ⟨hnext, htxs, -⟩
  cases h with
  | wrongHeight hne _ => exact hne hnext
  | @refused done tx mid _ href =>
      obtain ⟨rest, hsplit⟩ := href.split
      rw [htxs] at hsplit
      exact absurd hsplit.symm (List.append_ne_nil_of_right_ne_nil _ (List.cons_ne_nil _ _))
  | @rootNotSaved mid _ hroot =>
      obtain ⟨version, i, htime, hversions⟩ := hroot.versions
      obtain ⟨-, -, -, -, n, hn⟩ := hroot.transfers.frame
      have hlookup : sm.versions.lookup block.header.height = some version := by
        rw [← hsame.versions, hversions, AList.lookup_insert]
      rw [hn] at htime
      exact absurd htime (hclock.versions _ _ _ hlookup)
  | batchNotWritten _ _ hh =>
      rw [NextHeight, ← hh, hsame.currentHeight] at hnext
      omega

/-- **`apply_block` is atomic exactly on errors that come first.**  An error
leaves the accounts, the uncommitted changes, the versions, the root and the
height as they were if the height is wrong or the first transaction is refused,
and, with a clock that has moved on, only then. -/
theorem applyBlock_atomic_iff (block : Block) (sm : StateManager σ)
    (h : (applyBlock block sm).1.IsErr) :
    (FailsFirst sm block → Unchanged sm (applyBlock block sm).2) ∧
    (ClockMoved sm → Unchanged sm (applyBlock block sm).2 → FailsFirst sm block) :=
  ⟨fun hfirst => ((applyFailed_of_isErr block sm h).sameLedger hfirst).unchanged,
    (applyFailed_of_isErr block sm h).failsFirst⟩

end StateManager

/-! ## A refused second transaction -/

section Example

open scoped Sample

/-- The second transaction of the block has a sender without an account.  The
block is refused and the first transfer stays. -/
theorem second_refused_not_unchanged :
    let sm := sampleState [(sampleAddress 1, 100)]
    let block := sampleBlock [sampleTransfer (sampleAddress 1) (sampleAddress 2) 0,
      sampleTransfer (sampleAddress 3) (sampleAddress 2) 0]
    (StateManager.applyBlock block sm).1.IsErr ∧
      ¬ StateManager.Unchanged sm (StateManager.applyBlock block sm).2 := by
  intro sm block
  refine ⟨⟨.accountNotFound (addressShort (sampleAddress 3)), by rfl⟩, fun h => ?_⟩
  have hbook := congrArg (fun b => b.balance (sampleAddress 1)) (StateManager.book_congr h.account)
  revert hbook
  decide

/-- The first transaction of the block has a sender without an account. -/
theorem first_refused_unchanged :
    let sm := sampleState [(sampleAddress 1, 100)]
    let block := sampleBlock [sampleTransfer (sampleAddress 3) (sampleAddress 2) 0,
      sampleTransfer (sampleAddress 1) (sampleAddress 2) 0]
    (StateManager.applyBlock block sm).1.IsErr ∧
      StateManager.Unchanged sm (StateManager.applyBlock block sm).2 := by
  intro sm block
  have herr : (StateManager.applyBlock block sm).1.IsErr :=
    ⟨.accountNotFound (addressShort (sampleAddress 3)), by rfl⟩
  refine ⟨herr, (StateManager.applyBlock_atomic_iff block sm herr).1 (Or.inr ?_)⟩
  exact ⟨_, _, rfl, .accountNotFound (addressShort (sampleAddress 3)), by rfl⟩

end Example
