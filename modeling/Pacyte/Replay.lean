/-
# Replay of transactions

A run of `apply_block` over blocks that are accepted one after the other, and
the nonce every sender has when its transaction is applied (`runApplications`).

`apply_transfer` raises the sender's nonce and never compares it with the
transaction's.  So nothing in `apply_block` rules out a second application: the
nonces are right, and no transaction comes twice, exactly when the blocks bring
the transactions in order (`Book.InOrder`).
-/
import Pacyte.Conservation

namespace StateManager

open Book

variable {σ : Type} [LawfulStorage σ]

/-! ## Applications -/

/-- The transactions of a list, each with the nonce its sender has when its
transfer starts. -/
def applications : List Transaction → StateManager σ → List (Transaction × ℕ)
  | [], _ => []
  | tx :: rest, sm =>
      (tx, sm.book.nonce tx.from) ::
        applications rest (applyTransfer tx.from tx.to tx.amount tx.fee sm).2

/-- A list of transactions that is applied in full: each carries its sender's
nonce exactly when the payments match. -/
theorem applications_match_iff (txs : List Transaction) (sm : StateManager σ)
    (h : (applyTransactions txs sm).1.IsOk) :
    (∀ e ∈ applications txs sm, e.1.nonce.toNat = e.2) ↔
      Matches maxU128 maxU64 (txs.map Transaction.payment) sm.book := by
  induction txs generalizing sm with
  | nil => simp [applications, Matches]
  | cons tx rest ih =>
      have hspec := applyTransfer_spec tx.from tx.to tx.amount tx.fee sm
      rw [Exec.Post] at hspec
      rw [applyTransactions, Exec.run_bind] at h
      rw [applications, List.map_cons, Matches, List.forall_mem_cons]
      rcases hrun : applyTransfer tx.from tx.to tx.amount tx.fee sm with ⟨⟨⟩ | e | _, sm₁⟩
      · rw [hrun] at h hspec
        obtain ⟨fa, ta, i, j, htr⟩ := hspec
        rw [← htr.book.1, ← ih sm₁ h]
        exact Iff.rfl
      · rw [hrun] at h
        exact h.elim
      · rw [hrun] at h
        exact h.elim

theorem applications_fst (txs : List Transaction) (sm : StateManager σ) :
    (applications txs sm).map Prod.fst = txs := by
  induction txs generalizing sm with
  | nil => rfl
  | cons tx rest ih => rw [applications, List.map_cons, ih]

/-! ## Runs -/

variable [Primitives]

/-- Every block of the list is accepted when its turn comes. -/
def Accepts : List Block → StateManager σ → Prop
  | [], _ => True
  | block :: rest, sm => (applyBlock block sm).1.IsOk ∧ Accepts rest (applyBlock block sm).2

/-- All transactions of a run, each with its sender's nonce at that moment. -/
def runApplications : List Block → StateManager σ → List (Transaction × ℕ)
  | [], _ => []
  | block :: rest, sm =>
      applications block.body.transactions sm ++ runApplications rest (applyBlock block sm).2

/-- The payments of a run. -/
def runPayments (blocks : List Block) : List (Payment Address) := blocks.flatMap Block.payments

omit [Primitives] in
theorem runPayments_cons (block : Block) (rest : List Block) :
    runPayments (block :: rest) = block.payments ++ runPayments rest := List.flatMap_cons

/-- In an accepted block all transfers were made. -/
theorem applyTransactions_isOk (block : Block) (sm : StateManager σ)
    (h : (applyBlock block sm).1.IsOk) :
    (applyTransactions block.body.transactions sm).1.IsOk := by
  have hspec := applyBlock_spec block sm
  rw [Exec.Post] at hspec
  generalize applyBlock block sm = run at h hspec
  obtain ⟨o, sm'⟩ := run
  cases o with
  | ok version =>
      obtain ⟨mid, htr, -⟩ := Applied.transfers hspec
      rw [htr.run]
      trivial
  | err e => exact h.elim
  | panic => exact h.elim

theorem runApplications_match_iff (blocks : List Block) (sm : StateManager σ)
    (h : Accepts blocks sm) :
    (∀ e ∈ runApplications blocks sm, e.1.nonce.toNat = e.2) ↔
      Matches maxU128 maxU64 (runPayments blocks) sm.book := by
  induction blocks generalizing sm with
  | nil => simp [runApplications, runPayments, Matches]
  | cons block rest ih =>
      rw [runApplications, List.forall_mem_append,
        applications_match_iff _ _ (applyTransactions_isOk block sm h.1), ih _ h.2,
        (book_applyBlock block sm h.1).1, runPayments_cons, matches_append]
      exact Iff.rfl

theorem runApplications_payments (blocks : List Block) (sm : StateManager σ) :
    (runApplications blocks sm).map (fun e => e.1.payment) = runPayments blocks := by
  induction blocks generalizing sm with
  | nil => rfl
  | cons block rest ih =>
      rw [runApplications, List.map_append, ih, runPayments_cons]
      congr 1
      rw [Block.payments]
      nth_rewrite 2 [← applications_fst block.body.transactions sm]
      rw [List.map_map]
      rfl

omit [Primitives] in
/-- A pair of sender and nonce as the book counts it. -/
theorem nodup_payments_iff (l : List (Transaction × ℕ)) :
    (l.map fun e => (e.1.from, e.1.nonce)).Nodup ↔
      ((l.map fun e => e.1.payment).map fun p => (p.src, p.serial)).Nodup := by
  have hinj : Function.Injective (fun k : Address × UInt64 => (k.1, k.2.toNat)) := by
    rintro ⟨a, m⟩ ⟨b, n⟩ h
    obtain ⟨h₁, h₂⟩ := Prod.mk.inj h
    exact Prod.ext h₁ (UInt64.toNat_inj.mp h₂)
  rw [← List.nodup_map_iff hinj, List.map_map, List.map_map]
  exact Iff.rfl

/-- **Replay protection holds exactly on runs in order.**  Over a run of accepted
blocks, every transaction has its sender's nonce when it is applied and no pair
of sender and nonce is applied twice, if and only if every transaction's nonce is
the sender's first one plus the number of the sender's earlier transactions, and
none of these earlier ones was a payment to the sender itself. -/
theorem no_replay_iff_inOrder (blocks : List Block) (sm : StateManager σ)
    (h : Accepts blocks sm) :
    ((∀ e ∈ runApplications blocks sm, e.1.nonce.toNat = e.2) ∧
      ((runApplications blocks sm).map fun e => (e.1.from, e.1.nonce)).Nodup) ↔
    InOrder (runPayments blocks) sm.book := by
  rw [runApplications_match_iff blocks sm h, nodup_payments_iff, runApplications_payments]
  apply matches_nodup_iff _ _ _ _ sm.nonce_le
  intro p hp
  obtain ⟨block, -, hp⟩ := List.mem_flatMap.mp hp
  obtain ⟨tx, -, rfl⟩ := List.mem_map.mp hp
  exact tx.serial_le

end StateManager

/-! ## One transaction, twice -/

section Example

open scoped Sample

/-- The same signed transaction is accepted twice in one block. -/
theorem same_transaction_applied_twice :
    let sm := sampleState [(sampleAddress 1, 100)]
    let tx := sampleTransfer (sampleAddress 1) (sampleAddress 2) 0
    let blocks := [sampleBlock [tx, tx]]
    StateManager.Accepts blocks sm ∧
      StateManager.runApplications blocks sm = [(tx, 0), (tx, 1)] ∧
      ¬ ((∀ e ∈ StateManager.runApplications blocks sm, e.1.nonce.toNat = e.2) ∧
        ((StateManager.runApplications blocks sm).map fun e => (e.1.from, e.1.nonce)).Nodup) := by
  intro sm tx blocks
  have hrun : StateManager.runApplications blocks sm = [(tx, 0), (tx, 1)] := by decide +kernel
  refine ⟨⟨by decide +kernel, trivial⟩, hrun, ?_⟩
  rw [hrun]
  rintro ⟨-, hnodup⟩
  exact absurd hnodup (by decide +kernel)

/-- Two transfers with the nonces 0 and 1 are in order. -/
theorem transfers_in_order :
    let sm := sampleState [(sampleAddress 1, 100)]
    let blocks := [sampleBlock [sampleTransfer (sampleAddress 1) (sampleAddress 2) 0,
      sampleTransfer (sampleAddress 1) (sampleAddress 2) 1]]
    StateManager.Accepts blocks sm ∧ Book.InOrder (StateManager.runPayments blocks) sm.book := by
  intro sm blocks
  have haccepts : StateManager.Accepts blocks sm := ⟨by decide +kernel, trivial⟩
  have hrun : StateManager.runApplications blocks sm =
      [(sampleTransfer (sampleAddress 1) (sampleAddress 2) 0, 0),
        (sampleTransfer (sampleAddress 1) (sampleAddress 2) 1, 1)] := by decide +kernel
  refine ⟨haccepts, (StateManager.no_replay_iff_inOrder blocks sm haccepts).mp ?_⟩
  rw [hrun]
  refine ⟨by decide +kernel, by decide +kernel⟩

end Example
