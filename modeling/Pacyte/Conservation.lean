/-
# Conservation of money

The accounts of a state manager as a book of balances and nonces
(`StateManager.book`), and a transaction as a payment.  A transfer that succeeds
is `Book.pay` (`Transferred.book`), so an accepted block is `Book.payAll` of its
transactions (`book_applyBlock`).

`apply_block` conserves money exactly on orderly blocks: no transaction pays its
own sender, and no saturating addition saturates.  A transaction from an account
to itself is credited and not charged, and its nonce does not move.
-/
import Pacyte.AccountView
import Pacyte.Book
import Pacyte.MemoryStorage

/-- There are finitely many addresses. -/
noncomputable instance : Fintype Address :=
  @Fintype.ofFinite _ (Finite.of_injective (fun v : Vector UInt8 32 => fun i : Fin 32 => v.get i) (by
    intro v w h
    apply Vector.ext
    intro i hi
    exact congrFun h ⟨i, hi⟩))

/-- The largest `u128`. -/
def maxU128 : ℕ := 2 ^ 128 - 1

/-- The largest `u64`. -/
def maxU64 : ℕ := 2 ^ 64 - 1

/-- A transaction as a payment. -/
def Transaction.payment (tx : Transaction) : Payment Address where
  src := tx.from
  dst := tx.to
  amount := tx.amount.toNat
  fee := tx.fee.toNat
  serial := tx.nonce.toNat

/-- The payments of a block. -/
def Block.payments (block : Block) : List (Payment Address) :=
  block.body.transactions.map Transaction.payment

theorem Transaction.amount_le (tx : Transaction) : tx.payment.amount ≤ maxU128 := by
  have := tx.amount.isLt
  simp only [payment, maxU128]
  omega

theorem Transaction.serial_le (tx : Transaction) : tx.payment.serial ≤ maxU64 := by
  have := tx.nonce.toNat_lt
  simp only [payment, maxU64]
  omega

namespace StateManager

open Book

variable {σ : Type} [LawfulStorage σ]

/-! ## The accounts as a book -/

/-- Balances and nonces of all accounts; an account that does not exist has
neither. -/
def book (sm : StateManager σ) : Book Address where
  balance a := ((sm.account a).map fun acc => acc.balance.toNat).getD 0
  nonce a := ((sm.account a).map fun acc => acc.nonce.toNat).getD 0

theorem book_congr {sm sm' : StateManager σ} (h : sm'.account = sm.account) :
    sm'.book = sm.book := by
  rw [book, book, h]

theorem nonce_le (sm : StateManager σ) (a : Address) : sm.book.nonce a ≤ maxU64 := by
  simp only [book, maxU64]
  cases sm.account a with
  | none => simp
  | some acc =>
      have := acc.nonce.toNat_lt
      simp only [Option.map_some, Option.getD_some]
      omega

/-- The recipient of a transfer has the balance and the nonce of the book. -/
theorem Recipient.book {sm : StateManager σ} {a : Address} {acc : Account}
    (h : Recipient sm a acc) :
    acc.balance.toNat = sm.book.balance a ∧ acc.nonce.toNat = sm.book.nonce a := by
  rcases h with h | ⟨h, i, rfl⟩
  · simp [StateManager.book, h]
  · simp [StateManager.book, h, Account.new]

/-- **A transfer that succeeds is a payment in the book**, and its cost is
covered. -/
theorem Transferred.book {tx : Transaction} {sm sm' : StateManager σ} {fa ta : Account}
    {i j : ℕ} (h : Transferred tx.from tx.to tx.amount tx.fee sm sm' fa ta i j) :
    sm'.book = pay maxU128 maxU64 tx.payment sm.book ∧
      cost maxU128 tx.payment ≤ sm.book.balance tx.payment.src := by
  have hcost : (U128.saturatingAdd tx.amount tx.fee).toNat = cost maxU128 tx.payment :=
    U128.toNat_saturatingAdd tx.amount tx.fee
  have hfunds := h.funds
  have hbal : sm.book.balance tx.from = fa.balance.toNat := by
    simp [StateManager.book, h.sender]
  have hnon : sm.book.nonce tx.from = fa.nonce.toNat := by
    simp [StateManager.book, h.sender]
  obtain ⟨htbal, htnon⟩ := h.recipient.book
  refine ⟨?_, by rw [← hcost]; exact hbal ▸ hfunds⟩
  ext a
  · simp only [StateManager.book, h.account, pay]
    by_cases hto : a = tx.to
    · subst hto
      rw [Function.update_self, show tx.payment.dst = tx.to from rfl, Function.update_self]
      simp only [Option.map_some, Option.getD_some, Account.recordActivity, credit,
        U128.toNat_saturatingAdd, htbal]
      rfl
    · rw [Function.update_of_ne hto, Function.update_of_ne (show a ≠ tx.payment.dst from hto)]
      by_cases hfrom : a = tx.from
      · subst hfrom
        rw [Function.update_self, show tx.payment.src = tx.from from rfl, Function.update_self]
        simp only [Option.map_some, Option.getD_some, Account.recordActivity, debit, h.sender]
        rw [BitVec.toNat_sub_of_le (BitVec.le_def.mpr hfunds), hcost]
      · rw [Function.update_of_ne hfrom,
          Function.update_of_ne (show a ≠ tx.payment.src from hfrom)]
  · simp only [StateManager.book, h.account, pay]
    by_cases hto : a = tx.to
    · subst hto
      rw [Function.update_self, show tx.payment.dst = tx.to from rfl, Function.update_self]
      exact htnon
    · rw [Function.update_of_ne hto, Function.update_of_ne (show a ≠ tx.payment.dst from hto)]
      by_cases hfrom : a = tx.from
      · subst hfrom
        rw [Function.update_self, show tx.payment.src = tx.from from rfl, Function.update_self]
        simp only [Option.map_some, Option.getD_some, Account.recordActivity, debit, h.sender]
        exact U64.toNat_saturatingAdd fa.nonce 1
      · rw [Function.update_of_ne hfrom,
          Function.update_of_ne (show a ≠ tx.payment.src from hfrom)]

/-- The transfers of a list of transactions are the payments of the list. -/
theorem Transfers.book {txs : List Transaction} {sm sm' : StateManager σ}
    (h : Transfers txs sm sm') :
    sm'.book = payAll maxU128 maxU64 (txs.map Transaction.payment) sm.book ∧
      Covered maxU128 maxU64 (txs.map Transaction.payment) sm.book := by
  induction h with
  | nil => exact ⟨rfl, trivial⟩
  | cons _ htr _ ih =>
      obtain ⟨hbook, hcost⟩ := htr.book
      rw [List.map_cons, payAll, Covered, ← hbook]
      exact ⟨ih.1, hcost, ih.2⟩

variable [Primitives]

/-- An accepted block makes the payments of its transactions. -/
theorem book_applyBlock (block : Block) (sm : StateManager σ)
    (h : (applyBlock block sm).1.IsOk) :
    (applyBlock block sm).2.book = payAll maxU128 maxU64 block.payments sm.book ∧
      Covered maxU128 maxU64 block.payments sm.book := by
  have hspec := applyBlock_spec block sm
  rw [Exec.Post] at hspec
  generalize applyBlock block sm = run at h hspec
  obtain ⟨o, sm'⟩ := run
  cases o with
  | ok version =>
      obtain ⟨mid, htr, hacc⟩ := Applied.transfers hspec
      rw [book_congr hacc]
      exact htr.book
  | err e => exact h.elim
  | panic => exact h.elim

/-- **Money is conserved on orderly blocks, and only there.**  When `apply_block`
accepts a block, the sum of the balances goes down by the fees and every nonce up
by the transactions sent if and only if no transaction pays its own sender and no
addition saturates.  The one exception is a block where the forgiven part of a
saturated cost is taken back by a saturated balance, and that takes balances that
add up to more than a `u128`. -/
theorem applyBlock_conserves_iff (block : Block) (sm : StateManager σ)
    (h : (applyBlock block sm).1.IsOk) :
    (Conserves block.payments sm.book (applyBlock block sm).2.book ↔
      Orderly maxU128 maxU64 block.payments sm.book ∨
        Offset maxU128 maxU64 block.payments sm.book) ∧
    (Offset maxU128 maxU64 block.payments sm.book → maxU128 < sm.book.total) := by
  obtain ⟨hbook, hcov⟩ := book_applyBlock block sm h
  rw [hbook]
  refine ⟨conserves_iff _ _ _ _ sm.nonce_le hcov, fun hoff => hoff.lt_total _ _ hcov ?_⟩
  intro p hp
  obtain ⟨tx, -, rfl⟩ := List.mem_map.mp hp
  exact tx.amount_le

end StateManager

/-! ## A payment to oneself -/

section Example

open scoped Sample

/-- The address whose bytes are all `b`. -/
def sampleAddress (b : UInt8) : Address := Vector.replicate 32 b

/-- A state manager over an in-memory storage with the given balances. -/
def sampleState (balances : List (Address × U128)) : StateManager MemoryStorage :=
  StateManager.new
    (balances.foldl (fun s e => s.putAccount e.1 (some (Account.new e.1 e.2 0)))
      (MemoryStorage.new fun _ => 0))
    fun _ => 1

/-- A transfer of 10 with a fee of 1. -/
def sampleTransfer (payer payee : Address) (nonce : UInt64) : Transaction where
  «from» := payer
  «to» := payee
  amount := 10
  fee := 1
  nonce := nonce
  signature := [1]
  timestamp := 0

/-- The first block, with the given transactions. -/
def sampleBlock (txs : List Transaction) : Block := Block.new 1 zero32 txs zero32 0

/-- An account with 100 pays 10 to itself: the block is accepted, 10 are minted
and the fee and the nonce are forgotten. -/
theorem selfTransfer_not_conserves :
    let sm := sampleState [(sampleAddress 1, 100)]
    let block := sampleBlock [sampleTransfer (sampleAddress 1) (sampleAddress 1) 0]
    (StateManager.applyBlock block sm).1.IsOk ∧
      (StateManager.applyBlock block sm).2.book.total = sm.book.total + 10 ∧
      ¬ Book.Conserves block.payments sm.book (StateManager.applyBlock block sm).2.book := by
  intro sm block
  have hok : (StateManager.applyBlock block sm).1.IsOk := by decide
  have hbalance : sm.book.balance (sampleAddress 1) = 100 := by decide
  have htotal : (StateManager.applyBlock block sm).2.book.total = sm.book.total + 10 := by
    rw [(StateManager.book_applyBlock block sm hok).1]
    have hself := Book.total_pay_self maxU128 maxU64
      (sampleTransfer (sampleAddress 1) (sampleAddress 1) 0).payment sm.book rfl
    have hcap : min (sm.book.balance (sampleAddress 1) + 10) maxU128 = 110 := by
      rw [hbalance]
      decide
    change sm.book.balance (sampleAddress 1) + _
      = min (sm.book.balance (sampleAddress 1) + 10) maxU128 + _ at hself
    rw [hcap, hbalance] at hself
    change Book.total (Book.pay maxU128 maxU64 _ sm.book) = _
    omega
  refine ⟨hok, htotal, fun h => ?_⟩
  have hcons := h.total
  omega

/-- A block with a transfer between two accounts, which is orderly. -/
theorem transfer_conserves :
    let sm := sampleState [(sampleAddress 1, 100)]
    let block := sampleBlock [sampleTransfer (sampleAddress 1) (sampleAddress 2) 0]
    (StateManager.applyBlock block sm).1.IsOk ∧
      Book.Conserves block.payments sm.book (StateManager.applyBlock block sm).2.book := by
  intro sm block
  have hok : (StateManager.applyBlock block sm).1.IsOk := by decide
  refine ⟨hok, (StateManager.applyBlock_conserves_iff block sm hok).1.mpr (Or.inl ?_)⟩
  have hpay : block.payments
      = [(sampleTransfer (sampleAddress 1) (sampleAddress 2) 0).payment] := rfl
  rw [hpay]
  refine ⟨?_, ?_, ?_, ?_⟩
  · intro p hp
    rw [List.mem_singleton.mp hp]
    decide
  · intro p hp
    rw [List.mem_singleton.mp hp]
    decide
  · intro p hp
    rw [List.mem_singleton.mp hp]
    decide
  · intro done p rest heq
    obtain ⟨rfl, rfl, rfl⟩ : done = [] ∧ p = _ ∧ rest = [] := by
      cases done with
      | nil => simpa [eq_comm] using heq
      | cons q done => simp at heq
    decide

end Example
