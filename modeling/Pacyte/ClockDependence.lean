/-
# State roots and the local clock

`apply_transfer` writes the reading of the local clock into both accounts, and a
new account holds the time at which it was created.  The accounts are hashed into
the state root, so two nodes that apply one block to one state at different times
end in different states.

The block that leaves no trace of the clock is the one without transactions
(`applyBlock_clockFree_iff`).
-/
import Pacyte.StateRoot

namespace StateManager

variable {σ : Type} [LawfulStorage σ]

/-! ## Two machines in one state -/

/-- Equal accounts, caches and roots.  The storages and the clocks may differ. -/
structure SameState (sm sm' : StateManager σ) : Prop where
  account : sm'.account = sm.account
  accountCache : sm'.accountCache = sm.accountCache
  dirtyAccounts : sm'.dirtyAccounts = sm.dirtyAccounts
  smt : sm'.smt = sm.smt
  currentRoot : sm'.currentRoot = sm.currentRoot

theorem SameState.clock (sm : StateManager σ) (c : Clock) :
    SameState sm { sm with clock := c } := ⟨rfl, rfl, rfl, rfl, rfl⟩

/-- The two clocks share no reading. -/
def NoCommonReading (c c' : Clock) : Prop := ∀ i j, c i ≠ c' j

variable [Primitives]

/-- The accounts and the root after the block are the same for all machines in
the state `sm` that accept it. -/
def ClockFree (block : Block) (sm : StateManager σ) : Prop :=
  ∀ sm₁ sm₂ v₁ v₂, SameState sm sm₁ → SameState sm sm₂ →
    (applyBlock block sm₁).1 = .ok v₁ → (applyBlock block sm₂).1 = .ok v₂ →
    (applyBlock block sm₂).2.account = (applyBlock block sm₁).2.account ∧ v₂.root = v₁.root

/-- The block is accepted at two moments that have no reading in common. -/
def AcceptedTwice (block : Block) (sm : StateManager σ) : Prop :=
  ∃ c c', NoCommonReading c c' ∧ (applyBlock block { sm with clock := c }).1.IsOk ∧
    (applyBlock block { sm with clock := c' }).1.IsOk

/-! ## One block at two times -/

/-- The root depends on the caches, the tree and the root of before only. -/
theorem computeStateRoot_congr {sm sm' : StateManager σ} (h : SameState sm sm') :
    (computeStateRoot sm').1 = (computeStateRoot sm).1 := by
  unfold computeStateRoot
  simp only [Exec.run_bind, Exec.run_get, h.accountCache, h.dirtyAccounts, h.smt, h.currentRoot]
  split_ifs <;> rfl

/-- An accepted block, as `Recorded`. -/
theorem recorded_of_ok {block : Block} {sm : StateManager σ} {v : StateVersion}
    (h : (applyBlock block sm).1 = .ok v) :
    ∃ mid, NextHeight sm block ∧ Transfers block.body.transactions sm mid ∧
      Recorded block mid v (applyBlock block sm).2 :=
  applyBlock_recorded block sm v h

/-- A block without transactions keeps the accounts and records the root of the
state it finds. -/
theorem applyBlock_empty {block : Block} {sm : StateManager σ} {v : StateVersion}
    (hempty : block.body.transactions = []) (h : (applyBlock block sm).1 = .ok v) :
    (applyBlock block sm).2.account = sm.account ∧ (computeStateRoot sm).1 = .ok v.root := by
  obtain ⟨mid, -, htr, hrec⟩ := recorded_of_ok h
  rw [hempty] at htr
  cases htr
  exact ⟨hrec.account, hrec.root⟩

/-- With a transaction in the block, machines whose clocks share no reading end
with different accounts. -/
theorem account_ne_of_noCommonReading {block : Block} {sm₁ sm₂ : StateManager σ} {v₁ v₂ : StateVersion}
    (hclock : NoCommonReading sm₁.clock sm₂.clock) (h₁ : (applyBlock block sm₁).1 = .ok v₁)
    (h₂ : (applyBlock block sm₂).1 = .ok v₂) (hne : block.body.transactions ≠ []) :
    (applyBlock block sm₂).2.account ≠ (applyBlock block sm₁).2.account := by
  obtain ⟨mid₁, -, htr₁, hrec₁⟩ := recorded_of_ok h₁
  obtain ⟨mid₂, -, htr₂, hrec₂⟩ := recorded_of_ok h₂
  intro heq
  -- both runs stamp the recipient of the last transaction
  have hlast := List.getLast?_eq_some_getLast hne
  obtain ⟨acc₁, i, hacc₁, htime₁⟩ := htr₁.stamped_last hlast
  obtain ⟨acc₂, j, hacc₂, htime₂⟩ := htr₂.stamped_last hlast
  rw [hrec₁.account, hrec₂.account] at heq
  have hsame : acc₁ = acc₂ := by
    rw [heq, hacc₁] at hacc₂
    exact Option.some.inj hacc₂
  apply hclock i j
  rw [← htime₁, ← htime₂, hsame]

/-- **The result of a block is free of the clock exactly when the block has no
transactions.** -/
theorem applyBlock_clockFree_iff (block : Block) (sm : StateManager σ)
    (h : AcceptedTwice block sm) :
    ClockFree block sm ↔ block.body.transactions = [] := by
  constructor
  · intro hfree
    by_contra hne
    obtain ⟨c, c', hdisj, hok, hok'⟩ := h
    obtain ⟨v, hrun⟩ := (Outcome.isOk_iff _).mp hok
    obtain ⟨v', hrun'⟩ := (Outcome.isOk_iff _).mp hok'
    have hacc := (hfree _ _ v v' (.clock sm c) (.clock sm c') hrun hrun').1
    exact account_ne_of_noCommonReading hdisj hrun hrun' hne hacc
  · intro hempty sm₁ sm₂ v₁ v₂ hsame₁ hsame₂ h₁ h₂
    obtain ⟨hacc₁, hroot₁⟩ := applyBlock_empty hempty h₁
    obtain ⟨hacc₂, hroot₂⟩ := applyBlock_empty hempty h₂
    rw [computeStateRoot_congr hsame₁] at hroot₁
    rw [computeStateRoot_congr hsame₂] at hroot₂
    constructor
    · rw [hacc₁, hacc₂, hsame₁.account, hsame₂.account]
    · exact Outcome.ok.inj (hroot₂.symm.trans hroot₁)

end StateManager

/-! ## One transfer at two times -/

section Example

open scoped Sample

/-- The machine at the time `t`, with 100 for the first address. -/
def stateAt (t : Timestamp) : StateManager MemoryStorage :=
  { sampleState [(sampleAddress 1, 100)] with clock := fun _ => t }

/-- One machine applies a transfer at time 1 and another at time 2: both accept
it, and they have different accounts and different roots. -/
theorem two_times_two_roots :
    let block := sampleBlock [sampleTransfer (sampleAddress 1) (sampleAddress 1) 0]
    StateManager.SameState (stateAt 1) (stateAt 2) ∧
      ∃ v₁ v₂, (StateManager.applyBlock block (stateAt 1)).1 = .ok v₁ ∧
        (StateManager.applyBlock block (stateAt 2)).1 = .ok v₂ ∧
        (StateManager.applyBlock block (stateAt 2)).2.account
          ≠ (StateManager.applyBlock block (stateAt 1)).2.account ∧
        v₁.root ≠ v₂.root := by
  intro block
  refine ⟨.clock (stateAt 1) fun _ => 2, _, _, rfl, rfl, ?_, ?_⟩
  · intro heq
    have hpayee := congrFun heq (sampleAddress 1)
    revert hpayee
    decide
  · decide +kernel

/-- A block without transactions, applied at two times. -/
theorem empty_block_clockFree :
    let block := sampleBlock []
    StateManager.AcceptedTwice block (stateAt 1) ∧ StateManager.ClockFree block (stateAt 1) := by
  intro block
  have htwice : StateManager.AcceptedTwice block (stateAt 1) := by
    refine ⟨fun _ => 1, fun _ => 2, ?_, ?_, ?_⟩
    · intro i j
      show (1 : Timestamp) ≠ 2
      decide
    · decide
    · decide
  exact ⟨htwice, (StateManager.applyBlock_clockFree_iff block (stateAt 1) htwice).mpr rfl⟩

end Example
