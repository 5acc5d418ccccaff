/-
# State roots and what was read before

`compute_state_root` hashes the accounts in the cache and the uncommitted ones.
The cache holds what was read since the manager was created, so the root of one
ledger state depends on the reads.

Two managers are `Twin`s if they answer every `get_account` alike and have the
same root and uncommitted accounts; their caches may hold any accounts that are
stored.  Their roots agree for all contents of the caches exactly when there is
nothing to hash, or when every account that may or may not be cached adds zero to
the root (`root_readFree_iff`).
-/
import Pacyte.Coherence
import Pacyte.ClockDependence

namespace StateManager

open Exec

variable {σ : Type} [LawfulStorage σ]

/-! ## Twins -/

/-- Managers that differ in their caches (and in the way the accounts are stored):
the same answers, the same changes, root and clock. -/
structure Twin (sm sm' : StateManager σ) : Prop where
  coherent : Coherent sm'
  account : sm'.account = sm.account
  dirtyAccounts : ∀ a, sm'.dirtyAccounts.lookup a = sm.dirtyAccounts.lookup a
  smt : sm'.smt = sm.smt
  currentRoot : sm'.currentRoot = sm.currentRoot
  clock : sm'.clock = sm.clock

theorem Twin.mem_dirty {sm sm' : StateManager σ} (h : Twin sm sm') (a : Address) :
    a ∈ sm'.dirtyAccounts ↔ a ∈ sm.dirtyAccounts := by
  rw [← AList.lookup_isSome, ← AList.lookup_isSome, h.dirtyAccounts]

/-- Reading accounts leads to a twin. -/
theorem Reads.twin {T : Address → Prop} {sm sm' : StateManager σ} (h : Reads T sm sm')
    (hc : Coherent sm) (hclock : sm'.clock = sm.clock) : Twin sm sm' := by
  have hc' := h.coherent hc
  refine ⟨hc', ?_, fun a => by rw [h.dirtyAccounts], h.smt, h.currentRoot, hclock⟩
  funext a
  rw [hc'.account_eq, hc.account_eq, h.beneath]

/-- The manager with another cache, which holds accounts of the view. -/
theorem Twin.withCache {sm : StateManager σ} (hc : Coherent sm) (cache : Map Address Account)
    (hcache : ∀ a acc, cache.lookup a = some acc → sm.account a = some acc) :
    Twin sm { sm with accountCache := cache } := by
  have hc' : Coherent { sm with accountCache := cache } := by
    intro a acc hacc
    show sm.beneath a = some acc
    rw [← hc.account_eq]
    exact hcache a acc hacc
  refine ⟨hc', ?_, fun _ => rfl, rfl, rfl, rfl⟩
  funext a
  rw [hc'.account_eq, hc.account_eq]
  rfl

/-! ## The transfers of twins -/

/-- Two managers with the same answers and the same uncommitted addresses are
twins, since what is uncommitted is what is answered. -/
theorem twin_of_mem_dirty {sm sm' : StateManager σ} (hc : Coherent sm) (hc' : Coherent sm')
    (hledger : sm'.ledger = sm.ledger) (hroot : sm'.currentRoot = sm.currentRoot)
    (hsmt : sm'.smt = sm.smt)
    (hdirty : ∀ a, a ∈ sm'.dirtyAccounts ↔ a ∈ sm.dirtyAccounts) : Twin sm sm' := by
  obtain ⟨haccount, hclock⟩ := Prod.mk.inj hledger
  refine ⟨hc', haccount, ?_, hsmt, hroot, hclock⟩
  intro a
  by_cases ha : a ∈ sm.dirtyAccounts
  · rw [hc.lookup_dirty ha, hc'.lookup_dirty ((hdirty a).mpr ha), haccount]
  · rw [AList.lookup_eq_none.mpr ha, AList.lookup_eq_none.mpr fun h => ha ((hdirty a).mp h)]

/-- Twins that make the same transfers are twins again. -/
theorem Twin.transfers {txs : List Transaction} {sm sm' mid mid' : StateManager σ}
    (h : Twin sm sm') (hc : Coherent sm) (htr : Transfers txs sm mid)
    (htr' : Transfers txs sm' mid') : Twin mid mid' := by
  obtain ⟨hledger, hwrote⟩ := htr.wrote
  obtain ⟨hledger', hwrote'⟩ := htr'.wrote
  obtain ⟨-, -, hroot, -⟩ := htr.frame
  obtain ⟨-, -, hroot', -⟩ := htr'.frame
  have hstart : sm'.ledger = sm.ledger := by rw [ledger, ledger, h.account, h.clock]
  apply twin_of_mem_dirty (hwrote.coherent hc) (hwrote'.coherent h.coherent)
  · rw [hledger, hledger', hstart]
  · rw [hroot, hroot', h.currentRoot]
  · rw [hwrote.smt, hwrote'.smt, h.smt]
  · intro a
    rw [hwrote.dirty, hwrote'.dirty, h.mem_dirty]

/-! ## The roots of twins -/

variable [Primitives]

/-- Every account outside the changes and `T` adds zero to the root. -/
def Silent (sm : StateManager σ) (T : Address → Prop) : Prop :=
  ∀ a acc, sm.account a = some acc → a ∉ sm.dirtyAccounts → ¬ T a →
    leaf sm.smt (a, acc) = Vector.zeros 32

omit [LawfulStorage σ] [Primitives] in
theorem eq_empty_iff (m : Map Address Account) : m = ∅ ↔ ∀ a, a ∉ m := by
  constructor
  · rintro rfl a
    exact AList.notMem_empty a
  · intro h
    apply AList.ext
    cases hentries : m.entries with
    | nil => rfl
    | cons e rest =>
        refine absurd ?_ (h e.1)
        show e.1 ∈ m.entries.keys
        rw [hentries, List.keys_cons]
        exact List.mem_cons_self

/-- Twins have the same root if there are no changes, or if the accounts that only
one of them may have cached add zero. -/
theorem Twin.root_eq {sm sm' : StateManager σ} (h : Twin sm sm') (hc : Coherent sm)
    (hsilent : sm.dirtyAccounts = ∅ ∨ Silent sm fun _ => False) :
    (computeStateRoot sm').1 = (computeStateRoot sm).1 := by
  have hempty' : sm'.dirtyAccounts = ∅ ↔ sm.dirtyAccounts = ∅ := by
    rw [eq_empty_iff, eq_empty_iff]
    exact forall_congr' fun a => not_congr (h.mem_dirty a)
  by_cases hempty : sm.dirtyAccounts = ∅
  · rw [computeStateRoot_clean sm hempty, computeStateRoot_clean sm' (hempty'.mpr hempty),
      h.currentRoot]
  · have hzero := hsilent.resolve_left hempty
    rw [computeStateRoot_eq sm hempty, computeStateRoot_eq sm' (mt hempty'.mp hempty), h.smt]
    -- an account that counts is uncommitted, and both managers have it
    have hxor : Vector.xorAll (sm'.allAccounts.toPairs.map (leaf sm.smt)) =
        Vector.xorAll (sm.allAccounts.toPairs.map (leaf sm.smt)) := by
      apply xorAll_toPairs_congr
      intro a acc hleaf
      rw [h.coherent.lookup_allAccounts, hc.lookup_allAccounts, h.account, h.mem_dirty]
      refine and_congr_left fun hacc => ?_
      have hdirty : a ∈ sm.dirtyAccounts := by
        by_contra hnot
        exact hleaf (hzero a acc hacc hnot not_false)
      exact iff_of_true (Or.inl hdirty) (Or.inl hdirty)
    rw [hxor]

/-- One account more in the cache changes the root by what the account adds. -/
theorem Twin.root_ne {sm sm' : StateManager σ} (h : Twin sm sm') (hc : Coherent sm)
    (hdirty : sm.dirtyAccounts ≠ ∅) {a : Address} {acc : Account} (hacc : sm.account a = some acc)
    (hclean : a ∉ sm.dirtyAccounts) (hcold : a ∉ sm.accountCache)
    (hcache : ∀ x, x ∈ sm'.accountCache ↔ x ∈ sm.accountCache ∨ x = a)
    (hleaf : leaf sm.smt (a, acc) ≠ Vector.zeros 32) :
    (computeStateRoot sm').1 ≠ (computeStateRoot sm).1 := by
  have hdirty' : sm'.dirtyAccounts ≠ ∅ := by
    rw [Ne, eq_empty_iff] at hdirty ⊢
    exact fun h' => hdirty fun x hx => h' x ((h.mem_dirty x).mpr hx)
  have hnone : sm.allAccounts.lookup a = none := by
    rw [StateManager.lookup_allAccounts, AList.lookup_eq_none.mpr hclean,
      AList.lookup_eq_none.mpr hcold, Option.or_none]
  have hinsert : ∀ x, sm'.allAccounts.lookup x = (sm.allAccounts.insert a acc).lookup x := by
    intro x
    ext y
    rw [h.coherent.lookup_allAccounts, h.mem_dirty, h.account, hcache]
    by_cases hx : x = a
    · subst hx
      rw [AList.lookup_insert, hacc]
      simp
    · rw [AList.lookup_insert_ne hx, hc.lookup_allAccounts]
      simp [hx]
  rw [computeStateRoot_eq sm hdirty, computeStateRoot_eq sm' hdirty', h.smt,
    xorAll_toPairs_insert (leaf sm.smt) hnone hinsert]
  intro heq
  have hsum := (Vector.xor_right_inj _).mp (Outcome.ok.inj heq)
  exact hleaf ((Vector.xor_eq_right_iff _ _).mp hsum)

/-! ## Roots that do not depend on the reads -/

/-- The root is the same for all twins. -/
def RootReadFree (sm : StateManager σ) : Prop :=
  ∀ sm₁ sm₂, Twin sm sm₁ → Twin sm sm₂ → (computeStateRoot sm₁).1 = (computeStateRoot sm₂).1

/-- The root of the block is the same for all twins that accept it. -/
def BlockReadFree (block : Block) (sm : StateManager σ) : Prop :=
  ∀ sm₁ sm₂ v₁ v₂, Twin sm sm₁ → Twin sm sm₂ → (applyBlock block sm₁).1 = .ok v₁ →
    (applyBlock block sm₂).1 = .ok v₂ → v₁.root = v₂.root

omit [Primitives] in
/-- Two twins of a manager are twins of each other. -/
theorem Twin.euclidean {sm sm₁ sm₂ : StateManager σ} (h₁ : Twin sm sm₁) (h₂ : Twin sm sm₂) :
    Twin sm₁ sm₂ where
  coherent := h₂.coherent
  account := h₂.account.trans h₁.account.symm
  dirtyAccounts a := (h₂.dirtyAccounts a).trans (h₁.dirtyAccounts a).symm
  smt := h₂.smt.trans h₁.smt.symm
  currentRoot := h₂.currentRoot.trans h₁.currentRoot.symm
  clock := h₂.clock.trans h₁.clock.symm

/-- Nothing is hashed, or the accounts that may be missing in a cache add zero. -/
def Settled (sm : StateManager σ) (txs : List Transaction) : Prop :=
  (sm.dirtyAccounts = ∅ ∧ txs = []) ∨ Silent sm (Touched txs)

/-- Twins with the same transfers have the same root, if no account outside the
transfers counts. -/
theorem Twin.root_eq_after {txs : List Transaction} {sm sm₁ sm₂ mid₁ mid₂ : StateManager σ}
    (h₁ : Twin sm sm₁) (h₂ : Twin sm sm₂) (htr₁ : Transfers txs sm₁ mid₁)
    (htr₂ : Transfers txs sm₂ mid₂) (h : Settled sm txs) :
    (computeStateRoot mid₁).1 = (computeStateRoot mid₂).1 := by
  have hc := htr₁.wrote.2.coherent h₁.coherent
  refine ((h₁.euclidean h₂).transfers h₁.coherent htr₁ htr₂ |>.root_eq hc ?_).symm
  rcases h with ⟨hempty, rfl⟩ | hsilent
  · cases htr₁
    left
    rw [eq_empty_iff] at hempty ⊢
    exact fun a ha => hempty a ((h₁.mem_dirty a).mp ha)
  · right
    intro a acc hacc hclean _
    have hwrote := htr₁.wrote.2
    rw [hwrote.dirty, not_or, h₁.mem_dirty] at hclean
    rw [hwrote.account a hclean.2, h₁.account] at hacc
    rw [hwrote.smt, h₁.smt]
    exact hsilent a acc hacc hclean.1 hclean.2

omit [Primitives] in
/-- Two twins, of which only the second has the account `a` in the cache. -/
theorem exists_cold_warm {sm : StateManager σ} (hc : Coherent sm) {a : Address} {acc : Account}
    (hacc : sm.account a = some acc) (hclean : a ∉ sm.dirtyAccounts) :
    ∃ cold warm, Twin sm cold ∧ Twin sm warm ∧ a ∉ cold.accountCache ∧
      ∀ x, x ∈ warm.accountCache ↔ x ∈ cold.accountCache ∨ x = a := by
  have hcold : ∀ x y, sm.dirtyAccounts.lookup x = some y → sm.account x = some y := by
    intro x y hxy
    rw [← hc.lookup_dirty (AList.lookup_isSome.mp (by rw [hxy]; rfl)), hxy]
  refine ⟨{ sm with accountCache := sm.dirtyAccounts },
    { sm with accountCache := sm.dirtyAccounts.insert a acc },
    Twin.withCache hc _ hcold, Twin.withCache hc _ ?_, hclean, ?_⟩
  · intro x y hxy
    by_cases hx : x = a
    · subst hx
      rw [AList.lookup_insert] at hxy
      rw [hacc, hxy]
    · rw [AList.lookup_insert_ne hx] at hxy
      exact hcold x y hxy
  · intro x
    rw [AList.mem_insert, or_comm]

/-- If the transfers are made whatever is cached, and the roots after them are the
same, then no account outside the transfers counts. -/
theorem settled_of_root_eq {txs : List Transaction} {sm : StateManager σ} (hc : Coherent sm)
    (hrun : ∀ sm', Twin sm sm' → ∃ mid, Transfers txs sm' mid)
    (h : ∀ sm₁ sm₂ mid₁ mid₂, Twin sm sm₁ → Twin sm sm₂ → Transfers txs sm₁ mid₁ →
      Transfers txs sm₂ mid₂ → (computeStateRoot mid₁).1 = (computeStateRoot mid₂).1) :
    Settled sm txs := by
  by_contra hnot
  rw [Settled, not_or] at hnot
  obtain ⟨hsome, hloud⟩ := hnot
  simp only [Silent, not_forall] at hloud
  obtain ⟨a, acc, hacc, hclean, huntouched, hleaf⟩ := hloud
  obtain ⟨cold, warm, hcold, hwarm, hmiss, hcache⟩ := exists_cold_warm hc hacc hclean
  obtain ⟨mid, htr⟩ := hrun cold hcold
  obtain ⟨mid', htr'⟩ := hrun warm hwarm
  obtain ⟨-, hwrote⟩ := htr.wrote
  obtain ⟨-, hwrote'⟩ := htr'.wrote
  have hdirty : mid.dirtyAccounts ≠ ∅ := by
    intro hempty
    rw [eq_empty_iff] at hempty
    refine hsome ⟨(eq_empty_iff _).mpr fun x hx => hempty x ?_, ?_⟩
    · exact (hwrote.dirty x).mpr (Or.inl ((hcold.mem_dirty x).mpr hx))
    · rw [List.eq_nil_iff_forall_not_mem]
      exact fun tx htx => hempty tx.to ((hwrote.dirty _).mpr (Or.inr ⟨tx, htx, Or.inr rfl⟩))
  refine Twin.root_ne ((hcold.euclidean hwarm).transfers hcold.coherent htr htr')
    (hwrote.coherent hcold.coherent) hdirty (?_ : mid.account a = some acc) ?_ ?_ ?_ ?_
    (h cold warm mid mid' hcold hwarm htr htr').symm
  · rw [hwrote.account a huntouched, hcold.account, hacc]
  · rw [hwrote.dirty, hcold.mem_dirty]
    exact not_or.mpr ⟨hclean, huntouched⟩
  · rw [hwrote.cache]
    exact not_or.mpr ⟨hmiss, huntouched⟩
  · intro x
    rw [hwrote'.cache, hwrote.cache, hcache, or_right_comm]
  · rw [hwrote.smt, hcold.smt]
    exact hleaf

/-- **The state root is free of the reads exactly when no account outside the
changes counts.**  For `compute_state_root` these are the uncommitted accounts,
for a block also the accounts it transfers from or to. -/
theorem root_readFree_iff (sm : StateManager σ) (hc : Coherent sm) :
    (RootReadFree sm ↔ Settled sm []) ∧
      ∀ block : Block,
        (Settled sm block.body.transactions → BlockReadFree block sm) ∧
        ((∀ sm', Twin sm sm' → (applyBlock block sm').1.IsOk) →
          BlockReadFree block sm → Settled sm block.body.transactions) := by
  refine ⟨⟨?_, ?_⟩, fun block => ⟨?_, ?_⟩⟩
  · intro hfree
    refine settled_of_root_eq hc (fun sm' _ => ⟨sm', Transfers.nil sm'⟩) ?_
    rintro sm₁ sm₂ mid₁ mid₂ h₁ h₂ ⟨⟩ ⟨⟩
    exact hfree sm₁ sm₂ h₁ h₂
  · intro hsettled sm₁ sm₂ h₁ h₂
    exact h₁.root_eq_after h₂ (Transfers.nil sm₁) (Transfers.nil sm₂) hsettled
  · intro hsettled sm₁ sm₂ v₁ v₂ h₁ h₂ hok₁ hok₂
    obtain ⟨mid₁, -, htr₁, hrec₁⟩ := recorded_of_ok hok₁
    obtain ⟨mid₂, -, htr₂, hrec₂⟩ := recorded_of_ok hok₂
    have hroot := h₁.root_eq_after h₂ htr₁ htr₂ hsettled
    rw [hrec₁.root, hrec₂.root] at hroot
    exact Outcome.ok.inj hroot
  · intro hok hfree
    have hrun : ∀ sm', Twin sm sm' → ∃ mid v, Transfers block.body.transactions sm' mid ∧
        (applyBlock block sm').1 = .ok v ∧ (computeStateRoot mid).1 = .ok v.root := by
      intro sm' h'
      obtain ⟨v, hv⟩ := (Outcome.isOk_iff _).mp (hok sm' h')
      obtain ⟨mid, -, htr, hrec⟩ := recorded_of_ok hv
      exact ⟨mid, v, htr, hv, hrec.root⟩
    refine settled_of_root_eq hc (fun sm' h' => ?_) ?_
    · obtain ⟨mid, -, htr, -⟩ := hrun sm' h'
      exact ⟨mid, htr⟩
    · intro sm₁ sm₂ mid₁ mid₂ h₁ h₂ htr₁ htr₂
      obtain ⟨mid₁', v₁, htr₁', hv₁, hroot₁⟩ := hrun sm₁ h₁
      obtain ⟨mid₂', v₂, htr₂', hv₂, hroot₂⟩ := hrun sm₂ h₂
      -- the loop over the transactions has one result
      obtain rfl : mid₁' = mid₁ := (Prod.mk.inj (htr₁'.run.symm.trans htr₁.run)).2
      obtain rfl : mid₂' = mid₂ := (Prod.mk.inj (htr₂'.run.symm.trans htr₂.run)).2
      rw [hroot₁, hroot₂, hfree sm₁ sm₂ v₁ v₂ h₁ h₂ hv₁ hv₂]

/-! ## Reads -/

omit [Primitives] in
/-- `get_account` leads to a twin. -/
theorem getAccount_twin {sm : StateManager σ} (hc : Coherent sm) (a : Address) :
    Twin sm (getAccount a sm).2 :=
  (getAccount_reads a sm).twin hc (getAccount_spec a sm).2.1

end StateManager

/-! ## A read before the root -/

section Example

open scoped Sample

/-- Two accounts, of which the first is changed. -/
def coldState : StateManager MemoryStorage :=
  (sampleState [(sampleAddress 1, 100), (sampleAddress 2, 50)]).withAccount (sampleAddress 1)
    (Account.new (sampleAddress 1) 90 1)

/-- The same state after the second account was read. -/
def warmState : StateManager MemoryStorage :=
  (StateManager.getAccount (sampleAddress 2) coldState).2

/-- The root before and after a read of another account: nothing but the cache has
changed, and the root is a different one. -/
theorem read_changes_root :
    StateManager.Coherent coldState ∧ StateManager.Twin coldState warmState ∧
      (StateManager.computeStateRoot warmState).1 ≠ (StateManager.computeStateRoot coldState).1 := by
  have hc : StateManager.Coherent coldState :=
    StateManager.coherent_withAccount (StateManager.coherent_of_empty rfl) _ _
  have htwin : StateManager.Twin coldState warmState := StateManager.getAccount_twin hc _
  refine ⟨hc, htwin, ?_⟩
  refine htwin.root_ne hc ?_ (?_ : coldState.account (sampleAddress 2) =
    some (Account.new (sampleAddress 2) 50 0)) ?_ ?_ ?_ ?_
  · rw [Ne, StateManager.eq_empty_iff]
    exact fun h => h (sampleAddress 1) (by decide)
  · decide
  · decide
  · decide
  · intro x
    have hcache : warmState.accountCache = coldState.accountCache.insert (sampleAddress 2)
        (Account.new (sampleAddress 2) 50 0) := by
      rfl
    rw [hcache, AList.mem_insert, or_comm]
  · decide +kernel

/-- A state with one account, which is changed: no read makes a difference. -/
theorem one_account_readFree :
    let sm := (sampleState [(sampleAddress 1, 100)]).withAccount (sampleAddress 1)
      (Account.new (sampleAddress 1) 90 1)
    StateManager.Coherent sm ∧ StateManager.RootReadFree sm := by
  intro sm
  have hc : StateManager.Coherent sm :=
    StateManager.coherent_withAccount (StateManager.coherent_of_empty rfl) _ _
  refine ⟨hc, (StateManager.root_readFree_iff sm hc).1.mpr (Or.inr ?_)⟩
  intro a acc hacc hclean
  exfalso
  by_cases ha : a = sampleAddress 1
  · apply hclean
    rw [ha]
    decide
  · rw [StateManager.account_withAccount, Function.update_of_ne ha] at hacc
    have hnone : StateManager.account (sampleState [(sampleAddress 1, 100)]) a = none := by
      show (AList.insert (sampleAddress 1) _ (∅ : Map Address Account)).lookup a = none
      rw [AList.lookup_insert_ne ha, AList.lookup_empty]
    rw [hnone] at hacc
    cases hacc

end Example
