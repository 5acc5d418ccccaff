/-
# The cache, the changes and the storage

`account_cache` sits in front of the uncommitted changes, which sit in front of
the storage.  `Coherent`: an account in the cache is the one that would be found
behind it.  Reads and writes through the state manager keep this, so what a
manager answers is given by the changes and the storage alone.

`moved` says which accounts a transfer writes, from the view and the clock; it
does not mention the cache, so two managers with one view stay together.
-/
import Pacyte.StateRoot

/-- Two postconditions of one run. -/
theorem Exec.Post.and {ε σ α : Type} {m : Exec ε σ α} {s : σ} {Q R : Outcome ε α → σ → Prop}
    (hQ : Exec.Post m s Q) (hR : Exec.Post m s R) : Exec.Post m s fun o s' => Q o s' ∧ R o s' :=
  ⟨hQ, hR⟩

namespace StateManager

open Exec

variable {σ : Type} [LawfulStorage σ]

/-! ## Coherence -/

/-- The account behind the cache. -/
def beneath (sm : StateManager σ) (a : Address) : Option Account :=
  (sm.dirtyAccounts.lookup a).or (LawfulStorage.accountAt sm.storage a)

/-- A cached account is the one behind the cache. -/
def Coherent (sm : StateManager σ) : Prop :=
  ∀ a acc, sm.accountCache.lookup a = some acc → sm.beneath a = some acc

/-- The cache does not show. -/
theorem Coherent.account_eq {sm : StateManager σ} (h : Coherent sm) (a : Address) :
    sm.account a = sm.beneath a := by
  rw [StateManager.account_eq]
  cases hcache : sm.accountCache.lookup a with
  | none => rfl
  | some acc => rw [Option.some_or, h a acc hcache]

/-- A new manager has nothing in its cache. -/
theorem coherent_of_empty {sm : StateManager σ} (h : sm.accountCache = ∅) : Coherent sm := by
  intro a acc hacc
  rw [h, AList.lookup_empty] at hacc
  cases hacc

/-- An uncommitted account is the one in the view. -/
theorem Coherent.lookup_dirty {sm : StateManager σ} (h : Coherent sm) {a : Address}
    (ha : a ∈ sm.dirtyAccounts) : sm.dirtyAccounts.lookup a = sm.account a := by
  obtain ⟨acc, hacc⟩ := Option.isSome_iff_exists.mp (AList.lookup_isSome.mpr ha)
  rw [h.account_eq, beneath, hacc, Option.some_or]

/-- The accounts that are hashed into the root, and with which content. -/
theorem Coherent.lookup_allAccounts {sm : StateManager σ} (h : Coherent sm) (a : Address)
    (acc : Account) :
    sm.allAccounts.lookup a = some acc ↔
      (a ∈ sm.dirtyAccounts ∨ a ∈ sm.accountCache) ∧ sm.account a = some acc := by
  rw [StateManager.lookup_allAccounts]
  by_cases hdirty : a ∈ sm.dirtyAccounts
  · rw [← h.lookup_dirty hdirty]
    obtain ⟨acc', hacc'⟩ := Option.isSome_iff_exists.mp (AList.lookup_isSome.mpr hdirty)
    simp [hacc', hdirty]
  · rw [AList.lookup_eq_none.mpr hdirty, Option.none_or]
    constructor
    · intro hacc
      refine ⟨Or.inr (AList.lookup_isSome.mp (by rw [hacc]; rfl)), ?_⟩
      rw [StateManager.account_eq, hacc, Option.some_or]
    · rintro ⟨hmem, hacc⟩
      have hcache := hmem.resolve_left hdirty
      obtain ⟨acc', hacc'⟩ := Option.isSome_iff_exists.mp (AList.lookup_isSome.mpr hcache)
      rw [StateManager.account_eq, hacc', Option.some_or] at hacc
      rw [hacc', hacc]

/-! ## Reads -/

/-- What reading the accounts `T` may change: the cache, which only grows, at `T`
and by what is behind it. -/
structure Reads (T : Address → Prop) (sm sm' : StateManager σ) : Prop where
  stored : LawfulStorage.accountAt sm'.storage = LawfulStorage.accountAt sm.storage
  dirtyAccounts : sm'.dirtyAccounts = sm.dirtyAccounts
  smt : sm'.smt = sm.smt
  currentRoot : sm'.currentRoot = sm.currentRoot
  currentHeight : sm'.currentHeight = sm.currentHeight
  versions : sm'.versions = sm.versions
  cache : ∀ a, a ∈ sm'.accountCache → a ∈ sm.accountCache ∨ T a
  cached : ∀ a, a ∈ sm.accountCache → sm'.accountCache.lookup a = sm.accountCache.lookup a
  filled : ∀ a acc, sm'.accountCache.lookup a = some acc → a ∉ sm.accountCache →
    sm.beneath a = some acc

theorem Reads.refl (T : Address → Prop) (sm : StateManager σ) : Reads T sm sm :=
  ⟨rfl, rfl, rfl, rfl, rfl, rfl, fun _ h => Or.inl h, fun _ _ => rfl,
    fun _ _ h h' => absurd (AList.lookup_isSome.mp (by rw [h]; rfl)) h'⟩

theorem Reads.beneath {T : Address → Prop} {sm sm' : StateManager σ} (h : Reads T sm sm')
    (a : Address) : sm'.beneath a = sm.beneath a := by
  rw [StateManager.beneath, StateManager.beneath, h.dirtyAccounts, h.stored]

/-- Reads keep the cache coherent. -/
theorem Reads.coherent {T : Address → Prop} {sm sm' : StateManager σ} (h : Reads T sm sm')
    (hc : Coherent sm) : Coherent sm' := by
  intro a acc hacc
  rw [h.beneath]
  by_cases hmem : a ∈ sm.accountCache
  · exact hc a acc (by rw [← h.cached a hmem, hacc])
  · exact h.filled a acc hacc hmem

theorem Reads.trans {T T' : Address → Prop} {sm₁ sm₂ sm₃ : StateManager σ} (h : Reads T sm₁ sm₂)
    (h' : Reads T' sm₂ sm₃) : Reads (fun a => T a ∨ T' a) sm₁ sm₃ := by
  have hgrow : ∀ a, a ∈ sm₁.accountCache → a ∈ sm₂.accountCache := by
    intro a ha
    rw [← AList.lookup_isSome, h.cached a ha, AList.lookup_isSome]
    exact ha
  refine ⟨h'.stored.trans h.stored, h'.dirtyAccounts.trans h.dirtyAccounts, h'.smt.trans h.smt,
    h'.currentRoot.trans h.currentRoot, h'.currentHeight.trans h.currentHeight,
    h'.versions.trans h.versions, ?_, ?_, ?_⟩
  · intro a ha
    rcases h'.cache a ha with h₂ | hT'
    · rcases h.cache a h₂ with h₁ | hT
      · exact Or.inl h₁
      · exact Or.inr (Or.inl hT)
    · exact Or.inr (Or.inr hT')
  · intro a ha
    rw [h'.cached a (hgrow a ha), h.cached a ha]
  · intro a acc hacc hnot
    by_cases hmem : a ∈ sm₂.accountCache
    · exact h.filled a acc (by rw [← h'.cached a hmem, hacc]) hnot
    · rw [← h.beneath]
      exact h'.filled a acc hacc hmem

/-- `get_account` reads its address. -/
theorem getAccount_reads (a : Address) (sm : StateManager σ) :
    Post (getAccount a) sm fun _ sm' => Reads (· = a) sm sm' := by
  unfold getAccount
  simp only [post_bind, post_get]
  cases hcache : sm.accountCache.lookup a with
  | some acc => exact Reads.refl _ sm
  | none =>
      cases hdirty : sm.dirtyAccounts.lookup a with
      | some acc => exact Reads.refl _ sm
      | none =>
          have hview := LawfulStorage.getAccount_view a sm.storage
          have hval := LawfulStorage.getAccount_eq a sm.storage
          simp only [post_bind, onStorage, post_onPart]
          rw [Post]
          rcases hr : Storage.getAccount a sm.storage with ⟨o, st⟩
          rw [hr] at hview hval
          have hsame : Reads (· = a) sm { sm with storage := st } :=
            { Reads.refl (· = a) sm with stored := hview.1 }
          rcases o with ⟨_ | acc⟩ | e | _
          · exact hsame
          · -- the stored account is put into the cache
            refine ⟨hview.1, rfl, rfl, rfl, rfl, rfl, ?_, ?_, ?_⟩
            · intro x hx
              rcases (AList.mem_insert _).mp hx with h | h
              · exact Or.inr h
              · exact Or.inl h
            · intro x hx
              have hne : x ≠ a := by
                rintro rfl
                exact AList.lookup_eq_none.mp hcache hx
              exact AList.lookup_insert_ne hne
            · intro x acc' hacc' hx
              by_cases hxa : x = a
              · subst hxa
                have hstored := hval (some acc) rfl
                rw [beneath, hdirty, Option.none_or, ← hstored, ← hacc']
                exact (AList.lookup_insert sm.accountCache).symm
              · change (sm.accountCache.insert a acc).lookup x = some acc' at hacc'
                rw [AList.lookup_insert_ne hxa] at hacc'
                exact absurd (AList.lookup_isSome.mp (by rw [hacc']; rfl)) hx
          · exact hsame
          · exact hsame

/-- `get_account(to)` or a new account: the new one takes a reading of the clock. -/
theorem getAccountOrNew_reads (a : Address) (sm : StateManager σ) :
    Post (getAccountOrNew a) sm fun o sm' => Reads (· = a) sm sm' ∧ sm'.account = sm.account ∧
      ∀ acc, o = .ok acc →
        (sm.account a = some acc ∧ sm'.clock = sm.clock) ∨
        (sm.account a = none ∧ acc = Account.new a 0 (sm.clock 0) ∧
          sm'.clock = fun k => sm.clock (k + 1)) := by
  unfold getAccountOrNew
  have hget := (getAccount_reads a sm).and (getAccount_spec a sm)
  refine hget.seq ?_ ?_ ?_
  · rintro (_ | acc) sm' ⟨hreads, hsame, hclock, hr⟩
    · refine ⟨{ hreads with }, hsame.account, ?_⟩
      rintro acc hok
      obtain rfl := Outcome.ok.inj hok
      refine Or.inr ⟨hr.symm, ?_, ?_⟩
      · show Account.new a 0 (sm'.clock 0) = _
        rw [hclock]
      · show (fun k => sm'.clock (k + 1)) = _
        rw [hclock]
    · refine ⟨hreads, hsame.account, ?_⟩
      rintro acc' hok
      obtain rfl := Outcome.ok.inj hok
      exact Or.inl ⟨hr.symm, hclock⟩
  · rintro e sm' ⟨hreads, hsame, -, -⟩
    refine ⟨hreads, hsame.account, ?_⟩
    rintro _ ⟨⟩
  · rintro sm' ⟨-, -, -, hfalse⟩
    exact hfalse.elim

/-! ## Transfers -/

/-- The accounts a manager finds and the readings its clock will give. -/
def ledger (sm : StateManager σ) : (Address → Option Account) × Clock := (sm.account, sm.clock)

/-- The accounts and the clock after a transfer that is not refused. -/
def moved («from» «to» : Address) (amount fee : U128)
    (ledger : (Address → Option Account) × Clock) : (Address → Option Account) × Clock :=
  match ledger.1 «from» with
  | none => ledger
  | some payer =>
    let paid := (debit payer (U128.saturatingAdd amount fee)).recordActivity (ledger.2 0)
    match ledger.1 «to» with
    | some payee =>
      (Function.update (Function.update ledger.1 «from» (some paid)) «to»
        (some ((credit payee amount).recordActivity (ledger.2 1))), fun k => ledger.2 (k + 2))
    | none =>
      (Function.update (Function.update ledger.1 «from» (some paid)) «to»
        (some ((credit (Account.new «to» 0 (ledger.2 1)) amount).recordActivity (ledger.2 2))),
        fun k => ledger.2 (k + 3))

/-- What writing the accounts `T` does to the cache and the changes. -/
structure Wrote (T : Address → Prop) (sm sm' : StateManager σ) : Prop where
  stored : LawfulStorage.accountAt sm'.storage = LawfulStorage.accountAt sm.storage
  smt : sm'.smt = sm.smt
  dirty : ∀ a, a ∈ sm'.dirtyAccounts ↔ a ∈ sm.dirtyAccounts ∨ T a
  cache : ∀ a, a ∈ sm'.accountCache ↔ a ∈ sm.accountCache ∨ T a
  account : ∀ a, ¬ T a → sm'.account a = sm.account a
  coherent : Coherent sm → Coherent sm'

theorem coherent_withAccount {sm : StateManager σ} (h : Coherent sm) (a : Address)
    (acc : Account) : Coherent (sm.withAccount a acc) := by
  intro x y hxy
  by_cases hx : x = a
  · subst hx
    rw [withAccount, AList.lookup_insert] at hxy
    rw [beneath, withAccount, AList.lookup_insert, Option.some_or, ← hxy]
  · rw [withAccount, AList.lookup_insert_ne hx] at hxy
    rw [beneath, withAccount, AList.lookup_insert_ne hx]
    exact h x y hxy

/-- Two accounts that were read and are then written. -/
theorem Reads.wrote {a b : Address} {sm sm' : StateManager σ}
    (h : Reads (fun x => x = a ∨ x = b) sm sm') (haccount : sm'.account = sm.account)
    (acc acc' : Account) :
    Wrote (fun x => x = a ∨ x = b) sm ((sm'.withAccount a acc).withAccount b acc') := by
  have hgrow : ∀ x, x ∈ sm.accountCache → x ∈ sm'.accountCache := by
    intro x hx
    rw [← AList.lookup_isSome, h.cached x hx, AList.lookup_isSome]
    exact hx
  refine ⟨h.stored, h.smt, ?_, ?_, ?_, ?_⟩
  · intro x
    simp only [withAccount, AList.mem_insert, h.dirtyAccounts]
    tauto
  · intro x
    simp only [withAccount, AList.mem_insert]
    constructor
    · rintro (hb | ha | hx)
      · exact Or.inr (Or.inr hb)
      · exact Or.inr (Or.inl ha)
      · exact h.cache x hx
    · rintro (hx | ha | hb)
      · exact Or.inr (Or.inr (hgrow x hx))
      · exact Or.inr (Or.inl ha)
      · exact Or.inl hb
  · intro x hx
    rw [not_or] at hx
    rw [account_withAccount, account_withAccount, Function.update_of_ne hx.2,
      Function.update_of_ne hx.1, haccount]
  · intro hc
    exact coherent_withAccount (coherent_withAccount (h.coherent hc) a acc) b acc'

/-- **A transfer that is not refused** writes what `moved` says, whatever is in
the cache. -/
theorem applyTransfer_wrote («from» «to» : Address) (amount fee : U128) (sm : StateManager σ) :
    Post (applyTransfer «from» «to» amount fee) sm fun o sm' => o = .ok () →
      sm'.ledger = moved «from» «to» amount fee sm.ledger ∧
        Wrote (fun a => a = «from» ∨ a = «to») sm sm' := by
  unfold applyTransfer
  have hget := (getAccount_reads «from» sm).and (getAccount_spec «from» sm)
  refine hget.seq ?_ ?_ ?_
  · rintro (_ | fa) sm₁ ⟨hreads₁, hsame₁, hclock₁, hr⟩
    · rintro ⟨⟩
    · simp only [post_ite]
      refine ⟨by rintro - ⟨⟩, fun _ => ?_⟩
      simp only [post_bind, post_now, post_setAccount]
      refine Post.mono (getAccountOrNew_reads «to»
        { sm₁ with clock := fun k => sm₁.clock (k + 1) }) ?_
      rintro (ta | e | _) sm₂ ⟨hreads₂, hacc₂, hta⟩
      · intro _
        have hreads := hreads₁.trans { hreads₂ with }
        have haccount : sm₂.account = sm.account := hacc₂.trans hsame₁.account
        have hlater : Reads (fun x => x = «from» ∨ x = «to») sm
            { sm₂ with clock := fun k => sm₂.clock (k + 1) } := { hreads with }
        refine ⟨?_, hlater.wrote haccount _ _⟩
        have hfrom : sm.account «from» = some fa := hr.symm
        have hview : StateManager.account { sm₂ with clock := fun k => sm₂.clock (k + 1) }
            = sm.account := haccount
        have hclock : ∀ acc acc', (({ sm₂ with clock := fun k => sm₂.clock (k + 1) }).withAccount
            «from» acc |>.withAccount «to» acc').clock = fun k => sm₂.clock (k + 1) :=
          fun _ _ => rfl
        rw [ledger, account_withAccount, account_withAccount, hview, hclock]
        rcases hta ta rfl with ⟨hto, hclock₂⟩ | ⟨hto, hnew, hclock₂⟩
        · rw [← hacc₂, haccount] at hto
          simp only [moved, ledger, hfrom, hto, hclock₂, hclock₁]
        · rw [← hacc₂, haccount] at hto
          simp only [moved, ledger, hfrom, hto, hclock₂, hclock₁, hnew]
      · rintro ⟨⟩
      · rintro ⟨⟩
  · rintro e sm' - ⟨⟩
  · rintro sm' - ⟨⟩

/-- The addresses that the transactions write. -/
def Touched (txs : List Transaction) (a : Address) : Prop :=
  ∃ tx ∈ txs, a = tx.from ∨ a = tx.to

theorem Wrote.refl (sm : StateManager σ) : Wrote (Touched []) sm sm := by
  refine ⟨rfl, rfl, ?_, ?_, fun _ _ => rfl, fun h => h⟩ <;> simp [Touched]

theorem Wrote.trans {T T' T'' : Address → Prop} {sm₁ sm₂ sm₃ : StateManager σ}
    (h : Wrote T sm₁ sm₂) (h' : Wrote T' sm₂ sm₃) (hT : ∀ a, T'' a ↔ T a ∨ T' a) :
    Wrote T'' sm₁ sm₃ := by
  refine ⟨h'.stored.trans h.stored, h'.smt.trans h.smt, ?_, ?_, ?_,
    fun hc => h'.coherent (h.coherent hc)⟩
  · intro a
    rw [h'.dirty, h.dirty, hT, or_assoc]
  · intro a
    rw [h'.cache, h.cache, hT, or_assoc]
  · intro a ha
    rw [hT, not_or] at ha
    rw [h'.account a ha.2, h.account a ha.1]

/-- **The transfers of a block** write what `moved` says, one after the other. -/
theorem Transfers.wrote {txs : List Transaction} {sm sm' : StateManager σ}
    (h : Transfers txs sm sm') :
    sm'.ledger = txs.foldl (fun l tx => moved tx.from tx.to tx.amount tx.fee l) sm.ledger ∧
      Wrote (Touched txs) sm sm' := by
  induction h with
  | nil sm => exact ⟨rfl, Wrote.refl sm⟩
  | @cons tx rest sm₁ sm₂ sm₃ _ _ _ _ hrun _ _ ih =>
      have hstep := applyTransfer_wrote tx.from tx.to tx.amount tx.fee sm₁
      rw [Post, hrun] at hstep
      obtain ⟨hmoved, hwrote⟩ := hstep rfl
      refine ⟨?_, hwrote.trans ih.2 ?_⟩
      · rw [ih.1, List.foldl_cons, hmoved]
      · intro a
        simp [Touched]

/-! ## Accepted blocks -/

variable [Primitives]

/-- After an accepted block the cache is coherent, and everything is stored. -/
theorem Recorded.coherent {block : Block} {mid sm' : StateManager σ} {v : StateVersion}
    (h : Recorded block mid v sm') (hc : Coherent mid) :
    Coherent sm' ∧ ∀ a, LawfulStorage.accountAt sm'.storage a = sm'.account a := by
  have hbeneath : ∀ a, sm'.beneath a = mid.beneath a := by
    intro a
    rw [beneath, h.dirtyAccounts, AList.lookup_empty, Option.none_or, h.stored]
    rfl
  constructor
  · intro a acc hacc
    rw [hbeneath]
    exact hc a acc (by rw [← h.accountCache, hacc])
  · intro a
    rw [h.account, hc.account_eq, h.stored]
    rfl

end StateManager
