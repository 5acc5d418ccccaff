/-
# The two validations of the mempool

The chain of checks is written out twice: `validate_transaction` of `src/mempool/pool.rs`, which
`add_transaction` makes, and `validate` of `src/mempool/validator.rs`.  Both are one chain with
different refusals (`checks`); only the validator looks at the dormancy of the sender at its end.

So both accept the same transactions, but for those of a dormant account that pass the other checks
(`validations_agree_iff`).
-/
import Pacyte.MempoolSelection

open Exec

namespace StateManager

variable {σ : Type} [Storage σ]

/-- An account that was found is found again, and nothing else happens. -/
theorem getAccount_again {a : Address} {sm sm' : StateManager σ} {account : Account}
    (h : getAccount a sm = (.ok (some account), sm')) :
    getAccount a sm' = (.ok (some account), sm') := by
  have hrun := h
  unfold getAccount at h
  rw [run_bind, run_get] at h
  dsimp only at h
  cases hcache : sm.accountCache.lookup a with
  | some cached =>
      rw [hcache] at h
      cases h
      exact hrun
  | none =>
      rw [hcache] at h
      dsimp only at h
      cases hdirty : sm.dirtyAccounts.lookup a with
      | some dirty =>
          rw [hdirty] at h
          cases h
          exact hrun
      | none =>
          rw [hdirty] at h
          dsimp only at h
          rw [run_bind, onStorage, run_onPart] at h
          rcases hread : Storage.getAccount a sm.storage with ⟨(_ | found) | e | _, st⟩
          · rw [hread] at h
            cases h
          · rw [hread] at h
            cases h
            exact getAccount_of_cached (AList.lookup_insert _)
          · rw [hread] at h
            cases h
          · rw [hread] at h
            cases h

end StateManager

namespace MempoolValidator

open StateManager

variable {σ : Type} [Storage σ]

/-! ## What the checks read -/

/-- The balance that the checks know of an account that is found. -/
theorem knownBalance_of_found {a : Address} {sm sm' : StateManager σ} {account : Account}
    (h : getAccount a sm = (.ok (some account), sm')) :
    knownBalance a sm = (.ok account.balance, sm') := by
  have hbalance : getBalance a sm = (.ok account.balance, sm') := by
    unfold getBalance
    rw [run_bind_of_ok h]
    rfl
  unfold knownBalance unwrapOr
  rw [hbalance]

/-- Without an account the balance counts as zero. -/
theorem knownBalance_of_not_found {a : Address} {sm : StateManager σ}
    (h : ∀ account, (getAccount a sm).1 ≠ .ok (some account)) :
    (knownBalance a sm).1 = .ok 0 ∨ (knownBalance a sm).1 = .panic := by
  unfold knownBalance unwrapOr getBalance
  rw [run_bind]
  rcases hrun : getAccount a sm with ⟨(_ | account) | e | _, sm'⟩
  · exact Or.inl rfl
  · rw [hrun] at h
    exact absurd rfl (h account)
  · exact Or.inl rfl
  · exact Or.inr rfl

theorem knownNonce_of_found {a : Address} {sm sm' : StateManager σ} {account : Account}
    (h : getAccount a sm = (.ok (some account), sm')) :
    knownNonce a sm = (.ok account.nonce, sm') := by
  have hnonce : getNonce a sm = (.ok account.nonce, sm') := by
    unfold getNonce
    rw [run_bind_of_ok h]
    rfl
  unfold knownNonce unwrapOr
  rw [hnonce]

/-- The nonce is not below that of the account and at most the gap above it. -/
structure NonceInWindow (config : MempoolConfig) (tx : Transaction) (account : Account) : Prop where
  low : account.nonce ≤ tx.nonce
  fits : account.nonce.toNat + config.maxNonceGap.toNat < 2 ^ 64
  high : tx.nonce.toNat ≤ account.nonce.toNat + config.maxNonceGap.toNat

/-- **The check of the nonce** of an account that is found. -/
theorem checkNonce_of_found (config : MempoolConfig) {tx : Transaction} {sm sm' : StateManager σ}
    {account : Account} (h : getAccount tx.from sm = (.ok (some account), sm')) :
    (NonceInWindow config tx account → checkNonce config tx sm = (.ok .valid, sm')) ∧
      (¬ NonceInWindow config tx account →
        checkNonce config tx sm = (.ok (.invalidNonce account.nonce tx.nonce), sm') ∨
          checkNonce config tx sm = (.panic, sm')) := by
  unfold checkNonce
  rw [run_bind_of_ok (knownNonce_of_found h)]
  by_cases hlow : tx.nonce < account.nonce
  · rw [if_pos hlow]
    exact ⟨fun hwindow => absurd hlow (UInt64.not_lt.mpr hwindow.low), fun _ => Or.inl rfl⟩
  rw [if_neg hlow, run_bind, MempoolImpl.run_addU64]
  by_cases hfits : account.nonce.toNat + config.maxNonceGap.toNat < 2 ^ 64
  · rw [if_pos hfits]
    dsimp only
    have hreach : account.nonce + config.maxNonceGap < tx.nonce ↔
        ¬ tx.nonce.toNat ≤ account.nonce.toNat + config.maxNonceGap.toNat := by
      rw [UInt64.lt_iff_toNat_lt, toNat_add_of_fits hfits, not_le]
    by_cases hhigh : tx.nonce.toNat ≤ account.nonce.toNat + config.maxNonceGap.toNat
    · rw [if_neg fun hlt => hreach.mp hlt hhigh]
      exact ⟨fun _ => rfl, fun hnot => absurd ⟨UInt64.not_lt.mp hlow, hfits, hhigh⟩ hnot⟩
    · rw [if_pos (hreach.mpr hhigh)]
      exact ⟨fun hwindow => absurd hwindow.high hhigh, fun _ => Or.inl rfl⟩
  · rw [if_neg hfits]
    exact ⟨fun hwindow => absurd hwindow.fits hfits, fun _ => Or.inr rfl⟩

/-! ## The chain -/

/-- The check that refuses a transaction. -/
inductive Refusal : Type where
  | basic
  | signature
  | balance
  | nonce (result : TxValidationResult)
  | fee

variable [Primitives] [Verifiers] {α : Type}

/-- The chain of checks, with what is done at its end and what a refusal leads to. -/
def checks (config : MempoolConfig) (tx : Transaction) (accept : Exec PacyteError (StateManager σ) α)
    (refuse : Refusal → Exec PacyteError (StateManager σ) α) :
    Exec PacyteError (StateManager σ) α := do
  if ← StateManager.onClock (tx.validateBasic config.maxTxAgeSecs) then
    if verifySignature tx then
      if ← checkBalance tx then
        let nonceResult ← checkNonce config tx
        if nonceResult.isValid then
          if checkFee config tx then accept
          else refuse .fee
        else refuse (.nonce nonceResult)
      else refuse .balance
    else refuse .signature
  else refuse .basic

/-- What the pool does with a refusal. -/
def poolRefusal : Refusal → Exec PacyteError (StateManager σ) (Option String)
  | .basic => return some "Basic validation failed"
  | .signature => return some "Invalid signature"
  | .balance => return some "Insufficient balance"
  | .nonce result => return some result.errorMessage
  | .fee => return some "Fee too low"

/-- What the validator does with a refusal. -/
def validatorRefusal (config : MempoolConfig) (tx : Transaction) :
    Refusal → Exec PacyteError (StateManager σ) TxValidationResult
  | .basic => return .other "Basic validation failed"
  | .signature => return .invalidSignature
  | .balance => do
    let balance ← knownBalance tx.from
    return .insufficientBalance tx.totalCost balance
  | .nonce result => return result
  | .fee => do
    let required ← minFee config tx
    return .feeTooLow tx.fee required

/-- The pool's validation is the chain. -/
theorem validateTransaction_eq (config : MempoolConfig) (tx : Transaction) :
    MempoolImpl.validateTransaction config tx =
      (checks config tx (pure none) poolRefusal :
        Exec PacyteError (StateManager σ) (Option String)) := rfl

/-- The validator's is the chain with the check for dormancy at its end. -/
theorem validate_eq (config : MempoolConfig) (tx : Transaction) :
    validate config tx =
      (checks config tx (checkDormancy tx) (validatorRefusal config tx) :
        Exec PacyteError (StateManager σ) TxValidationResult) := rfl

/-- The transaction passes the chain, with this account for its sender. -/
structure Admissible (config : MempoolConfig) (tx : Transaction) (sm : StateManager σ)
    (account : Account) : Prop where
  basic : (tx.validateBasic config.maxTxAgeSecs sm.clock).1 = .ok true
  signature : verifySignature tx = true
  found : (getAccount tx.from sm).1 = .ok (some account)
  funds : tx.totalCost ≤ account.balance
  nonce : NonceInWindow config tx account
  fee : checkFee config tx = true

/-- How a chain of checks ends. -/
inductive ChecksEnd (config : MempoolConfig) (tx : Transaction)
    (accept : Exec PacyteError (StateManager σ) α)
    (refuse : Refusal → Exec PacyteError (StateManager σ) α) (sm : StateManager σ) :
    Outcome PacyteError α × StateManager σ → Prop
  | accepted (account : Account) (sm' : StateManager σ) : Admissible config tx sm account →
      getAccount tx.from sm' = (.ok (some account), sm') →
      ChecksEnd config tx accept refuse sm (accept sm')
  | refused (refusal : Refusal) (sm' : StateManager σ) :
      (∀ account, ¬ Admissible config tx sm account) → refusal ≠ .nonce .valid →
      ChecksEnd config tx accept refuse sm (refuse refusal sm')
  | failed (o : Outcome PacyteError α) (sm' : StateManager σ) :
      (∀ account, ¬ Admissible config tx sm account) → ¬ o.IsOk →
      ChecksEnd config tx accept refuse sm (o, sm')

omit [Primitives] [Verifiers] in
/-- A check of the balance that passes has found the account. -/
theorem checkBalance_cases {tx : Transaction} (hamount : tx.amount ≠ 0) (sm : StateManager σ) :
    (∃ account sm', getAccount tx.from sm = (.ok (some account), sm') ∧
      checkBalance tx sm = (.ok (decide (tx.totalCost ≤ account.balance)), sm')) ∨
    (∀ account, (getAccount tx.from sm).1 ≠ .ok (some account)) ∧
      ((checkBalance tx sm).1 = .ok false ∨ (checkBalance tx sm).1 = .panic) := by
  by_cases hfound : ∃ account, (getAccount tx.from sm).1 = .ok (some account)
  · obtain ⟨account, haccount⟩ := hfound
    have hrun : getAccount tx.from sm = (.ok (some account), (getAccount tx.from sm).2) :=
      Prod.ext haccount rfl
    refine Or.inl ⟨account, _, hrun, ?_⟩
    unfold checkBalance
    rw [run_bind_of_ok (knownBalance_of_found hrun)]
    rfl
  · rw [not_exists] at hfound
    refine Or.inr ⟨hfound, ?_⟩
    have hcost : ¬ tx.totalCost ≤ 0 := by
      have hpos : tx.amount.toNat ≠ 0 := fun h => hamount (BitVec.eq_of_toNat_eq h)
      have htotal : tx.totalCost.toNat = min (tx.amount.toNat + tx.fee.toNat) maxU128 :=
        U128.toNat_saturatingAdd tx.amount tx.fee
      have hmax : 0 < maxU128 := by decide
      have hzero : (0 : U128).toNat = 0 := rfl
      rw [BitVec.le_def]
      omega
    unfold checkBalance
    rw [run_bind]
    rcases hknown : knownBalance tx.from sm with ⟨balance | e | _, sm'⟩
    · rcases knownBalance_of_not_found hfound with h | h
      · rw [hknown] at h
        cases h
        exact Or.inl (congrArg Outcome.ok (decide_eq_false hcost))
      · rw [hknown] at h
        cases h
    · rcases knownBalance_of_not_found hfound with h | h
      · rw [hknown] at h
        cases h
      · rw [hknown] at h
        cases h
    · exact Or.inr rfl

/-- **The chain of checks** ends with the acceptance exactly for an admissible transaction. -/
theorem checks_end (config : MempoolConfig) (tx : Transaction)
    (accept : Exec PacyteError (StateManager σ) α)
    (refuse : Refusal → Exec PacyteError (StateManager σ) α) (sm : StateManager σ) :
    ChecksEnd config tx accept refuse sm (checks config tx accept refuse sm) := by
  have hwellFormed := MempoolImpl.validateBasic_wellFormed tx config.maxTxAgeSecs sm.clock
  unfold checks
  rw [run_bind, onClock, run_onPart]
  rw [Post] at hwellFormed
  rcases hbasic : tx.validateBasic config.maxTxAgeSecs sm.clock with ⟨(_ | _) | e | _, clock⟩
  · refine .refused .basic _ (fun account h => ?_) (by rintro ⟨⟩)
    have hpassed := h.basic
    rw [hbasic] at hpassed
    cases hpassed
  · rw [hbasic] at hwellFormed
    obtain ⟨-, hamount⟩ := hwellFormed rfl
    dsimp only
    rw [if_pos rfl]
    by_cases hsignature : verifySignature tx
    · rw [if_pos hsignature]
      have hclock := getAccount_clock tx.from sm clock
      have hfirst : ∀ account, (getAccount tx.from { sm with clock := clock }).1 =
          .ok (some account) ↔ (getAccount tx.from sm).1 = .ok (some account) := by
        intro account
        rw [hclock]
      rcases checkBalance_cases hamount { sm with clock := clock } with
        ⟨account, sm', hrun, hcheck⟩ | ⟨hnone, hcheck⟩
      · have hfound : (getAccount tx.from sm).1 = .ok (some account) := by
          rw [← hfirst, hrun]
        have honly : ∀ account', Admissible config tx sm account' → account' = account := by
          intro account' h
          have heq := hfound.symm.trans h.found
          cases heq
          rfl
        have hagain := getAccount_again hrun
        rw [run_bind_of_ok hcheck]
        by_cases hfunds : tx.totalCost ≤ account.balance
        · rw [decide_eq_true hfunds, if_pos rfl]
          obtain ⟨hvalid, hinvalid⟩ := checkNonce_of_found config hagain
          by_cases hnonce : NonceInWindow config tx account
          · rw [run_bind_of_ok (hvalid hnonce), if_pos (show TxValidationResult.valid.isValid from rfl)]
            by_cases hfee : checkFee config tx
            · rw [if_pos hfee]
              exact .accepted account sm' ⟨by rw [hbasic], hsignature, hfound, hfunds, hnonce,
                hfee⟩ hagain
            · rw [if_neg hfee]
              exact .refused .fee sm' (fun _ h => hfee h.fee) (by rintro ⟨⟩)
          · have hnot : ∀ account', ¬ Admissible config tx sm account' := by
              intro account' h
              rw [honly account' h] at h
              exact hnonce h.nonce
            rcases hinvalid hnonce with hresult | hpanic
            · rw [run_bind_of_ok hresult, if_neg (show
                ¬ (TxValidationResult.invalidNonce account.nonce tx.nonce).isValid from Bool.false_ne_true)]
              exact .refused (.nonce _) sm' hnot (by rintro ⟨⟩)
            · rw [run_bind_of_panic hpanic]
              exact .failed _ _ hnot id
        · rw [decide_eq_false hfunds, if_neg Bool.false_ne_true]
          refine .refused .balance sm' (fun account' h => ?_) (by rintro ⟨⟩)
          rw [honly account' h] at h
          exact hfunds h.funds
      · have hnot : ∀ account', ¬ Admissible config tx sm account' := fun account' h =>
          hnone account' ((hfirst account').mpr h.found)
        rw [run_bind]
        rcases hrun : checkBalance tx { sm with clock := clock } with ⟨passed | e | _, sm'⟩
        · rw [hrun] at hcheck
          rcases hcheck with h | h
          · cases h
            exact .refused .balance sm' hnot (by rintro ⟨⟩)
          · cases h
        · exact .failed _ _ hnot id
        · exact .failed _ _ hnot id
    · rw [if_neg hsignature]
      exact .refused .signature _ (fun _ h => hsignature h.signature) (by rintro ⟨⟩)
  · refine .failed _ _ (fun account h => ?_) id
    have hpassed := h.basic
    rw [hbasic] at hpassed
    cases hpassed
  · refine .failed _ _ (fun account h => ?_) id
    have hpassed := h.basic
    rw [hbasic] at hpassed
    cases hpassed

/-! ## The two validations -/

/-- The pool accepts the admissible transactions. -/
theorem validateTransaction_iff (config : MempoolConfig) (tx : Transaction)
    (sm : StateManager σ) :
    (MempoolImpl.validateTransaction config tx sm).1 = .ok none ↔
      ∃ account, Admissible config tx sm account := by
  have hend := checks_end config tx (pure none) poolRefusal sm
  rw [validateTransaction_eq]
  generalize checks config tx (pure none) poolRefusal sm = run at hend ⊢
  cases hend with
  | accepted account sm' hadmissible => exact iff_of_true rfl ⟨account, hadmissible⟩
  | refused refusal sm' hnot =>
      refine iff_of_false (fun h => ?_) (not_exists.mpr hnot)
      cases refusal <;> cases h
  | failed o sm' hnot hfails =>
      refine iff_of_false (fun h => hfails ?_) (not_exists.mpr hnot)
      have ho : o = .ok none := h
      rw [ho]
      trivial

/-- The validator accepts those whose sender's account is not dormant. -/
theorem validate_iff (config : MempoolConfig) (tx : Transaction) (sm : StateManager σ) :
    (validate config tx sm).1 = .ok .valid ↔
      ∃ account, Admissible config tx sm account ∧ account.isDormant = false := by
  have hend := checks_end config tx (checkDormancy tx) (validatorRefusal config tx) sm
  rw [validate_eq]
  generalize checks config tx (checkDormancy tx) (validatorRefusal config tx) sm = run at hend ⊢
  cases hend with
  | accepted account sm' hadmissible hagain =>
      have honly : ∀ account', Admissible config tx sm account' → account' = account := by
        intro account' h
        have heq := hadmissible.found.symm.trans h.found
        cases heq
        rfl
      have hrun : (checkDormancy tx sm').1 =
          .ok (if account.isDormant then .accountDormant 6 else .valid) := by
        unfold checkDormancy
        rw [hagain]
      rw [hrun]
      cases hdormant : account.isDormant with
      | false => exact iff_of_true rfl ⟨account, hadmissible, hdormant⟩
      | true =>
          refine iff_of_false nofun fun ⟨account', h, hactive⟩ => ?_
          rw [honly account' h, hdormant] at hactive
          cases hactive
  | refused refusal sm' hnot hproper =>
      refine iff_of_false (fun h => ?_) fun ⟨account, h, _⟩ => hnot account h
      cases refusal with
      | basic => cases h
      | signature => cases h
      | balance =>
          change ((knownBalance tx.from >>= fun balance =>
            pure (TxValidationResult.insufficientBalance tx.totalCost balance)) sm').1 = _ at h
          rw [run_bind] at h
          rcases hrun : knownBalance tx.from sm' with ⟨balance | e | _, sm''⟩
          · rw [hrun] at h
            cases h
          · rw [hrun] at h
            cases h
          · rw [hrun] at h
            cases h
      | nonce result =>
          have hresult : result = .valid := Outcome.ok.inj h
          exact hproper (congrArg Refusal.nonce hresult)
      | fee =>
          change ((minFee config tx >>= fun required =>
            pure (TxValidationResult.feeTooLow tx.fee required)) sm').1 = _ at h
          rw [run_bind] at h
          rcases hrun : minFee config tx sm' with ⟨required | e | _, sm''⟩
          · rw [hrun] at h
            cases h
          · rw [hrun] at h
            cases h
          · rw [hrun] at h
            cases h
  | failed o sm' hnot hfails =>
      refine iff_of_false (fun h => hfails ?_) fun ⟨account, h, _⟩ => hnot account h
      have ho : o = .ok .valid := h
      rw [ho]
      trivial

/-- Both validations accept the transaction, or neither does. -/
def ValidationsAgree (config : MempoolConfig) (tx : Transaction) (sm : StateManager σ) : Prop :=
  (MempoolImpl.validateTransaction config tx sm).1 = .ok none ↔
    (validate config tx sm).1 = .ok .valid

/-- **When the two validations agree**: unless the transaction is admissible and its sender's
account is dormant. -/
theorem validations_agree_iff (config : MempoolConfig) (tx : Transaction) (sm : StateManager σ) :
    ValidationsAgree config tx sm ↔
      ∀ account, Admissible config tx sm account → account.isDormant = false := by
  unfold ValidationsAgree
  rw [validateTransaction_iff, validate_iff]
  constructor
  · intro hagree account h
    obtain ⟨account', h', hactive⟩ := hagree.mp ⟨account, h⟩
    have heq := h.found.symm.trans h'.found
    cases heq
    exact hactive
  · intro hactive
    constructor
    · rintro ⟨account, h⟩
      exact ⟨account, h, hactive account h⟩
    · rintro ⟨account, h, -⟩
      exact ⟨account, h⟩

end MempoolValidator

/-! ## A dormant sender -/

section Example

open scoped Sample

open MempoolValidator

/-- A state manager with one account, which is dormant. -/
def dormantState : StateManager MemoryStorage :=
  (sampleState [(sampleAddress 1, 5000)]).withAccount (sampleAddress 1)
    { Account.new (sampleAddress 1) 5000 0 with isDormant := true }

/-- The pool accepts what the validator refuses. -/
theorem dormant_sender_pooled :
    (MempoolImpl.validateTransaction Sample.poolConfig (Sample.signedTransfer 1 2 10 1000 0)
        dormantState).1 = .ok none ∧
      (validate Sample.poolConfig (Sample.signedTransfer 1 2 10 1000 0) dormantState).1 =
        .ok (.accountDormant 6) ∧
      ¬ ValidationsAgree Sample.poolConfig (Sample.signedTransfer 1 2 10 1000 0) dormantState := by
  have hpool : (MempoolImpl.validateTransaction Sample.poolConfig
      (Sample.signedTransfer 1 2 10 1000 0) dormantState).1 = .ok none := by decide +kernel
  have hvalidator : (validate Sample.poolConfig (Sample.signedTransfer 1 2 10 1000 0)
      dormantState).1 = .ok (.accountDormant 6) := by decide +kernel
  refine ⟨hpool, hvalidator, fun hagree => ?_⟩
  have hvalid := hagree.mp hpool
  rw [hvalidator] at hvalid
  cases hvalid

end Example
