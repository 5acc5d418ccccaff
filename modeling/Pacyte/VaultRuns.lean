/-
# Runs of the vault

The calls `transfer`, `distribute_fees` and `burn` of `src/vault/manager.rs` one after the
other, with exact rates.

* `DistributeEnd` lists the ways in which a distribution of fees can end.
* `VaultCall` are the calls, `Runs.run` lets them follow each other; a call that fails or
  panics leaves behind what it has written.
* `Ledger` is the invariant: the supply and what was burned add up to the cap.
* `Spares` is the condition under which a call does not take the supply below the last
  phase.  The supply that a burn leaves is not compared with it.
-/
import Pacyte.VaultTransfers
import Pacyte.Runs

open Locks Exec

namespace VaultManager

open StateManager FloatOps

variable {σ : Type}

/-! ## Burning -/

section Burn

/-- **A burn** is refused without a trace, or the supply goes down by the amount. -/
theorem burn_spec (amount : U128) (vm : VaultManager σ) :
    Post (burn amount) vm fun o vm' =>
      (vm'.stateManager = vm.stateManager ∧
        vm'.totalFeesCollected = vm.totalFeesCollected ∧ vm'.totalTransfers = vm.totalTransfers) ∧
      (vm.guards.held = [] → vm'.guards = vm.guards) ∧
        match o with
        | .ok () => amount.toNat ≤ vm.totalSupply.toNat ∧
            vm.totalBurned.toNat + amount.toNat < 2 ^ 128 ∧ Burned vm vm' amount
        | .err _ => vm.totalSupply.toNat < amount.toNat ∧
            vm'.totalSupply = vm.totalSupply ∧ vm'.totalBurned = vm.totalBurned
        | .panic => amount.toNat ≤ vm.totalSupply.toNat ∧
            ¬ vm.totalBurned.toNat + amount.toNat < 2 ^ 128 := by
  unfold burn
  rw [post_ite]
  constructor
  · rintro rfl
    refine ⟨⟨rfl, rfl, rfl⟩, fun _ => rfl, Nat.zero_le _, vm.totalBurned.isLt, ?_, rfl⟩
    apply BitVec.eq_of_toNat_eq
    rw [U128.toNat_saturatingSub]
    rfl
  · intro hne
    have hguards : ∀ (clash : Bool), vm.guards.held = [] →
        clash = vm.guards.clash → (⟨vm.guards.held, clash⟩ : Guards VaultLock) = vm.guards := by
      rintro clash - rfl
      rfl
    have hacquired : vm.guards.held = [] →
        ((vm.guards.acquire .totalSupply .write).touch .totalBurned .write).clash =
          vm.guards.clash := by
      intro hidle
      simp [Guards.touch, Guards.acquire, Guards.blocks, hidle]
    have hfree : vm.guards.held = [] →
        (vm.guards.acquire .totalSupply .write).clash = vm.guards.clash := by
      intro hidle
      simp [Guards.acquire, Guards.blocks, hidle]
    unfold locked
    rw [Post, run_guarded]
    simp only [run_bind, run_get]
    split_ifs with hless
    · exact ⟨⟨rfl, rfl, rfl⟩, fun hidle => hguards _ hidle (hfree hidle),
        BitVec.lt_def.mp hless, rfl, rfl⟩
    · rw [BitVec.not_lt, BitVec.le_def] at hless
      simp only [run_bind, run_modify, countBurned_run]
      split_ifs with hfits
      · refine ⟨⟨rfl, rfl, rfl⟩, fun hidle => hguards _ hidle (hacquired hidle), hless, hfits, ?_, ?_⟩
        · exact (if_pos hless).symm
        · change (vm.totalBurned + amount).toNat = _
          rw [BitVec.toNat_add]
          exact Nat.mod_eq_of_lt hfits
      · exact ⟨⟨rfl, rfl, rfl⟩, fun hidle => hguards _ hidle (hacquired hidle), hless, hfits⟩

end Burn

/-! ## Distributing fees -/

section Distribute

/-- Two programs that run alike satisfy the same postconditions. -/
theorem post_of_eq {ε τ α : Type} {m n : Exec ε τ α} {s t : τ}
    {Q : Outcome ε α → τ → Prop} (h : m s = n t) (hn : Post n t Q) : Post m s Q := by
  unfold Post
  rw [h]
  exact hn

/-- The part of a fee that goes to the nodes when it is distributed. -/
def nodeShare (F : Type) [FloatOps F] (supply fee : U128) : U128 :=
  toU128 (ofU128 fee * (SupplyPhase.nodeValue supply : F))

theorem burnCollected_eq (burned : U128) :
    (burnCollected burned : Exec PacyteError (VaultManager σ) Unit) = burn burned := by
  unfold burnCollected
  by_cases hpos : 0 < burned
  · rw [if_pos hpos]
  · have hzero : burned = 0 := by
      apply BitVec.eq_of_toNat_eq
      rw [BitVec.lt_def] at hpos
      exact Nat.eq_zero_of_not_pos hpos
    rw [if_neg hpos, burn, if_pos hzero]

variable [LawfulStorage σ] (F : Type) [FloatOps F]

/-- The rates of a distribution are computed of one supply. -/
theorem distributeFees_rates (fee : U128) (vm : VaultManager σ) :
    distributeFees F fee vm =
      if vm.totalSupply.toNat ≤ totalSupplyCap.toNat then
        (do
          burn (burnShare F vm.totalSupply fee)
          onState (creditGenesis (U128.saturatingSub
            (U128.saturatingSub fee (burnShare F vm.totalSupply fee))
            (nodeShare F vm.totalSupply fee)))
          return ⟨fee, burnShare F vm.totalSupply fee, nodeShare F vm.totalSupply fee,
            U128.saturatingSub (U128.saturatingSub fee (burnShare F vm.totalSupply fee))
              (nodeShare F vm.totalSupply fee), SupplyPhase.fromSupply vm.totalSupply⟩
          : Exec PacyteError (VaultManager σ) FeeDistribution)
          (vm.withGuards (vm.guards.touch .totalSupply .read))
      else (.panic, vm.withGuards (vm.guards.touch .totalSupply .read)) := by
  have hread : ∀ (g : Guards VaultLock) {β : Type} {f : U128 → Exec PacyteError (VaultManager σ) β}
      {o : Outcome PacyteError β}, (∀ s, f vm.totalSupply s = (o, s)) →
      withSupply f (vm.withGuards g) = (o, vm.withGuards (g.touch .totalSupply .read)) :=
    fun g _ _ _ h => withSupply_run h
  have htwice := Guards.touch_touch vm.guards VaultLock.totalSupply .read
  unfold distributeFees
  rw [run_bind_of_ok (currentPhase_run vm)]
  split_ifs with hcap
  · rw [run_bind_of_ok (hread _ fun s =>
        congrFun (SupplyPhase.burnRate_of_le (F := F) (ε := PacyteError) hcap) s), htwice,
      run_bind_of_ok (hread _ fun s =>
        congrFun (SupplyPhase.nodeRate_of_le (F := F) (ε := PacyteError) hcap) s), htwice,
      run_bind_of_ok (hread _ fun s =>
        congrFun (SupplyPhase.genesisRate_of_le (F := F) (ε := PacyteError) hcap) s), htwice]
    rw [burnCollected_eq]
    rfl
  · rw [run_bind_of_panic (hread _ fun s =>
        SupplyPhase.burnRate_of_gt (F := F) (ε := PacyteError) hcap s), htwice]

/-- What a distribution does to the supply and to the counter of what was burned. -/
inductive DistributeEnd (fee : U128) (vm vm' : VaultManager σ) :
    Outcome PacyteError FeeDistribution → Prop
  | overCap : ¬ vm.totalSupply.toNat ≤ totalSupplyCap.toNat →
      vm'.totalSupply = vm.totalSupply → vm'.totalBurned = vm.totalBurned →
      DistributeEnd fee vm vm' .panic
  | refused {e : PacyteError} : vm.totalSupply.toNat ≤ totalSupplyCap.toNat →
      vm.totalSupply.toNat < (burnShare F vm.totalSupply fee).toNat →
      vm'.totalSupply = vm.totalSupply → vm'.totalBurned = vm.totalBurned →
      DistributeEnd fee vm vm' (.err e)
  | burnedOverflow : vm.totalSupply.toNat ≤ totalSupplyCap.toNat →
      (burnShare F vm.totalSupply fee).toNat ≤ vm.totalSupply.toNat →
      ¬ vm.totalBurned.toNat + (burnShare F vm.totalSupply fee).toNat < 2 ^ 128 →
      DistributeEnd fee vm vm' .panic
  | genesisUnread {e : PacyteError} : vm.totalSupply.toNat ≤ totalSupplyCap.toNat →
      (burnShare F vm.totalSupply fee).toNat ≤ vm.totalSupply.toNat →
      Burned vm vm' (burnShare F vm.totalSupply fee) → DistributeEnd fee vm vm' (.err e)
  | done : vm.totalSupply.toNat ≤ totalSupplyCap.toNat →
      (burnShare F vm.totalSupply fee).toNat ≤ vm.totalSupply.toNat →
      Burned vm vm' (burnShare F vm.totalSupply fee) →
      DistributeEnd fee vm vm' (.ok ⟨fee, burnShare F vm.totalSupply fee,
        nodeShare F vm.totalSupply fee,
        U128.saturatingSub (U128.saturatingSub fee (burnShare F vm.totalSupply fee))
          (nodeShare F vm.totalSupply fee), SupplyPhase.fromSupply vm.totalSupply⟩)

/-- **How a distribution ends.**  It meets no lock that it holds. -/
theorem distributeFees_spec (fee : U128) (vm : VaultManager σ) :
    Post (distributeFees F fee) vm fun o vm' =>
      (vm.guards.held = [] → vm'.guards = vm.guards) ∧ DistributeEnd F fee vm vm' o := by
  have hrun := distributeFees_rates F fee vm
  split_ifs at hrun with hcap
  · apply post_of_eq hrun
    refine (burn_spec (burnShare F vm.totalSupply fee)
      (vm.withGuards (vm.guards.touch .totalSupply .read))).seq ?_ ?_ ?_
    · rintro ⟨⟩ vm₁ ⟨-, hguards, hle, -, hburned⟩
      rw [post_bind, post_onState]
      refine Post.mono (creditGenesis_spec _ vm₁.stateManager) ?_
      have hidle : vm.guards.held = [] → vm₁.guards = vm.guards := by
        intro hidle
        have htouch := touch_of_idle hidle .totalSupply .read
        exact (hguards (by rw [htouch]; exact hidle)).trans htouch
      rintro (⟨⟩ | e | _) sm₂ hcredit
      · exact ⟨hidle, DistributeEnd.done hcap hle ⟨hburned.supply, hburned.counted⟩⟩
      · exact ⟨hidle, DistributeEnd.genesisUnread hcap hle ⟨hburned.supply, hburned.counted⟩⟩
      · exact hcredit.elim
    · rintro e vm₁ ⟨-, hguards, hless, hsupply, hcounted⟩
      refine ⟨fun hidle => ?_, DistributeEnd.refused hcap hless hsupply hcounted⟩
      have htouch := touch_of_idle hidle .totalSupply .read
      exact (hguards (by rw [htouch]; exact hidle)).trans htouch
    · rintro vm₁ ⟨-, hguards, hle, hfull⟩
      refine ⟨fun hidle => ?_, DistributeEnd.burnedOverflow hcap hle hfull⟩
      have htouch := touch_of_idle hidle .totalSupply .read
      exact (hguards (by rw [htouch]; exact hidle)).trans htouch
  · rw [Post, hrun]
    exact ⟨fun hidle => touch_of_idle hidle _ _, DistributeEnd.overCap hcap rfl rfl⟩

end Distribute

/-! ## Exact shares -/

section Shares

/-- A share of a fee by an exact rate. -/
theorem toNat_share {rate : ℚ} (h₁ : rate ≤ 1) (fee : U128) :
    (toU128 (ofU128 fee * rate) : U128).toNat = ⌊(fee.toNat : ℚ) * rate⌋₊ ∧
      ⌊(fee.toNat : ℚ) * rate⌋₊ ≤ fee.toNat := by
  have hle : ⌊(fee.toNat : ℚ) * rate⌋₊ ≤ fee.toNat := by
    refine Nat.floor_le_of_le ?_
    have hfee : (0 : ℚ) ≤ fee.toNat := Nat.cast_nonneg _
    nlinarith
  exact ⟨SupplyPhase.toNat_toU128 (lt_of_le_of_lt hle fee.isLt), hle⟩

/-- The burned share with exact rates. -/
theorem toNat_burnShare {supply : U128} (h : supply.toNat ≤ totalSupplyCap.toNat) (fee : U128) :
    (burnShare ℚ supply fee).toNat = ⌊(fee.toNat : ℚ) * SupplyPhase.exactBurn supply⌋₊ ∧
      ⌊(fee.toNat : ℚ) * SupplyPhase.exactBurn supply⌋₊ ≤ fee.toNat := by
  unfold burnShare
  rw [SupplyPhase.burnValue_eq h]
  have hrate := SupplyPhase.exactBurn_le supply
  exact toNat_share (by linarith) fee

/-- The share of the nodes with exact rates. -/
theorem toNat_nodeShare {supply : U128} (h : supply.toNat ≤ totalSupplyCap.toNat) (fee : U128) :
    (nodeShare ℚ supply fee).toNat = ⌊(fee.toNat : ℚ) * SupplyPhase.exactNode supply⌋₊ ∧
      ⌊(fee.toNat : ℚ) * SupplyPhase.exactNode supply⌋₊ ≤ fee.toNat := by
  unfold nodeShare
  rw [SupplyPhase.nodeValue_eq h]
  exact toNat_share (SupplyPhase.exactNode_mem supply).2 fee

end Shares

/-! ## Complete distributions -/

section Complete

variable [LawfulStorage σ]

/-- The parts of a fee add up to the fee, and none is larger. -/
structure Complete (fee : U128) (d : FeeDistribution) : Prop where
  total : d.burned.toNat + d.toValidators.toNat + d.toGenesis.toNat = fee.toNat
  burned : d.burned.toNat ≤ fee.toNat
  toValidators : d.toValidators.toNat ≤ fee.toNat
  toGenesis : d.toGenesis.toNat ≤ fee.toNat

/-- A distribution is complete if and only if the two products fit into the fee. -/
theorem complete_iff {fee : U128} {vm : VaultManager σ} {d : FeeDistribution}
    (h : (distributeFees ℚ fee vm).1 = .ok d) :
    Complete fee d ↔ ⌊(fee.toNat : ℚ) * SupplyPhase.exactBurn vm.totalSupply⌋₊ +
      ⌊(fee.toNat : ℚ) * SupplyPhase.exactNode vm.totalSupply⌋₊ ≤ fee.toNat := by
  have hend := (distributeFees_spec ℚ fee vm).2
  rw [h] at hend
  cases hend with
  | done hcap hle hburned =>
      obtain ⟨hb, hble⟩ := toNat_burnShare hcap fee
      obtain ⟨hn, hnle⟩ := toNat_nodeShare hcap fee
      constructor
      · rintro ⟨htotal, -, -, -⟩
        dsimp only at htotal
        rw [U128.toNat_saturatingSub, U128.toNat_saturatingSub, hb, hn] at htotal
        omega
      · intro hfits
        refine ⟨?_, ?_, ?_, ?_⟩
        · dsimp only
          rw [U128.toNat_saturatingSub, U128.toNat_saturatingSub, hb, hn]
          omega
        · exact hb ▸ hble
        · exact hn ▸ hnle
        · dsimp only
          rw [U128.toNat_saturatingSub, U128.toNat_saturatingSub]
          omega

/-- Two shares of a whole fit into it. -/
theorem shares_fit {supply : U128} (h : SupplyPhase.AreShares (SupplyPhase.exactBurn supply)
    (SupplyPhase.exactNode supply) (SupplyPhase.exactGenesis supply)) (fee : U128) :
    ⌊(fee.toNat : ℚ) * SupplyPhase.exactBurn supply⌋₊ +
      ⌊(fee.toNat : ℚ) * SupplyPhase.exactNode supply⌋₊ ≤ fee.toNat := by
  have hfee : (0 : ℚ) ≤ fee.toNat := Nat.cast_nonneg _
  have hburn := Nat.floor_le (mul_nonneg hfee h.burn.1)
  have hnode := Nat.floor_le (mul_nonneg hfee h.node.1)
  have htotal := h.total
  have hgenesis := mul_nonneg hfee h.genesis.1
  have hsum : ((⌊(fee.toNat : ℚ) * SupplyPhase.exactBurn supply⌋₊ +
      ⌊(fee.toNat : ℚ) * SupplyPhase.exactNode supply⌋₊ : ℕ) : ℚ) ≤ fee.toNat := by
    push_cast
    calc _ ≤ (fee.toNat : ℚ) * SupplyPhase.exactBurn supply +
          (fee.toNat : ℚ) * SupplyPhase.exactNode supply := add_le_add hburn hnode
      _ = (fee.toNat : ℚ) * (1 - SupplyPhase.exactGenesis supply) := by
          rw [← htotal]
          ring
      _ ≤ fee.toNat := by linarith
  exact_mod_cast hsum

/-- **Fees are split completely outside the lower part of the first phase.**  The rates are
shares, and every distribution of fees is complete, if and only if the supply is not between
400 and 530 millions.  One distribution is complete if and only if the two products fit into
the fee. -/
theorem fees_split_iff {vm : VaultManager σ} (h : vm.totalSupply.toNat ≤ totalSupplyCap.toNat) :
    (SupplyPhase.RatesAreShares vm.totalSupply ∧
        (∀ fee d, (distributeFees ℚ fee vm).1 = .ok d → Complete fee d) ↔
      vm.totalSupply.toNat ≤ 400000000000000 ∨ 530000000000000 ≤ vm.totalSupply.toNat) ∧
    ∀ fee d, (distributeFees ℚ fee vm).1 = .ok d →
      (Complete fee d ↔ ⌊(fee.toNat : ℚ) * SupplyPhase.exactBurn vm.totalSupply⌋₊ +
        ⌊(fee.toNat : ℚ) * SupplyPhase.exactNode vm.totalSupply⌋₊ ≤ fee.toNat) := by
  refine ⟨?_, fun fee d hd => complete_iff hd⟩
  rw [SupplyPhase.ratesAreShares_iff h, ← SupplyPhase.rates_areShares_iff h]
  constructor
  · intro hsplit
    exact hsplit.1
  · intro hshares
    exact ⟨hshares, fun fee d hd => (complete_iff hd).mpr (shares_fit hshares fee)⟩

end Complete

/-! ## Calls one after the other -/

/-- The calls that change the supply. -/
inductive VaultCall : Type where
  | transfer («from» «to» : Address) (amount fee : U128)
  | distributeFees (totalFee : U128)
  | burn (amount : U128)
  deriving DecidableEq, Repr

/-- The fee that a call is about. -/
def VaultCall.fee : VaultCall → U128
  | .transfer _ _ _ fee => fee
  | .distributeFees totalFee => totalFee
  | .burn _ => 0

section Calls

variable [LawfulStorage σ]

/-- What a call leaves behind, however it ends.  The rates are exact. -/
def step (call : VaultCall) (vm : VaultManager σ) : VaultManager σ :=
  match call with
  | .transfer «from» «to» amount fee => (transfer ℚ «from» «to» amount fee vm).2
  | .distributeFees totalFee => (distributeFees ℚ totalFee vm).2
  | .burn amount => (burn amount vm).2

/-- The fee of a call is at most the current supply. -/
def FeeWithin (vm : VaultManager σ) (call : VaultCall) : Prop :=
  call.fee.toNat ≤ vm.totalSupply.toNat

/-- The supply and what was burned add up to the cap, and no guard is held. -/
structure Ledger (vm : VaultManager σ) : Prop where
  total : vm.totalSupply.toNat + vm.totalBurned.toNat = totalSupplyCap.toNat
  idle : vm.guards.held = []

omit [LawfulStorage σ] in
theorem Ledger.cap {vm : VaultManager σ} (h : Ledger vm) :
    vm.totalSupply.toNat ≤ totalSupplyCap.toNat := by
  have := h.total
  omega

omit [LawfulStorage σ] in
theorem ledger_new (sm : StateManager σ) : Ledger (new sm) := ⟨rfl, rfl⟩

/-- An amount has moved from the supply to what was burned. -/
structure Moves (n : ℕ) (vm vm' : VaultManager σ) : Prop where
  supply : vm'.totalSupply.toNat + n = vm.totalSupply.toNat
  burned : vm'.totalBurned.toNat = vm.totalBurned.toNat + n
  idle : vm'.guards.held = []

omit [LawfulStorage σ] in
theorem Moves.ledger {n : ℕ} {vm vm' : VaultManager σ} (h : Moves n vm vm') (hvm : Ledger vm) :
    Ledger vm' := by
  have hsupply := h.supply
  have hburned := h.burned
  have htotal := hvm.total
  exact ⟨by omega, h.idle⟩

omit [LawfulStorage σ] in
/-- Nothing has moved where supply and counter are the same. -/
theorem Moves.zero {vm vm' : VaultManager σ} (hsupply : vm'.totalSupply = vm.totalSupply)
    (hburned : vm'.totalBurned = vm.totalBurned) (hidle : vm'.guards.held = []) :
    Moves 0 vm vm' := ⟨by rw [hsupply, Nat.add_zero], by rw [hburned, Nat.add_zero], hidle⟩

omit [LawfulStorage σ] in
/-- What was burned within the supply has moved. -/
theorem Burned.moves {vm vm' : VaultManager σ} {burned : U128} (h : Burned vm vm' burned)
    (hle : burned.toNat ≤ vm.totalSupply.toNat) (hidle : vm'.guards.held = []) :
    Moves burned.toNat vm vm' := by
  refine ⟨?_, h.counted, hidle⟩
  rw [h.supply, U128.toNat_saturatingSub]
  omega

/-- What a call burns when it comes to that. -/
def burnOf (vm : VaultManager σ) : VaultCall → U128
  | .transfer _ _ _ fee => burnShare ℚ vm.totalSupply fee
  | .distributeFees totalFee => burnShare ℚ vm.totalSupply totalFee
  | .burn amount => amount

/-- The call comes to its burn. -/
def Goes (vm : VaultManager σ) : VaultCall → Prop
  | .transfer «from» «to» amount fee =>
      minBalance ≤ amount ∧ «from» ≠ «to» ∧ Admits «from» «to» amount fee vm.stateManager
  | .distributeFees _ => True
  | .burn amount => amount.toNat ≤ vm.totalSupply.toNat

omit [LawfulStorage σ] in
/-- The burned share of a fee within the supply is within the supply. -/
theorem burnShare_le {vm : VaultManager σ} {fee : U128} (h : Ledger vm)
    (hfee : fee.toNat ≤ vm.totalSupply.toNat) :
    (burnShare ℚ vm.totalSupply fee).toNat ≤ vm.totalSupply.toNat := by
  obtain ⟨heq, hle⟩ := toNat_burnShare h.cap fee
  omega

/-- **What a transfer moves.** -/
theorem transfer_moves {vm : VaultManager σ} («from» «to» : Address) (amount fee : U128)
    (h : Ledger vm) (hfee : fee.toNat ≤ vm.totalSupply.toNat) :
    (Goes vm (.transfer «from» «to» amount fee) →
      Moves (burnShare ℚ vm.totalSupply fee).toNat vm (transfer ℚ «from» «to» amount fee vm).2) ∧
    (¬ Goes vm (.transfer «from» «to» amount fee) →
      Moves 0 vm (transfer ℚ «from» «to» amount fee vm).2) := by
  have hle := burnShare_le h hfee
  have hfits : vm.totalBurned.toNat + (burnShare ℚ vm.totalSupply fee).toNat < 2 ^ 128 := by
    have htotal := h.total
    have hcap : totalSupplyCap.toNat < 2 ^ 128 := totalSupplyCap.isLt
    omega
  unfold transfer Goes
  split_ifs with hsmall hself
  · refine ⟨fun hgoes => ?_, fun _ => Moves.zero rfl rfl h.idle⟩
    exact absurd hsmall (BitVec.not_lt.mpr hgoes.1)
  · exact ⟨fun hgoes => absurd hself hgoes.2.1, fun _ => Moves.zero rfl rfl h.idle⟩
  · have hend := executeTransfer_spec ℚ «from» «to» amount fee vm
    rw [Post] at hend
    generalize executeTransfer ℚ «from» «to» amount fee vm = run at hend ⊢
    obtain ⟨o, vm'⟩ := run
    have hminimum : minBalance ≤ amount := BitVec.not_lt.mp hsmall
    have hidle : GuardsAfter vm vm' (burnShare ℚ vm.totalSupply fee) → vm'.guards.held = [] :=
      fun hguards => by rw [hguards h.idle]
    cases hend with
    | refused hadmits hok hsame hstate =>
        refine ⟨fun hgoes => absurd hgoes.2.2 hadmits, fun _ => ?_⟩
        dsimp only at hstate ⊢
        rw [hstate]
        exact Moves.zero rfl rfl h.idle
    | overCap hadmits hcap => exact absurd h.cap hcap
    | burnedOverflow hadmits hcap hfull => exact absurd hfits hfull
    | genesisUnread hadmits hcap hfits hpos hread hsame hburned hguards =>
        exact ⟨fun _ => hburned.moves hle (hidle hguards),
          fun hgoes => absurd ⟨hminimum, hself, hadmits⟩ hgoes⟩
    | countersFull hadmits hcap hfits hcounters hpaid hburned hguards =>
        exact ⟨fun _ => hburned.moves hle (hidle hguards),
          fun hgoes => absurd ⟨hminimum, hself, hadmits⟩ hgoes⟩
    | settled hadmits hcap hfits hread hcounters hpaid hburned hguards =>
        exact ⟨fun _ => hburned.moves hle (hidle hguards),
          fun hgoes => absurd ⟨hminimum, hself, hadmits⟩ hgoes⟩

/-- What a distribution moves. -/
theorem distributeFees_moves {vm : VaultManager σ} (fee : U128) (h : Ledger vm)
    (hfee : fee.toNat ≤ vm.totalSupply.toNat) :
    Moves (burnShare ℚ vm.totalSupply fee).toNat vm (distributeFees ℚ fee vm).2 := by
  have hle := burnShare_le h hfee
  have hfits : vm.totalBurned.toNat + (burnShare ℚ vm.totalSupply fee).toNat < 2 ^ 128 := by
    have htotal := h.total
    have hcap : totalSupplyCap.toNat < 2 ^ 128 := totalSupplyCap.isLt
    omega
  obtain ⟨hguards, hend⟩ := distributeFees_spec ℚ fee vm
  have hidle : (distributeFees ℚ fee vm).2.guards.held = [] := by
    rw [hguards h.idle]
    exact h.idle
  generalize (distributeFees ℚ fee vm).1 = o at hend
  cases hend with
  | overCap hcap => exact absurd h.cap hcap
  | refused hcap hless => exact absurd hle (by omega)
  | burnedOverflow hcap _ hfull => exact absurd hfits hfull
  | genesisUnread hcap _ hburned => exact hburned.moves hle hidle
  | done hcap _ hburned => exact hburned.moves hle hidle

/-- **What a call moves from the supply to what was burned.** -/
theorem step_moves {vm : VaultManager σ} (call : VaultCall) (h : Ledger vm)
    (hfee : FeeWithin vm call) :
    (Goes vm call → Moves (burnOf vm call).toNat vm (step call vm)) ∧
      (¬ Goes vm call → Moves 0 vm (step call vm)) := by
  cases call with
  | transfer «from» «to» amount fee => exact transfer_moves «from» «to» amount fee h hfee
  | distributeFees fee =>
      exact ⟨fun _ => distributeFees_moves fee h hfee, fun hgoes => absurd trivial hgoes⟩
  | burn amount =>
      have hspec := burn_spec amount vm
      rw [Post] at hspec
      unfold step Goes burnOf
      dsimp only
      generalize burn amount vm = run at hspec ⊢
      obtain ⟨o, vm'⟩ := run
      obtain ⟨-, hguards, hend⟩ := hspec
      have hidle : vm'.guards.held = [] := by
        rw [hguards h.idle]
        exact h.idle
      rcases o with _ | e | _
      · obtain ⟨hle, -, hburned⟩ := hend
        exact ⟨fun _ => hburned.moves hle hidle, fun hgoes => absurd hle hgoes⟩
      · obtain ⟨hless, hsupply, hcounted⟩ := hend
        exact ⟨fun hgoes => absurd hgoes (by omega), fun _ => Moves.zero hsupply hcounted hidle⟩
      · obtain ⟨hle, hfull⟩ := hend
        have htotal := h.total
        have hcap : totalSupplyCap.toNat < 2 ^ 128 := totalSupplyCap.isLt
        exact absurd (show vm.totalBurned.toNat + amount.toNat < 2 ^ 128 by omega) hfull

/-- Every call keeps the ledger, and the supply does not grow. -/
theorem step_ledger {vm : VaultManager σ} {call : VaultCall} (h : Ledger vm)
    (hfee : FeeWithin vm call) :
    Ledger (step call vm) ∧ (step call vm).totalSupply.toNat ≤ vm.totalSupply.toNat := by
  obtain ⟨hgoes, hstays⟩ := step_moves call h hfee
  by_cases hgo : Goes vm call
  · have hmoves := hgoes hgo
    have hsupply := hmoves.supply
    exact ⟨hmoves.ledger h, by omega⟩
  · have hmoves := hstays hgo
    have hsupply := hmoves.supply
    exact ⟨hmoves.ledger h, by omega⟩

/-! ## The ledger -/

omit [LawfulStorage σ] in
/-- A burn that is refused leaves everything as it was. -/
theorem burn_refused {amount : U128} {vm : VaultManager σ} (hidle : vm.guards.held = [])
    (h : (burn amount vm).1.IsErr) : (burn amount vm).2 = vm := by
  have hspec := burn_spec amount vm
  rw [Post] at hspec
  generalize burn amount vm = run at h hspec
  obtain ⟨o, vm'⟩ := run
  obtain ⟨e, he⟩ := h
  dsimp only at he
  subst he
  obtain ⟨⟨hstate, hfees, htransfers⟩, hguards, -, hsupply, hburned⟩ := hspec
  obtain ⟨_, _, _, _, _, _⟩ := vm'
  dsimp only at *
  rw [hstate, hsupply, hburned, hfees, htransfers, hguards hidle]

theorem run_ledger {vm : VaultManager σ} {calls : List VaultCall} (h : Ledger vm)
    (hfees : Runs.Along step FeeWithin vm calls) :
    Ledger (Runs.run step vm calls) ∧
      (Runs.run step vm calls).totalSupply.toNat ≤ vm.totalSupply.toNat := by
  induction calls generalizing vm with
  | nil => exact ⟨h, Nat.le_refl _⟩
  | cons call rest ih =>
      obtain ⟨hledger, hle⟩ := step_ledger h hfees.1
      obtain ⟨hend, hend'⟩ := ih hledger hfees.2
      exact ⟨hend, hend'.trans hle⟩

/-- **The supply ledger.**  In every run whose fees are within the supply, supply and burned
add up to the cap, the supply never grows, the phase never moves backwards, no rate
underflows, and a burn that is refused changes nothing. -/
theorem supply_ledger (sm : StateManager σ) (done rest : List VaultCall)
    (h : Runs.Along step FeeWithin (new sm) (done ++ rest)) :
    let vm := Runs.run step (new sm) done
    let vm' := Runs.run step (new sm) (done ++ rest)
    vm.totalSupply.toNat + vm.totalBurned.toNat = totalSupplyCap.toNat ∧
      vm'.totalSupply.toNat ≤ vm.totalSupply.toNat ∧
      (SupplyPhase.fromSupply vm.totalSupply).rank ≤
        (SupplyPhase.fromSupply vm'.totalSupply).rank ∧
      (∃ b n g, SupplyPhase.Rates vm.totalSupply b n g) ∧
      ∀ amount, (burn amount vm).1.IsErr → (burn amount vm).2 = vm := by
  intro vm vm'
  obtain ⟨hdone, hrest⟩ := (Runs.along_append done rest).mp h
  have hledger : Ledger vm := (run_ledger (ledger_new sm) hdone).1
  have hle : vm'.totalSupply.toNat ≤ vm.totalSupply.toNat := by
    have hrun : vm' = Runs.run step vm rest := Runs.run_append step _ _ _
    rw [hrun]
    exact (run_ledger hledger hrest).2
  exact ⟨hledger.total, hle, SupplyPhase.rank_fromSupply_mono hle,
    ⟨_, _, _, SupplyPhase.rates_of_le hledger.cap⟩, fun _ => burn_refused hledger.idle⟩

/-! ## The floor -/

/-- A transfer or a distribution whose fee is within the supply. -/
def FeeCall (vm : VaultManager σ) (call : VaultCall) : Prop :=
  FeeWithin vm call ∧ ∀ amount, call ≠ .burn amount

/-- What the call burns of its fee, at the rate of the supply that it finds, is not more
than the supply has above the last phase. -/
def Spares (vm : VaultManager σ) (call : VaultCall) : Prop :=
  Goes vm call → goldenSupply.toNat +
    ⌊(call.fee.toNat : ℚ) * SupplyPhase.exactBurn vm.totalSupply⌋₊ ≤ vm.totalSupply.toNat

/-- A call that pays a fee leaves the supply above the last phase if and only if it spares
it. -/
theorem step_floor_iff {vm : VaultManager σ} {call : VaultCall} (h : Ledger vm)
    (hcall : FeeCall vm call) (hfloor : goldenSupply.toNat ≤ vm.totalSupply.toNat) :
    goldenSupply.toNat ≤ (step call vm).totalSupply.toNat ↔ Spares vm call := by
  obtain ⟨hgoes, hstays⟩ := step_moves call h hcall.1
  have hburn : (burnOf vm call).toNat =
      ⌊(call.fee.toNat : ℚ) * SupplyPhase.exactBurn vm.totalSupply⌋₊ := by
    cases call with
    | transfer «from» «to» amount fee => exact (toNat_burnShare h.cap fee).1
    | distributeFees fee => exact (toNat_burnShare h.cap fee).1
    | burn amount => exact absurd rfl (hcall.2 amount)
  unfold Spares
  by_cases hgo : Goes vm call
  · have hsupply := (hgoes hgo).supply
    rw [← hburn]
    constructor
    · intro hle _
      omega
    · intro hspares
      have := hspares hgo
      omega
  · have hsupply := (hstays hgo).supply
    exact iff_of_true (by omega) fun hgo' => absurd hgo' hgo

/-- **The floor holds in a run exactly as long as every call spares it.** -/
theorem supply_floor_iff (sm : StateManager σ) (calls : List VaultCall)
    (h : Runs.Along step FeeCall (new sm) calls) :
    (∀ done rest, calls = done ++ rest →
        goldenSupply.toNat ≤ (Runs.run step (new sm) done).totalSupply.toNat) ↔
      Runs.Along step Spares (new sm) calls := by
  have hstart : goldenSupply.toNat ≤ (new sm).totalSupply.toNat := by
    show 250000000000000 ≤ 550000000000000
    decide
  -- from any state with the ledger that is above the floor
  have hrun : ∀ (calls : List VaultCall) (vm : VaultManager σ), Ledger vm →
      goldenSupply.toNat ≤ vm.totalSupply.toNat → Runs.Along step FeeCall vm calls →
      ((∀ done rest, calls = done ++ rest →
          goldenSupply.toNat ≤ (Runs.run step vm done).totalSupply.toNat) ↔
        Runs.Along step Spares vm calls) := by
    intro calls
    induction calls with
    | nil =>
        intro vm _ hfloor _
        refine iff_of_true ?_ trivial
        intro done rest hsplit
        obtain ⟨rfl, -⟩ := List.append_eq_nil_iff.mp hsplit.symm
        exact hfloor
    | cons call rest ih =>
        intro vm hledger hfloor hcalls
        have hone := step_floor_iff hledger hcalls.1 hfloor
        have hnext := (step_ledger hledger hcalls.1.1).1
        rw [Runs.along_cons, ← hone]
        constructor
        · intro hall
          have hfirst := hall [call] rest rfl
          refine ⟨hfirst, (ih _ hnext hfirst hcalls.2).mp fun done rest' hsplit => ?_⟩
          exact hall (call :: done) rest' (by rw [hsplit, List.cons_append])
        · rintro ⟨hfirst, hspares⟩ done rest' hsplit
          cases done with
          | nil => exact hfloor
          | cons call' done =>
              rw [List.cons_append] at hsplit
              obtain ⟨rfl, hrest⟩ := List.cons.inj hsplit
              exact (ih _ hnext hfirst hcalls.2).mpr hspares done rest' hrest
  exact hrun calls (new sm) (ledger_new sm) hstart h

omit [LawfulStorage σ] in
/-- A fee below a sixth of 10^15 is always spared. -/
theorem floor_of_small_fee {supply fee : U128} (hcap : supply.toNat ≤ totalSupplyCap.toNat)
    (hfloor : goldenSupply.toNat ≤ supply.toNat) (hfee : fee.toNat ≤ 166666666666666) :
    goldenSupply.toNat + ⌊(fee.toNat : ℚ) * SupplyPhase.exactBurn supply⌋₊ ≤ supply.toNat := by
  have hgolden : goldenSupply.toNat = 250000000000000 := rfl
  have hfee' : (fee.toNat : ℚ) ≤ 166666666666666 := by exact_mod_cast hfee
  have hnonneg : (0 : ℚ) ≤ fee.toNat := Nat.cast_nonneg _
  have hfloor' : (250000000000000 : ℚ) ≤ supply.toNat := by exact_mod_cast hgolden ▸ hfloor
  have hbound : (fee.toNat : ℚ) * SupplyPhase.exactBurn supply ≤
      ((supply.toNat - 250000000000000 : ℕ) : ℚ) := by
    rw [Nat.cast_sub (hgolden ▸ hfloor)]
    push_cast
    cases hphase : SupplyPhase.fromSupply supply with
    | greatBurn =>
        -- nine tenths of the fee are less than the second phase
        have hhigh : (400000000000000 : ℚ) < supply.toNat := by
          exact_mod_cast SupplyPhase.fromSupply_greatBurn.mp hphase
        have hrate := SupplyPhase.exactBurn_le supply
        have hpos := SupplyPhase.exactBurn_nonneg hcap
        nlinarith
    | transition =>
        -- the rate is proportional to what is left of the phase
        have hrate : SupplyPhase.exactBurn supply =
            0.90 * ((supply.toNat - 250000000000000) / 150000000000000) := by
          unfold SupplyPhase.exactBurn
          rw [hphase]
        rw [hrate]
        nlinarith
    | goldenEra =>
        have hrate : SupplyPhase.exactBurn supply = 0 := by
          unfold SupplyPhase.exactBurn
          rw [hphase]
        rw [hrate, mul_zero]
        linarith
  have hnat := Nat.floor_le_of_le hbound
  omega

/-- Small fees spare the last phase all along a run. -/
theorem supply_floor_of_small_fees (sm : StateManager σ) {calls : List VaultCall}
    (h : Runs.Along step FeeCall (new sm) calls)
    (hsmall : ∀ call ∈ calls, call.fee.toNat ≤ 166666666666666) :
    goldenSupply.toNat ≤ (Runs.run step (new sm) calls).totalSupply.toNat := by
  have hrun : Runs.Along step (fun vm call => FeeCall vm call ∧
      call.fee.toNat ≤ 166666666666666) (new sm) calls := by
    generalize new sm = vm at h
    induction calls generalizing vm with
    | nil => trivial
    | cons call rest ih =>
        exact ⟨⟨h.1, hsmall call (List.mem_cons_self ..)⟩,
          ih (fun c hc => hsmall c (List.mem_cons_of_mem _ hc)) _ h.2⟩
  refine (Runs.Along.invariant (I := fun vm => Ledger vm ∧
    goldenSupply.toNat ≤ vm.totalSupply.toNat) ?_ ⟨ledger_new sm, ?_⟩ hrun).2
  · rintro vm call ⟨hledger, hfloor⟩ ⟨hcall, hfee⟩
    refine ⟨(step_ledger hledger hcall.1).1, (step_floor_iff hledger hcall hfloor).mpr ?_⟩
    exact fun _ => floor_of_small_fee hledger.cap hfloor hfee
  · show 250000000000000 ≤ 550000000000000
    decide

end Calls

end VaultManager

/-! ## Runs from the full supply -/

section Example

open scoped Sample

open VaultManager

/-- A vault over an in-memory storage with one account. -/
def sampleVault : VaultManager MemoryStorage :=
  VaultManager.new (sampleState [(sampleAddress 1, 1000000)])

/-- A distribution, a burn and a transfer. -/
theorem sampleVault_ledger :
    let done : List VaultCall := [.distributeFees 1000, .burn 5]
    let rest : List VaultCall := [.transfer (sampleAddress 1) (sampleAddress 2) 2000 100]
    Runs.Along step FeeWithin sampleVault (done ++ rest) ∧
      (Runs.run step sampleVault done).totalSupply.toNat +
        (Runs.run step sampleVault done).totalBurned.toNat = totalSupplyCap.toNat := by
  intro done rest
  have h : Runs.Along step FeeWithin sampleVault (done ++ rest) :=
    ⟨by unfold FeeWithin; decide, by unfold FeeWithin; decide,
      by unfold FeeWithin; decide +kernel, trivial⟩
  exact ⟨h, (supply_ledger _ done rest h).1⟩

/-- One distribution of the full supply burns three fifths of it. -/
theorem full_distribution_below_floor :
    Runs.Along step FeeCall sampleVault [.distributeFees totalSupplyCap] ∧
      (Runs.run step sampleVault [.distributeFees totalSupplyCap]).totalSupply.toNat =
        220000000000000 ∧
      ¬ goldenSupply.toNat ≤
        (Runs.run step sampleVault [.distributeFees totalSupplyCap]).totalSupply.toNat := by
  have hsupply : (Runs.run step sampleVault [.distributeFees totalSupplyCap]).totalSupply.toNat =
      220000000000000 := by decide +kernel
  refine ⟨⟨⟨by unfold FeeWithin; decide, fun _ => nofun⟩, trivial⟩, hsupply, ?_⟩
  rw [hsupply]
  decide

/-- Two small distributions spare the last phase. -/
theorem small_distributions_above_floor :
    let calls : List VaultCall := [.distributeFees 1000, .distributeFees 2000]
    Runs.Along step FeeCall sampleVault calls ∧
      (∀ done rest, calls = done ++ rest →
        goldenSupply.toNat ≤ (Runs.run step sampleVault done).totalSupply.toNat) := by
  intro calls
  have h : Runs.Along step FeeCall sampleVault calls :=
    ⟨⟨by unfold FeeWithin; decide, fun _ => nofun⟩,
      ⟨by unfold FeeWithin; decide +kernel, fun _ => nofun⟩, trivial⟩
  refine ⟨h, (supply_floor_iff _ calls h).mpr ⟨?_, ?_, trivial⟩⟩
  · intro _
    decide +kernel
  · intro _
    decide +kernel

/-- After a burn of 100 millions the burned share and the share of the nodes are more than
the fee. -/
theorem distribution_incomplete :
    let vm := step (.burn 100000000000000) sampleVault
    ¬ SupplyPhase.RatesAreShares vm.totalSupply ∧
      (distributeFees ℚ 1000 vm).1 = .ok ⟨1000, 800, 360, 0, .greatBurn⟩ ∧
      ¬ Complete 1000 ⟨1000, 800, 360, 0, .greatBurn⟩ := by
  intro vm
  have hsupply : vm.totalSupply.toNat = 450000000000000 := by decide
  have hcap : vm.totalSupply.toNat ≤ totalSupplyCap.toNat := by
    rw [hsupply]
    decide
  refine ⟨?_, by decide +kernel, fun hcomplete => absurd hcomplete.total (by decide)⟩
  rw [SupplyPhase.ratesAreShares_iff hcap, SupplyPhase.rates_areShares_iff hcap, hsupply]
  decide

/-- The full supply is split completely. -/
theorem full_supply_complete :
    SupplyPhase.RatesAreShares sampleVault.totalSupply ∧
      ∀ fee d, (distributeFees ℚ fee sampleVault).1 = .ok d → Complete fee d :=
  (fees_split_iff (show sampleVault.totalSupply.toNat ≤ totalSupplyCap.toNat by decide)).1.mpr (Or.inr (by decide))

end Example
