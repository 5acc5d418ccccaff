/-
# Supply phases

`SupplyPhase` of `src/vault/mod.rs`: the phase that belongs to a supply, and the shares of a
fee that are burned, go to the nodes and go to the genesis vault.

The rates are `f64` numbers.  `FloatOps` is what the code takes from that type: conversions,
literals and the four operations.  The instance for `ℚ` computes exactly and rounds products
down.

`SupplyPhase.rates_areShares_iff` says for which supplies the three exact rates are shares: in the lower
part of the first phase the rate of the genesis vault is negative.
-/
import Pacyte.Types

/-! ## Phases and rates -/

/-- `TOTAL_SUPPLY`. -/
def totalSupplyCap : U128 := 550000000000000

/-- The supply at which the second phase begins. -/
def transitionSupply : U128 := 400000000000000

/-- The supply at which the last phase begins. -/
def goldenSupply : U128 := 250000000000000

/-- What the rates take from `f64`. -/
class FloatOps (F : Type) extends Add F, Sub F, Mul F, Div F where
  /-- A literal. -/
  lit : ℚ → F
  /-- `as f64`. -/
  ofU128 : U128 → F
  /-- `as u128`, which rounds towards zero and saturates. -/
  toU128 : F → U128

/-- `SupplyPhase`. -/
inductive SupplyPhase : Type where
  | greatBurn
  | transition
  | goldenEra
  deriving DecidableEq, Repr

namespace SupplyPhase

open FloatOps

/-- `SupplyPhase::from_supply`. -/
def fromSupply (supply : U128) : SupplyPhase :=
  if transitionSupply < supply then greatBurn
  else if goldenSupply < supply then transition
  else goldenEra

/-- How far the chain is from the first phase to the last. -/
def rank : SupplyPhase → ℕ
  | greatBurn => 0
  | transition => 1
  | goldenEra => 2

section Rates

variable {F ε τ : Type} [FloatOps F]

/-- `burn_rate`. -/
def burnRate (phase : SupplyPhase) (supply : U128) : Exec ε τ F :=
  match phase with
  | greatBurn => do
    let burned ← Exec.subU128 totalSupplyCap supply
    let progress : F := ofU128 burned / lit 150000000000000
    return lit 0.60 + progress * lit 0.30
  | transition => do
    let left ← Exec.subU128 supply goldenSupply
    let progress : F := ofU128 left / lit 150000000000000
    return lit 0.90 * progress
  | goldenEra => return lit 0

/-- `genesis_rate`. -/
def genesisRate (phase : SupplyPhase) (supply : U128) : Exec ε τ F :=
  match phase with
  | greatBurn => do
    let burn : F ← burnRate greatBurn supply
    return lit 1 - burn - lit 0.36
  | transition => do
    let burned ← Exec.subU128 transitionSupply supply
    let progress : F := ofU128 burned / lit 150000000000000
    return lit 0.01 + progress * lit 0.09
  | goldenEra => return lit 0.10

/-- `node_rate`. -/
def nodeRate (phase : SupplyPhase) (supply : U128) : Exec ε τ F :=
  match phase with
  | greatBurn => return lit 0.36
  | transition => do
    let burn : F ← burnRate transition supply
    let genesis : F ← genesisRate transition supply
    return lit 1 - burn - genesis
  | goldenEra => return lit 0.90

end Rates

/-! ## The phases of a supply -/

theorem transitionSupply_lt {supply : U128} :
    transitionSupply < supply ↔ 400000000000000 < supply.toNat := BitVec.lt_def

theorem goldenSupply_lt {supply : U128} :
    goldenSupply < supply ↔ 250000000000000 < supply.toNat := BitVec.lt_def

theorem fromSupply_greatBurn {supply : U128} :
    fromSupply supply = greatBurn ↔ 400000000000000 < supply.toNat := by
  unfold fromSupply
  rw [← transitionSupply_lt]
  split_ifs with h₁ h₂
  · exact iff_of_true rfl h₁
  · exact iff_of_false (by decide) h₁
  · exact iff_of_false (by decide) h₁

theorem fromSupply_goldenEra {supply : U128} :
    fromSupply supply = goldenEra ↔ supply.toNat ≤ 250000000000000 := by
  unfold fromSupply
  split_ifs with h₁ h₂
  · rw [transitionSupply_lt] at h₁
    exact iff_of_false (by decide) (by omega)
  · rw [goldenSupply_lt] at h₂
    exact iff_of_false (by decide) (by omega)
  · rw [goldenSupply_lt] at h₂
    exact iff_of_true rfl (by omega)

theorem fromSupply_transition {supply : U128} :
    fromSupply supply = transition ↔
      250000000000000 < supply.toNat ∧ supply.toNat ≤ 400000000000000 := by
  have hgreat : fromSupply supply = greatBurn ↔ 400000000000000 < supply.toNat :=
    fromSupply_greatBurn
  have hgolden : fromSupply supply = goldenEra ↔ supply.toNat ≤ 250000000000000 :=
    fromSupply_goldenEra
  cases h : fromSupply supply with
  | greatBurn =>
      have := hgreat.mp h
      exact iff_of_false (by decide) (by omega)
  | transition =>
      rw [h] at hgreat hgolden
      have h₁ := mt hgreat.mpr (by decide)
      have h₂ := mt hgolden.mpr (by decide)
      exact iff_of_true rfl ⟨by omega, by omega⟩
  | goldenEra =>
      have := hgolden.mp h
      exact iff_of_false (by decide) (by omega)

/-- A smaller supply is in the same phase or in a later one. -/
theorem rank_fromSupply_mono {s t : U128} (h : t.toNat ≤ s.toNat) :
    (fromSupply s).rank ≤ (fromSupply t).rank := by
  cases hs : fromSupply s with
  | greatBurn => exact Nat.zero_le _
  | transition =>
      have hs' := (fromSupply_transition.mp hs).2
      cases ht : fromSupply t with
      | greatBurn =>
          have := fromSupply_greatBurn.mp ht
          omega
      | transition => exact Nat.le_refl _
      | goldenEra => exact Nat.le_succ _
  | goldenEra =>
      have hs' := fromSupply_goldenEra.mp hs
      rw [fromSupply_goldenEra.mpr (h.trans hs')]

/-! ## The values of the rates -/

section Values

variable {F : Type} [FloatOps F]

/-- The burn rate of a supply within the cap. -/
def burnValue (supply : U128) : F :=
  match fromSupply supply with
  | greatBurn => lit 0.60 + ofU128 (totalSupplyCap - supply) / lit 150000000000000 * lit 0.30
  | transition => lit 0.90 * (ofU128 (supply - goldenSupply) / lit 150000000000000)
  | goldenEra => lit 0

/-- The genesis rate of a supply within the cap. -/
def genesisValue (supply : U128) : F :=
  match fromSupply supply with
  | greatBurn => lit 1 - burnValue supply - lit 0.36
  | transition => lit 0.01 + ofU128 (transitionSupply - supply) / lit 150000000000000 * lit 0.09
  | goldenEra => lit 0.10

/-- The node rate of a supply within the cap. -/
def nodeValue (supply : U128) : F :=
  match fromSupply supply with
  | greatBurn => lit 0.36
  | transition => lit 1 - burnValue supply - genesisValue supply
  | goldenEra => lit 0.90

end Values

/-! ## The rates underflow above the cap only -/

section Runs

variable {F ε τ : Type} [FloatOps F]

theorem burnRate_of_le {supply : U128} (h : supply.toNat ≤ totalSupplyCap.toNat) :
    (burnRate (fromSupply supply) supply : Exec ε τ F) = pure (burnValue supply) := by
  unfold burnValue
  cases hphase : fromSupply supply with
  | greatBurn =>
      unfold burnRate
      dsimp only
      rw [Exec.subU128_of_le h, Exec.pure_bind]
  | transition =>
      have hle : goldenSupply.toNat ≤ supply.toNat :=
        Nat.le_of_lt (fromSupply_transition.mp hphase).1
      unfold burnRate
      dsimp only
      rw [Exec.subU128_of_le hle, Exec.pure_bind]
  | goldenEra => rfl

theorem genesisRate_of_le {supply : U128} (h : supply.toNat ≤ totalSupplyCap.toNat) :
    (genesisRate (fromSupply supply) supply : Exec ε τ F) = pure (genesisValue supply) := by
  have hburn := burnRate_of_le (F := F) (ε := ε) (τ := τ) h
  unfold genesisValue
  cases hphase : fromSupply supply with
  | greatBurn =>
      rw [hphase] at hburn
      unfold genesisRate
      dsimp only
      rw [hburn, Exec.pure_bind]
  | transition =>
      have hle : supply.toNat ≤ transitionSupply.toNat := (fromSupply_transition.mp hphase).2
      unfold genesisRate
      dsimp only
      rw [Exec.subU128_of_le hle, Exec.pure_bind]
  | goldenEra => rfl

theorem nodeRate_of_le {supply : U128} (h : supply.toNat ≤ totalSupplyCap.toNat) :
    (nodeRate (fromSupply supply) supply : Exec ε τ F) = pure (nodeValue supply) := by
  have hburn := burnRate_of_le (F := F) (ε := ε) (τ := τ) h
  have hgenesis := genesisRate_of_le (F := F) (ε := ε) (τ := τ) h
  unfold nodeValue
  cases hphase : fromSupply supply with
  | greatBurn => rfl
  | transition =>
      rw [hphase] at hburn hgenesis
      unfold nodeRate
      dsimp only
      rw [hburn, Exec.pure_bind, hgenesis, Exec.pure_bind]
  | goldenEra => rfl

/-- Above the cap the burn rate, which every call computes first, underflows. -/
theorem burnRate_of_gt {supply : U128} (h : ¬ supply.toNat ≤ totalSupplyCap.toNat) (s : τ) :
    (burnRate (fromSupply supply) supply : Exec ε τ F) s = (.panic, s) := by
  have hcap : totalSupplyCap.toNat = 550000000000000 := rfl
  have hphase : fromSupply supply = greatBurn := fromSupply_greatBurn.mpr (by omega)
  rw [hphase]
  unfold burnRate
  dsimp only
  rw [Exec.subU128, if_neg h]
  rfl

end Runs

/-! ## Exact rates -/

/-- Exact rational arithmetic. -/
instance : FloatOps ℚ where
  lit := id
  ofU128 a := a.toNat
  toU128 q := BitVec.ofNat 128 (min ⌊q⌋₊ (2 ^ 128 - 1))

/-- A product that fits is rounded down. -/
theorem toNat_toU128 {q : ℚ} (h : ⌊q⌋₊ < 2 ^ 128) : (toU128 q : U128).toNat = ⌊q⌋₊ := by
  show (BitVec.ofNat 128 (min ⌊q⌋₊ (2 ^ 128 - 1))).toNat = _
  rw [BitVec.toNat_ofNat, Nat.mod_eq_of_lt (by omega)]
  omega

/-- The burn rate of a supply in the range of the token. -/
def exactBurn (supply : U128) : ℚ :=
  match fromSupply supply with
  | greatBurn => 0.60 + (550000000000000 - supply.toNat) / 150000000000000 * 0.30
  | transition => 0.90 * ((supply.toNat - 250000000000000) / 150000000000000)
  | goldenEra => 0

/-- The genesis rate of a supply in the range of the token. -/
def exactGenesis (supply : U128) : ℚ :=
  match fromSupply supply with
  | greatBurn => 1 - exactBurn supply - 0.36
  | transition => 0.01 + (400000000000000 - supply.toNat) / 150000000000000 * 0.09
  | goldenEra => 0.10

/-- The node rate of a supply in the range of the token. -/
def exactNode (supply : U128) : ℚ :=
  match fromSupply supply with
  | greatBurn => 0.36
  | transition => 1 - exactBurn supply - exactGenesis supply
  | goldenEra => 0.90

/-- The difference of two supplies as a number. -/
theorem ofU128_sub {a b : U128} (h : b.toNat ≤ a.toNat) :
    (ofU128 (a - b) : ℚ) = a.toNat - b.toNat := by
  change (((a - b).toNat : ℕ) : ℚ) = _
  rw [BitVec.toNat_sub_of_le h, Nat.cast_sub h]

theorem burnValue_eq {supply : U128} (h : supply.toNat ≤ totalSupplyCap.toNat) :
    burnValue supply = exactBurn supply := by
  unfold burnValue exactBurn
  cases hphase : fromSupply supply with
  | greatBurn =>
      dsimp only
      rw [ofU128_sub h]
      rfl
  | transition =>
      have hle : goldenSupply.toNat ≤ supply.toNat :=
        Nat.le_of_lt (fromSupply_transition.mp hphase).1
      dsimp only
      rw [ofU128_sub hle]
      rfl
  | goldenEra => rfl

theorem genesisValue_eq {supply : U128} (h : supply.toNat ≤ totalSupplyCap.toNat) :
    genesisValue supply = exactGenesis supply := by
  unfold genesisValue exactGenesis
  cases hphase : fromSupply supply with
  | greatBurn =>
      dsimp only
      rw [burnValue_eq h]
      rfl
  | transition =>
      have hle : supply.toNat ≤ transitionSupply.toNat := (fromSupply_transition.mp hphase).2
      dsimp only
      rw [ofU128_sub hle]
      rfl
  | goldenEra => rfl

theorem nodeValue_eq {supply : U128} (h : supply.toNat ≤ totalSupplyCap.toNat) :
    nodeValue supply = exactNode supply := by
  unfold nodeValue exactNode
  cases hphase : fromSupply supply with
  | greatBurn => rfl
  | transition =>
      dsimp only
      rw [burnValue_eq h, genesisValue_eq h]
      rfl
  | goldenEra => rfl

/-! ## The rates as shares -/

/-- The three rates are shares of a whole. -/
structure AreShares (b n g : ℚ) : Prop where
  burn : 0 ≤ b ∧ b ≤ 1
  node : 0 ≤ n ∧ n ≤ 1
  genesis : 0 ≤ g ∧ g ≤ 1
  total : b + n + g = 1

theorem rates_total (supply : U128) :
    exactBurn supply + exactNode supply + exactGenesis supply = 1 := by
  unfold exactNode exactGenesis
  cases hphase : fromSupply supply with
  | greatBurn => ring
  | transition => ring
  | goldenEra =>
      simp only [exactBurn, hphase]
      norm_num

theorem exactBurn_nonneg {supply : U128} (h : supply.toNat ≤ totalSupplyCap.toNat) :
    0 ≤ exactBurn supply := by
  have hcap : (supply.toNat : ℚ) ≤ 550000000000000 := by exact_mod_cast h
  unfold exactBurn
  cases hphase : fromSupply supply with
  | greatBurn => dsimp only; linarith
  | transition =>
      have hlow : (250000000000000 : ℚ) < supply.toNat := by
        exact_mod_cast (fromSupply_transition.mp hphase).1
      dsimp only
      linarith
  | goldenEra => exact le_refl 0

theorem exactBurn_le (supply : U128) : exactBurn supply ≤ 0.90 := by
  unfold exactBurn
  cases hphase : fromSupply supply with
  | greatBurn =>
      have hlow : (400000000000000 : ℚ) < supply.toNat := by
        exact_mod_cast fromSupply_greatBurn.mp hphase
      dsimp only
      linarith
  | transition =>
      have hhigh : (supply.toNat : ℚ) ≤ 400000000000000 := by
        exact_mod_cast (fromSupply_transition.mp hphase).2
      dsimp only
      linarith
  | goldenEra => norm_num

theorem exactNode_mem (supply : U128) : 0 ≤ exactNode supply ∧ exactNode supply ≤ 1 := by
  unfold exactNode exactGenesis exactBurn
  cases hphase : fromSupply supply with
  | greatBurn => constructor <;> norm_num
  | transition =>
      obtain ⟨hlow, hhigh⟩ := fromSupply_transition.mp hphase
      have hlow : (250000000000000 : ℚ) < supply.toNat := by exact_mod_cast hlow
      have hhigh : (supply.toNat : ℚ) ≤ 400000000000000 := by exact_mod_cast hhigh
      dsimp only
      constructor <;> linarith
  | goldenEra => constructor <;> norm_num

theorem exactGenesis_le {supply : U128} (h : supply.toNat ≤ totalSupplyCap.toNat) :
    exactGenesis supply ≤ 1 := by
  have htotal := rates_total supply
  have hburn := exactBurn_nonneg h
  have hnode := (exactNode_mem supply).1
  linarith

/-- The genesis rate is negative in the lower part of the first phase. -/
theorem exactGenesis_nonneg_iff (supply : U128) :
    0 ≤ exactGenesis supply ↔
      supply.toNat ≤ 400000000000000 ∨ 530000000000000 ≤ supply.toNat := by
  unfold exactGenesis exactBurn
  cases hphase : fromSupply supply with
  | greatBurn =>
      have hlow := fromSupply_greatBurn.mp hphase
      have hcast : (530000000000000 : ℚ) ≤ supply.toNat ↔ 530000000000000 ≤ supply.toNat := by
        exact_mod_cast Iff.rfl
      dsimp only
      rw [or_iff_right (by omega), ← hcast]
      constructor <;> intro h <;> linarith
  | transition =>
      obtain ⟨-, hhigh⟩ := fromSupply_transition.mp hphase
      have hcast : (supply.toNat : ℚ) ≤ 400000000000000 := by exact_mod_cast hhigh
      refine iff_of_true ?_ (Or.inl hhigh)
      dsimp only
      linarith
  | goldenEra =>
      have := fromSupply_goldenEra.mp hphase
      exact iff_of_true (by norm_num) (Or.inl (by omega))

/-- **The exact rates of a supply are shares of a whole unless the supply lies in the
lower part of the first phase.** -/
theorem rates_areShares_iff {supply : U128} (h : supply.toNat ≤ totalSupplyCap.toNat) :
    AreShares (exactBurn supply) (exactNode supply) (exactGenesis supply) ↔
      supply.toNat ≤ 400000000000000 ∨ 530000000000000 ≤ supply.toNat := by
  rw [← exactGenesis_nonneg_iff]
  constructor
  · intro hshares
    exact hshares.genesis.1
  · intro hgenesis
    have hburn := exactBurn_le supply
    exact ⟨⟨exactBurn_nonneg h, by linarith⟩, exactNode_mem supply,
      ⟨hgenesis, exactGenesis_le h⟩, rates_total supply⟩

/-- The rates that are computed for a supply in its phase; no subtraction underflows. -/
structure Rates (supply : U128) (b n g : ℚ) : Prop where
  burn : (burnRate (fromSupply supply) supply : Exec Empty Unit ℚ) = pure b
  node : (nodeRate (fromSupply supply) supply : Exec Empty Unit ℚ) = pure n
  genesis : (genesisRate (fromSupply supply) supply : Exec Empty Unit ℚ) = pure g

/-- The rates of a supply within the cap. -/
theorem rates_of_le {supply : U128} (h : supply.toNat ≤ totalSupplyCap.toNat) :
    Rates supply (exactBurn supply) (exactNode supply) (exactGenesis supply) := by
  refine ⟨?_, ?_, ?_⟩
  · rw [burnRate_of_le h, burnValue_eq h]
  · rw [nodeRate_of_le h, nodeValue_eq h]
  · rw [genesisRate_of_le h, genesisValue_eq h]

/-- The rates of a supply are computed and are shares of a whole. -/
def RatesAreShares (supply : U128) : Prop := ∃ b n g, Rates supply b n g ∧ AreShares b n g

theorem pure_injective {a b : ℚ} (h : (pure a : Exec Empty Unit ℚ) = pure b) : a = b := by
  have hrun := congrFun h ()
  rw [Exec.run_pure, Exec.run_pure] at hrun
  cases hrun
  rfl

theorem ratesAreShares_iff {supply : U128} (h : supply.toNat ≤ totalSupplyCap.toNat) :
    RatesAreShares supply ↔
      AreShares (exactBurn supply) (exactNode supply) (exactGenesis supply) := by
  have hrates := rates_of_le h
  constructor
  · rintro ⟨b, n, g, ⟨hb, hn, hg⟩, hshares⟩
    rw [pure_injective (hrates.burn.symm.trans hb), pure_injective (hrates.node.symm.trans hn),
      pure_injective (hrates.genesis.symm.trans hg)]
    exact hshares
  · intro hshares
    exact ⟨_, _, _, hrates, hshares⟩

end SupplyPhase
