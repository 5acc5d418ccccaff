/-
# Quorums of a validator set

Three thresholds: `quorum_voting_power` in voting power, the number of active validators
that the engine asks for, and `quorum_size` of the configuration.  Whatever the number of
validators and however the power is spread, two quorums share more than a third
(`quorums_overlap`).

A collection of validators is a set of positions in the list of the set: nothing is assumed
about the ids.
-/
import Pacyte.Validators
import Pacyte.WeightedQuorum

/-! ## The threshold of the configuration -/

/-- `ConsensusConfig::quorum_size`, of `validator_count`. -/
def quorumSize (validatorCount : ℕ) : ℕ := validatorCount * 2 / 3 + 1

/-- `ConsensusConfig::is_quorum`. -/
def isQuorum (validatorCount votes : ℕ) : Prop := quorumSize validatorCount ≤ votes

instance (validatorCount votes : ℕ) : Decidable (isQuorum validatorCount votes) :=
  inferInstanceAs (Decidable (_ ≤ _))

namespace ValidatorSet

/-! ## Voting power -/

/-- The sum of the voting powers of a set. -/
def power (set : ValidatorSet) : ℕ := (set.validators.map fun v => v.votingPower.toNat).sum

/-- `total_voting_power` is the sum, if it fits. -/
theorem totalVotingPower_run {ε σ : Type} (set : ValidatorSet) (s : σ) :
    (set.totalVotingPower : Exec ε σ UInt64) s =
      if set.power < 2 ^ 64 then (.ok (UInt64.ofNat set.power), s) else (.panic, s) := by
  have hzero : UInt64.toNat 0 = 0 := rfl
  rw [totalVotingPower, Exec.sumFrom_run, hzero, Nat.zero_add, List.map_map]
  rfl

/-- `quorum_voting_power` is two thirds of the sum and one more, if nothing overflows. -/
theorem quorumVotingPower_run {ε σ : Type} (set : ValidatorSet) (h : 2 * set.power < 2 ^ 64)
    (s : σ) :
    (set.quorumVotingPower : Exec ε σ UInt64) s
      = (.ok (UInt64.ofNat (set.power * 2 / 3 + 1)), s) := by
  have htotal := totalVotingPower_run (ε := ε) set s
  rw [if_pos (by omega)] at htotal
  have hword : (UInt64.ofNat set.power).toNat = set.power :=
    UInt64.toNat_ofNat_of_lt' (show set.power < 2 ^ 64 by omega)
  have hthirds : (UInt64.ofNat (set.power * 2 / 3)).toNat = set.power * 2 / 3 :=
    UInt64.toNat_ofNat_of_lt' (show set.power * 2 / 3 < 2 ^ 64 by omega)
  have hone : UInt64.toNat 1 = 1 := rfl
  unfold quorumVotingPower
  rw [Exec.run_bind_of_ok htotal, hword, if_pos (by omega), Exec.addU64, hthirds, hone,
    if_pos (by omega), Exec.run_pure, ← UInt64.ofNat_one, ← UInt64.ofNat_add]

/-- The voting power of some of the validators. -/
def powerAmong (set : ValidatorSet) (A : Finset (Fin set.validators.length)) : ℕ :=
  ∑ i ∈ A, (set.validators.get i).votingPower.toNat

theorem powerAmong_univ (set : ValidatorSet) : set.powerAmong Finset.univ = set.power := by
  have hlist := congrArg (List.map fun v => v.votingPower.toNat)
    (List.map_get_finRange set.validators)
  rw [List.map_map] at hlist
  rw [powerAmong, Fin.sum_univ_def, power, ← hlist]
  rfl

theorem powerAmong_le (set : ValidatorSet) (A : Finset (Fin set.validators.length)) :
    set.powerAmong A ≤ set.power := by
  rw [← powerAmong_univ]
  exact Finset.sum_le_sum_of_subset (Finset.subset_univ A)

/-! ## Active validators -/

/-- The positions of the active validators. -/
def active (set : ValidatorSet) : Finset (Fin set.validators.length) :=
  Finset.univ.filter fun i => (set.validators.get i).isActive = true

theorem card_active (set : ValidatorSet) : set.active.card = set.activeCount := by
  have hcount := congrArg (List.countP fun v => v.isActive)
    (List.map_get_finRange set.validators)
  rw [List.countP_map] at hcount
  rw [active, Fin.univ_def]
  show Multiset.card (Multiset.filter (fun i => (set.validators.get i).isActive = true)
    (List.finRange set.validators.length : Multiset _)) = set.activeCount
  rw [Multiset.filter_coe, Multiset.coe_card, ← List.countP_eq_length_filter, activeCount, ← hcount]
  simp [Function.comp_def]

end ValidatorSet

/-! ## Overlap -/

/-- **Two quorums share more than a third.**

* If twice the total voting power fits into 64 bits, `quorum_voting_power` returns a
  threshold such that two collections of validators that reach it have more than a third of
  the power in common.
* Two sets of active validators that reach the threshold of the engine have more members in
  common than a third of the others.
* So have two subsets of an `n`-element set that are quorums for the configuration. -/
theorem quorums_overlap {ε σ : Type} :
    (∀ set : ValidatorSet, 2 * set.power < 2 ^ 64 →
      ∃ q : UInt64, (∀ s : σ, (set.quorumVotingPower : Exec ε σ UInt64) s = (.ok q, s)) ∧
        ∀ A B : Finset (Fin set.validators.length),
          q.toNat ≤ set.powerAmong A → q.toNat ≤ set.powerAmong B →
          set.power < 3 * set.powerAmong (A ∩ B)) ∧
    (∀ (set : ValidatorSet) (A B : Finset (Fin set.validators.length)),
      A ⊆ set.active → B ⊆ set.active → set.quorum ≤ A.card → set.quorum ≤ B.card →
      (set.activeCount - 1) / 3 < (A ∩ B).card) ∧
    ∀ (n : ℕ) (V : Type) [DecidableEq V] (U A B : Finset V),
      U.card = n → A ⊆ U → B ⊆ U → isQuorum n A.card → isQuorum n B.card →
      (n - 1) / 3 < (A ∩ B).card := by
  refine ⟨fun set hfits => ?_, fun set A B hA hB hquorum hquorum' => ?_, ?_⟩
  · refine ⟨_, set.quorumVotingPower_run hfits, fun A B hA hB => ?_⟩
    have hword : (UInt64.ofNat (set.power * 2 / 3 + 1)).toNat = set.power * 2 / 3 + 1 :=
      UInt64.toNat_ofNat_of_lt' (show set.power * 2 / 3 + 1 < 2 ^ 64 by omega)
    rw [hword] at hA hB
    exact WeightedQuorum.third_lt_inter (set.powerAmong_le (A ∪ B))
      (WeightedQuorum.two_thirds_lt hA) (WeightedQuorum.two_thirds_lt hB)
  · have hunion : (A ∪ B).card ≤ set.activeCount := by
      rw [← set.card_active]
      exact Finset.card_le_card (Finset.union_subset hA hB)
    exact WeightedQuorum.faulty_lt_inter hunion hquorum hquorum'
  · intro n V _ U A B hU hA hB hquorum hquorum'
    have hunion : (A ∪ B).card ≤ n := by
      rw [← hU]
      exact Finset.card_le_card (Finset.union_subset hA hB)
    exact WeightedQuorum.faulty_lt_inter hunion hquorum hquorum'

section Example

/-- Four validators of equal power: two quorums of three share two of them. -/
theorem three_of_four_overlap :
    let v (id : UInt64) : ValidatorInfo := ⟨id, zero32, [], 1, 100, true⟩
    let set : ValidatorSet := ⟨[v 1, v 2, v 3, v 4], 4, 0⟩
    set.power < 3 * set.powerAmong ({0, 1, 2} ∩ {1, 2, 3}) ∧
      (set.activeCount - 1) / 3 < (({0, 1, 2} ∩ {1, 2, 3}) : Finset (Fin 4)).card := by
  intro v set
  have hfits : 2 * set.power < 2 ^ 64 := by decide
  obtain ⟨hpower, hactive, -⟩ := quorums_overlap (ε := PacyteError) (σ := Unit)
  obtain ⟨q, hq, hoverlap⟩ := hpower set hfits
  have hvalue : q = 267 := by
    have hrun := (hq ()).symm.trans (set.quorumVotingPower_run hfits ())
    have hok := Outcome.ok.inj (Prod.mk.inj hrun).1
    rw [hok]
    decide
  subst hvalue
  refine ⟨hoverlap {0, 1, 2} {1, 2, 3} ?_ ?_, hactive set {0, 1, 2} {1, 2, 3} ?_ ?_ ?_ ?_⟩
  all_goals decide

end Example
