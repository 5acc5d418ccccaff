/-
# The reserve of the token

What the reserve is for: 250 million tokens of rewards, and the 300 million of the genesis
distribution (`PNXToken.Reserved`).  `distributeTitanReward` checks neither of the two bounds,
so that both hold in a run exactly if all its rewards keep them (`PNXToken.reserved_iff`).

`transferFrom` does not check its recipient as the other payments do: the zero address receives
nothing in a run exactly if no `transferFrom` pays it (`PNXToken.zero_balance_iff`).
-/
import Pacyte.TokenLedger

namespace PNXToken

open Contract

/-! ## The reserve -/

/-- The rewards are within their cap, and what the genesis distribution needs is there. -/
structure Reserved (s : PNXToken) : Prop where
  rewards : s.totalRewardsDistributed.toNat ≤ 250000000 * 10 ^ 18
  reserve : s.distributionComplete = false → 300000000 * 10 ^ 18 ≤ (s.balanceOf s.self).toNat

/-- The owner can make the genesis distribution, to any three addresses but zero. -/
def GenesisPossible (s : PNXToken) : Prop :=
  s.distributionComplete = false → ∀ founderVesting sovereignVault ecosystemVault : EthAddress,
    founderVesting ≠ 0 → sovereignVault ≠ 0 → ecosystemVault ≠ 0 →
    s.Accepts ⟨s.owner, .executeGenesisDistribution founderVesting sovereignVault ecosystemVault⟩

/-- If the message is a reward that passes all checks, it is within the cap and leaves what the
genesis distribution needs. -/
def Affordable (s : PNXToken) (message : Message TokenCall) : Prop :=
  ∀ titan amount, message.call = .distributeTitanReward titan amount → message.sender = s.owner →
    titan ≠ 0 → 0 < amount → amount ≤ s.balanceOf s.self →
    s.totalRewardsDistributed.toNat + amount.toNat ≤ 250000000 * 10 ^ 18 ∧
      (s.distributionComplete = false → titan ≠ s.self →
        300000000 * 10 ^ 18 + amount.toNat ≤ (s.balanceOf s.self).toNat)

theorem Sound.genesisPossible {s : PNXToken} (hs : s.Sound) (hr : s.Reserved) :
    s.GenesisPossible := by
  intro hopen f v e hf hv he
  have hreserve := hr.reserve hopen
  have h55 : (pnx 55000000).toNat = 55000000 * 10 ^ 18 := toNat_pnx (by norm_num)
  have h122 : (pnx 122500000).toNat = 122500000 * 10 ^ 18 := toNat_pnx (by norm_num)
  have h300 : (pnx 300000000).toNat = 300000000 * 10 ^ 18 := toNat_pnx (by norm_num)
  have hfounder : s.Payable s.self f (pnx 55000000) := by
    apply hs.payable
    rw [BitVec.le_def, h55]
    omega
  have hpaid := hfounder.toNat_paid s.self
  rw [if_pos rfl, h55] at hpaid
  have hsovereign : (s.paid s.self f (pnx 55000000)).Payable s.self v (pnx 122500000) := by
    apply (hs.paid hfounder).payable
    rw [BitVec.le_def, h122]
    omega
  have hpaid' := hsovereign.toNat_paid s.self
  rw [if_pos rfl, h122] at hpaid'
  have hecosystem : ((s.paid s.self f (pnx 55000000)).paid s.self v (pnx 122500000)).Payable
      s.self e (pnx 122500000) := by
    apply ((hs.paid hfounder).paid hsovereign).payable
    rw [BitVec.le_def, h122]
    omega
  have hall : s.Distributable f v e := by
    refine ⟨?_, hfounder, hsovereign, hecosystem⟩
    rw [BitVec.le_def, h300]
    exact hreserve
  exact Change.accepts (Change.genesis hopen rfl hf hv he hall)

/-- Nobody may spend the reserve: the token contract makes no calls. -/
def Unspendable (s : PNXToken) : Prop := ∀ spender, s.allowance s.self spender = 0

theorem Unspendable.change {s s' : PNXToken} {message : Message TokenCall} (hs : s.Unspendable)
    (hout : message.sender ≠ s.self) (h : Change message.sender s message.call s') :
    s'.Unspendable := by
  intro spender
  rw [h.frame.1]
  by_contra hne
  have hlt : s.allowance s.self spender < s'.allowance s.self spender := by
    rw [hs spender]
    exact Nat.pos_of_ne_zero fun hzero => hne (BitVec.eq_of_toNat_eq hzero)
  exact hout (h.grants hlt).1

/-- What a step needs to keep the reserve. -/
structure Guarded (s : PNXToken) : Prop where
  sound : s.Sound
  reserved : s.Reserved
  unspendable : s.Unspendable

theorem Guarded.change {s s' : PNXToken} {message : Message TokenCall} (hs : s.Guarded)
    (hout : message.sender ≠ s.self) (hafford : s.Affordable message)
    (h : Change message.sender s message.call s') : s'.Guarded := by
  refine ⟨hs.sound.change h, ?_, hs.unspendable.change hout h⟩
  obtain ⟨sender, call⟩ := message
  cases h with
  | transfer hto hpay =>
      refine ⟨hs.reserved.rewards, fun hopen => (hs.reserved.reserve hopen).trans ?_⟩
      exact BitVec.le_def.mp (hpay.balance_le hout.symm)
  | approve => exact ⟨hs.reserved.rewards, hs.reserved.reserve⟩
  | @transferFrom «from» «to» value hallowed hpay =>
      refine ⟨hs.reserved.rewards, fun hopen => (hs.reserved.reserve hopen).trans ?_⟩
      change (s.balanceOf s.self).toNat ≤ ((s.paid «from» «to» value).balanceOf s.self).toNat
      by_cases hfrom : s.self = «from»
      · -- nothing may be spent from the reserve
        rw [← hfrom, hs.unspendable, BitVec.le_def] at hallowed
        have hpaid := hpay.toNat_paid s.self
        have hzero : value.toNat = 0 := Nat.le_zero.mp hallowed
        rw [hzero] at hpaid
        simp only [ite_self] at hpaid
        omega
      · exact BitVec.le_def.mp (hpay.balance_le hfrom)
  | increaseAllowance hfits => exact ⟨hs.reserved.rewards, hs.reserved.reserve⟩
  | decreaseAllowance hle => exact ⟨hs.reserved.rewards, hs.reserved.reserve⟩
  | genesis hopen howner hf hv he hpay => exact ⟨hs.reserved.rewards, nofun⟩
  | @reward titan amount howner htitan hpos hpay hfits =>
      obtain ⟨hcap, hleft⟩ := hafford titan amount rfl howner htitan hpos hpay.1
      constructor
      · change (s.totalRewardsDistributed + amount).toNat ≤ _
        rw [BitVec.toNat_add_of_lt hfits]
        exact hcap
      · intro hopen
        have hreserve := hs.reserved.reserve hopen
        have hpaid := hpay.toNat_paid s.self
        change _ ≤ ((s.paid s.self titan amount).balanceOf s.self).toNat
        rw [if_pos rfl] at hpaid
        by_cases hself : s.self = titan
        · rw [if_pos hself] at hpaid
          omega
        · have hleft := hleft hopen fun heq => hself heq.symm
          rw [if_neg hself] at hpaid
          omega

/-- A reward that keeps the reserve is affordable. -/
theorem Reserved.affordable {s : PNXToken} {message : Message TokenCall} (hs : s.Sound)
    (hr : s.Reserved) (hr' : (step message s).Reserved) : s.Affordable message := by
  intro titan amount hcall howner htitan hpos hle
  have hpay : s.Payable s.self titan amount := hs.payable hle
  have hfits : s.totalRewardsDistributed.toNat + amount.toNat < 2 ^ 256 := by
    have hbal := Balances.le_total s.balanceOf s.self
    have hle := BitVec.le_def.mp hle
    have hrewards := hr.rewards
    rw [hs.total] at hbal
    omega
  have hchange := Change.reward howner htitan hpos hpay hfits
  rw [← hcall] at hchange
  rw [hchange.step_eq] at hr'
  constructor
  · have hrewards := hr'.rewards
    change (s.totalRewardsDistributed + amount).toNat ≤ _ at hrewards
    rwa [BitVec.toNat_add_of_lt hfits] at hrewards
  · intro hopen hself
    have hreserve := hr'.reserve hopen
    have hpaid := hpay.toNat_paid s.self
    change _ ≤ ((s.paid s.self titan amount).balanceOf s.self).toNat at hreserve
    rw [if_pos rfl, if_neg hself.symm] at hpaid
    omega

theorem guarded_deploy (self deployer : EthAddress) : (deploy self deployer).Guarded := by
  refine ⟨sound_deploy self deployer, ⟨Nat.zero_le _, fun _ => ?_⟩, fun _ => rfl⟩
  have hself : (deploy self deployer).balanceOf self = pnx 550000000 := by
    change Function.update (fun _ => (0 : U256)) self (pnx 550000000) self = _
    rw [Function.update_self]
  change _ ≤ ((deploy self deployer).balanceOf self).toNat
  rw [hself, toNat_pnx (Nat.le_refl _)]
  norm_num

/-- **When the reserve is kept.**  In a run of calls from outside, every state reached keeps the
cap of the rewards and what the genesis distribution needs, which then can always be made, exactly
if every reward that passes all checks is affordable. -/
theorem reserved_iff (self deployer : EthAddress) (messages : List (Message TokenCall))
    (hout : ∀ message ∈ messages, message.sender ≠ self) :
    (∀ done rest, messages = done ++ rest →
        (Runs.run step (deploy self deployer) done).Reserved ∧
          (Runs.run step (deploy self deployer) done).GenesisPossible) ↔
      Runs.Along step Affordable (deploy self deployer) messages := by
  constructor
  · intro h
    apply Runs.along_of_forall
    intro done message rest heq
    have hsound : (Runs.run step (deploy self deployer) done).Sound :=
      run_invariant Sound.change (sound_deploy self deployer) done
    have hnext := (h (done ++ [message]) rest (by rw [heq, List.append_assoc]; rfl)).1
    rw [Runs.run_append] at hnext
    exact Reserved.affordable hsound (h done _ heq).1 hnext
  · intro h done rest heq
    have hgood := h.and (Runs.along_of_mem hout)
    rw [heq, Runs.along_append] at hgood
    have hstep : ∀ s message, s.Guarded ∧ s.self = self →
        s.Affordable message ∧ message.sender ≠ self →
        (step message s).Guarded ∧ (step message s).self = self := by
      intro s message hs hm
      obtain hchange | ⟨-, hrev⟩ := step_cases message s
      · rw [← hs.2] at hm
        exact ⟨hs.1.change hm.2 hm.1 hchange, hchange.frame.1.trans hs.2⟩
      · rw [hrev]
        exact hs
    obtain ⟨hguarded, -⟩ := hgood.1.invariant hstep ⟨guarded_deploy self deployer, rfl⟩
    exact ⟨hguarded.reserved, hguarded.sound.genesisPossible hguarded.reserved⟩

/-! ## The zero address -/

/-- If the message is a `transferFrom` to the zero address that passes all checks, nothing is
paid. -/
def SparesZero (s : PNXToken) (message : Message TokenCall) : Prop :=
  ∀ «from» value, message.call = .transferFrom «from» 0 value → value ≤ s.balanceOf «from» →
    value ≤ s.allowance «from» message.sender → value = 0

/-- A payment to another address, or of nothing, leaves a balance of zero. -/
theorem Payable.balance_eq_zero {s : PNXToken} {«from» «to» : EthAddress} {value : U256}
    (hpay : s.Payable «from» «to» value) {a : EthAddress} (ha : s.balanceOf a = 0)
    (hto : a = «to» → value = 0) : (s.paid «from» «to» value).balanceOf a = 0 := by
  have hzero : (0 : U256).toNat = 0 := rfl
  have hpaid := hpay.toNat_paid a
  rw [ha, hzero] at hpaid
  apply BitVec.eq_of_toNat_eq
  rw [hzero]
  by_cases h : a = «to»
  · obtain rfl := hto h
    rw [hzero, ite_self, ite_self] at hpaid
    exact hpaid
  · rw [if_neg h] at hpaid
    omega

theorem Change.zero_balance {s s' : PNXToken} {message : Message TokenCall}
    (hs : s.balanceOf 0 = 0) (hspares : s.SparesZero message)
    (h : Change message.sender s message.call s') : s'.balanceOf 0 = 0 := by
  obtain ⟨sender, call⟩ := message
  cases h with
  | transfer hto hpay => exact hpay.balance_eq_zero hs fun heq => absurd heq.symm hto
  | approve => exact hs
  | @transferFrom «from» «to» value hallowed hpay =>
      refine hpay.balance_eq_zero hs fun heq => ?_
      subst heq
      exact hspares «from» value rfl hpay.1 hallowed
  | increaseAllowance hfits => exact hs
  | decreaseAllowance hle => exact hs
  | genesis hopen howner hf hv he hpay =>
      have hfirst := hpay.founder.balance_eq_zero hs fun heq => absurd heq.symm hf
      have hsecond := hpay.sovereign.balance_eq_zero hfirst fun heq => absurd heq.symm hv
      exact hpay.ecosystem.balance_eq_zero hsecond fun heq => absurd heq.symm he
  | reward howner htitan hpos hpay hfits =>
      exact hpay.balance_eq_zero hs fun heq => absurd heq.symm htitan

/-- **When the zero address receives nothing.**  In every state of a run the zero address has no
tokens, exactly if every `transferFrom` to it that passes all checks pays nothing. -/
theorem zero_balance_iff (self deployer : EthAddress) (hself : self ≠ 0)
    (messages : List (Message TokenCall)) :
    (∀ done rest, messages = done ++ rest →
        (Runs.run step (deploy self deployer) done).balanceOf 0 = 0) ↔
      Runs.Along step SparesZero (deploy self deployer) messages := by
  constructor
  · intro h
    apply Runs.along_of_forall
    intro done message rest heq
    have hsound : (Runs.run step (deploy self deployer) done).Sound :=
      run_invariant Sound.change (sound_deploy self deployer) done
    have hzero := h done _ heq
    have hnext := h (done ++ [message]) rest (by rw [heq, List.append_assoc]; rfl)
    rw [Runs.run_append] at hnext
    generalize Runs.run step (deploy self deployer) done = s at hsound hzero hnext
    intro «from» value hcall hle hallowed
    have hpay : s.Payable «from» 0 value := hsound.payable hle
    have hchange := Change.transferFrom hallowed hpay
    rw [← hcall] at hchange
    have hpaid := hpay.toNat_paid 0
    rw [Runs.run_cons, Runs.run_nil, hchange.step_eq] at hnext
    change (s.paid «from» 0 value).balanceOf 0 = 0 at hnext
    have hnone : (0 : U256).toNat = 0 := rfl
    rw [hnext, hzero, if_pos rfl, hnone] at hpaid
    apply BitVec.eq_of_toNat_eq
    rw [hnone]
    by_cases hfrom : 0 = «from»
    · rw [← hfrom, hzero] at hle
      exact Nat.le_zero.mp (BitVec.le_def.mp hle)
    · rw [if_neg hfrom] at hpaid
      omega
  · intro h done rest heq
    rw [heq, Runs.along_append] at h
    have hstep : ∀ s message, s.balanceOf 0 = 0 → s.SparesZero message →
        (step message s).balanceOf 0 = 0 := by
      intro s message hs hspares
      obtain hchange | ⟨-, hrev⟩ := step_cases message s
      · exact hchange.zero_balance hs hspares
      · rw [hrev]
        exact hs
    apply h.1.invariant (I := fun s => s.balanceOf 0 = 0) hstep
    change Function.update (fun _ => (0 : U256)) self (pnx 550000000) 0 = 0
    rw [Function.update_of_ne hself.symm]

/-! ## Two runs -/

/-- The owner pays 300 million tokens of rewards at once: the cap is exceeded, and the genesis
distribution is not possible any more. -/
theorem reserved_spent :
    let messages : List (Message TokenCall) := [⟨2, .distributeTitanReward 3 (pnx 300000000)⟩]
    let s := Runs.run step (deploy 1 2) messages
    (∀ message ∈ messages, message.sender ≠ 1) ∧ ¬ s.Reserved ∧ ¬ s.GenesisPossible := by
  intro messages s
  refine ⟨by decide, fun h => ?_, fun h => ?_⟩
  · have hnot : ¬ s.totalRewardsDistributed.toNat ≤ 250000000 * 10 ^ 18 := by decide
    exact hnot h.rewards
  · have hnot : ¬ s.Accepts ⟨s.owner, .executeGenesisDistribution 4 5 6⟩ := by decide
    exact hnot (h (by decide) 4 5 6 (by decide) (by decide) (by decide))

/-- A run with a reward before the genesis distribution and one after it. -/
theorem reserved_rewarded :
    let messages : List (Message TokenCall) :=
      [⟨2, .distributeTitanReward 3 (pnx 100)⟩, ⟨2, .executeGenesisDistribution 4 5 6⟩,
        ⟨2, .distributeTitanReward 3 (pnx 249999900)⟩]
    (Runs.run step (deploy 1 2) messages).Reserved := by
  intro messages
  have hiff := reserved_iff 1 2 messages (by decide)
  refine (hiff.mpr ⟨?_, ?_, ?_, trivial⟩ messages [] (List.append_nil _).symm).1
  · intro titan amount hcall
    cases hcall
    exact fun _ _ _ _ => by decide
  · intro titan amount hcall
    cases hcall
  · intro titan amount hcall
    cases hcall
    exact fun _ _ _ _ => by decide

/-- The holder of an allowance pays tokens to the zero address. -/
def burning : List (Message TokenCall) :=
  [⟨2, .distributeTitanReward 3 (pnx 100)⟩, ⟨3, .approve 4 (pnx 10)⟩,
    ⟨4, .transferFrom 3 0 (pnx 10)⟩]

theorem zero_balance_burnt :
    (Runs.run step (deploy 1 2) burning).balanceOf 0 = pnx 10 := by decide

/-- Before the last of these calls the zero address has nothing. -/
theorem zero_balance_kept :
    (Runs.run step (deploy 1 2) (burning.take 2)).balanceOf 0 = 0 := by
  have hiff := zero_balance_iff 1 2 (by decide) (burning.take 2)
  refine hiff.mpr ⟨?_, ?_, trivial⟩ (burning.take 2) [] (List.append_nil _).symm
  · intro «from» value hcall
    cases hcall
  · intro «from» value hcall
    cases hcall

end PNXToken
