/-
# Contracts that hold tokens

A contract together with the token that it calls and the time of the last block
(`ContractWorld`).  A message comes with the timestamp of its block; a reverted one changes
nothing but the time.  Timestamps do not decrease (`Timely`).

Beside the messages to the contract there are those that other accounts send to the token.
The contract itself sends none, and no message is sent from the address 0
(`ContractWorld.Elsewhere`).  So nobody may ever spend what the contract holds
(`ContractWorld.Unspent`), and such a message never takes anything from its balance.
-/
import Pacyte.TokenLedger

/-- A contract, the token that it calls and the time. -/
structure ContractWorld (γ τ : Type) where
  contract : γ
  token : τ
  now : U256

/-- A message in a block. -/
structure BlockMessage (κ : Type) extends Message κ where
  timestamp : U256
  deriving DecidableEq

/-- Who gets tokens by a call. -/
def TokenCall.receivers : TokenCall → List EthAddress
  | .transfer «to» _ => [«to»]
  | .transferFrom _ «to» _ => [«to»]
  | .executeGenesisDistribution founderVesting sovereignVault ecosystemVault =>
      [founderVesting, sovereignVault, ecosystemVault]
  | .distributeTitanReward titan _ => [titan]
  | _ => []

namespace PNXToken

/-- A payment to another account. -/
theorem Payable.le_of_ne {s : PNXToken} {«from» «to» account : EthAddress} {value : U256}
    (hpay : s.Payable «from» «to» value) (hne : account ≠ «to») :
    (s.paid «from» «to» value).balanceOf account ≤ s.balanceOf account := by
  have hpaid := hpay.toNat_paid account
  rw [if_neg hne, Nat.add_zero] at hpaid
  exact BitVec.le_def.mpr (Nat.le.intro hpaid)

/-- A balance grows only by a payment to it. -/
theorem Change.le_of_not_received {msgSender account : EthAddress} {s s' : PNXToken}
    {call : TokenCall} (h : Change msgSender s call s') (hnot : account ∉ call.receivers) :
    s'.balanceOf account ≤ s.balanceOf account := by
  cases h with
  | transfer _ hpay => exact hpay.le_of_ne fun heq => hnot (by simp [TokenCall.receivers, heq])
  | transferFrom _ hpay =>
      exact hpay.le_of_ne fun heq => hnot (by simp [TokenCall.receivers, heq])
  | reward _ _ _ hpay => exact hpay.le_of_ne fun heq => hnot (by simp [TokenCall.receivers, heq])
  | genesis _ _ _ _ _ hpay =>
      simp only [TokenCall.receivers, List.mem_cons, List.not_mem_nil, or_false, not_or] at hnot
      exact BitVec.le_trans (hpay.ecosystem.le_of_ne hnot.2.2)
        (BitVec.le_trans (hpay.sovereign.le_of_ne hnot.2.1) (hpay.founder.le_of_ne hnot.1))
  | approve => exact BitVec.le_refl _
  | increaseAllowance _ => exact BitVec.le_refl _
  | decreaseAllowance _ => exact BitVec.le_refl _

end PNXToken

namespace ContractWorld

open Contract

variable {γ τ κ α β : Type}

/-! ## Calls -/

/-- A call of the contract that uses its own state only. -/
def onContract (m : Contract γ α) : Contract (ContractWorld γ τ) α :=
  onPart ContractWorld.contract (fun c w => { w with contract := c }) m

/-- A call of the token. -/
def onToken (m : Contract τ α) : Contract (ContractWorld γ τ) α :=
  onPart ContractWorld.token (fun t w => { w with token := t }) m

@[simp] theorem onContract_bind_ok {m : Contract γ α} {f : α → Contract (ContractWorld γ τ) β}
    {b : β} {w w' : ContractWorld γ τ} :
    (onContract m >>= f) w = .ok (b, w') ↔
      ∃ a c, m w.contract = .ok (a, c) ∧ f a { w with contract := c } = .ok (b, w') :=
  onPart_bind_ok

@[simp] theorem onToken_bind_ok {m : Contract τ α} {f : α → Contract (ContractWorld γ τ) β}
    {b : β} {w w' : ContractWorld γ τ} :
    (onToken m >>= f) w = .ok (b, w') ↔
      ∃ a t, m w.token = .ok (a, t) ∧ f a { w with token := t } = .ok (b, w') :=
  onPart_bind_ok

theorem onContract_ok {m : Contract γ α} {a : α} {w w' : ContractWorld γ τ} :
    onContract m w = .ok (a, w') ↔ ∃ c, m w.contract = .ok (a, c) ∧ w' = { w with contract := c } :=
  onPart_ok

/-! ## Time -/

/-- Time does not run backwards. -/
def Timely (w : ContractWorld γ τ) (timestamp : U256) : Prop := w.now ≤ timestamp

instance (w : ContractWorld γ τ) (timestamp : U256) : Decidable (w.Timely timestamp) :=
  inferInstanceAs (Decidable (_ ≤ _))

/-- One message in a block, which may be reverted. -/
def deliver (m : Contract (ContractWorld γ τ) α) (timestamp : U256) (w : ContractWorld γ τ) :
    ContractWorld γ τ :=
  { m.settle w with now := timestamp }

/-- A message takes effect, or only the time changes. -/
theorem deliver_cases (m : Contract (ContractWorld γ τ) α) (timestamp : U256)
    (w : ContractWorld γ τ) :
    (∃ a w', m w = .ok (a, w') ∧ deliver m timestamp w = { w' with now := timestamp }) ∨
      ¬ m.Succeeds w ∧ deliver m timestamp w = { w with now := timestamp } := by
  obtain ⟨a, h⟩ | ⟨hno, h⟩ := settle_cases m w
  · exact Or.inl ⟨a, _, h, rfl⟩
  · refine Or.inr ⟨hno, ?_⟩
    rw [deliver, h]

theorem deliver_of_ok {m : Contract (ContractWorld γ τ) α} {w w' : ContractWorld γ τ} {a : α}
    (h : m w = .ok (a, w')) (timestamp : U256) :
    deliver m timestamp w = { w' with now := timestamp } := by
  rw [deliver, settle_of_ok h]

/-! ## Messages to the token -/

/-- A message is sent by another account than the contract, and not from the address 0. -/
def Elsewhere (holder : EthAddress) (message : Message TokenCall) : Prop :=
  message.sender ≠ holder ∧ message.sender ≠ 0

instance (holder : EthAddress) (message : Message TokenCall) :
    Decidable (Elsewhere holder message) := inferInstanceAs (Decidable (_ ∧ _))

/-- Nobody may spend what the contract holds, nor what the address 0 holds. -/
structure Unspent (holder : EthAddress) (t : PNXToken) : Prop where
  sound : t.Sound
  apart : holder ≠ t.self
  contract : ∀ spender, t.allowance holder spender = 0
  nobody : ∀ spender, t.allowance 0 spender = 0

theorem unspent_deploy {holder tokenAddress : EthAddress} (h : holder ≠ tokenAddress)
    (owner : EthAddress) : Unspent holder (PNXToken.deploy tokenAddress owner) :=
  ⟨PNXToken.sound_deploy tokenAddress owner, h, fun _ => rfl, fun _ => rfl⟩

theorem Unspent.paid {holder : EthAddress} {t : PNXToken} (h : Unspent holder t)
    {«from» «to» : EthAddress} {value : U256} (hpay : t.Payable «from» «to» value) :
    Unspent holder (t.paid «from» «to» value) :=
  ⟨h.sound.paid hpay, h.apart, h.contract, h.nobody⟩

/-- An allowance that somebody else gives. -/
theorem Unspent.allowed {holder : EthAddress} {t : PNXToken} (h : Unspent holder t)
    {account : EthAddress} (hholder : account ≠ holder) (hzero : account ≠ 0) (spender : EthAddress)
    (value : U256) : Unspent holder (t.allowed account spender value) := by
  refine ⟨⟨h.sound.total, h.sound.supply⟩, h.apart, fun x => ?_, fun x => ?_⟩
  · rw [PNXToken.allowance_allowed_of_ne t value fun heq => hholder heq.1.symm]
    exact h.contract x
  · rw [PNXToken.allowance_allowed_of_ne t value fun heq => hzero heq.1.symm]
    exact h.nobody x

/-- The contract takes what another account has allowed it to take. -/
theorem Unspent.received {holder : EthAddress} {t : PNXToken} (h : Unspent holder t)
    {account : EthAddress} {amount : U256} (hzero : account ≠ 0) (hne : account ≠ holder)
    (hpay : t.Payable account holder amount) (rest : U256) :
    Unspent holder ((t.paid account holder amount).allowed account holder rest) ∧
      (((t.paid account holder amount).allowed account holder rest).balanceOf holder).toNat
        = (t.balanceOf holder).toNat + amount.toNat := by
  refine ⟨(h.paid hpay).allowed hne hzero _ _, ?_⟩
  have hpaid := hpay.toNat_paid holder
  rw [if_neg (Ne.symm hne), if_pos rfl, Nat.add_zero] at hpaid
  exact hpaid

/-- The contract pays another account. -/
theorem Unspent.spent {holder : EthAddress} {t : PNXToken} (h : Unspent holder t)
    {account : EthAddress} {amount : U256} (hne : account ≠ holder)
    (hpay : t.Payable holder account amount) :
    Unspent holder (t.paid holder account amount) ∧
      ((t.paid holder account amount).balanceOf holder).toNat + amount.toNat
        = (t.balanceOf holder).toNat ∧
      ((t.paid holder account amount).balanceOf account).toNat
        = (t.balanceOf account).toNat + amount.toNat := by
  have hspent := hpay.toNat_paid holder
  rw [if_pos rfl, if_neg (Ne.symm hne), Nat.add_zero] at hspent
  have hreceived := hpay.toNat_paid account
  rw [if_neg hne, if_pos rfl, Nat.add_zero] at hreceived
  exact ⟨h.paid hpay, hspent, hreceived⟩

/-- Only its owner raises an allowance. -/
theorem Unspent.change {holder : EthAddress} {t t' : PNXToken} {message : Message TokenCall}
    (h : Unspent holder t) (hmessage : Elsewhere holder message)
    (hchange : PNXToken.Change message.sender t message.call t') : Unspent holder t' := by
  have hkeep : ∀ account spender, message.sender ≠ account → t.allowance account spender = 0 →
      t'.allowance account spender = 0 := by
    intro account spender hne hzero
    by_contra hpos
    have hlt : t.allowance account spender < t'.allowance account spender := by
      rw [hzero]
      exact BitVec.lt_def.mpr (Nat.pos_of_ne_zero fun h0 => hpos (BitVec.eq_of_toNat_eq h0))
    exact hne (hchange.grants hlt).1
  refine ⟨h.sound.change hchange, ?_, fun x => ?_, fun x => ?_⟩
  · rw [hchange.frame.1]
    exact h.apart
  · exact hkeep holder x hmessage.1 (h.contract x)
  · exact hkeep 0 x hmessage.2 (h.nobody x)

/-- **Somebody else's message takes nothing from the contract.** -/
theorem Unspent.balance_le {holder : EthAddress} {t t' : PNXToken} {message : Message TokenCall}
    (h : Unspent holder t) (hmessage : Elsewhere holder message)
    (hchange : PNXToken.Change message.sender t message.call t') :
    t.balanceOf holder ≤ t'.balanceOf holder := by
  rw [← BitVec.not_lt]
  intro hlt
  obtain ⟨value, hspends, hvalue⟩ := hchange.spends h.apart hlt
  rcases hspends with ⟨_, hsender, _⟩ | ⟨_, _, hallowed⟩
  · exact hmessage.1 hsender
  · -- the allowance is 0, so nothing is spent
    rw [h.contract, BitVec.le_def] at hallowed
    rw [BitVec.lt_def] at hlt
    have hzero : (0 : U256).toNat = 0 := rfl
    omega

/-- A message to the token. -/
def outside (message : Message TokenCall) (w : ContractWorld γ PNXToken) :
    ContractWorld γ PNXToken :=
  { w with token := PNXToken.step message w.token }

theorem Unspent.outside {holder : EthAddress} {w : ContractWorld γ PNXToken}
    {message : Message TokenCall} (h : Unspent holder w.token) (hmessage : Elsewhere holder message) :
    Unspent holder (outside message w).token ∧
      w.token.balanceOf holder ≤ (ContractWorld.outside message w).token.balanceOf holder := by
  obtain hchange | ⟨-, hsame⟩ := PNXToken.step_cases message w.token
  · exact ⟨h.change hmessage hchange, h.balance_le hmessage hchange⟩
  · unfold ContractWorld.outside
    rw [hsame]
    exact ⟨h, BitVec.le_refl _⟩

/-- The balance of an account that gets no tokens by a message does not grow. -/
theorem outside_le {w : ContractWorld γ PNXToken} {message : Message TokenCall}
    {account : EthAddress} (hnot : account ∉ message.call.receivers) :
    (outside message w).token.balanceOf account ≤ w.token.balanceOf account := by
  obtain hchange | ⟨-, hsame⟩ := PNXToken.step_cases message w.token
  · exact hchange.le_of_not_received hnot
  · unfold outside
    rw [hsame]
    exact BitVec.le_refl _

end ContractWorld
