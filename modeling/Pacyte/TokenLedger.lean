/-
# The ledger of the token

Runs of `PNXToken`: any calls of any senders, one after the other, where a reverted call leaves
the state as it was.  `TokenCall.exec_ok` says what a call that is not reverted changes
(`PNXToken.Change`); every fact about runs is derived from it.

The sum of all balances is the total supply in every state (`PNXToken.Sound`), the genesis
distribution takes effect at most once, and a balance decreases only by a payment that its owner
made or allowed (`PNXToken.ledger_sound`).
-/
import Pacyte.PNXToken
import Pacyte.Runs

/-- A call of a contract, with its sender. -/
structure Message (κ : Type) where
  sender : EthAddress
  call : κ
  deriving DecidableEq

/-- The calls that change the token. -/
inductive TokenCall where
  | transfer («to» : EthAddress) (value : U256)
  | approve (spender : EthAddress) (value : U256)
  | transferFrom («from» «to» : EthAddress) (value : U256)
  | increaseAllowance (spender : EthAddress) (addedValue : U256)
  | decreaseAllowance (spender : EthAddress) (subtractedValue : U256)
  | executeGenesisDistribution (founderVesting sovereignVault ecosystemVault : EthAddress)
  | distributeTitanReward (titan : EthAddress) (amount : U256)
  deriving DecidableEq

namespace TokenCall

open Contract PNXToken

/-- Run a call. -/
def exec (msgSender : EthAddress) : TokenCall → Contract PNXToken Unit
  | .transfer «to» value => (PNXToken.transfer msgSender «to» value).forget
  | .approve spender value => (PNXToken.approve msgSender spender value).forget
  | .transferFrom «from» «to» value => (PNXToken.transferFrom msgSender «from» «to» value).forget
  | .increaseAllowance spender addedValue =>
      (PNXToken.increaseAllowance msgSender spender addedValue).forget
  | .decreaseAllowance spender subtractedValue =>
      (PNXToken.decreaseAllowance msgSender spender subtractedValue).forget
  | .executeGenesisDistribution founderVesting sovereignVault ecosystemVault =>
      PNXToken.executeGenesisDistribution msgSender founderVesting sovereignVault ecosystemVault
  | .distributeTitanReward titan amount => PNXToken.distributeTitanReward msgSender titan amount

/-- The call is the genesis distribution. -/
def isGenesis : TokenCall → Bool
  | .executeGenesisDistribution _ _ _ => true
  | _ => false

end TokenCall

namespace PNXToken

open Contract

/-! ## What a call changes -/

/-- What a call of a sender changes, if it is not reverted. -/
inductive Change (msgSender : EthAddress) (s : PNXToken) : TokenCall → PNXToken → Prop
  | transfer {«to» : EthAddress} {value : U256} (hto : «to» ≠ 0)
      (hpay : s.Payable msgSender «to» value) :
      Change msgSender s (.transfer «to» value) (s.paid msgSender «to» value)
  | approve {spender : EthAddress} {value : U256} :
      Change msgSender s (.approve spender value) (s.allowed msgSender spender value)
  | transferFrom {«from» «to» : EthAddress} {value : U256}
      (hallowed : value ≤ s.allowance «from» msgSender) (hpay : s.Payable «from» «to» value) :
      Change msgSender s (.transferFrom «from» «to» value)
        ((s.paid «from» «to» value).allowed «from» msgSender
          (s.allowance «from» msgSender - value))
  | increaseAllowance {spender : EthAddress} {addedValue : U256}
      (hfits : (s.allowance msgSender spender).toNat + addedValue.toNat < 2 ^ 256) :
      Change msgSender s (.increaseAllowance spender addedValue)
        (s.allowed msgSender spender (s.allowance msgSender spender + addedValue))
  | decreaseAllowance {spender : EthAddress} {subtractedValue : U256}
      (hle : subtractedValue ≤ s.allowance msgSender spender) :
      Change msgSender s (.decreaseAllowance spender subtractedValue)
        (s.allowed msgSender spender (s.allowance msgSender spender - subtractedValue))
  | genesis {founderVesting sovereignVault ecosystemVault : EthAddress}
      (hopen : s.distributionComplete = false) (howner : msgSender = s.owner)
      (hfounder : founderVesting ≠ 0) (hsovereign : sovereignVault ≠ 0)
      (hecosystem : ecosystemVault ≠ 0)
      (hpay : s.Distributable founderVesting sovereignVault ecosystemVault) :
      Change msgSender s
        (.executeGenesisDistribution founderVesting sovereignVault ecosystemVault)
        (s.distributed founderVesting sovereignVault ecosystemVault)
  | reward {titan : EthAddress} {amount : U256} (howner : msgSender = s.owner)
      (htitan : titan ≠ 0) (hpos : 0 < amount) (hpay : s.Payable s.self titan amount)
      (hfits : s.totalRewardsDistributed.toNat + amount.toNat < 2 ^ 256) :
      Change msgSender s (.distributeTitanReward titan amount)
        { s.paid s.self titan amount with
          totalRewardsDistributed := s.totalRewardsDistributed + amount }

/-- **A call succeeds with a state exactly if that is the change that it makes.** -/
theorem exec_ok {msgSender : EthAddress} {call : TokenCall} {u : Unit}
    {s s' : PNXToken} : call.exec msgSender s = .ok (u, s') ↔ Change msgSender s call s' := by
  cases call with
  | transfer «to» value =>
      simp only [TokenCall.exec, forget_ok, transfer_ok]
      constructor
      · rintro ⟨_, hto, hpay, -, rfl⟩
        exact .transfer hto hpay
      · intro h
        cases h with
        | transfer hto hpay =>
            exact ⟨true, hto, hpay, rfl, rfl⟩
  | approve spender value =>
      simp only [TokenCall.exec, forget_ok, approve_ok]
      constructor
      · rintro ⟨_, -, rfl⟩
        exact .approve
      · intro h
        cases h with
        | approve =>
            exact ⟨true, rfl, rfl⟩
  | transferFrom «from» «to» value =>
      simp only [TokenCall.exec, forget_ok, transferFrom_ok]
      constructor
      · rintro ⟨_, hallowed, hpay, -, rfl⟩
        exact .transferFrom hallowed hpay
      · intro h
        cases h with
        | transferFrom hallowed hpay =>
            exact ⟨true, hallowed, hpay, rfl, rfl⟩
  | increaseAllowance spender addedValue =>
      simp only [TokenCall.exec, forget_ok, increaseAllowance_ok]
      constructor
      · rintro ⟨_, hfits, -, rfl⟩
        exact .increaseAllowance hfits
      · intro h
        cases h with
        | increaseAllowance hfits =>
            exact ⟨true, hfits, rfl, rfl⟩
  | decreaseAllowance spender subtractedValue =>
      simp only [TokenCall.exec, forget_ok, decreaseAllowance_ok]
      constructor
      · rintro ⟨_, hle, -, rfl⟩
        exact .decreaseAllowance hle
      · intro h
        cases h with
        | decreaseAllowance hle =>
            exact ⟨true, hle, rfl, rfl⟩
  | executeGenesisDistribution founderVesting sovereignVault ecosystemVault =>
      rw [TokenCall.exec, executeGenesisDistribution_ok]
      constructor
      · rintro ⟨hopen, howner, hf, hv, he, hpay, rfl⟩
        exact .genesis hopen howner hf hv he hpay
      · intro h
        cases h with
        | genesis hopen howner hf hv he hpay =>
            exact ⟨hopen, howner, hf, hv, he, hpay, rfl⟩
  | distributeTitanReward titan amount =>
      rw [TokenCall.exec, distributeTitanReward_ok]
      constructor
      · rintro ⟨howner, htitan, hpos, hpay, hfits, rfl⟩
        exact .reward howner htitan hpos hpay hfits
      · intro h
        cases h with
        | reward howner htitan hpos hpay hfits =>
            exact ⟨howner, htitan, hpos, hpay, hfits, rfl⟩

/-! ## Runs -/

/-- One call, which may be reverted. -/
def step (message : Message TokenCall) (s : PNXToken) : PNXToken :=
  (message.call.exec message.sender).settle s

/-- The call of a message is not reverted. -/
def Accepts (s : PNXToken) (message : Message TokenCall) : Prop :=
  (message.call.exec message.sender).Succeeds s

instance (s : PNXToken) (message : Message TokenCall) : Decidable (s.Accepts message) :=
  inferInstanceAs (Decidable (Contract.Succeeds _ _))

/-- A call makes its change, or nothing happens. -/
theorem step_cases (message : Message TokenCall) (s : PNXToken) :
    Change message.sender s message.call (step message s) ∨
      ¬ s.Accepts message ∧ step message s = s := by
  obtain ⟨u, hok⟩ | hrev := settle_cases (message.call.exec message.sender) s
  · exact Or.inl (exec_ok.mp hok)
  · exact Or.inr hrev

theorem Accepts.change {message : Message TokenCall} {s : PNXToken} (h : s.Accepts message) :
    Change message.sender s message.call (step message s) :=
  (step_cases message s).resolve_right fun hrev => hrev.1 h

theorem Change.accepts {message : Message TokenCall} {s s' : PNXToken}
    (h : Change message.sender s message.call s') : s.Accepts message :=
  ⟨(), s', exec_ok.mpr h⟩

theorem Change.step_eq {message : Message TokenCall} {s s' : PNXToken}
    (h : Change message.sender s message.call s') : step message s = s' := by
  have hok : message.call.exec message.sender s = .ok ((), s') := exec_ok.mpr h
  exact settle_of_ok hok

/-- What every change keeps, every run keeps. -/
theorem run_invariant {I : PNXToken → Prop}
    (hchange : ∀ {sender s call s'}, I s → Change sender s call s' → I s') {s : PNXToken}
    (hs : I s) (messages : List (Message TokenCall)) : I (Runs.run step s messages) := by
  apply Runs.invariant _ hs
  intro s message hs
  obtain h | ⟨-, h⟩ := step_cases message s
  · exact hchange hs h
  · rw [h]
    exact hs

/-! ## The sum of all balances -/

theorem toNat_pnx {n : ℕ} (h : n ≤ 550000000) : (pnx n).toNat = n * 10 ^ 18 := by
  rw [pnx, BitVec.toNat_ofNat]
  exact Nat.mod_eq_of_lt (by omega)

/-- The balances hold the total supply. -/
structure Sound (s : PNXToken) : Prop where
  total : Balances.total s.balanceOf = 550000000 * 10 ^ 18
  supply : s.totalSupply = pnx 550000000

theorem Payable.toNat_paid {s : PNXToken} {«from» «to» : EthAddress} {value : U256}
    (hpay : s.Payable «from» «to» value) (a : EthAddress) :
    ((s.paid «from» «to» value).balanceOf a).toNat + (if a = «from» then value.toNat else 0)
      = (s.balanceOf a).toNat + (if a = «to» then value.toNat else 0) :=
  Balances.toNat_moved (BitVec.le_def.mp hpay.1) hpay.2 a

theorem Sound.payable {s : PNXToken} (hs : s.Sound) {«from» «to» : EthAddress} {value : U256}
    (hle : value ≤ s.balanceOf «from») : s.Payable «from» «to» value := by
  refine ⟨hle, Balances.fits ?_ (BitVec.le_def.mp hle) «to»⟩
  rw [hs.total]
  norm_num

theorem Sound.paid {s : PNXToken} (hs : s.Sound) {«from» «to» : EthAddress} {value : U256}
    (hpay : s.Payable «from» «to» value) : (s.paid «from» «to» value).Sound := by
  refine ⟨?_, hs.supply⟩
  rw [← hs.total]
  exact Balances.total_moved (BitVec.le_def.mp hpay.1) hpay.2

theorem Sound.change {msgSender : EthAddress} {s s' : PNXToken} {call : TokenCall} (hs : s.Sound)
    (h : Change msgSender s call s') : s'.Sound := by
  cases h with
  | transfer hto hpay => exact hs.paid hpay
  | approve => exact ⟨hs.total, hs.supply⟩
  | transferFrom hallowed hpay => exact ⟨(hs.paid hpay).total, hs.supply⟩
  | increaseAllowance hfits => exact ⟨hs.total, hs.supply⟩
  | decreaseAllowance hle => exact ⟨hs.total, hs.supply⟩
  | genesis hopen howner hf hv he hpay =>
      have hthree := ((hs.paid hpay.founder).paid hpay.sovereign).paid hpay.ecosystem
      exact ⟨hthree.total, hthree.supply⟩
  | reward howner htitan hpos hpay hfits => exact ⟨(hs.paid hpay).total, hs.supply⟩

theorem sound_deploy (self msgSender : EthAddress) : (deploy self msgSender).Sound := by
  refine ⟨?_, rfl⟩
  rw [deploy, Balances.total_single, toNat_pnx (Nat.le_refl _)]

/-- The two immutable fields. -/
theorem Change.frame {msgSender : EthAddress} {s s' : PNXToken} {call : TokenCall}
    (h : Change msgSender s call s') : s'.self = s.self ∧ s'.owner = s.owner := by
  cases h <;> exact ⟨rfl, rfl⟩

theorem run_frame (s : PNXToken) (messages : List (Message TokenCall)) :
    (Runs.run step s messages).self = s.self ∧ (Runs.run step s messages).owner = s.owner := by
  apply run_invariant (I := fun t => t.self = s.self ∧ t.owner = s.owner) _ ⟨rfl, rfl⟩
  intro _ t _ t' ht h
  rw [h.frame.1, h.frame.2]
  exact ht

/-! ## The genesis distribution -/

/-- The message is a genesis distribution that takes effect. -/
def Distributes (s : PNXToken) (message : Message TokenCall) : Prop :=
  message.call.isGenesis = true ∧ s.Accepts message

instance (s : PNXToken) (message : Message TokenCall) : Decidable (s.Distributes message) :=
  inferInstanceAs (Decidable (_ ∧ _))

/-- A distribution is made by the owner, before it was complete, and completes it. -/
theorem Distributes.effect {s : PNXToken} {message : Message TokenCall}
    (h : s.Distributes message) :
    s.distributionComplete = false ∧ message.sender = s.owner ∧
      (step message s).distributionComplete = true := by
  obtain ⟨hgenesis, hacc⟩ := h
  have hchange := hacc.change
  generalize step message s = s' at hchange ⊢
  cases hcall : message.call with
  | executeGenesisDistribution f v e =>
      rw [hcall] at hchange
      cases hchange with
      | genesis hopen howner hf hv he hpay => exact ⟨hopen, howner, rfl⟩
  | _ =>
      rw [hcall] at hgenesis
      exact absurd hgenesis Bool.false_ne_true

/-- Complete stays complete. -/
theorem Change.complete {msgSender : EthAddress} {s s' : PNXToken} {call : TokenCall}
    (h : Change msgSender s call s') (hs : s.distributionComplete = true) :
    s'.distributionComplete = true := by
  cases h <;> first | exact hs | rfl

theorem distributes_once (s : PNXToken) (messages : List (Message TokenCall)) :
    Runs.occurrences step Distributes s messages ≤ 1 := by
  have hkeep : ∀ (s : PNXToken) (message : Message TokenCall), s.distributionComplete = true →
      (step message s).distributionComplete = true := by
    intro s message hs
    obtain h | ⟨-, h⟩ := step_cases message s
    · exact h.complete hs
    · rw [h]
      exact hs
  refine Runs.occurrences_le_one (fun s message h => h.effect.2.2) hkeep ?_ s messages
  intro s message hs h
  rw [h.effect.1] at hs
  cases hs

/-! ## Balances that decrease -/

/-- The owner of a balance pays a value out of it with a message, or somebody else does whom the
owner has allowed it. -/
def Spends (s : PNXToken) (message : Message TokenCall) (owner : EthAddress) (value : U256) :
    Prop :=
  (∃ «to», message.sender = owner ∧ message.call = .transfer «to» value) ∨
    ∃ «to», message.call = .transferFrom owner «to» value ∧
      value ≤ s.allowance owner message.sender

/-- A payment that decreases a balance is one out of it, to somebody else. -/
theorem Payable.decreased {s : PNXToken} {«from» «to» : EthAddress} {value : U256}
    (hpay : s.Payable «from» «to» value) {a : EthAddress}
    (hlt : (s.paid «from» «to» value).balanceOf a < s.balanceOf a) :
    a = «from» ∧
      ((s.paid «from» «to» value).balanceOf a).toNat + value.toNat = (s.balanceOf a).toNat := by
  have hpaid := hpay.toNat_paid a
  have hlt := BitVec.lt_def.mp hlt
  by_cases hfrom : a = «from»
  · by_cases hto : a = «to»
    · rw [if_pos hfrom, if_pos hto] at hpaid
      omega
    · rw [if_pos hfrom, if_neg hto] at hpaid
      exact ⟨hfrom, hpaid⟩
  · rw [if_neg hfrom] at hpaid
    omega

/-- A payment does not decrease any other balance. -/
theorem Payable.balance_le {s : PNXToken} {«from» «to» : EthAddress} {value : U256}
    (hpay : s.Payable «from» «to» value) {a : EthAddress} (ha : a ≠ «from») :
    s.balanceOf a ≤ (s.paid «from» «to» value).balanceOf a :=
  BitVec.not_lt.mp fun hlt => ha (hpay.decreased hlt).1

/-- A balance other than the reserve decreases only by what its owner pays or has allowed. -/
theorem Change.spends {message : Message TokenCall} {s s' : PNXToken}
    (h : Change message.sender s message.call s') {a : EthAddress} (ha : a ≠ s.self)
    (hlt : s'.balanceOf a < s.balanceOf a) :
    ∃ value, s.Spends message a value ∧
      (s'.balanceOf a).toNat + value.toNat = (s.balanceOf a).toNat := by
  obtain ⟨sender, call⟩ := message
  cases h with
  | @transfer «to» value hto hpay =>
      obtain ⟨rfl, hvalue⟩ := hpay.decreased hlt
      exact ⟨value, Or.inl ⟨«to», rfl, rfl⟩, hvalue⟩
  | approve => exact absurd hlt (BitVec.lt_irrefl _)
  | @transferFrom «from» «to» value hallowed hpay =>
      obtain ⟨rfl, hvalue⟩ := hpay.decreased hlt
      exact ⟨value, Or.inr ⟨«to», rfl, hallowed⟩, hvalue⟩
  | increaseAllowance hfits => exact absurd hlt (BitVec.lt_irrefl _)
  | decreaseAllowance hle => exact absurd hlt (BitVec.lt_irrefl _)
  | genesis hopen howner hf hv he hpay =>
      -- all three payments come from the reserve
      have hle := BitVec.le_trans (hpay.founder.balance_le ha)
        (BitVec.le_trans (hpay.sovereign.balance_le ha) (hpay.ecosystem.balance_le ha))
      exact absurd hlt (BitVec.not_lt.mpr hle)
  | reward howner htitan hpos hpay hfits => exact absurd (hpay.decreased hlt).1 ha

theorem allowance_allowed (s : PNXToken) (account spender : EthAddress) (value : U256) :
    (s.allowed account spender value).allowance account spender = value := by
  change Function.update s.allowance account _ account spender = value
  rw [Function.update_self, Function.update_self]

theorem allowance_allowed_of_ne (s : PNXToken) {account spender account' spender' : EthAddress}
    (value : U256) (h : ¬ (account' = account ∧ spender' = spender)) :
    (s.allowed account spender value).allowance account' spender'
      = s.allowance account' spender' := by
  change Function.update s.allowance account _ account' spender' = _
  by_cases haccount : account' = account
  · subst haccount
    rw [Function.update_self, Function.update_of_ne fun heq => h ⟨rfl, heq⟩]
  · rw [Function.update_of_ne haccount]

/-- An allowance increases only by a call of the account that gives it. -/
theorem Change.grants {message : Message TokenCall} {s s' : PNXToken}
    (h : Change message.sender s message.call s') {account spender : EthAddress}
    (hlt : s.allowance account spender < s'.allowance account spender) :
    message.sender = account ∧ ∃ value,
      message.call = .approve spender value ∨ message.call = .increaseAllowance spender value := by
  have hset : ∀ {t : PNXToken} {account' spender' : EthAddress} {value : U256},
      t.allowance = s.allowance →
      s.allowance account spender < (t.allowed account' spender' value).allowance account spender →
      account = account' ∧ spender = spender' := by
    intro t account' spender' value ht hlt
    by_contra hne
    rw [allowance_allowed_of_ne t value hne, ht] at hlt
    exact BitVec.lt_irrefl _ hlt
  obtain ⟨sender, call⟩ := message
  cases h with
  | transfer hto hpay => exact absurd hlt (BitVec.lt_irrefl _)
  | @approve spender' value =>
      obtain ⟨rfl, rfl⟩ := hset rfl hlt
      exact ⟨rfl, value, Or.inl rfl⟩
  | @transferFrom «from» «to» value hallowed hpay =>
      -- this one decreases the allowance
      have hpaid : (s.paid «from» «to» value).allowance = s.allowance := rfl
      obtain ⟨rfl, rfl⟩ := hset hpaid hlt
      rw [allowance_allowed, BitVec.lt_def, BitVec.toNat_sub_of_le hallowed] at hlt
      exact absurd hlt (Nat.not_lt.mpr (Nat.sub_le _ _))
  | @increaseAllowance spender' addedValue hfits =>
      obtain ⟨rfl, rfl⟩ := hset rfl hlt
      exact ⟨rfl, addedValue, Or.inr rfl⟩
  | @decreaseAllowance spender' subtractedValue hle =>
      obtain ⟨rfl, rfl⟩ := hset rfl hlt
      rw [allowance_allowed, BitVec.lt_def, BitVec.toNat_sub_of_le hle] at hlt
      exact absurd hlt (Nat.not_lt.mpr (Nat.sub_le _ _))
  | genesis hopen howner hf hv he hpay => exact absurd hlt (BitVec.lt_irrefl _)
  | reward howner htitan hpos hpay hfits => exact absurd hlt (BitVec.lt_irrefl _)

/-- A `transferFrom` that is not reverted lowers the allowance by the value. -/
theorem Accepts.allowance {s : PNXToken} {message : Message TokenCall} (h : s.Accepts message)
    {«from» «to» : EthAddress} {value : U256}
    (hcall : message.call = .transferFrom «from» «to» value) :
    ((step message s).allowance «from» message.sender).toNat + value.toNat
      = (s.allowance «from» message.sender).toNat := by
  have hchange := h.change
  generalize step message s = s' at hchange ⊢
  rw [hcall] at hchange
  cases hchange with
  | transferFrom hallowed hpay =>
      rw [allowance_allowed, BitVec.toNat_sub_of_le hallowed]
      exact Nat.sub_add_cancel (BitVec.le_def.mp hallowed)

/-- **The ledger in every run.**  The balances add up to the total supply, which is constant; the
genesis distribution takes effect at most once, and only for the owner; a balance other than the
reserve decreases only by a payment of its owner or within an allowance that its owner gave, and
such a payment lowers the allowance by its amount. -/
theorem ledger_sound (self deployer : EthAddress) (messages : List (Message TokenCall)) :
    let s := Runs.run step (deploy self deployer) messages
    Balances.total s.balanceOf = s.totalSupply.toNat ∧
      s.totalSupply.toNat = 550000000 * 10 ^ 18 ∧
      Runs.occurrences step Distributes (deploy self deployer) messages ≤ 1 ∧
      ∀ message : Message TokenCall,
        (s.Distributes message → message.sender = deployer) ∧
        (∀ a, a ≠ self → (step message s).balanceOf a < s.balanceOf a →
          ∃ value, s.Spends message a value ∧
            ((step message s).balanceOf a).toNat + value.toNat = (s.balanceOf a).toNat) ∧
        (∀ account spender,
          s.allowance account spender < (step message s).allowance account spender →
          message.sender = account ∧ ∃ value, message.call = .approve spender value ∨
            message.call = .increaseAllowance spender value) ∧
        (∀ «from» «to» value, message.call = .transferFrom «from» «to» value →
          s.Accepts message →
          ((step message s).allowance «from» message.sender).toNat + value.toNat
            = (s.allowance «from» message.sender).toNat) := by
  intro s
  have hsound : s.Sound := run_invariant Sound.change (sound_deploy self deployer) messages
  have hframe := run_frame (deploy self deployer) messages
  have hsupply : s.totalSupply.toNat = 550000000 * 10 ^ 18 := by
    rw [hsound.supply, toNat_pnx (Nat.le_refl _)]
  refine ⟨hsound.total.trans hsupply.symm, hsupply, distributes_once _ _, fun message => ?_⟩
  refine ⟨fun h => h.effect.2.1.trans hframe.2, fun a ha hlt => ?_, fun account spender hlt => ?_,
    fun «from» «to» value hcall hacc => hacc.allowance hcall⟩
  · obtain h | ⟨-, h⟩ := step_cases message s
    · exact h.spends (fun heq => ha (heq.trans hframe.1)) hlt
    · rw [h] at hlt
      exact absurd hlt (BitVec.lt_irrefl _)
  · obtain h | ⟨-, h⟩ := step_cases message s
    · exact h.grants hlt
    · rw [h] at hlt
      exact absurd hlt (BitVec.lt_irrefl _)

end PNXToken
