/-
# The token contract

`contracts/PNXToken.sol`: the balances, the allowances and the seven calls that change them.
`msgSender` is the caller of a call and `self` the address of the contract.

`TokenCall.exec_ok` says for every call when it succeeds and what it changes
(`PNXToken.Change`); a payment is `PNXToken.paid`, two updates of the balances in place.
Events and the display fields (`name`, `symbol`, `decimals`) are left out.
-/
import Pacyte.Contract
import Pacyte.Balances

/-- `address`. -/
abbrev EthAddress : Type := BitVec 160

/-- `uint256`. -/
abbrev U256 : Type := BitVec 256

noncomputable instance : Fintype EthAddress :=
  Fintype.ofEquiv (Fin (2 ^ 160)) (BitVec.equivFin (m := 160)).symm.toEquiv

/-- Whole tokens, with 18 decimals. -/
def pnx (n : ℕ) : U256 := BitVec.ofNat 256 (n * 10 ^ 18)

/-- `PNXToken`, with `address(this)` as a field. -/
structure PNXToken where
  self : EthAddress
  totalSupply : U256
  balanceOf : EthAddress → U256
  allowance : EthAddress → EthAddress → U256
  owner : EthAddress
  distributionComplete : Bool
  totalRewardsDistributed : U256

namespace PNXToken

open Contract

/-! ## The code -/

/-- The constructor. -/
def deploy (self msgSender : EthAddress) : PNXToken where
  self := self
  totalSupply := pnx 550000000
  balanceOf := Function.update (fun _ => 0) self (pnx 550000000)
  allowance := fun _ _ => 0
  owner := msgSender
  distributionComplete := false
  totalRewardsDistributed := 0

/-- `balanceOf[account] -= value`. -/
def debit (account : EthAddress) (value : U256) : Contract PNXToken Unit := do
  let balance ← read fun s => s.balanceOf account
  let balance ← checked (checkedSub balance value)
  write fun s => { s with balanceOf := Function.update s.balanceOf account balance }

/-- `balanceOf[account] += value`. -/
def credit (account : EthAddress) (value : U256) : Contract PNXToken Unit := do
  let balance ← read fun s => s.balanceOf account
  let balance ← checked (checkedAdd balance value)
  write fun s => { s with balanceOf := Function.update s.balanceOf account balance }

/-- `allowance[account][spender] = value`. -/
def setAllowance (account spender : EthAddress) (value : U256) : Contract PNXToken Unit :=
  write fun s => { s with
    allowance := Function.update s.allowance account
      (Function.update (s.allowance account) spender value) }

/-- `executeGenesisDistribution`. -/
def executeGenesisDistribution
    (msgSender founderVesting sovereignVault ecosystemVault : EthAddress) :
    Contract PNXToken Unit := do
  require (fun s => s.distributionComplete = false) "Distribution already completed"
  require (fun s => msgSender = s.owner) "Only owner"
  require (fun _ => founderVesting ≠ 0) "Invalid founder vesting"
  require (fun _ => sovereignVault ≠ 0) "Invalid sovereign vault"
  require (fun _ => ecosystemVault ≠ 0) "Invalid ecosystem vault"
  let founderAmount := pnx 55000000
  let sovereignAmount := pnx 122500000
  let ecosystemAmount := pnx 122500000
  let totalToDistribute ← checked (checkedAdd founderAmount sovereignAmount)
  let totalToDistribute ← checked (checkedAdd totalToDistribute ecosystemAmount)
  require (fun s => totalToDistribute ≤ s.balanceOf s.self) "Insufficient reserve"
  write fun s => { s with distributionComplete := true }
  let self ← read PNXToken.self
  debit self founderAmount
  credit founderVesting founderAmount
  debit self sovereignAmount
  credit sovereignVault sovereignAmount
  debit self ecosystemAmount
  credit ecosystemVault ecosystemAmount

/-- `distributeTitanReward`. -/
def distributeTitanReward (msgSender titan : EthAddress) (amount : U256) :
    Contract PNXToken Unit := do
  require (fun s => msgSender = s.owner) "Only owner"
  require (fun _ => titan ≠ 0) "Invalid titan address"
  require (fun _ => 0 < amount) "Amount must be > 0"
  require (fun s => amount ≤ s.balanceOf s.self) "Insufficient reserve"
  let self ← read PNXToken.self
  debit self amount
  credit titan amount
  let rewards ← read PNXToken.totalRewardsDistributed
  let rewards ← checked (checkedAdd rewards amount)
  write fun s => { s with totalRewardsDistributed := rewards }

/-- `transfer`. -/
def transfer (msgSender «to» : EthAddress) (value : U256) : Contract PNXToken Bool := do
  require (fun _ => «to» ≠ 0) "Invalid recipient"
  require (fun s => value ≤ s.balanceOf msgSender) "Insufficient balance"
  debit msgSender value
  credit «to» value
  return true

/-- `approve`. -/
def approve (msgSender spender : EthAddress) (value : U256) : Contract PNXToken Bool := do
  setAllowance msgSender spender value
  return true

/-- `transferFrom`. -/
def transferFrom (msgSender «from» «to» : EthAddress) (value : U256) :
    Contract PNXToken Bool := do
  require (fun s => value ≤ s.balanceOf «from») "Insufficient balance"
  require (fun s => value ≤ s.allowance «from» msgSender) "Insufficient allowance"
  debit «from» value
  credit «to» value
  let allowance ← read fun s => s.allowance «from» msgSender
  let allowance ← checked (checkedSub allowance value)
  setAllowance «from» msgSender allowance
  return true

/-- `increaseAllowance`. -/
def increaseAllowance (msgSender spender : EthAddress) (addedValue : U256) :
    Contract PNXToken Bool := do
  let allowance ← read fun s => s.allowance msgSender spender
  let allowance ← checked (checkedAdd allowance addedValue)
  setAllowance msgSender spender allowance
  return true

/-- `decreaseAllowance`. -/
def decreaseAllowance (msgSender spender : EthAddress) (subtractedValue : U256) :
    Contract PNXToken Bool := do
  let currentAllowance ← read fun s => s.allowance msgSender spender
  require (fun _ => subtractedValue ≤ currentAllowance) "Decreased allowance below zero"
  let allowance ← checked (checkedSub currentAllowance subtractedValue)
  setAllowance msgSender spender allowance
  return true

/-! ## Payments and allowances -/

/-- The balance covers the value, and the other one can take it. -/
def Payable (s : PNXToken) («from» «to» : EthAddress) (value : U256) : Prop :=
  value ≤ s.balanceOf «from» ∧
    (Balances.taken s.balanceOf «from» value «to»).toNat + value.toNat < 2 ^ 256

/-- The state after a payment. -/
def paid (s : PNXToken) («from» «to» : EthAddress) (value : U256) : PNXToken :=
  { s with balanceOf := Balances.moved s.balanceOf «from» «to» value }

/-- The state after an allowance has been set. -/
def allowed (s : PNXToken) (account spender : EthAddress) (value : U256) : PNXToken :=
  { s with
    allowance := Function.update s.allowance account
      (Function.update (s.allowance account) spender value) }

theorem debit_ok {account : EthAddress} {value : U256} {u : Unit} {s s' : PNXToken} :
    debit account value s = .ok (u, s') ↔
      value ≤ s.balanceOf account ∧
        s' = { s with balanceOf := Balances.taken s.balanceOf account value } := by
  simp [debit, checkedSub_eq_some, Balances.taken, BitVec.le_def]

theorem credit_ok {account : EthAddress} {value : U256} {u : Unit} {s s' : PNXToken} :
    credit account value s = .ok (u, s') ↔
      (s.balanceOf account).toNat + value.toNat < 2 ^ 256 ∧
        s' = { s with balanceOf := Balances.given s.balanceOf account value } := by
  simp [credit, checkedAdd_eq_some, Balances.given]

/-- The two updates in place of a payment. -/
theorem pay_ok {«from» «to» : EthAddress} {value : U256} {u : Unit} {s s' : PNXToken} :
    (do debit «from» value; credit «to» value : Contract PNXToken Unit) s = .ok (u, s') ↔
      s.Payable «from» «to» value ∧ s' = s.paid «from» «to» value := by
  rw [bind_ok]
  constructor
  · rintro ⟨_, _, hdebit, hcredit⟩
    obtain ⟨hle, rfl⟩ := debit_ok.mp hdebit
    obtain ⟨hfits, rfl⟩ := credit_ok.mp hcredit
    exact ⟨⟨hle, hfits⟩, rfl⟩
  · rintro ⟨⟨hle, hfits⟩, rfl⟩
    exact ⟨(), _, debit_ok.mpr ⟨hle, rfl⟩, credit_ok.mpr ⟨hfits, rfl⟩⟩

/-- A payment in front of other statements. -/
theorem pay_bind_ok {α : Type} {«from» «to» : EthAddress} {value : U256}
    {rest : Contract PNXToken α} {a : α} {s s' : PNXToken} :
    (do debit «from» value; credit «to» value; rest : Contract PNXToken α) s = .ok (a, s') ↔
      s.Payable «from» «to» value ∧ rest (s.paid «from» «to» value) = .ok (a, s') := by
  rw [bind_ok]
  constructor
  · rintro ⟨_, _, hdebit, hrest⟩
    obtain ⟨hle, rfl⟩ := debit_ok.mp hdebit
    obtain ⟨_, _, hcredit, hrest⟩ := bind_ok.mp hrest
    obtain ⟨hfits, rfl⟩ := credit_ok.mp hcredit
    exact ⟨⟨hle, hfits⟩, hrest⟩
  · rintro ⟨⟨hle, hfits⟩, hrest⟩
    exact ⟨(), _, debit_ok.mpr ⟨hle, rfl⟩, bind_ok.mpr ⟨(), _, credit_ok.mpr ⟨hfits, rfl⟩, hrest⟩⟩

/-! ## When a call succeeds -/

theorem transfer_ok {msgSender «to» : EthAddress} {value : U256} {r : Bool} {s s' : PNXToken} :
    transfer msgSender «to» value s = .ok (r, s') ↔
      «to» ≠ 0 ∧ s.Payable msgSender «to» value ∧ r = true ∧ s' = s.paid msgSender «to» value := by
  rw [transfer, require_bind_ok, require_bind_ok, pay_bind_ok, pure_ok]
  constructor
  · rintro ⟨hto, -, hpay, hres⟩
    exact ⟨hto, hpay, hres⟩
  · rintro ⟨hto, hpay, hres⟩
    exact ⟨hto, hpay.1, hpay, hres⟩

theorem transferFrom_ok {msgSender «from» «to» : EthAddress} {value : U256} {r : Bool}
    {s s' : PNXToken} :
    transferFrom msgSender «from» «to» value s = .ok (r, s') ↔
      value ≤ s.allowance «from» msgSender ∧ s.Payable «from» «to» value ∧ r = true ∧
        s' = (s.paid «from» «to» value).allowed «from» msgSender
          (s.allowance «from» msgSender - value) := by
  rw [transferFrom, require_bind_ok, require_bind_ok, pay_bind_ok, read_bind, checked_bind_ok]
  change _ ∧ _ ∧ _ ∧ (∃ a, checkedSub (s.allowance «from» msgSender) value = some a ∧ _) ↔ _
  constructor
  · rintro ⟨-, hall, hpay, allowance, hsub, hset⟩
    obtain ⟨-, rfl⟩ := checkedSub_eq_some.mp hsub
    exact ⟨hall, hpay, pure_ok.mp hset⟩
  · rintro ⟨hall, hpay, hres⟩
    exact ⟨hpay.1, hall, hpay, _, checkedSub_eq_some.mpr ⟨hall, rfl⟩, pure_ok.mpr hres⟩

theorem approve_ok {msgSender spender : EthAddress} {value : U256} {r : Bool} {s s' : PNXToken} :
    approve msgSender spender value s = .ok (r, s') ↔
      r = true ∧ s' = s.allowed msgSender spender value := by
  exact pure_ok

theorem increaseAllowance_ok {msgSender spender : EthAddress} {addedValue : U256} {r : Bool}
    {s s' : PNXToken} :
    increaseAllowance msgSender spender addedValue s = .ok (r, s') ↔
      (s.allowance msgSender spender).toNat + addedValue.toNat < 2 ^ 256 ∧ r = true ∧
        s' = s.allowed msgSender spender (s.allowance msgSender spender + addedValue) := by
  rw [increaseAllowance, read_bind, checked_bind_ok]
  constructor
  · rintro ⟨allowance, hadd, hset⟩
    obtain ⟨hfits, rfl⟩ := checkedAdd_eq_some.mp hadd
    exact ⟨hfits, pure_ok.mp hset⟩
  · rintro ⟨hfits, hres⟩
    exact ⟨_, checkedAdd_eq_some.mpr ⟨hfits, rfl⟩, pure_ok.mpr hres⟩

theorem decreaseAllowance_ok {msgSender spender : EthAddress} {subtractedValue : U256} {r : Bool}
    {s s' : PNXToken} :
    decreaseAllowance msgSender spender subtractedValue s = .ok (r, s') ↔
      subtractedValue ≤ s.allowance msgSender spender ∧ r = true ∧
        s' = s.allowed msgSender spender (s.allowance msgSender spender - subtractedValue) := by
  rw [decreaseAllowance, read_bind, require_bind_ok, checked_bind_ok]
  constructor
  · rintro ⟨hle, allowance, hsub, hset⟩
    obtain ⟨-, rfl⟩ := checkedSub_eq_some.mp hsub
    exact ⟨hle, pure_ok.mp hset⟩
  · rintro ⟨hle, hres⟩
    exact ⟨hle, _, checkedSub_eq_some.mpr ⟨hle, rfl⟩, pure_ok.mpr hres⟩

theorem distributeTitanReward_ok {msgSender titan : EthAddress} {amount : U256} {u : Unit}
    {s s' : PNXToken} :
    distributeTitanReward msgSender titan amount s = .ok (u, s') ↔
      msgSender = s.owner ∧ titan ≠ 0 ∧ 0 < amount ∧ s.Payable s.self titan amount ∧
        s.totalRewardsDistributed.toNat + amount.toNat < 2 ^ 256 ∧
        s' = { s.paid s.self titan amount with
          totalRewardsDistributed := s.totalRewardsDistributed + amount } := by
  rw [distributeTitanReward, require_bind_ok, require_bind_ok, require_bind_ok, require_bind_ok,
    read_bind, pay_bind_ok, read_bind, checked_bind_ok]
  constructor
  · rintro ⟨howner, htitan, hpos, -, hpay, rewards, hadd, hwrite⟩
    obtain ⟨hfits, rfl⟩ := checkedAdd_eq_some.mp hadd
    exact ⟨howner, htitan, hpos, hpay, hfits, write_ok.mp hwrite⟩
  · rintro ⟨howner, htitan, hpos, hpay, hfits, hres⟩
    exact ⟨howner, htitan, hpos, hpay.1, hpay, _, checkedAdd_eq_some.mpr ⟨hfits, rfl⟩,
      write_ok.mpr hres⟩

/-- The state after the genesis distribution. -/
def distributed (s : PNXToken) (founderVesting sovereignVault ecosystemVault : EthAddress) :
    PNXToken :=
  (({ s with distributionComplete := true }.paid s.self founderVesting (pnx 55000000)).paid
    s.self sovereignVault (pnx 122500000)).paid s.self ecosystemVault (pnx 122500000)

/-- The three payments of the genesis distribution can be made. -/
structure Distributable (s : PNXToken)
    (founderVesting sovereignVault ecosystemVault : EthAddress) : Prop where
  reserve : pnx 300000000 ≤ s.balanceOf s.self
  founder : s.Payable s.self founderVesting (pnx 55000000)
  sovereign : (s.paid s.self founderVesting (pnx 55000000)).Payable s.self sovereignVault
    (pnx 122500000)
  ecosystem : ((s.paid s.self founderVesting (pnx 55000000)).paid s.self sovereignVault
    (pnx 122500000)).Payable s.self ecosystemVault (pnx 122500000)

theorem executeGenesisDistribution_ok
    {msgSender founderVesting sovereignVault ecosystemVault : EthAddress} {u : Unit}
    {s s' : PNXToken} :
    executeGenesisDistribution msgSender founderVesting sovereignVault ecosystemVault s
        = .ok (u, s') ↔
      s.distributionComplete = false ∧ msgSender = s.owner ∧ founderVesting ≠ 0 ∧
        sovereignVault ≠ 0 ∧ ecosystemVault ≠ 0 ∧
        s.Distributable founderVesting sovereignVault ecosystemVault ∧
        s' = s.distributed founderVesting sovereignVault ecosystemVault := by
  have hfirst : checkedAdd (pnx 55000000) (pnx 122500000) = some (pnx 177500000) := by decide
  have hsecond : checkedAdd (pnx 177500000) (pnx 122500000) = some (pnx 300000000) := by decide
  rw [executeGenesisDistribution, require_bind_ok, require_bind_ok, require_bind_ok,
    require_bind_ok, require_bind_ok, checked_bind_ok]
  constructor
  · rintro ⟨hopen, howner, hf, hv, he, _, h₁, hrest⟩
    obtain rfl := Option.some.inj (hfirst.symm.trans h₁)
    obtain ⟨_, h₂, hrest⟩ := checked_bind_ok.mp hrest
    obtain rfl := Option.some.inj (hsecond.symm.trans h₂)
    rw [require_bind_ok, write_bind, read_bind, pay_bind_ok, pay_bind_ok, pay_ok] at hrest
    obtain ⟨hreserve, hfounder, hsovereign, hecosystem, hres⟩ := hrest
    exact ⟨hopen, howner, hf, hv, he, ⟨hreserve, hfounder, hsovereign, hecosystem⟩, hres⟩
  · rintro ⟨hopen, howner, hf, hv, he, hpay, hres⟩
    refine ⟨hopen, howner, hf, hv, he, _, hfirst, checked_bind_ok.mpr ⟨_, hsecond, ?_⟩⟩
    rw [require_bind_ok, write_bind, read_bind, pay_bind_ok, pay_bind_ok, pay_ok]
    exact ⟨hpay.reserve, hpay.founder, hpay.sovereign, hpay.ecosystem, hres⟩

end PNXToken
