/-
# The staking contract

`contracts/TitanStaking.sol`, with the token as `PNXToken`: what its calls change, and when they
succeed.

A record is never deleted.  `isActive` alone says whether the stake of a record is still there,
so the contract owes the sum of the stakes of the active records (`TitanStaking.locked`).

The list that `getActiveValidators` returns is made in two passes, which count the active
validators and then fill an array of that length; it is never written behind its end
(`getActiveValidators_eq`).  Events, and the reason of a slash, which only an event reads, are left
out.
-/
import Pacyte.ContractWorld

/-- `TitanStaking.Validator`. -/
structure TitanStaking.Validator where
  owner : EthAddress
  stake : U256
  joinedAt : U256
  isActive : Bool
  publicKey : List UInt8

/-- `TitanStaking`, with `address(this)` as a field. -/
structure TitanStaking where
  self : EthAddress
  pnxToken : EthAddress
  slashingAuthority : EthAddress
  validators : EthAddress → TitanStaking.Validator
  validatorList : List EthAddress

namespace TitanStaking

open Contract ContractWorld

/-! ## The code -/

/-- `MIN_STAKE`. -/
def minStake : U256 := pnx 1000000

/-- The constructor. -/
def deploy (self pnxToken slashingAuthority : EthAddress) : Contract Unit TitanStaking := do
  require (fun _ => pnxToken ≠ 0) "Invalid token"
  require (fun _ => slashingAuthority ≠ 0) "Invalid authority"
  return ⟨self, pnxToken, slashingAuthority, fun _ => ⟨0, 0, 0, false, []⟩, []⟩

/-- `validators[account] = v`. -/
def setValidator (account : EthAddress) (v : Validator) (c : TitanStaking) : TitanStaking :=
  { c with validators := Function.update c.validators account v }

/-- `pnxToken.transferFrom(msg.sender, address(this), amount)`, which has to succeed. -/
def takeStake (msgSender : EthAddress) (amount : U256) :
    Contract (ContractWorld TitanStaking PNXToken) Unit := do
  let self ← read fun w => w.contract.self
  let paid ← onToken (PNXToken.transferFrom self msgSender self amount)
  require (fun _ => paid = true) "Transfer failed"

/-- `registerValidator`. -/
def registerValidator (msgSender : EthAddress) (blockTimestamp : U256) (publicKey : List UInt8) :
    Contract (ContractWorld TitanStaking PNXToken) Unit := do
  require (fun w => (w.contract.validators msgSender).owner = 0) "Already registered"
  takeStake msgSender minStake
  onContract (write (setValidator msgSender ⟨msgSender, minStake, blockTimestamp, true, publicKey⟩))
  onContract (write fun c => { c with validatorList := c.validatorList ++ [msgSender] })

/-- `increaseStake`. -/
def increaseStake (msgSender : EthAddress) (amount : U256) :
    Contract (ContractWorld TitanStaking PNXToken) Unit := do
  require (fun w => (w.contract.validators msgSender).isActive = true) "Not an active validator"
  takeStake msgSender amount
  let v ← read fun w => w.contract.validators msgSender
  let stake ← checked (checkedAdd v.stake amount)
  onContract (write (setValidator msgSender { v with stake := stake }))

/-- `unregister`. -/
def unregister (msgSender : EthAddress) : Contract (ContractWorld TitanStaking PNXToken) Unit := do
  require (fun w => (w.contract.validators msgSender).isActive = true) "Not an active validator"
  let v ← read fun w => w.contract.validators msgSender
  onContract (write (setValidator msgSender { v with isActive := false }))
  let self ← read fun w => w.contract.self
  let paid ← onToken (PNXToken.transfer self msgSender v.stake)
  require (fun _ => paid = true) "Transfer failed"

/-- `slash`. -/
def slash (msgSender validator : EthAddress) (amount : U256) : Contract TitanStaking Unit := do
  require (fun c => msgSender = c.slashingAuthority) "Only slashing authority"
  require (fun c => (c.validators validator).isActive = true) "Validator not active"
  require (fun c => amount ≤ (c.validators validator).stake) "Amount exceeds stake"
  let v ← read fun c => c.validators validator
  let stake ← checked (checkedSub v.stake amount)
  write (setValidator validator { v with stake := stake })
  if stake < minStake then
    write (setValidator validator { v with stake := stake, isActive := false })

/-- `setSlashingAuthority`. -/
def setSlashingAuthority (msgSender newAuthority : EthAddress) : Contract TitanStaking Unit := do
  require (fun c => msgSender = c.slashingAuthority) "Only slashing authority"
  require (fun _ => newAuthority ≠ 0) "Invalid address"
  write fun c => { c with slashingAuthority := newAuthority }

/-- `getValidatorCount`. -/
def getValidatorCount (c : TitanStaking) : ℕ := c.validatorList.length

/-- The first loop of `getActiveValidators`. -/
def countActive (c : TitanStaking) : ℕ :=
  c.validatorList.foldl (fun count a => if (c.validators a).isActive then count + 1 else count) 0

/-- `active[index] = validator; index++`, which fails behind the end of the array. -/
def storeActive (validator : EthAddress) (p : List EthAddress × ℕ) :
    Option (List EthAddress × ℕ) :=
  if p.2 < p.1.length then some (p.1.set p.2 validator, p.2 + 1) else none

/-- `getActiveValidators`. -/
def getActiveValidators (c : TitanStaking) : Option (List EthAddress) :=
  (c.validatorList.foldlM (fun p a => if (c.validators a).isActive then storeActive a p else some p)
    (List.replicate c.countActive 0, 0)).map Prod.fst

/-- The calls that change the contract. -/
inductive Call where
  | registerValidator (publicKey : List UInt8)
  | increaseStake (amount : U256)
  | unregister
  | slash (validator : EthAddress) (amount : U256)
  | setSlashingAuthority (newAuthority : EthAddress)
  deriving DecidableEq

/-- Run a call. -/
def Call.exec (msgSender : EthAddress) (blockTimestamp : U256) :
    Call → Contract (ContractWorld TitanStaking PNXToken) Unit
  | .registerValidator publicKey =>
      TitanStaking.registerValidator msgSender blockTimestamp publicKey
  | .increaseStake amount => TitanStaking.increaseStake msgSender amount
  | .unregister => TitanStaking.unregister msgSender
  | .slash validator amount => onContract (TitanStaking.slash msgSender validator amount)
  | .setSlashingAuthority newAuthority =>
      onContract (TitanStaking.setSlashingAuthority msgSender newAuthority)

/-! ## The list of the active validators -/

/-- An address has an active record. -/
def Active (c : TitanStaking) (a : EthAddress) : Prop := (c.validators a).isActive = true

instance (c : TitanStaking) : DecidablePred c.Active := fun _ => inferInstanceAs (Decidable (_ = _))

/-- One step of the filter. -/
theorem filter_active_cons (c : TitanStaking) (a : EthAddress) (l : List EthAddress) :
    (a :: l).filter c.Active
      = if (c.validators a).isActive then a :: l.filter c.Active else l.filter c.Active := by
  split_ifs with ha
  · exact List.filter_cons_of_pos (decide_eq_true ha)
  · refine List.filter_cons_of_neg fun h => ha ?_
    exact of_decide_eq_true h

theorem countActive_eq (c : TitanStaking) :
    c.countActive = (c.validatorList.filter c.Active).length := by
  have hgen : ∀ (l : List EthAddress) (n : ℕ),
      l.foldl (fun count a => if (c.validators a).isActive then count + 1 else count) n
        = n + (l.filter c.Active).length := by
    intro l
    induction l with
    | nil => exact fun n => rfl
    | cons a l ih =>
        intro n
        rw [List.foldl_cons, ih]
        by_cases ha : (c.validators a).isActive = true
        · rw [if_pos ha, filter_active_cons, if_pos ha, List.length_cons]
          omega
        · rw [if_neg ha, filter_active_cons, if_neg ha]
  rw [countActive, hgen, Nat.zero_add]

/-- **The two passes fit together**: the array is filled to its end and never behind it. -/
theorem getActiveValidators_eq (c : TitanStaking) :
    c.getActiveValidators = some (c.validatorList.filter c.Active) := by
  -- what is filled so far, and room for the rest
  have hgen : ∀ (l done : List EthAddress),
      l.foldlM (fun p a => if (c.validators a).isActive then storeActive a p else some p)
          (done ++ List.replicate (l.filter c.Active).length 0, done.length)
        = some (done ++ l.filter c.Active, (done ++ l.filter c.Active).length) := by
    intro l
    induction l with
    | nil =>
        intro done
        simp
    | cons a l ih =>
        intro done
        rw [List.foldlM_cons]
        by_cases ha : (c.validators a).isActive = true
        · have hfilter : (a :: l).filter c.Active = a :: l.filter c.Active := by
            rw [filter_active_cons, if_pos ha]
          have hstore : storeActive a
              (done ++ List.replicate ((a :: l).filter c.Active).length 0, done.length)
              = some ((done ++ [a]) ++ List.replicate (l.filter c.Active).length 0,
                (done ++ [a]).length) := by
            rw [hfilter, List.length_cons, List.replicate_succ, storeActive, if_pos (by simp)]
            simp
          rw [if_pos ha, hstore, Option.bind_eq_bind, Option.bind_some, ih (done ++ [a]), hfilter]
          simp
        · have hfilter : (a :: l).filter c.Active = l.filter c.Active := by
            rw [filter_active_cons, if_neg ha]
          rw [if_neg ha, Option.bind_eq_bind, Option.bind_some, hfilter, ih done]
  have hrun := hgen c.validatorList []
  rw [List.nil_append, List.nil_append, List.length_nil, ← countActive_eq] at hrun
  rw [getActiveValidators, hrun, Option.map_some]

/-! ## When a call succeeds -/

abbrev StakingWorld : Type := ContractWorld TitanStaking PNXToken

/-- The token after a stake has been taken. -/
def taken (w : StakingWorld) (account : EthAddress) (amount : U256) : PNXToken :=
  (w.token.paid account w.contract.self amount).allowed account w.contract.self
    (w.token.allowance account w.contract.self - amount)

theorem takeStake_bind_ok {msgSender : EthAddress} {amount : U256} {α : Type}
    {rest : Contract (ContractWorld TitanStaking PNXToken) α} {r : α} {w w' : StakingWorld} :
    (do takeStake msgSender amount; rest : Contract StakingWorld α) w = .ok (r, w') ↔
      amount ≤ w.token.allowance msgSender w.contract.self ∧
        w.token.Payable msgSender w.contract.self amount ∧
        rest { w with token := taken w msgSender amount } = .ok (r, w') := by
  have htake : ∀ {u : Unit} {v : StakingWorld}, takeStake msgSender amount w = .ok (u, v) ↔
      amount ≤ w.token.allowance msgSender w.contract.self ∧
        w.token.Payable msgSender w.contract.self amount ∧
        v = { w with token := taken w msgSender amount } := by
    intro u v
    rw [takeStake, read_bind, onToken_bind_ok]
    constructor
    · rintro ⟨paid, t, htransfer, h⟩
      obtain ⟨hallowed, hpay, -, rfl⟩ := PNXToken.transferFrom_ok.mp htransfer
      exact ⟨hallowed, hpay, (require_ok.mp h).2⟩
    · rintro ⟨hallowed, hpay, rfl⟩
      exact ⟨true, _, PNXToken.transferFrom_ok.mpr ⟨hallowed, hpay, rfl, rfl⟩,
        require_ok.mpr ⟨rfl, rfl⟩⟩
  rw [bind_ok]
  constructor
  · rintro ⟨_, _, h, hrest⟩
    obtain ⟨hallowed, hpay, rfl⟩ := htake.mp h
    exact ⟨hallowed, hpay, hrest⟩
  · rintro ⟨hallowed, hpay, hrest⟩
    exact ⟨(), _, htake.mpr ⟨hallowed, hpay, rfl⟩, hrest⟩

/-- The contract after a registration. -/
def registered (c : TitanStaking) (account : EthAddress) (blockTimestamp : U256)
    (publicKey : List UInt8) : TitanStaking :=
  { setValidator account ⟨account, minStake, blockTimestamp, true, publicKey⟩ c with
    validatorList := c.validatorList ++ [account] }

theorem registerValidator_ok {msgSender : EthAddress} {t : U256} {publicKey : List UInt8}
    {u : Unit} {w w' : StakingWorld} :
    registerValidator msgSender t publicKey w = .ok (u, w') ↔
      (w.contract.validators msgSender).owner = 0 ∧
        minStake ≤ w.token.allowance msgSender w.contract.self ∧
        w.token.Payable msgSender w.contract.self minStake ∧
        w' = ⟨w.contract.registered msgSender t publicKey, taken w msgSender minStake, w.now⟩ := by
  rw [registerValidator, require_bind_ok, takeStake_bind_ok]
  refine and_congr_right fun _ => and_congr_right fun _ => and_congr_right fun _ => ?_
  rw [onContract_bind_ok]
  constructor
  · rintro ⟨_, c, hset, hpush⟩
    obtain rfl := write_ok.mp hset
    obtain ⟨c', hwrite, rfl⟩ := onContract_ok.mp hpush
    rw [write_ok.mp hwrite]
    rfl
  · rintro rfl
    exact ⟨(), _, write_ok.mpr rfl, onContract_ok.mpr ⟨_, write_ok.mpr rfl, rfl⟩⟩

/-- A record after a payment. -/
def Validator.raised (v : Validator) (amount : U256) : Validator :=
  { v with stake := v.stake + amount }

/-- A record after its owner has left. -/
def Validator.retired (v : Validator) : Validator := { v with isActive := false }

theorem increaseStake_ok {msgSender : EthAddress} {amount : U256} {u : Unit}
    {w w' : StakingWorld} :
    increaseStake msgSender amount w = .ok (u, w') ↔
      (w.contract.validators msgSender).isActive = true ∧
        amount ≤ w.token.allowance msgSender w.contract.self ∧
        w.token.Payable msgSender w.contract.self amount ∧
        (w.contract.validators msgSender).stake.toNat + amount.toNat < 2 ^ 256 ∧
        w' = ⟨setValidator msgSender ((w.contract.validators msgSender).raised amount) w.contract,
          taken w msgSender amount, w.now⟩ := by
  rw [increaseStake, require_bind_ok, takeStake_bind_ok]
  refine and_congr_right fun _ => and_congr_right fun _ => and_congr_right fun _ => ?_
  rw [read_bind, checked_bind_ok]
  constructor
  · rintro ⟨stake, hadd, hset⟩
    obtain ⟨hfits, rfl⟩ := checkedAdd_eq_some.mp hadd
    obtain ⟨c, hwrite, rfl⟩ := onContract_ok.mp hset
    rw [write_ok.mp hwrite]
    exact ⟨hfits, rfl⟩
  · rintro ⟨hfits, rfl⟩
    exact ⟨_, checkedAdd_eq_some.mpr ⟨hfits, rfl⟩, onContract_ok.mpr ⟨_, write_ok.mpr rfl, rfl⟩⟩

theorem unregister_ok {msgSender : EthAddress} {u : Unit} {w w' : StakingWorld} :
    unregister msgSender w = .ok (u, w') ↔
      (w.contract.validators msgSender).isActive = true ∧ msgSender ≠ 0 ∧
        w.token.Payable w.contract.self msgSender (w.contract.validators msgSender).stake ∧
        w' = ⟨setValidator msgSender (w.contract.validators msgSender).retired w.contract,
          w.token.paid w.contract.self msgSender (w.contract.validators msgSender).stake,
          w.now⟩ := by
  rw [unregister, require_bind_ok, read_bind, onContract_bind_ok]
  refine and_congr_right fun _ => ?_
  constructor
  · rintro ⟨_, c, hset, h⟩
    obtain rfl := write_ok.mp hset
    rw [read_bind, onToken_bind_ok] at h
    obtain ⟨paid, t, htransfer, h⟩ := h
    obtain ⟨hto, hpay, -, rfl⟩ := PNXToken.transfer_ok.mp htransfer
    exact ⟨hto, hpay, (require_ok.mp h).2⟩
  · rintro ⟨hto, hpay, rfl⟩
    refine ⟨(), _, write_ok.mpr rfl, ?_⟩
    rw [read_bind, onToken_bind_ok]
    exact ⟨true, _, PNXToken.transfer_ok.mpr ⟨hto, hpay, rfl, rfl⟩, require_ok.mpr ⟨rfl, rfl⟩⟩

/-- A record after a slash. -/
def Validator.slashed (v : Validator) (amount : U256) : Validator :=
  { v with
    stake := v.stake - amount
    isActive := if v.stake - amount < minStake then false else v.isActive }

theorem slash_ok {msgSender validator : EthAddress} {amount : U256} {u : Unit}
    {c c' : TitanStaking} :
    slash msgSender validator amount c = .ok (u, c') ↔
      msgSender = c.slashingAuthority ∧ (c.validators validator).isActive = true ∧
        amount ≤ (c.validators validator).stake ∧
        c' = setValidator validator ((c.validators validator).slashed amount) c := by
  rw [slash, require_bind_ok, require_bind_ok, require_bind_ok]
  refine and_congr_right fun _ => and_congr_right fun _ => and_congr_right fun hle => ?_
  have hsub : checkedSub (c.validators validator).stake amount
      = some ((c.validators validator).stake - amount) :=
    checkedSub_eq_some.mpr ⟨BitVec.le_def.mp hle, rfl⟩
  rw [read_bind, hsub, checked_bind_ok]
  simp only [Option.some_inj, exists_eq_left']
  rw [write_bind]
  split_ifs with hlow
  · rw [write_ok, Validator.slashed, if_pos hlow]
    simp [setValidator]
  · rw [pure_ok, Validator.slashed, if_neg hlow]
    simp

theorem setSlashingAuthority_ok {msgSender newAuthority : EthAddress} {u : Unit}
    {c c' : TitanStaking} :
    setSlashingAuthority msgSender newAuthority c = .ok (u, c') ↔
      msgSender = c.slashingAuthority ∧ newAuthority ≠ 0 ∧
        c' = { c with slashingAuthority := newAuthority } := by
  rw [setSlashingAuthority, require_bind_ok, require_bind_ok, write_ok]

/-! ## What the contract owes -/

/-- The stake that a record stands for. -/
def Validator.held (v : Validator) : ℕ := if v.isActive then v.stake.toNat else 0

/-- The sum of the stakes of the active records. -/
noncomputable def locked (c : TitanStaking) : ℕ := ∑ a, (c.validators a).held

@[simp] theorem setValidator_self (account : EthAddress) (v : Validator) (c : TitanStaking) :
    (setValidator account v c).validators account = v := Function.update_self _ _ _

theorem setValidator_of_ne {account a : EthAddress} (h : a ≠ account) (v : Validator)
    (c : TitanStaking) : (setValidator account v c).validators a = c.validators a :=
  Function.update_of_ne h _ _

/-- One record changes. -/
theorem locked_setValidator (account : EthAddress) (v : Validator) (c : TitanStaking) :
    (setValidator account v c).locked + (c.validators account).held = c.locked + v.held := by
  have hpoint : ∀ a, ((setValidator account v c).validators a).held
      + (if a = account then (c.validators account).held else 0)
      = (c.validators a).held + (if a = account then v.held else 0) := by
    intro a
    by_cases ha : a = account
    · rw [if_pos ha, if_pos ha, ha, setValidator_self, Nat.add_comm]
    · rw [if_neg ha, if_neg ha, setValidator_of_ne ha]
  have hsum := Finset.sum_congr (rfl : Finset.univ = Finset.univ) fun a _ => hpoint a
  rw [Finset.sum_add_distrib, Finset.sum_add_distrib, Finset.sum_ite_eq', Finset.sum_ite_eq',
    if_pos (Finset.mem_univ _), if_pos (Finset.mem_univ _)] at hsum
  exact hsum

end TitanStaking
