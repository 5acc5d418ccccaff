/-
# Runs of the staking contract

Any messages of any senders to `TitanStaking`, with messages of other accounts to the token in
between.  The books say what every address has paid in, what was slashed, and what it has
received (`Books`); they are kept beside the contract, which does not read them.

* An address that is in the list has an active record, or was slashed below `MIN_STAKE`, or was
  paid out (`Listed`); in each case the books and the record agree.
* `Solvent` is the invariant of every run: the balance covers what the contract owes.
* A validator that was slashed below `MIN_STAKE` is not active any more, and only an active one
  can leave: what is left of its stake stays in the contract (`unregister_pays_iff`).
-/
import Pacyte.TitanStaking

namespace TitanStaking

open Contract ContractWorld

/-! ## The books -/

/-- The world, and what every address has paid in, lost and received. -/
structure Books where
  world : StakingWorld
  deposits : EthAddress → ℕ
  slashes : EthAddress → ℕ
  payouts : EthAddress → List ℕ

/-- Add an amount at one address. -/
def added (f : EthAddress → ℕ) (a : EthAddress) (n : ℕ) : EthAddress → ℕ :=
  Function.update f a (f a + n)

/-- What a call books that has taken effect.  A payment is what the balance of the sender has
grown by. -/
def Books.book (b : Books) (sender : EthAddress) (after : StakingWorld) : Call → Books
  | .registerValidator _ =>
      { b with world := after, deposits := added b.deposits sender minStake.toNat }
  | .increaseStake amount =>
      { b with world := after, deposits := added b.deposits sender amount.toNat }
  | .unregister =>
      { b with
        world := after
        payouts := Function.update b.payouts sender (b.payouts sender ++
          [(after.token.balanceOf sender).toNat - (b.world.token.balanceOf sender).toNat]) }
  | .slash validator amount =>
      { b with world := after, slashes := added b.slashes validator amount.toNat }
  | .setSlashingAuthority _ => { b with world := after }

/-- A message to the contract, or one to the token. -/
inductive Action where
  | staking (message : BlockMessage Call)
  | token (message : Message TokenCall)
  deriving DecidableEq

/-- One message. -/
def step : Action → Books → Books
  | .staking message, b =>
      match message.call.exec message.sender message.timestamp b.world with
      | .ok (_, w) => b.book message.sender { w with now := message.timestamp } message.call
      | .error _ => { b with world := { b.world with now := message.timestamp } }
  | .token message, b => { b with world := outside message b.world }

/-- The books of a contract that has just been deployed. -/
def Books.opened (c : TitanStaking) (token : PNXToken) (now : U256) : Books :=
  ⟨⟨c, token, now⟩, fun _ => 0, fun _ => 0, fun _ => []⟩

/-! ## Records and books -/

/-- An address without a record. -/
structure Absent (v : Validator) (deposits slashes : ℕ) (payouts : List ℕ) : Prop where
  owner : v.owner = 0
  inactive : v.isActive = false
  deposits : deposits = 0
  slashes : slashes = 0
  payouts : payouts = []

/-- The record of a registered address: the stake is there, or it was slashed too far, or it has
been paid out. -/
inductive Listed (a : EthAddress) (v : Validator) (deposits slashes : ℕ) (payouts : List ℕ) : Prop
  | active (owner : v.owner = a) (isActive : v.isActive = true)
      (hmin : minStake.toNat ≤ v.stake.toNat) (hstake : deposits = v.stake.toNat + slashes)
      (hpayouts : payouts = [])
  | slashed (owner : v.owner = a) (isActive : v.isActive = false) (hle : slashes ≤ deposits)
      (hlow : deposits - slashes < minStake.toNat) (hpayouts : payouts = [])
  | paid (owner : v.owner = a) (isActive : v.isActive = false) (hle : slashes ≤ deposits)
      (hpayouts : payouts = [deposits - slashes])

/-- The records agree with the books. -/
structure Recorded (c : TitanStaking) (deposits slashes : EthAddress → ℕ)
    (payouts : EthAddress → List ℕ) : Prop where
  nodup : c.validatorList.Nodup
  absent : ∀ a ∉ c.validatorList, Absent (c.validators a) (deposits a) (slashes a) (payouts a)
  listed : ∀ a ∈ c.validatorList, Listed a (c.validators a) (deposits a) (slashes a) (payouts a)

/-- An active record is in the list, and its books are open. -/
theorem Recorded.of_active {c : TitanStaking} {deposits slashes : EthAddress → ℕ}
    {payouts : EthAddress → List ℕ} (h : Recorded c deposits slashes payouts) {a : EthAddress}
    (ha : (c.validators a).isActive = true) :
    a ∈ c.validatorList ∧ (c.validators a).owner = a ∧
      minStake.toNat ≤ (c.validators a).stake.toNat ∧
      deposits a = (c.validators a).stake.toNat + slashes a ∧ payouts a = [] := by
  by_cases hmem : a ∈ c.validatorList
  · cases h.listed a hmem with
    | active howner _ hmin hstake hpayouts => exact ⟨hmem, howner, hmin, hstake, hpayouts⟩
    | slashed _ hno => rw [hno] at ha; cases ha
    | paid _ hno => rw [hno] at ha; cases ha
  · rw [(h.absent a hmem).inactive] at ha
    cases ha

/-- One record of the list changes, with its books. -/
theorem Recorded.setValidator {c : TitanStaking} {deposits slashes : EthAddress → ℕ}
    {payouts : EthAddress → List ℕ} (h : Recorded c deposits slashes payouts) {a : EthAddress}
    (hmem : a ∈ c.validatorList) {v : Validator} {deposits' slashes' : EthAddress → ℕ}
    {payouts' : EthAddress → List ℕ} (hdeposits : ∀ x, x ≠ a → deposits' x = deposits x)
    (hslashes : ∀ x, x ≠ a → slashes' x = slashes x)
    (hpayouts : ∀ x, x ≠ a → payouts' x = payouts x)
    (hnew : Listed a v (deposits' a) (slashes' a) (payouts' a)) :
    Recorded (TitanStaking.setValidator a v c) deposits' slashes' payouts' := by
  refine ⟨h.nodup, fun x hx => ?_, fun x hx => ?_⟩
  · have hne : x ≠ a := fun heq => hx (heq ▸ hmem)
    rw [setValidator_of_ne hne, hdeposits x hne, hslashes x hne, hpayouts x hne]
    exact h.absent x hx
  · by_cases hne : x = a
    · rw [hne, setValidator_self]
      exact hnew
    · rw [setValidator_of_ne hne, hdeposits x hne, hslashes x hne, hpayouts x hne]
      exact h.listed x hx

/-- A new record. -/
theorem Recorded.registered {c : TitanStaking} {deposits slashes : EthAddress → ℕ}
    {payouts : EthAddress → List ℕ} (h : Recorded c deposits slashes payouts) {a : EthAddress}
    (hmem : a ∉ c.validatorList) (t : U256) (publicKey : List UInt8) :
    Recorded (c.registered a t publicKey) (added deposits a minStake.toNat) slashes payouts := by
  have habsent := h.absent a hmem
  refine ⟨?_, fun x hx => ?_, fun x hx => ?_⟩
  · exact List.nodup_append.mpr ⟨h.nodup, List.nodup_singleton a, by
      intro x hx y hy
      rw [List.mem_singleton.mp hy]
      exact fun heq => hmem (heq ▸ hx)⟩
  · have hx' : x ∉ c.validatorList ++ [a] := hx
    rw [List.mem_append, List.mem_singleton, not_or] at hx'
    rw [added, Function.update_of_ne hx'.2]
    change Absent ((TitanStaking.setValidator a _ c).validators x) _ _ _
    rw [setValidator_of_ne hx'.2]
    exact h.absent x hx'.1
  · have hx' : x ∈ c.validatorList ++ [a] := hx
    rw [List.mem_append, List.mem_singleton] at hx'
    change Listed x ((TitanStaking.setValidator a _ c).validators x) _ _ _
    by_cases hne : x = a
    · subst hne
      rw [setValidator_self, added, Function.update_self]
      refine .active rfl rfl (Nat.le_refl _) ?_ habsent.payouts
      rw [habsent.deposits, habsent.slashes, Nat.zero_add, Nat.add_zero]
    · rw [setValidator_of_ne hne, added, Function.update_of_ne hne]
      exact h.listed x (hx'.resolve_right hne)

/-! ## The invariant -/

/-- The contract at `holder` has what it owes. -/
structure Solvent (holder : EthAddress) (b : Books) : Prop where
  self_eq : b.world.contract.self = holder
  unspent : Unspent holder b.world.token
  member : ∀ a ∈ b.world.contract.validatorList, a ≠ 0 ∧ a ≠ holder
  recorded : Recorded b.world.contract b.deposits b.slashes b.payouts
  covered : b.world.contract.locked ≤ (b.world.token.balanceOf holder).toNat

theorem solvent_opened {self tokenAddress slashingAuthority : EthAddress} {c : TitanStaking}
    {e : Unit} (hdeploy : deploy self tokenAddress slashingAuthority () = .ok (c, e))
    (hself : self ≠ tokenAddress) (owner : EthAddress) (now : U256) :
    Solvent self (Books.opened c (PNXToken.deploy tokenAddress owner) now) := by
  rw [deploy, require_bind_ok, require_bind_ok, pure_ok] at hdeploy
  obtain ⟨-, -, rfl, -⟩ := hdeploy
  refine ⟨rfl, unspent_deploy hself owner, (fun a ha => nomatch ha), ?_, ?_⟩
  · exact ⟨List.nodup_nil, fun a _ => ⟨rfl, rfl, rfl, rfl, rfl⟩, (fun a ha => nomatch ha)⟩
  · have hnothing : locked ⟨self, tokenAddress, slashingAuthority,
        fun _ => ⟨0, 0, 0, false, []⟩, []⟩ = 0 := Finset.sum_eq_zero fun a _ => rfl
    exact hnothing.le.trans (Nat.zero_le _)

theorem held_of_active {v : Validator} (h : v.isActive = true) : v.held = v.stake.toNat := if_pos h

theorem held_of_inactive {v : Validator} (h : v.isActive = false) : v.held = 0 := by
  rw [Validator.held, h]
  rfl

/-- Nothing is allowed to be spent, so `MIN_STAKE` is not. -/
theorem not_minStake_le {x : U256} (h : x = 0) : ¬ minStake ≤ x := by
  rw [h]
  decide

/-! ## Steps -/

section Steps

variable {holder : EthAddress} {b : Books} {sender : EthAddress} {t : U256}

/-- Somebody who can pay the minimum is another account than the contract. -/
theorem Solvent.payer (h : Solvent holder b) (account : EthAddress)
    (hallowed : minStake ≤ b.world.token.allowance account b.world.contract.self) :
    account ≠ 0 ∧ account ≠ holder := by
  constructor
  · rintro rfl
    exact not_minStake_le (h.unspent.nobody _) hallowed
  · rintro rfl
    exact not_minStake_le (h.unspent.contract _) hallowed

theorem Solvent.registerValidator (h : Solvent holder b) {publicKey : List UInt8} {u : Unit}
    {w : StakingWorld} (hok : registerValidator sender t publicKey b.world = .ok (u, w)) :
    Solvent holder (b.book sender { w with now := t } (.registerValidator publicKey)) := by
  obtain ⟨howner, hallowed, hpay, rfl⟩ := registerValidator_ok.mp hok
  obtain ⟨hzero, hne⟩ := h.payer sender hallowed
  obtain rfl := h.self_eq
  obtain ⟨hunspent, hbalance⟩ := h.unspent.received hzero hne hpay
    (b.world.token.allowance sender b.world.contract.self - minStake)
  have hmem : sender ∉ b.world.contract.validatorList := by
    intro hmem
    refine hzero ?_
    cases h.recorded.listed sender hmem with
    | active howner' => exact howner'.symm.trans howner
    | slashed howner' => exact howner'.symm.trans howner
    | paid howner' => exact howner'.symm.trans howner
  have habsent := h.recorded.absent sender hmem
  refine ⟨h.self_eq, hunspent, fun a ha => ?_, h.recorded.registered hmem t publicKey, ?_⟩
  · rcases List.mem_append.mp ha with ha | ha
    · exact h.member a ha
    · rw [List.mem_singleton.mp ha]
      exact ⟨hzero, hne⟩
  · have hlocked := locked_setValidator sender ⟨sender, minStake, t, true, publicKey⟩
      b.world.contract
    rw [held_of_inactive habsent.inactive, held_of_active rfl, Nat.add_zero] at hlocked
    refine hlocked.le.trans ((Nat.add_le_add_right h.covered _).trans ?_)
    exact hbalance.ge

theorem Solvent.increaseStake (h : Solvent holder b) {amount : U256} {u : Unit}
    {w : StakingWorld} (hok : increaseStake sender amount b.world = .ok (u, w)) :
    Solvent holder (b.book sender { w with now := t } (.increaseStake amount)) := by
  obtain ⟨hactive, hallowed, hpay, hfits, rfl⟩ := increaseStake_ok.mp hok
  obtain ⟨hmem, howner, hmin, hstake, hpayouts⟩ := h.recorded.of_active hactive
  obtain ⟨hzero, hne⟩ := h.member sender hmem
  obtain rfl := h.self_eq
  obtain ⟨hunspent, hbalance⟩ := h.unspent.received hzero hne hpay
    (b.world.token.allowance sender b.world.contract.self - amount)
  have hsum : ((b.world.contract.validators sender).stake + amount).toNat
      = (b.world.contract.validators sender).stake.toNat + amount.toNat :=
    BitVec.toNat_add_of_lt hfits
  refine ⟨h.self_eq, hunspent, h.member, ?_, ?_⟩
  · refine h.recorded.setValidator hmem (fun x hx => Function.update_of_ne hx _ _)
      (fun _ _ => rfl) (fun _ _ => rfl) ?_
    have hdeposits : added b.deposits sender amount.toNat sender
        = b.deposits sender + amount.toNat := Function.update_self _ _ _
    change Listed sender _ (added b.deposits sender amount.toNat sender) (b.slashes sender)
      (b.payouts sender)
    rw [hdeposits]
    refine .active howner hactive ?_ ?_ hpayouts
    · change _ ≤ ((b.world.contract.validators sender).stake + amount).toNat
      omega
    · change _ = ((b.world.contract.validators sender).stake + amount).toNat + _
      omega
  · have hlocked := locked_setValidator sender
      ((b.world.contract.validators sender).raised amount) b.world.contract
    have hheld : ((b.world.contract.validators sender).raised amount).held
        = (b.world.contract.validators sender).stake.toNat + amount.toNat :=
      (held_of_active (v := (b.world.contract.validators sender).raised amount) hactive).trans hsum
    rw [held_of_active hactive, hheld] at hlocked
    have hcovered := h.covered
    change locked (TitanStaking.setValidator sender _ b.world.contract)
      ≤ ((taken b.world sender amount).balanceOf b.world.contract.self).toNat
    rw [taken, hbalance]
    omega

theorem Solvent.unregister (h : Solvent holder b) {u : Unit} {w : StakingWorld}
    (hok : unregister sender b.world = .ok (u, w)) :
    Solvent holder (b.book sender { w with now := t } .unregister) := by
  obtain ⟨hactive, hzero, hpay, rfl⟩ := unregister_ok.mp hok
  obtain ⟨hmem, howner, hmin, hstake, hpayouts⟩ := h.recorded.of_active hactive
  have hne := (h.member sender hmem).2
  obtain rfl := h.self_eq
  obtain ⟨hunspent, hspent, hreceived⟩ := h.unspent.spent hne hpay
  refine ⟨rfl, hunspent, h.member, ?_, ?_⟩
  · refine h.recorded.setValidator hmem (fun _ _ => rfl) (fun _ _ => rfl)
      (fun x hx => Function.update_of_ne hx _ _) (.paid howner rfl ?_ ?_)
    · change b.slashes sender ≤ b.deposits sender
      omega
    · change Function.update b.payouts sender _ sender = [b.deposits sender - b.slashes sender]
      rw [Function.update_self, hpayouts, List.nil_append]
      congr 1
      change ((b.world.token.paid b.world.contract.self sender _).balanceOf sender).toNat - _ = _
      rw [hreceived]
      omega
  · have hlocked := locked_setValidator sender (b.world.contract.validators sender).retired
      b.world.contract
    rw [held_of_active hactive, held_of_inactive rfl, Nat.add_zero] at hlocked
    have hcovered := h.covered
    change locked (TitanStaking.setValidator sender _ b.world.contract)
      ≤ ((b.world.token.paid b.world.contract.self sender _).balanceOf _).toNat
    omega

theorem Solvent.slash (h : Solvent holder b) {validator : EthAddress} {amount : U256} {u : Unit}
    {c : TitanStaking} (hok : slash sender validator amount b.world.contract = .ok (u, c)) :
    Solvent holder (b.book sender ⟨c, b.world.token, t⟩ (.slash validator amount)) := by
  obtain ⟨-, hactive, hle, rfl⟩ := slash_ok.mp hok
  obtain ⟨hmem, howner, hmin, hstake, hpayouts⟩ := h.recorded.of_active hactive
  have hsub : ((b.world.contract.validators validator).stake - amount).toNat
      = (b.world.contract.validators validator).stake.toNat - amount.toNat :=
    BitVec.toNat_sub_of_le hle
  have hle' := BitVec.le_def.mp hle
  have hslashes : added b.slashes validator amount.toNat validator
      = b.slashes validator + amount.toNat := Function.update_self _ _ _
  refine ⟨h.self_eq, h.unspent, h.member, ?_, ?_⟩
  · refine h.recorded.setValidator hmem (fun _ _ => rfl)
      (fun x hx => Function.update_of_ne hx _ _) (fun _ _ => rfl) ?_
    change Listed validator _ (b.deposits validator)
      (added b.slashes validator amount.toNat validator) (b.payouts validator)
    rw [hslashes]
    by_cases hlow : (b.world.contract.validators validator).stake - amount < minStake
    · have hlow' := BitVec.lt_def.mp hlow
      rw [hsub] at hlow'
      exact .slashed howner (if_pos hlow) (by omega) (by omega) hpayouts
    · have hlow' := BitVec.le_def.mp (BitVec.not_lt.mp hlow)
      refine .active howner ((if_neg hlow).trans hactive) hlow' ?_ hpayouts
      change _ = ((b.world.contract.validators validator).stake - amount).toNat + _
      rw [hsub]
      omega
  · have hlocked := locked_setValidator validator
      ((b.world.contract.validators validator).slashed amount) b.world.contract
    have hheld : ((b.world.contract.validators validator).slashed amount).held
        ≤ (b.world.contract.validators validator).stake.toNat := by
      unfold Validator.held
      split_ifs
      · change ((b.world.contract.validators validator).stake - amount).toNat ≤ _
        rw [hsub]
        exact Nat.sub_le _ _
      · exact Nat.zero_le _
    rw [held_of_active hactive] at hlocked
    have hcovered := h.covered
    change locked (TitanStaking.setValidator validator _ b.world.contract)
      ≤ (b.world.token.balanceOf holder).toNat
    omega

theorem Solvent.setSlashingAuthority (h : Solvent holder b) {newAuthority : EthAddress} {u : Unit}
    {c : TitanStaking}
    (hok : setSlashingAuthority sender newAuthority b.world.contract = .ok (u, c)) :
    Solvent holder (b.book sender ⟨c, b.world.token, t⟩ (.setSlashingAuthority newAuthority)) := by
  obtain ⟨-, -, rfl⟩ := setSlashingAuthority_ok.mp hok
  exact ⟨h.self_eq, h.unspent, h.member,
    ⟨h.recorded.nodup, h.recorded.absent, h.recorded.listed⟩, h.covered⟩

/-- A message that does not come from the contract, if it goes to the token. -/
def Possible (holder : EthAddress) : Action → Prop
  | .staking _ => True
  | .token message => Elsewhere holder message

/-- **Every message keeps the invariant.** -/
theorem Solvent.step (h : Solvent holder b) {action : Action} (hpossible : Possible holder action) :
    Solvent holder (step action b) := by
  cases action with
  | token message =>
      obtain ⟨hunspent, hle⟩ := h.unspent.outside hpossible
      exact ⟨h.self_eq, hunspent, h.member, h.recorded,
        h.covered.trans (BitVec.le_def.mp hle)⟩
  | staking message =>
      obtain ⟨⟨sender, call⟩, t⟩ := message
      rw [TitanStaking.step]
      cases hexec : call.exec sender t b.world with
      | error e => exact ⟨h.self_eq, h.unspent, h.member, h.recorded, h.covered⟩
      | ok p =>
          obtain ⟨u, w⟩ := p
          cases call with
          | registerValidator publicKey => exact h.registerValidator hexec
          | increaseStake amount => exact h.increaseStake hexec
          | unregister => exact h.unregister hexec
          | slash validator amount =>
              obtain ⟨c, hslash, rfl⟩ := onContract_ok.mp hexec
              exact h.slash hslash
          | setSlashingAuthority newAuthority =>
              obtain ⟨c, hset, rfl⟩ := onContract_ok.mp hexec
              exact h.setSlashingAuthority hset

end Steps

/-! ## Runs -/

/-- The invariant holds in every state of every run. -/
theorem solvent_run {self tokenAddress slashingAuthority : EthAddress} {c : TitanStaking}
    {e : Unit} (hdeploy : deploy self tokenAddress slashingAuthority () = .ok (c, e))
    (hself : self ≠ tokenAddress) (owner : EthAddress) (now : U256) {actions : List Action}
    (hactions : ∀ action ∈ actions, Possible self action) :
    Solvent self
      (Runs.run step (Books.opened c (PNXToken.deploy tokenAddress owner) now) actions) :=
  (Runs.along_of_mem hactions).invariant (fun _ _ h hpossible => h.step hpossible)
    (solvent_opened hdeploy hself owner now)

/-- **The contract is solvent in every run.**  Its balance covers the stakes of the active
validators, each of which has at least the minimum; every owner is paid at most once, and then
what it has paid in without what was slashed; the list has no repetitions, and
`getActiveValidators` returns the active validators, each of them once. -/
theorem balance_covers_stakes {self tokenAddress slashingAuthority : EthAddress} {c : TitanStaking}
    {e : Unit} (hdeploy : deploy self tokenAddress slashingAuthority () = .ok (c, e))
    (hself : self ≠ tokenAddress) (owner : EthAddress) (now : U256) {actions : List Action}
    (hactions : ∀ action ∈ actions, Possible self action) :
    let b := Runs.run step (Books.opened c (PNXToken.deploy tokenAddress owner) now) actions
    b.world.contract.locked ≤ (b.world.token.balanceOf self).toNat ∧
      (∀ a, b.world.contract.Active a → minStake ≤ (b.world.contract.validators a).stake) ∧
      (∀ a, b.payouts a = [] ∨
        b.slashes a ≤ b.deposits a ∧ b.payouts a = [b.deposits a - b.slashes a]) ∧
      b.world.contract.validatorList.Nodup ∧
      ∃ active, b.world.contract.getActiveValidators = some active ∧ active.Nodup ∧
        ∀ a, a ∈ active ↔ b.world.contract.Active a := by
  intro b
  have h : Solvent self b := solvent_run hdeploy hself owner now hactions
  refine ⟨h.covered, fun a ha => ?_, fun a => ?_, h.recorded.nodup, _, getActiveValidators_eq _,
    h.recorded.nodup.filter _, fun a => ?_⟩
  · obtain ⟨-, -, hmin, -⟩ := h.recorded.of_active ha
    exact BitVec.le_def.mpr hmin
  · by_cases hmem : a ∈ b.world.contract.validatorList
    · cases h.recorded.listed a hmem with
      | active _ _ _ _ hpayouts => exact Or.inl hpayouts
      | slashed _ _ _ _ hpayouts => exact Or.inl hpayouts
      | paid _ _ hle hpayouts => exact Or.inr ⟨hle, hpayouts⟩
    · exact Or.inl (h.recorded.absent a hmem).payouts
  · rw [List.mem_filter, decide_eq_true_eq]
    constructor
    · exact fun ha => ha.2
    · exact fun ha => ⟨(h.recorded.of_active ha).1, ha⟩

/-- **Who can leave.**  In every state of every run, a validator that was not paid out and has paid
in more than was slashed can leave with the difference if and only if the difference is at least
the minimum. -/
theorem unregister_pays_iff {self tokenAddress slashingAuthority : EthAddress} {c : TitanStaking}
    {e : Unit} (hdeploy : deploy self tokenAddress slashingAuthority () = .ok (c, e))
    (hself : self ≠ tokenAddress) (owner : EthAddress) (now : U256) {actions : List Action}
    (hactions : ∀ action ∈ actions, Possible self action) (a : EthAddress) :
    let b := Runs.run step (Books.opened c (PNXToken.deploy tokenAddress owner) now) actions
    a ∈ b.world.contract.validatorList → b.payouts a = [] → b.slashes a < b.deposits a →
      ((∃ u w, unregister a b.world = .ok (u, w) ∧
          (w.token.balanceOf a).toNat
            = (b.world.token.balanceOf a).toNat + (b.deposits a - b.slashes a)) ↔
        minStake.toNat ≤ b.deposits a - b.slashes a) := by
  intro b hmem hunpaid hmore
  have h : Solvent self b := solvent_run hdeploy hself owner now hactions
  obtain ⟨hzero, hne⟩ := h.member a hmem
  constructor
  · rintro ⟨u, w, hok, -⟩
    obtain ⟨hactive, -⟩ := unregister_ok.mp hok
    obtain ⟨-, -, hmin, hstake, -⟩ := h.recorded.of_active hactive
    omega
  · intro hmin
    cases h.recorded.listed a hmem with
    | slashed _ _ _ hlow => exact absurd hmin (Nat.not_le.mpr hlow)
    | paid _ _ _ hpayouts => rw [hunpaid] at hpayouts; cases hpayouts
    | active _ hactive _ hstake _ =>
        -- the stake is part of what is owed, so it is there
        have hlocked : (b.world.contract.validators a).held ≤ b.world.contract.locked :=
          Finset.single_le_sum (f := fun a => (b.world.contract.validators a).held)
            (fun _ _ => Nat.zero_le _) (Finset.mem_univ a)
        rw [held_of_active hactive] at hlocked
        have hpay : b.world.token.Payable b.world.contract.self a
            (b.world.contract.validators a).stake := by
          refine h.unspent.sound.payable ?_
          rw [h.self_eq]
          exact BitVec.le_def.mpr (hlocked.trans h.covered)
        refine ⟨(), _, unregister_ok.mpr ⟨hactive, hzero, hpay, rfl⟩, ?_⟩
        rw [h.self_eq] at hpay
        change ((b.world.token.paid b.world.contract.self a _).balanceOf a).toNat = _
        rw [h.self_eq, (h.unspent.spent hne hpay).2.2]
        omega

/-! ## One validator -/

section Example

/-- The minimum is paid in by the address 11, which the authority 9 then slashes by an amount. -/
def slashedBy (amount : U256) : List Action :=
  [.token ⟨5, .executeGenesisDistribution 12 11 13⟩, .token ⟨11, .approve 10 (pnx 2000000)⟩,
    .staking ⟨⟨11, .registerValidator []⟩, 1⟩, .staking ⟨⟨9, .slash 11 amount⟩, 2⟩]

theorem possible_slashedBy (amount : U256) :
    ∀ action ∈ slashedBy amount, Possible 10 action := by
  intro action haction
  simp only [slashedBy, List.mem_cons, List.not_mem_nil, or_false] at haction
  rcases haction with rfl | rfl | rfl | rfl
  · exact ⟨by decide, by decide⟩
  · exact ⟨by decide, by decide⟩
  · trivial
  · trivial

theorem deploy_sample :
    deploy 10 1 9 () = .ok (⟨10, 1, 9, fun _ => ⟨0, 0, 0, false, []⟩, []⟩, ()) := by
  rw [deploy, require_bind_ok, require_bind_ok]
  exact ⟨by decide, by decide, rfl⟩

/-- The contract after `slashedBy`. -/
def slashedBooks (amount : U256) : Books :=
  Runs.run step (Books.opened ⟨10, 1, 9, fun _ => ⟨0, 0, 0, false, []⟩, []⟩ (PNXToken.deploy 1 5) 0)
    (slashedBy amount)

/-- The balance covers the stakes after a slash. -/
theorem slashed_balance_covers :
    (slashedBooks 1).world.contract.locked
      ≤ ((slashedBooks 1).world.token.balanceOf 10).toNat :=
  (balance_covers_stakes deploy_sample (by decide) 5 0 (possible_slashedBy 1)).1

/-- A validator that lost nothing leaves with its deposit. -/
theorem unslashed_stake_leaves :
    ∃ u w, unregister 11 (slashedBooks 0).world = .ok (u, w) ∧
      (w.token.balanceOf 11).toNat
        = ((slashedBooks 0).world.token.balanceOf 11).toNat + minStake.toNat := by
  have hpays := unregister_pays_iff deploy_sample (by decide) 5 0 (possible_slashedBy 0) 11
    (by decide) (by decide) (by decide)
  exact hpays.mpr (by decide)

/-- A slash of one unit strands the rest. -/
theorem slashed_stake_stays :
    11 ∈ (slashedBooks 1).world.contract.validatorList ∧ (slashedBooks 1).payouts 11 = [] ∧
      (slashedBooks 1).slashes 11 < (slashedBooks 1).deposits 11 ∧
      ¬ Contract.Succeeds (unregister 11) (slashedBooks 1).world := by
  decide

end Example

end TitanStaking
