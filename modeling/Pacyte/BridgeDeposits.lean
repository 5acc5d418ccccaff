/-
# The deposits of the bridge vault

Any messages of any senders to `BridgeVault`, with messages of other accounts to the token in
between.  Beside the vault there is the list of all deposits, the newest first, with what was paid
out of each (`Deposit`); the vault does not read it.

The vault finds a deposit by the id of its request.  A second deposit with the same sender,
recipient and amount in one block has the id of the first one and takes its place: what was paid
in first is then never paid out.  In runs in which that does not happen, and in which nobody names
the vault as the recipient (`Careful`), the balance is the sum of the open deposits, and each can be
paid out exactly once (`deposits_kept`).
-/
import Pacyte.BridgeVault

namespace BridgeVault

open Contract ContractWorld

/-! ## Deposits -/

/-- What was paid out. -/
structure Payout where
  recipient : EthAddress
  amount : ℕ
  time : U256
  deriving DecidableEq

/-- A deposit, and what was paid out of it. -/
structure Deposit where
  id : Hash
  sender : EthAddress
  recipient : EthAddress
  amount : U256
  expiry : U256
  payouts : List Payout
  deriving DecidableEq

/-- Nothing has been paid out. -/
def Deposit.Open (d : Deposit) : Prop := d.payouts = []

instance : DecidablePred Deposit.Open := fun _ => inferInstanceAs (Decidable (_ = _))

/-- The whole amount has been paid out once: to the recipient up to the expiry, or to the sender
after it. -/
def Deposit.Paid (d : Deposit) : Prop :=
  ∃ p, d.payouts = [p] ∧ p.amount = d.amount.toNat ∧
    (p.recipient = d.recipient ∧ p.time ≤ d.expiry ∨ p.recipient = d.sender ∧ d.expiry < p.time)

theorem Deposit.Paid.not_open {d : Deposit} (h : d.Paid) : ¬ d.Open := by
  obtain ⟨p, hp, -⟩ := h
  intro hopen
  rw [Deposit.Open, hp] at hopen
  cases hopen

/-- Pay out of a deposit. -/
def Deposit.pay (d : Deposit) (p : Payout) : Deposit := { d with payouts := d.payouts ++ [p] }

/-- The newest deposit with an id, which is the one that the vault finds. -/
def newest (id : Hash) (ds : List Deposit) : Option Deposit := ds.find? fun d => d.id = id

/-- Pay out of the newest deposit with an id. -/
def payNewest (id : Hash) (p : Payout) : List Deposit → List Deposit
  | [] => []
  | d :: ds => if d.id = id then d.pay p :: ds else d :: payNewest id p ds

/-- What is still to be paid out. -/
def owed (ds : List Deposit) : ℕ :=
  (ds.map fun d => if d.Open then d.amount.toNat else 0).sum

theorem newest_cons (id : Hash) (d : Deposit) (ds : List Deposit) :
    newest id (d :: ds) = if d.id = id then some d else newest id ds := by
  unfold newest
  by_cases h : d.id = id
  · rw [if_pos h]
    exact List.find?_cons_of_pos (decide_eq_true h)
  · rw [if_neg h]
    exact List.find?_cons_of_neg fun h' => h (of_decide_eq_true h')

theorem newest_some {id : Hash} {ds : List Deposit} {d : Deposit} (h : newest id ds = some d) :
    d ∈ ds ∧ d.id = id :=
  ⟨List.mem_of_find?_eq_some h,
    of_decide_eq_true (List.find?_some (p := fun d : Deposit => decide (d.id = id)) h)⟩

/-- The deposits after a payment: one of them has changed. -/
theorem mem_payNewest {id : Hash} {p : Payout} {ds : List Deposit} {d : Deposit}
    (hnewest : newest id ds = some d) {x : Deposit} (hx : x ∈ payNewest id p ds) :
    x ∈ ds ∨ x = d.pay p := by
  induction ds with
  | nil => cases hx
  | cons y ds ih =>
      rw [newest_cons] at hnewest
      rw [payNewest] at hx
      split_ifs at hnewest hx with hy
      · obtain rfl := Option.some.inj hnewest
        rcases List.mem_cons.mp hx with rfl | hx
        · exact Or.inr rfl
        · exact Or.inl (List.mem_cons_of_mem _ hx)
      · rcases List.mem_cons.mp hx with rfl | hx
        · exact Or.inl List.mem_cons_self
        · exact (ih hnewest hx).imp_left (List.mem_cons_of_mem _)

theorem newest_payNewest {id : Hash} {p : Payout} {ds : List Deposit} {d : Deposit}
    (hnewest : newest id ds = some d) : newest id (payNewest id p ds) = some (d.pay p) := by
  induction ds with
  | nil => cases hnewest
  | cons y ds ih =>
      rw [newest_cons] at hnewest
      rw [payNewest]
      split_ifs at hnewest ⊢ with hy
      · obtain rfl := Option.some.inj hnewest
        rw [newest_cons]
        exact if_pos hy
      · rw [newest_cons, if_neg hy]
        exact ih hnewest

theorem newest_payNewest_of_ne {id id' : Hash} (hne : id' ≠ id) (p : Payout) (ds : List Deposit) :
    newest id' (payNewest id p ds) = newest id' ds := by
  induction ds with
  | nil => rfl
  | cons y ds ih =>
      rw [payNewest]
      split_ifs with hy
      · have hy' : y.id ≠ id' := fun heq => hne (heq.symm.trans hy)
        rw [newest_cons, newest_cons, if_neg hy']
        exact if_neg hy'
      · rw [newest_cons, newest_cons, ih]

/-- What is owed after a payment out of an open deposit. -/
theorem owed_payNewest {id : Hash} (p : Payout) {ds : List Deposit} {d : Deposit}
    (hnewest : newest id ds = some d) (hopen : d.Open) :
    owed (payNewest id p ds) + d.amount.toNat = owed ds := by
  have hcons : ∀ (y : Deposit) (ys : List Deposit),
      owed (y :: ys) = (if y.Open then y.amount.toNat else 0) + owed ys := fun _ _ => rfl
  induction ds with
  | nil => cases hnewest
  | cons y ds ih =>
      rw [newest_cons] at hnewest
      rw [payNewest]
      split_ifs at hnewest ⊢ with hy
      · obtain rfl := Option.some.inj hnewest
        have hclosed : ¬ (y.pay p).Open := by
          intro h
          exact List.append_ne_nil_of_right_ne_nil y.payouts (List.cons_ne_nil p []) h
        rw [hcons, hcons, if_neg hclosed, if_pos hopen]
        omega
      · rw [hcons, hcons, Nat.add_assoc, ih hnewest]

theorem owed_cons_of_open {d : Deposit} (hopen : d.Open) (ds : List Deposit) :
    owed (d :: ds) = d.amount.toNat + owed ds := by
  have hcons : owed (d :: ds) = (if d.Open then d.amount.toNat else 0) + owed ds := rfl
  rw [hcons, if_pos hopen]

/-- An older deposit with the id of a newer one is not open. -/
def Distinct (ds : List Deposit) : Prop :=
  ds.Pairwise fun newer older => newer.id = older.id → ¬ older.Open

theorem Distinct.payNewest {ds : List Deposit} (h : Distinct ds) (id : Hash) (p : Payout) :
    Distinct (payNewest id p ds) := by
  induction ds with
  | nil => exact List.Pairwise.nil
  | cons y ds ih =>
      obtain ⟨hy, hds⟩ := List.pairwise_cons.mp h
      rw [BridgeVault.payNewest]
      split_ifs with hid
      · exact List.pairwise_cons.mpr ⟨hy, hds⟩
      · refine List.pairwise_cons.mpr ⟨fun x hx => ?_, ih hds⟩
        cases hnewest : newest id ds with
        | none =>
            -- nothing is paid
            have hsame : BridgeVault.payNewest id p ds = ds := by
              clear ih h hy hds hx
              induction ds with
              | nil => rfl
              | cons z ds ihz =>
                  rw [newest_cons] at hnewest
                  split_ifs at hnewest with hz
                  rw [BridgeVault.payNewest, if_neg hz, ihz hnewest]
            rw [hsame] at hx
            exact hy x hx
        | some d =>
            rcases mem_payNewest hnewest hx with hx | rfl
            · exact hy x hx
            · intro _ hopen
              exact List.append_ne_nil_of_right_ne_nil d.payouts (List.cons_ne_nil p []) hopen

/-- If the newest deposit with an id is not open, none with this id is. -/
theorem Distinct.closed {ds : List Deposit} (h : Distinct ds) {id : Hash}
    (hnewest : ∀ d, newest id ds = some d → ¬ d.Open) {x : Deposit} (hx : x ∈ ds)
    (hid : x.id = id) : ¬ x.Open := by
  induction ds with
  | nil => cases hx
  | cons y ds ih =>
      obtain ⟨hy, hds⟩ := List.pairwise_cons.mp h
      by_cases heq : y.id = id
      · have hyclosed := hnewest y (by rw [newest_cons, if_pos heq])
        rcases List.mem_cons.mp hx with rfl | hx
        · exact hyclosed
        · exact hy x hx (heq.trans hid.symm)
      · rcases List.mem_cons.mp hx with rfl | hx
        · exact absurd hid heq
        · refine ih hds (fun d hd => hnewest d ?_) hx
          rw [newest_cons, if_neg heq]
          exact hd

/-- An open deposit is the newest one with its id. -/
theorem Distinct.newest_of_open {ds : List Deposit} (h : Distinct ds) {d : Deposit} (hd : d ∈ ds)
    (hopen : d.Open) : newest d.id ds = some d := by
  induction ds with
  | nil => cases hd
  | cons y ds ih =>
      obtain ⟨hy, hds⟩ := List.pairwise_cons.mp h
      rw [newest_cons]
      rcases List.mem_cons.mp hd with rfl | hd
      · exact if_pos rfl
      · rw [if_neg fun heq => hy d hd heq hopen]
        exact ih hds hd

/-! ## The books -/

/-- The world, and all deposits, the newest first. -/
structure Books where
  world : World
  deposits : List Deposit

/-- What the balance of an account has grown by. -/
def grown (before after : PNXToken) (account : EthAddress) : ℕ :=
  (after.balanceOf account).toNat - (before.balanceOf account).toNat

/-- What a call books that has taken effect. -/
def Books.book [Keccak256] (b : Books) (sender : EthAddress) (after : World) : Call → Books
  | .initiateBridge recipient amount _ =>
      ⟨after, ⟨requestId sender recipient amount after.now, sender, recipient, amount,
        after.now + timeout, []⟩ :: b.deposits⟩
  | .completeBridge id =>
      let account := (b.world.contract.requests id).recipient
      ⟨after, payNewest id ⟨account, grown b.world.token after.token account, after.now⟩
        b.deposits⟩
  | .revertBridge id =>
      let account := (b.world.contract.requests id).sender
      ⟨after, payNewest id ⟨account, grown b.world.token after.token account, after.now⟩
        b.deposits⟩

/-- A message to the vault, or one to the token. -/
inductive Action where
  | vault (message : BlockMessage Call)
  | token (message : Message TokenCall)
  deriving DecidableEq

/-- One message. -/
def step [Keccak256] : Action → Books → Books
  | .vault message, b =>
      match message.call.exec message.sender message.timestamp b.world with
      | .ok (_, w) => b.book message.sender { w with now := message.timestamp } message.call
      | .error _ => { b with world := { b.world with now := message.timestamp } }
  | .token message, b => { b with world := outside message b.world }

/-- The books of a vault that has just been deployed. -/
def Books.opened (c : BridgeVault) (token : PNXToken) (now : U256) : Books := ⟨⟨c, token, now⟩, []⟩

/-! ## The invariant -/

/-- A request that still stands for a payment. -/
def BridgeRequest.Pending (r : BridgeRequest) : Prop :=
  r.amount ≠ 0 ∧ r.completed = false ∧ r.reverted = false

instance : DecidablePred BridgeRequest.Pending := fun _ => inferInstanceAs (Decidable (_ ∧ _))

/-- A request says what its deposit says. -/
structure Matches (d : Deposit) (r : BridgeRequest) : Prop where
  sender : r.sender = d.sender
  recipient : r.recipient = d.recipient
  amount : r.amount = d.amount
  expiry : r.expiry = d.expiry
  state : d.Open ∧ r.completed = false ∧ r.reverted = false ∨
    d.Paid ∧ (r.completed = true ∨ r.reverted = true)

/-- The parties of a deposit, and its amount. -/
structure Deposit.Sound (holder : EthAddress) (d : Deposit) : Prop where
  sender : d.sender ≠ 0 ∧ d.sender ≠ holder
  recipient : d.recipient ≠ holder
  amount : 0 < d.amount
  settled : d.Open ∨ d.Paid

/-- The vault at `holder` has what it owes, and finds every open deposit. -/
structure Kept (holder : EthAddress) (b : Books) : Prop where
  self_eq : b.world.contract.self = holder
  unspent : Unspent holder b.world.token
  distinct : Distinct b.deposits
  unset : ∀ id, newest id b.deposits = none → b.world.contract.requests id = BridgeRequest.unset
  found : ∀ id d, newest id b.deposits = some d → Matches d (b.world.contract.requests id)
  sound : ∀ d ∈ b.deposits, d.Sound holder
  balance : owed b.deposits = (b.world.token.balanceOf holder).toNat

/-- A new deposit does not name the vault, and its request does not take the place of one that is
still to be paid. -/
def Fresh [Keccak256] (holder : EthAddress) (b : Books) (sender : EthAddress) (t : U256) :
    Call → Prop
  | .initiateBridge recipient amount _ =>
      recipient ≠ holder ∧
        ¬ (b.world.contract.requests (requestId sender recipient amount t)).Pending
  | _ => True


/-- A message to the token neither comes from the vault nor pays to it. -/
def Possible (holder : EthAddress) : Action → Prop
  | .vault _ => True
  | .token message => Elsewhere holder message ∧ holder ∉ message.call.receivers

/-- A possible message, which is fresh if it makes a deposit. -/
def Careful [Keccak256] (holder : EthAddress) (b : Books) : Action → Prop
  | .vault message => Fresh holder b message.sender message.timestamp message.call
  | .token message => Possible holder (.token message)

instance (holder : EthAddress) : DecidablePred (Possible holder) := fun action =>
  match action with
  | .vault _ => isTrue trivial
  | .token _ => inferInstanceAs (Decidable (_ ∧ _))

instance [Keccak256] (holder : EthAddress) (b : Books) (sender : EthAddress) (t : U256)
    (call : Call) : Decidable (Fresh holder b sender t call) :=
  match call with
  | .initiateBridge _ _ _ => inferInstanceAs (Decidable (_ ∧ _))
  | .completeBridge _ => isTrue trivial
  | .revertBridge _ => isTrue trivial

instance [Keccak256] (holder : EthAddress) (b : Books) (action : Action) :
    Decidable (Careful holder b action) :=
  match action with
  | .vault _ => inferInstanceAs (Decidable (Fresh _ _ _ _ _))
  | .token message => inferInstanceAs (Decidable (Possible holder (.token message)))

theorem Kept.request_of_open {holder : EthAddress} {b : Books} (h : Kept holder b) {id : Hash}
    (hcompleted : (b.world.contract.requests id).completed = false)
    (hreverted : (b.world.contract.requests id).reverted = false) :
    b.world.contract.requests id = BridgeRequest.unset ∨
      ∃ d, newest id b.deposits = some d ∧ d.Open ∧ Matches d (b.world.contract.requests id) := by
  cases hnewest : newest id b.deposits with
  | none => exact Or.inl (h.unset id hnewest)
  | some d =>
      have hmatches := h.found id d hnewest
      refine Or.inr ⟨d, rfl, ?_, hmatches⟩
      rcases hmatches.state with ⟨hopen, -⟩ | ⟨-, hdone | hdone⟩
      · exact hopen
      · rw [hcompleted] at hdone
        cases hdone
      · rw [hreverted] at hdone
        cases hdone

/-! ## Steps -/

section Steps

variable [Keccak256] {holder : EthAddress} {b : Books} {sender : EthAddress} {t : U256}

theorem Kept.initiateBridge (h : Kept holder b) {recipient : EthAddress}
    {amount targetShard : U256} {id : Hash} {w : World}
    (hfresh : Fresh holder b sender t (.initiateBridge recipient amount targetShard))
    (hok : initiateBridge sender t recipient amount targetShard b.world = .ok (id, w)) :
    Kept holder
      (b.book sender { w with now := t } (.initiateBridge recipient amount targetShard)) := by
  obtain ⟨hpos, hallowed, hpay, hfits, -, rfl⟩ := initiateBridge_ok.mp hok
  obtain ⟨hrecipient, hpending⟩ := hfresh
  obtain rfl := h.self_eq
  have hnot : ∀ {x : U256}, x = 0 → ¬ amount ≤ x := by
    rintro x rfl hle
    rw [BitVec.le_def] at hle
    rw [BitVec.lt_def] at hpos
    omega
  have hzero : sender ≠ 0 := by
    rintro rfl
    exact hnot (h.unspent.nobody _) hallowed
  have hne : sender ≠ b.world.contract.self := by
    rintro rfl
    exact hnot (h.unspent.contract _) hallowed
  obtain ⟨hunspent, hbalance⟩ := h.unspent.received hzero hne hpay
    (b.world.token.allowance sender b.world.contract.self - amount)
  -- no deposit with this id is open
  have hclosed : ∀ d, newest (requestId sender recipient amount t) b.deposits = some d →
      ¬ d.Open := by
    intro d hd hopen
    have hmatches := h.found _ d hd
    rcases hmatches.state with ⟨-, hcompleted, hreverted⟩ | ⟨hpaid, -⟩
    · refine hpending ⟨?_, hcompleted, hreverted⟩
      have hamount := (h.sound d (newest_some hd).1).amount
      rw [hmatches.amount]
      rintro heq
      rw [heq] at hamount
      exact BitVec.lt_irrefl _ hamount
    · exact hpaid.not_open hopen
  refine ⟨rfl, hunspent, ?_, fun id hid => ?_, fun id d hd => ?_, fun d hd => ?_, ?_⟩
  · refine List.pairwise_cons.mpr ⟨fun x hx hid => ?_, h.distinct⟩
    exact h.distinct.closed hclosed hx hid.symm
  · have hid' := hid
    change newest id (_ :: b.deposits) = none at hid'
    rw [newest_cons] at hid'
    split_ifs at hid' with heq
    change (setRequest (requestId sender recipient amount t) _ b.world.contract).requests id = _
    rw [setRequest_of_ne (Ne.symm heq)]
    exact h.unset id hid'
  · have hd' := hd
    change newest id (_ :: b.deposits) = some d at hd'
    rw [newest_cons] at hd'
    change Matches d
      ((setRequest (requestId sender recipient amount t) _ b.world.contract).requests id)
    split_ifs at hd' with heq
    · obtain rfl := Option.some.inj hd'
      obtain rfl : requestId sender recipient amount t = id := heq
      rw [setRequest_self]
      exact ⟨rfl, rfl, rfl, rfl, Or.inl ⟨rfl, rfl, rfl⟩⟩
    · rw [setRequest_of_ne (Ne.symm heq)]
      exact h.found id d hd'
  · rcases List.mem_cons.mp hd with rfl | hd
    · exact ⟨⟨hzero, hne⟩, hrecipient, hpos, Or.inl rfl⟩
    · exact h.sound d hd
  · have howed := owed_cons_of_open (d := ⟨requestId sender recipient amount t, sender, recipient,
      amount, t + timeout, []⟩) rfl b.deposits
    refine howed.trans ?_
    rw [h.balance, Nat.add_comm]
    exact hbalance.symm

omit [Keccak256] in
/-- **A payment**, whoever gets it: the request is done, and the deposit is paid. -/
theorem Kept.pay (h : Kept holder b) {id : Hash} {d : Deposit} {r : BridgeRequest}
    {account : EthAddress} {p : Payout} (hnewest : newest id b.deposits = some d)
    (hopen : d.Open) (hmatches : Matches d (b.world.contract.requests id))
    (hpaid : (d.pay p).Paid)
    (hr : r = (b.world.contract.requests id).complete ∨ r = (b.world.contract.requests id).revert)
    (hne : account ≠ holder) (hpay : b.world.token.Payable holder account d.amount) :
    Kept holder ⟨⟨setRequest id r b.world.contract, b.world.token.paid holder account d.amount, t⟩,
      payNewest id p b.deposits⟩ := by
  obtain ⟨hunspent, hspent, -⟩ := h.unspent.spent hne hpay
  have hnew : Matches (d.pay p) r := by
    rcases hr with rfl | rfl
    · exact ⟨hmatches.sender, hmatches.recipient, hmatches.amount, hmatches.expiry,
        Or.inr ⟨hpaid, Or.inl rfl⟩⟩
    · exact ⟨hmatches.sender, hmatches.recipient, hmatches.amount, hmatches.expiry,
        Or.inr ⟨hpaid, Or.inr rfl⟩⟩
  refine ⟨h.self_eq, hunspent, h.distinct.payNewest id p, fun id' hid' => ?_,
    fun id' d' hd' => ?_, fun x hx => ?_, ?_⟩
  · change newest id' (payNewest id p b.deposits) = none at hid'
    change (setRequest id r b.world.contract).requests id' = _
    by_cases heq : id' = id
    · rw [heq, newest_payNewest hnewest] at hid'
      cases hid'
    · rw [newest_payNewest_of_ne heq] at hid'
      rw [setRequest_of_ne heq]
      exact h.unset id' hid'
  · change newest id' (payNewest id p b.deposits) = some d' at hd'
    change Matches d' ((setRequest id r b.world.contract).requests id')
    by_cases heq : id' = id
    · rw [heq, newest_payNewest hnewest] at hd'
      obtain rfl := Option.some.inj hd'
      rw [heq, setRequest_self]
      exact hnew
    · rw [newest_payNewest_of_ne heq] at hd'
      rw [setRequest_of_ne heq]
      exact h.found id' d' hd'
  · rcases mem_payNewest hnewest hx with hx | rfl
    · exact h.sound x hx
    · have hsound := h.sound d (newest_some hnewest).1
      exact ⟨hsound.sender, hsound.recipient, hsound.amount, Or.inr hpaid⟩
  · have howed := owed_payNewest p hnewest hopen
    have hbalance := h.balance
    change owed (payNewest id p b.deposits)
      = ((b.world.token.paid holder account _).balanceOf _).toNat
    omega

theorem Kept.completeBridge (h : Kept holder b) {id : Hash} {u : Unit} {w : World}
    (hok : completeBridge t id b.world = .ok (u, w)) :
    Kept holder (b.book sender { w with now := t } (.completeBridge id)) := by
  obtain ⟨hcompleted, hreverted, hle, hto, hpay, rfl⟩ := completeBridge_ok.mp hok
  obtain rfl := h.self_eq
  obtain hunset | ⟨d, hnewest, hopen, hmatches⟩ := h.request_of_open hcompleted hreverted
  · rw [hunset] at hto
    exact absurd rfl hto
  · have hne := (h.sound d (newest_some hnewest).1).recipient
    rw [hmatches.recipient, hmatches.amount] at hpay
    rw [hmatches.expiry] at hle
    have hgrown : grown b.world.token
        (b.world.token.paid b.world.contract.self d.recipient d.amount) d.recipient
        = d.amount.toNat := by
      rw [grown, (h.unspent.spent hne hpay).2.2, Nat.add_sub_cancel_left]
    have hpaid : (d.pay ⟨d.recipient, d.amount.toNat, t⟩).Paid :=
      ⟨⟨d.recipient, d.amount.toNat, t⟩, by rw [Deposit.pay, hopen]; rfl, rfl, Or.inl ⟨rfl, hle⟩⟩
    have hkept := h.pay (t := t) hnewest hopen hmatches hpaid (Or.inl rfl) hne hpay
    rw [Books.book, hmatches.recipient, hmatches.amount, hgrown]
    exact hkept

theorem Kept.revertBridge (h : Kept holder b) {id : Hash} {u : Unit} {w : World}
    (hok : revertBridge t id b.world = .ok (u, w)) :
    Kept holder (b.book sender { w with now := t } (.revertBridge id)) := by
  obtain ⟨hcompleted, hreverted, hlt, hto, hpay, rfl⟩ := revertBridge_ok.mp hok
  obtain rfl := h.self_eq
  obtain hunset | ⟨d, hnewest, hopen, hmatches⟩ := h.request_of_open hcompleted hreverted
  · rw [hunset] at hto
    exact absurd rfl hto
  · have hne := (h.sound d (newest_some hnewest).1).sender.2
    rw [hmatches.sender, hmatches.amount] at hpay
    rw [hmatches.expiry] at hlt
    have hgrown : grown b.world.token
        (b.world.token.paid b.world.contract.self d.sender d.amount) d.sender
        = d.amount.toNat := by
      rw [grown, (h.unspent.spent hne hpay).2.2, Nat.add_sub_cancel_left]
    have hpaid : (d.pay ⟨d.sender, d.amount.toNat, t⟩).Paid :=
      ⟨⟨d.sender, d.amount.toNat, t⟩, by rw [Deposit.pay, hopen]; rfl, rfl, Or.inr ⟨rfl, hlt⟩⟩
    have hkept := h.pay (t := t) hnewest hopen hmatches hpaid (Or.inr rfl) hne hpay
    rw [Books.book, hmatches.sender, hmatches.amount, hgrown]
    exact hkept

omit [Keccak256] in
/-- A message to the token that neither comes from the vault nor pays to it leaves its balance. -/
theorem Kept.outside (h : Kept holder b) {message : Message TokenCall}
    (helse : Elsewhere holder message) (hnot : holder ∉ message.call.receivers) :
    Kept holder { b with world := ContractWorld.outside message b.world } := by
  obtain ⟨hunspent, hle⟩ := h.unspent.outside helse
  have hge : (ContractWorld.outside message b.world).token.balanceOf holder
      ≤ b.world.token.balanceOf holder := outside_le hnot
  refine ⟨h.self_eq, hunspent, h.distinct, h.unset, h.found, h.sound, h.balance.trans ?_⟩
  exact Nat.le_antisymm (BitVec.le_def.mp hle) (BitVec.le_def.mp hge)

/-- **Every careful message keeps the invariant.** -/
theorem Kept.step (h : Kept holder b) {action : Action} (hcareful : Careful holder b action) :
    Kept holder (step action b) := by
  cases action with
  | token message => exact h.outside hcareful.1 hcareful.2
  | vault message =>
      obtain ⟨⟨sender, call⟩, t⟩ := message
      rw [BridgeVault.step]
      cases hexec : call.exec sender t b.world with
      | error e =>
          exact ⟨h.self_eq, h.unspent, h.distinct, h.unset, h.found, h.sound, h.balance⟩
      | ok p =>
          obtain ⟨u, w⟩ := p
          cases call with
          | initiateBridge recipient amount targetShard =>
              obtain ⟨id, hinitiate⟩ := forget_ok.mp hexec
              exact h.initiateBridge hcareful hinitiate
          | completeBridge id => exact h.completeBridge hexec
          | revertBridge id => exact h.revertBridge hexec

end Steps

/-! ## Runs -/

section Safety

variable [Keccak256]

omit [Keccak256] in
theorem kept_opened {self tokenAddress : EthAddress} (hself : self ≠ tokenAddress)
    (chainId : U256) (owner : EthAddress) (now : U256) :
    Kept self (Books.opened (deploy self chainId tokenAddress)
      (PNXToken.deploy tokenAddress owner) now) := by
  refine ⟨rfl, unspent_deploy hself owner, List.Pairwise.nil, fun _ _ => rfl,
    (fun _ _ h => nomatch h), (fun _ h => nomatch h), ?_⟩
  have hzero : (PNXToken.deploy tokenAddress owner).balanceOf self = 0 := by
    simp [PNXToken.deploy, Function.update_of_ne hself]
  change 0 = ((PNXToken.deploy tokenAddress owner).balanceOf self).toNat
  rw [hzero]
  rfl

/-- What a maintainer expects of the deposits: the balance is what is owed, a deposit is paid at
most once and in the right way, and as long as it is open, it can be paid. -/
structure DepositsKept (holder : EthAddress) (b : Books) : Prop where
  balance : (b.world.token.balanceOf holder).toNat = owed b.deposits
  settled : ∀ d ∈ b.deposits, d.Open ∨ d.Paid
  complete : ∀ d ∈ b.deposits, d.Open → d.recipient ≠ 0 → ∀ t, t ≤ d.expiry →
    ∃ w, completeBridge t d.id b.world = .ok ((), w) ∧
      (w.token.balanceOf d.recipient).toNat
        = (b.world.token.balanceOf d.recipient).toNat + d.amount.toNat
  revert : ∀ d ∈ b.deposits, d.Open → ∀ t, d.expiry < t →
    ∃ w, revertBridge t d.id b.world = .ok ((), w) ∧
      (w.token.balanceOf d.sender).toNat
        = (b.world.token.balanceOf d.sender).toNat + d.amount.toNat

omit [Keccak256] in
theorem Kept.depositsKept {holder : EthAddress} {b : Books} (h : Kept holder b) :
    DepositsKept holder b := by
  obtain rfl := h.self_eq
  -- the amount of an open deposit is part of what is owed
  have hcovered : ∀ d ∈ b.deposits, d.Open → ∀ account,
      b.world.token.Payable b.world.contract.self account d.amount := by
    intro d hd hopen account
    refine h.unspent.sound.payable (BitVec.le_def.mpr ?_)
    rw [← h.balance]
    have hle := List.single_le_sum (l := b.deposits.map fun d => if d.Open then d.amount.toNat else 0)
      (fun _ _ => Nat.zero_le _) _ (List.mem_map_of_mem hd)
    rw [if_pos hopen] at hle
    exact hle
  have hpending : ∀ d ∈ b.deposits, d.Open → Matches d (b.world.contract.requests d.id) ∧
      (b.world.contract.requests d.id).completed = false ∧
      (b.world.contract.requests d.id).reverted = false := by
    intro d hd hopen
    have hmatches := h.found d.id d (h.distinct.newest_of_open hd hopen)
    rcases hmatches.state with ⟨-, hflags⟩ | ⟨hpaid, -⟩
    · exact ⟨hmatches, hflags⟩
    · exact absurd hopen hpaid.not_open
  refine ⟨h.balance.symm, fun d hd => (h.sound d hd).settled, fun d hd hopen hto t ht => ?_,
    fun d hd hopen t ht => ?_⟩
  · obtain ⟨hmatches, hcompleted, hreverted⟩ := hpending d hd hopen
    have hpay := hcovered d hd hopen d.recipient
    refine ⟨_, completeBridge_ok.mpr ⟨hcompleted, hreverted, ?_, ?_, ?_, rfl⟩, ?_⟩
    · rw [hmatches.expiry]
      exact ht
    · rw [hmatches.recipient]
      exact hto
    · rw [hmatches.recipient, hmatches.amount]
      exact hpay
    · rw [hmatches.recipient, hmatches.amount]
      exact (h.unspent.spent (h.sound d hd).recipient hpay).2.2
  · obtain ⟨hmatches, hcompleted, hreverted⟩ := hpending d hd hopen
    have hpay := hcovered d hd hopen d.sender
    refine ⟨_, revertBridge_ok.mpr ⟨hcompleted, hreverted, ?_, ?_, ?_, rfl⟩, ?_⟩
    · rw [hmatches.expiry]
      exact ht
    · rw [hmatches.sender]
      exact (h.sound d hd).sender.1
    · rw [hmatches.sender, hmatches.amount]
      exact hpay
    · rw [hmatches.sender, hmatches.amount]
      exact (h.unspent.spent (h.sound d hd).sender.2 hpay).2.2

/-- **No deposit is lost in a careful run.** -/
theorem deposits_kept {self tokenAddress : EthAddress} (hself : self ≠ tokenAddress)
    (chainId : U256) (owner : EthAddress) (now : U256) {actions : List Action}
    (hcareful : Runs.Along step (Careful self) (Books.opened (deploy self chainId tokenAddress)
      (PNXToken.deploy tokenAddress owner) now) actions) :
    DepositsKept self (Runs.run step (Books.opened (deploy self chainId tokenAddress)
      (PNXToken.deploy tokenAddress owner) now) actions) := by
  have hkept := hcareful.invariant (I := Kept self) (fun _ _ h hstep => h.step hstep)
    (kept_opened hself chainId owner now)
  exact hkept.depositsKept

end Safety

/-! ## One sender -/

namespace SampleDeposits

scoped instance digest : Keccak256 := ⟨fun bytes => Vector.ofFn fun i => bytes.getD (i + 72) 0⟩

/-- The address 11 gets tokens and allows the vault 10 to take them. -/
def funded : List Action :=
  [.token ⟨5, .executeGenesisDistribution 12 11 13⟩, .token ⟨11, .approve 10 100⟩]

/-- Deposits of 7 units for the address 14 in one block, all of them alike. -/
def deposits (n : ℕ) : List Action :=
  funded ++ List.replicate n (.vault ⟨⟨11, .initiateBridge 14 7 2⟩, 100⟩) ++
    [.vault ⟨⟨15, .completeBridge (requestId 11 14 7 100)⟩, 120⟩]

/-- The books after these deposits. -/
def books (n : ℕ) : Books :=
  Runs.run step (Books.opened (deploy 10 1 1) (PNXToken.deploy 1 5) 0) (deposits n)

end SampleDeposits

section Example

open SampleDeposits

/-- Three deposits in different blocks.  The first one is completed, the second one reverted when it
has expired. -/
def threeDeposits : List Action :=
  funded ++ [.vault ⟨⟨11, .initiateBridge 14 7 2⟩, 100⟩, .vault ⟨⟨11, .initiateBridge 14 8 2⟩, 105⟩,
    .vault ⟨⟨11, .initiateBridge 16 7 2⟩, 110⟩,
    .vault ⟨⟨15, .completeBridge (requestId 11 14 7 100)⟩, 120⟩,
    .vault ⟨⟨15, .revertBridge (requestId 11 14 8 105)⟩, 170⟩]

/-- All of them are kept, and 7 units are still owed. -/
theorem three_deposits_kept :
    let b := Runs.run step (Books.opened (deploy 10 1 1) (PNXToken.deploy 1 5) 0) threeDeposits
    DepositsKept 10 b ∧ b.deposits.length = 3 ∧ (b.world.token.balanceOf 10).toNat = 7 := by
  intro b
  refine ⟨deposits_kept (by decide) 1 5 0 ?_, by decide, by decide⟩
  refine ⟨?_, ?_, ?_, ?_, ?_, ?_, ?_, trivial⟩
  all_goals decide

/-- **The second of two equal deposits in one block takes the place of the first**, which can then
never be paid back. -/
theorem repeated_deposit_lost :
    (∀ action ∈ deposits 2, Possible 10 action) ∧ ¬ DepositsKept 10 (books 2) := by
  constructor
  · decide
  · intro h
    have hmem : (⟨requestId 11 14 7 100, 11, 14, 7, 160, []⟩ : Deposit) ∈ (books 2).deposits := by
      decide
    obtain ⟨w, hok, -⟩ := h.revert _ hmem rfl 200 (by decide)
    have hcompleted := (revertBridge_ok.mp hok).1
    revert hcompleted
    decide

end Example

end BridgeVault
