/-
# The vesting contract

`contracts/FounderVesting.sol`: nothing before the cliff, everything after four years, and a
linear part with a floor division in between.  A release pays the part that has vested and has
not been released.

`vestedAt` is the amount over the natural numbers.  The checked arithmetic of `vestedAmount`
computes it for a contract that was deployed before `2 ^ 64` (`vestedAmount_ok`), and it never
decreases (`vestedAt_mono`), so the subtraction in `releasableAmount` never fails.

The token is any contract with the calls of `IERC20`.
-/
import Pacyte.ContractWorld

/-- The function of `IERC20` that pays out. -/
class IERC20 (τ : Type) where
  transfer : EthAddress → EthAddress → U256 → Contract τ Bool

instance : IERC20 PNXToken := ⟨PNXToken.transfer⟩

/-- `FounderVesting`, with `address(this)` as a field. -/
structure FounderVesting where
  self : EthAddress
  beneficiary : EthAddress
  token : EthAddress
  startTime : U256
  released : U256

namespace FounderVesting

open Contract ContractWorld

/-! ## The code -/

/-- `CLIFF`: 365 days. -/
def cliff : U256 := BitVec.ofNat 256 (365 * 86400)

/-- `DURATION`: 4 * 365 days. -/
def duration : U256 := BitVec.ofNat 256 (4 * 365 * 86400)

/-- `TOTAL_ALLOCATION`. -/
def totalAllocation : U256 := pnx 55000000

/-- The constructor. -/
def deploy (self token beneficiary : EthAddress) (blockTimestamp : U256) :
    Contract Unit FounderVesting := do
  require (fun _ => token ≠ 0) "Token address cannot be zero"
  require (fun _ => beneficiary ≠ 0) "Beneficiary cannot be zero"
  return ⟨self, beneficiary, token, blockTimestamp, 0⟩

/-- `vestedAmount`. -/
def vestedAmount (blockTimestamp : U256) : Contract FounderVesting U256 := do
  let startTime ← read FounderVesting.startTime
  let cliffEnd ← checked (checkedAdd startTime cliff)
  if blockTimestamp < cliffEnd then
    return 0
  else
    let durationEnd ← checked (checkedAdd startTime duration)
    if durationEnd ≤ blockTimestamp then
      return totalAllocation
    else
      let elapsed ← checked (checkedSub blockTimestamp startTime)
      let scaled ← checked (checkedMul totalAllocation elapsed)
      return scaled / duration

/-- `releasableAmount`. -/
def releasableAmount (blockTimestamp : U256) : Contract FounderVesting U256 := do
  let vested ← vestedAmount blockTimestamp
  let released ← read FounderVesting.released
  checked (checkedSub vested released)

/-- `released += amount`. -/
def addReleased (amount : U256) : Contract FounderVesting Unit := do
  let released ← read FounderVesting.released
  let released ← checked (checkedAdd released amount)
  write fun c => { c with released := released }

/-- `release`. -/
def release {τ : Type} [IERC20 τ] (blockTimestamp : U256) :
    Contract (ContractWorld FounderVesting τ) Unit := do
  let amount ← onContract (releasableAmount blockTimestamp)
  require (fun _ => 0 < amount) "No tokens to release"
  onContract (addReleased amount)
  let contract ← read ContractWorld.contract
  let paid ← onToken (IERC20.transfer contract.self contract.beneficiary amount)
  require (fun _ => paid = true) "Transfer failed"

/-- `changeBeneficiary`. -/
def changeBeneficiary (msgSender newBeneficiary : EthAddress) : Contract FounderVesting Unit := do
  require (fun c => msgSender = c.beneficiary) "Only beneficiary"
  require (fun _ => newBeneficiary ≠ 0) "Invalid address"
  write fun c => { c with beneficiary := newBeneficiary }

/-- The calls that change the contract. -/
inductive Call where
  | release
  | changeBeneficiary (newBeneficiary : EthAddress)
  deriving DecidableEq

/-- Run a call. -/
def Call.exec {τ : Type} [IERC20 τ] (msgSender : EthAddress) (blockTimestamp : U256) :
    Call → Contract (ContractWorld FounderVesting τ) Unit
  | .release => FounderVesting.release blockTimestamp
  | .changeBeneficiary newBeneficiary =>
      onContract (FounderVesting.changeBeneficiary msgSender newBeneficiary)

/-- One message in a block. -/
def step {τ : Type} [IERC20 τ] (message : BlockMessage Call) :
    ContractWorld FounderVesting τ → ContractWorld FounderVesting τ :=
  deliver (message.call.exec message.sender message.timestamp) message.timestamp

/-! ## What has vested -/

/-- The vested amount, over the natural numbers. -/
def vestedAt (start t : ℕ) : ℕ :=
  if t < start + 31536000 then 0
  else if start + 126144000 ≤ t then 55000000 * 10 ^ 18
  else 55000000 * 10 ^ 18 * (t - start) / 126144000

theorem vestedAt_le (start t : ℕ) : vestedAt start t ≤ 55000000 * 10 ^ 18 := by
  unfold vestedAt
  split_ifs with hcliff hend
  · exact Nat.zero_le _
  · exact Nat.le_refl _
  · apply Nat.div_le_of_le_mul
    rw [Nat.mul_comm 126144000]
    exact Nat.mul_le_mul_left _ (by omega)

/-- **What has vested stays vested**, through the jump at the cliff and the rounding. -/
theorem vestedAt_mono (start : ℕ) {t t' : ℕ} (h : t ≤ t') : vestedAt start t ≤ vestedAt start t' := by
  by_cases hcliff : t < start + 31536000
  · rw [vestedAt, if_pos hcliff]
    exact Nat.zero_le _
  · by_cases hend : start + 126144000 ≤ t'
    · have hall : vestedAt start t' = 55000000 * 10 ^ 18 := by
        rw [vestedAt, if_neg (by omega), if_pos hend]
      rw [hall]
      exact vestedAt_le start t
    · rw [vestedAt, vestedAt, if_neg hcliff, if_neg (by omega), if_neg (by omega), if_neg hend]
      exact Nat.div_le_div_right (Nat.mul_le_mul_left _ (by omega))

theorem toNat_zero : (0 : U256).toNat = 0 := rfl

theorem toNat_cliff : cliff.toNat = 31536000 := rfl

theorem toNat_duration : duration.toNat = 126144000 := rfl

theorem toNat_totalAllocation : totalAllocation.toNat = 55000000 * 10 ^ 18 :=
  PNXToken.toNat_pnx (by omega)

/-- The amount in a word. -/
def vestedWord (c : FounderVesting) (blockTimestamp : U256) : U256 :=
  BitVec.ofNat 256 (vestedAt c.startTime.toNat blockTimestamp.toNat)

theorem toNat_vestedWord (c : FounderVesting) (blockTimestamp : U256) :
    (c.vestedWord blockTimestamp).toNat = vestedAt c.startTime.toNat blockTimestamp.toNat := by
  have hle := vestedAt_le c.startTime.toNat blockTimestamp.toNat
  rw [vestedWord, BitVec.toNat_ofNat]
  exact Nat.mod_eq_of_lt (by omega)

/-- **The checked arithmetic of `vestedAmount` never fails**, and computes the amount. -/
theorem vestedAmount_ok {c c' : FounderVesting} {v t : U256}
    (hstart : c.startTime.toNat < 2 ^ 64) :
    vestedAmount t c = .ok (v, c') ↔ v = c.vestedWord t ∧ c' = c := by
  have hcliff : checkedAdd c.startTime cliff = some (c.startTime + cliff) :=
    checkedAdd_eq_some.mpr ⟨by rw [toNat_cliff]; omega, rfl⟩
  have hduration : checkedAdd c.startTime duration = some (c.startTime + duration) :=
    checkedAdd_eq_some.mpr ⟨by rw [toNat_duration]; omega, rfl⟩
  have htoCliff : (c.startTime + cliff).toNat = c.startTime.toNat + 31536000 := by
    rw [BitVec.toNat_add_of_lt (by rw [toNat_cliff]; omega), toNat_cliff]
  have htoDuration : (c.startTime + duration).toNat = c.startTime.toNat + 126144000 := by
    rw [BitVec.toNat_add_of_lt (by rw [toNat_duration]; omega), toNat_duration]
  have hword : ∀ {n : U256}, n.toNat = vestedAt c.startTime.toNat t.toNat → n = c.vestedWord t :=
    fun hn => BitVec.eq_of_toNat_eq (hn.trans (toNat_vestedWord c t).symm)
  unfold vestedAmount
  rw [read_bind, hcliff, checked_bind_ok]
  simp only [Option.some_inj, exists_eq_left']
  by_cases hearly : t < c.startTime + cliff
  · have hzero : (0 : U256) = c.vestedWord t := by
      apply hword
      rw [BitVec.lt_def, htoCliff] at hearly
      rw [vestedAt, if_pos hearly]
      rfl
    rw [if_pos hearly, pure_ok, hzero]
  · rw [if_neg hearly, hduration, checked_bind_ok]
    simp only [Option.some_inj, exists_eq_left']
    rw [BitVec.lt_def, htoCliff] at hearly
    by_cases hlate : c.startTime + duration ≤ t
    · have hall : totalAllocation = c.vestedWord t := by
        apply hword
        rw [BitVec.le_def, htoDuration] at hlate
        rw [vestedAt, if_neg hearly, if_pos hlate]
        exact toNat_totalAllocation
      rw [if_pos hlate, pure_ok, hall]
    · have hbetween := hlate
      rw [BitVec.le_def, htoDuration] at hbetween
      have hsub : checkedSub t c.startTime = some (t - c.startTime) :=
        checkedSub_eq_some.mpr ⟨by omega, rfl⟩
      have htoSub : (t - c.startTime).toNat = t.toNat - c.startTime.toNat :=
        BitVec.toNat_sub_of_le (BitVec.le_def.mpr (by omega))
      have hfits : totalAllocation.toNat * (t - c.startTime).toNat < 2 ^ 256 := by
        rw [toNat_totalAllocation, htoSub]
        calc 55000000 * 10 ^ 18 * (t.toNat - c.startTime.toNat)
            ≤ 55000000 * 10 ^ 18 * 126144000 := Nat.mul_le_mul_left _ (by omega)
          _ < 2 ^ 256 := by norm_num
      have hmul : checkedMul totalAllocation (t - c.startTime)
          = some (totalAllocation * (t - c.startTime)) := checkedMul_eq_some.mpr ⟨hfits, rfl⟩
      have hdiv : totalAllocation * (t - c.startTime) / duration = c.vestedWord t := by
        apply hword
        rw [BitVec.toNat_udiv, BitVec.toNat_mul, Nat.mod_eq_of_lt hfits, toNat_totalAllocation,
          htoSub, toNat_duration, vestedAt, if_neg hearly, if_neg hbetween]
      rw [if_neg hlate, hsub, checked_bind_ok]
      simp only [Option.some_inj, exists_eq_left']
      rw [hmul, checked_bind_ok]
      simp only [Option.some_inj, exists_eq_left']
      rw [pure_ok, hdiv]

theorem vestedWord_mono (c : FounderVesting) {t t' : U256} (h : t ≤ t') :
    c.vestedWord t ≤ c.vestedWord t' := by
  rw [BitVec.le_def, toNat_vestedWord, toNat_vestedWord]
  exact vestedAt_mono _ (BitVec.le_def.mp h)

theorem vestedWord_le (c : FounderVesting) (t : U256) : c.vestedWord t ≤ totalAllocation := by
  rw [BitVec.le_def, toNat_vestedWord, toNat_totalAllocation]
  exact vestedAt_le _ _

theorem releasableAmount_ok {c c' : FounderVesting} {v t : U256}
    (hstart : c.startTime.toNat < 2 ^ 64) :
    releasableAmount t c = .ok (v, c') ↔
      c.released ≤ c.vestedWord t ∧ v = c.vestedWord t - c.released ∧ c' = c := by
  have hbind : releasableAmount t c = .ok (v, c') ↔
      checked (checkedSub (c.vestedWord t) c.released) c = .ok (v, c') := by
    rw [releasableAmount, bind_ok]
    constructor
    · rintro ⟨_, _, hvested, hsub⟩
      obtain ⟨rfl, rfl⟩ := (vestedAmount_ok hstart).mp hvested
      exact hsub
    · intro hsub
      exact ⟨_, _, (vestedAmount_ok hstart).mpr ⟨rfl, rfl⟩, hsub⟩
  rw [hbind, checked_ok, checkedSub_eq_some, BitVec.le_def, and_assoc]

theorem addReleased_ok {c c' : FounderVesting} {amount : U256} {u : Unit} :
    addReleased amount c = .ok (u, c') ↔
      c.released.toNat + amount.toNat < 2 ^ 256 ∧
        c' = { c with released := c.released + amount } := by
  rw [addReleased, read_bind, checked_bind_ok]
  constructor
  · rintro ⟨released, hadd, hwrite⟩
    obtain ⟨hfits, rfl⟩ := checkedAdd_eq_some.mp hadd
    exact ⟨hfits, write_ok.mp hwrite⟩
  · rintro ⟨hfits, hres⟩
    exact ⟨_, checkedAdd_eq_some.mpr ⟨hfits, rfl⟩, write_ok.mpr hres⟩

/-! ## What a call changes -/

section Calls

variable {τ : Type} [IERC20 τ]

/-- The end of `release`: the amount is added to what was released, and paid. -/
theorem payOut_ok {amount : U256} {u : Unit} {w w' : ContractWorld FounderVesting τ} :
    (do onContract (addReleased amount)
        let contract ← read ContractWorld.contract
        let paid ← onToken (IERC20.transfer contract.self contract.beneficiary amount)
        require (fun _ => paid = true) "Transfer failed" :
        Contract (ContractWorld FounderVesting τ) Unit) w = .ok (u, w') ↔
      w.contract.released.toNat + amount.toNat < 2 ^ 256 ∧
        ∃ token, IERC20.transfer w.contract.self w.contract.beneficiary amount w.token
            = .ok (true, token) ∧
          w' = ⟨{ w.contract with released := w.contract.released + amount }, token, w.now⟩ := by
  rw [onContract_bind_ok]
  constructor
  · rintro ⟨_, _, hadd, h⟩
    obtain ⟨hfits, rfl⟩ := addReleased_ok.mp hadd
    rw [read_bind, onToken_bind_ok] at h
    obtain ⟨paid, token, htransfer, h⟩ := h
    obtain ⟨rfl, rfl⟩ := require_ok.mp h
    exact ⟨hfits, token, htransfer, rfl⟩
  · rintro ⟨hfits, token, htransfer, rfl⟩
    refine ⟨(), _, addReleased_ok.mpr ⟨hfits, rfl⟩, ?_⟩
    rw [read_bind, onToken_bind_ok]
    exact ⟨true, token, htransfer, require_ok.mpr ⟨rfl, rfl⟩⟩

/-- **A release** pays what has vested and was not released, and then all that has vested is
released. -/
theorem release_ok {t : U256} {u : Unit} {w w' : ContractWorld FounderVesting τ}
    (hstart : w.contract.startTime.toNat < 2 ^ 64) :
    release t w = .ok (u, w') ↔
      ∃ v, v = w.contract.vestedWord t ∧ w.contract.released < v ∧
        ∃ token, IERC20.transfer w.contract.self w.contract.beneficiary (v - w.contract.released)
            w.token = .ok (true, token) ∧
          w' = ⟨{ w.contract with released := v }, token, w.now⟩ := by
  have hsum : ∀ v, w.contract.released + (v - w.contract.released) = v := by
    intro v
    rw [BitVec.add_comm, BitVec.sub_add_cancel]
  rw [release, onContract_bind_ok]
  constructor
  · rintro ⟨amount, _, hamount, h⟩
    obtain ⟨hle, hvalue, rfl⟩ := (releasableAmount_ok hstart).mp hamount
    obtain ⟨hpos, h⟩ := require_bind_ok.mp h
    obtain ⟨-, token, htransfer, hw'⟩ := payOut_ok.mp h
    refine ⟨_, rfl, ?_, token, ?_, ?_⟩
    · rw [hvalue, BitVec.lt_def, BitVec.toNat_sub_of_le hle, toNat_zero] at hpos
      exact BitVec.lt_def.mpr (Nat.lt_of_sub_pos hpos)
    · rw [← hvalue]
      exact htransfer
    · rw [hw', hvalue, hsum]
  · rintro ⟨v, hv, hlt, token, htransfer, rfl⟩
    have hle : w.contract.released ≤ v := BitVec.le_of_lt hlt
    have hfits : w.contract.released.toNat + (v - w.contract.released).toNat < 2 ^ 256 := by
      rw [BitVec.toNat_sub_of_le hle, Nat.add_sub_cancel' (BitVec.le_def.mp hle)]
      exact v.isLt
    have hamount : releasableAmount t w.contract = .ok (v - w.contract.released, w.contract) := by
      rw [hv] at hle ⊢
      exact (releasableAmount_ok hstart).mpr ⟨hle, rfl, rfl⟩
    refine ⟨_, _, hamount, ?_⟩
    refine require_bind_ok.mpr ⟨?_, payOut_ok.mpr ⟨hfits, token, htransfer, ?_⟩⟩
    · rw [BitVec.lt_def, BitVec.toNat_sub_of_le hle, toNat_zero]
      exact Nat.sub_pos_of_lt (BitVec.lt_def.mp hlt)
    · rw [hsum]

/-- A new beneficiary changes nothing else. -/
theorem changeBeneficiary_ok {msgSender newBeneficiary : EthAddress} {u : Unit}
    {c c' : FounderVesting} :
    changeBeneficiary msgSender newBeneficiary c = .ok (u, c') ↔
      msgSender = c.beneficiary ∧ newBeneficiary ≠ 0 ∧
        c' = { c with beneficiary := newBeneficiary } := by
  rw [changeBeneficiary, require_bind_ok, require_bind_ok, write_ok]

/-- What one message does to the start and to the released amount. -/
theorem step_cases (message : BlockMessage Call) {w : ContractWorld FounderVesting τ}
    (hstart : w.contract.startTime.toNat < 2 ^ 64) :
    (step message w).now = message.timestamp ∧
      (step message w).contract.startTime = w.contract.startTime ∧
      ((step message w).contract.released = w.contract.released ∨
        (step message w).contract.released = w.contract.vestedWord message.timestamp) := by
  obtain ⟨⟨sender, call⟩, t⟩ := message
  have hcases := deliver_cases (call.exec (τ := τ) sender t) t w
  obtain ⟨u, w', hok, hstep⟩ | ⟨-, hstep⟩ := hcases
  · have hstep : step ⟨⟨sender, call⟩, t⟩ w = { w' with now := t } := hstep
    rw [hstep]
    cases call with
    | release =>
        obtain ⟨v, hv, -, token, -, rfl⟩ := (release_ok hstart).mp hok
        exact ⟨rfl, rfl, Or.inr hv⟩
    | changeBeneficiary newBeneficiary =>
        obtain ⟨c, hchange, rfl⟩ := onContract_ok.mp hok
        obtain ⟨-, -, rfl⟩ := changeBeneficiary_ok.mp hchange
        exact ⟨rfl, rfl, Or.inl rfl⟩
  · have hstep : step ⟨⟨sender, call⟩, t⟩ w = { w with now := t } := hstep
    rw [hstep]
    exact ⟨rfl, rfl, Or.inl rfl⟩

/-! ## Runs -/

/-- The timestamps of a run do not decrease. -/
def Ordered (w : ContractWorld FounderVesting τ) (message : BlockMessage Call) : Prop :=
  w.Timely message.timestamp

instance (w : ContractWorld FounderVesting τ) (message : BlockMessage Call) :
    Decidable (Ordered w message) := inferInstanceAs (Decidable (_ ≤ _))

/-- No more is released than has vested. -/
structure Covered (start : U256) (w : ContractWorld FounderVesting τ) : Prop where
  start_eq : w.contract.startTime = start
  released_le : w.contract.released ≤ w.contract.vestedWord w.now

theorem Covered.step {start : U256} (hstart : start.toNat < 2 ^ 64)
    {w : ContractWorld FounderVesting τ} {message : BlockMessage Call} (h : Covered start w)
    (hordered : Ordered w message) : Covered start (step message w) := by
  have hwstart : w.contract.startTime.toNat < 2 ^ 64 := by rw [h.start_eq]; exact hstart
  obtain ⟨hnow, hsame, hreleased⟩ := step_cases message hwstart
  refine ⟨hsame.trans h.start_eq, ?_⟩
  have hvested : (FounderVesting.step message w).contract.vestedWord message.timestamp
      = w.contract.vestedWord message.timestamp := by
    rw [vestedWord, vestedWord, hsame]
  rw [hnow, hvested]
  rcases hreleased with heq | heq
  · rw [heq]
    exact BitVec.le_trans h.released_le (vestedWord_mono _ hordered)
  · rw [heq]
    exact BitVec.le_refl _

/-- **Exactly what has vested is released.**  In every state of every run, at every later time:
`vestedAmount` and `releasableAmount` succeed, and `released ≤ vestedAmount ≤ TOTAL_ALLOCATION`;
the vested amount is 0 before the cliff, everything from the end on, and never decreases; and after
a release that succeeds, all that has vested by then is released. -/
theorem released_eq_vested {self token beneficiary : EthAddress} {start : U256}
    {c : FounderVesting} {e : Unit}
    (hdeploy : deploy self token beneficiary start () = .ok (c, e))
    (hstart : start.toNat < 2 ^ 64) (ledger : τ) {messages : List (BlockMessage Call)}
    (hmessages : Runs.Along FounderVesting.step Ordered ⟨c, ledger, start⟩ messages) :
    let w := Runs.run FounderVesting.step ⟨c, ledger, start⟩ messages
    (∀ t, w.now ≤ t → ∃ v, vestedAmount t w.contract = .ok (v, w.contract) ∧
      w.contract.released ≤ v ∧ v ≤ totalAllocation ∧
      releasableAmount t w.contract = .ok (v - w.contract.released, w.contract) ∧
      (t.toNat < start.toNat + cliff.toNat → v = 0) ∧
      (start.toNat + duration.toNat ≤ t.toNat → v = totalAllocation) ∧
      ∀ t' v' c', t ≤ t' → vestedAmount t' w.contract = .ok (v', c') → v ≤ v') ∧
    ∀ sender t, Contract.Succeeds (release t) w →
      vestedAmount t (FounderVesting.step ⟨⟨sender, .release⟩, t⟩ w).contract
        = .ok ((FounderVesting.step ⟨⟨sender, .release⟩, t⟩ w).contract.released,
          (FounderVesting.step ⟨⟨sender, .release⟩, t⟩ w).contract) := by
  intro w
  rw [deploy, require_bind_ok, require_bind_ok, pure_ok] at hdeploy
  obtain ⟨-, -, rfl, -⟩ := hdeploy
  have hcovered : Covered start w := by
    refine Runs.Along.invariant (fun w message hw hordered => hw.step hstart hordered) ?_ hmessages
    exact ⟨rfl, BitVec.le_def.mpr (Nat.zero_le _)⟩
  have hwstart : w.contract.startTime.toNat < 2 ^ 64 := by rw [hcovered.start_eq]; exact hstart
  refine ⟨fun t ht => ?_, fun sender t hsucceeds => ?_⟩
  · have hle := BitVec.le_trans hcovered.released_le (vestedWord_mono w.contract ht)
    refine ⟨_, (vestedAmount_ok hwstart).mpr ⟨rfl, rfl⟩, hle, vestedWord_le _ _,
      (releasableAmount_ok hwstart).mpr ⟨hle, rfl, rfl⟩, fun hcliff => ?_, fun hend => ?_,
      fun t' v' c' ht' hv' => ?_⟩
    · apply BitVec.eq_of_toNat_eq
      rw [toNat_cliff] at hcliff
      rw [toNat_vestedWord, hcovered.start_eq, vestedAt, if_pos hcliff, toNat_zero]
    · apply BitVec.eq_of_toNat_eq
      rw [toNat_duration] at hend
      rw [toNat_vestedWord, hcovered.start_eq, vestedAt, if_neg (by omega), if_pos hend,
        toNat_totalAllocation]
    · rw [((vestedAmount_ok hwstart).mp hv').1]
      exact vestedWord_mono w.contract ht'
  · obtain ⟨u, w', hok⟩ := hsucceeds
    have hstep : FounderVesting.step ⟨⟨sender, .release⟩, t⟩ w = { w' with now := t } :=
      deliver_of_ok (m := FounderVesting.release t) hok t
    rw [hstep]
    obtain ⟨v, hv, -, token, -, rfl⟩ := (release_ok hwstart).mp hok
    have hkeep : ({ w.contract with released := v } : FounderVesting).startTime.toNat < 2 ^ 64 :=
      hwstart
    refine (vestedAmount_ok hkeep).mpr ⟨?_, rfl⟩
    rw [hv, vestedWord, vestedWord]

end Calls

/-- Two releases out of a distributed allocation, a year apart. -/
theorem two_releases_covered :
    let ledger := PNXToken.step ⟨5, .executeGenesisDistribution 10 11 12⟩ (PNXToken.deploy 1 5)
    let w := Runs.run FounderVesting.step ⟨⟨10, 7, 1, 1000, 0⟩, ledger, 1000⟩
      [⟨⟨7, .release⟩, 31537000⟩, ⟨⟨8, .release⟩, 63073000⟩]
    ∀ t, w.now ≤ t → ∃ v, vestedAmount t w.contract = .ok (v, w.contract) ∧
      w.contract.released ≤ v ∧ v ≤ totalAllocation := by
  intro ledger w t ht
  have hdeploy : deploy 10 1 7 1000 () = .ok (⟨10, 7, 1, 1000, 0⟩, ()) := by
    rw [deploy, require_bind_ok, require_bind_ok]
    exact ⟨by decide, by decide, rfl⟩
  have hordered : Runs.Along FounderVesting.step Ordered
      (⟨⟨10, 7, 1, 1000, 0⟩, ledger, 1000⟩ : ContractWorld FounderVesting PNXToken)
      [⟨⟨7, .release⟩, 31537000⟩, ⟨⟨8, .release⟩, 63073000⟩] :=
    ⟨by decide, by decide, trivial⟩
  obtain ⟨v, hv, hle, htotal, -⟩ :=
    (released_eq_vested hdeploy (by decide) ledger hordered).1 t ht
  exact ⟨v, hv, hle, htotal⟩

end FounderVesting
