/-
# The books of the burn manager

`BurnManager` of `src/vault/burn.rs`: the supply, the burned total and the history of the burns,
and the two views that group the history by reason and by phase.

`Booked` relates the three to the initial supply, and every call keeps it (`after_booked`).  The
views add up to the total as groups of one list do (`books_balance`).
-/
import Pacyte.Grouping
import Pacyte.Runs
import Pacyte.SupplyPhase

open Exec

/-- `BurnReason`. -/
inductive BurnReason : Type where
  | transactionFee
  | dormantAccount
  | slashing
  | sovereignDirective
  | bridgeTimeout
  | other (text : String)
  deriving DecidableEq, Repr

/-- `BurnRecord`. -/
structure BurnRecord where
  amount : U128
  reason : BurnReason
  timestamp : Timestamp
  blockHeight : Option BlockHeight
  remainingSupply : U128
  phase : SupplyPhase
  deriving DecidableEq, Repr

/-- `BurnManager`, with the clock. -/
structure BurnManager where
  totalBurned : U128
  burnHistory : List BurnRecord
  currentSupply : U128
  clock : Clock

namespace BurnManager

/-! ## The manager -/

/-- `BurnManager::new`. -/
def new (initialSupply : U128) (clock : Clock) : BurnManager := ⟨0, [], initialSupply, clock⟩

/-- `current_timestamp`. -/
def now : Exec PacyteError BurnManager Timestamp :=
  Exec.onPart (·.clock) (fun clock m => { m with clock := clock }) currentTimestamp

/-- `burn`. -/
def burn (amount : U128) (reason : BurnReason) (blockHeight : Option BlockHeight) :
    Exec PacyteError BurnManager BurnRecord := do
  if amount = 0 then
    Exec.throw .invalidAmount
  else
    let m ← Exec.get
    if m.currentSupply < amount then
      Exec.throw .insufficientSupply
    else
      let supply := m.currentSupply - amount
      Exec.modify fun m => { m with currentSupply := supply }
      let total ← Exec.addU128 m.totalBurned amount
      Exec.modify fun m => { m with totalBurned := total }
      let timestamp ← now
      let record : BurnRecord :=
        ⟨amount, reason, timestamp, blockHeight, supply, SupplyPhase.fromSupply supply⟩
      Exec.modify fun m => { m with burnHistory := m.burnHistory ++ [record] }
      return record

/-- `sum` of 128-bit words. -/
def sumU128 {ε τ : Type} (acc : U128) : List U128 → Exec ε τ U128
  | [] => return acc
  | a :: rest => do
    let acc ← Exec.addU128 acc a
    sumU128 acc rest

/-- `total_burned_by_reason`. -/
def totalBurnedByReason (reason : BurnReason) : Exec Empty BurnManager U128 := do
  let m ← Exec.get
  sumU128 0 ((m.burnHistory.filter fun r => r.reason = reason).map BurnRecord.amount)

/-- The inner loop of `burned_by_phase`: add to the first total of the phase. -/
def addToPhase {ε τ : Type} (record : BurnRecord) :
    List (SupplyPhase × U128) → Exec ε τ (List (SupplyPhase × U128))
  | [] => return []
  | (phase, total) :: rest =>
    if phase = record.phase then do
      let total ← Exec.addU128 total record.amount
      return (phase, total) :: rest
    else do
      let rest ← addToPhase record rest
      return (phase, total) :: rest

/-- The outer loop of `burned_by_phase`. -/
def addRecords {ε τ : Type} (totals : List (SupplyPhase × U128)) :
    List BurnRecord → Exec ε τ (List (SupplyPhase × U128))
  | [] => return totals
  | record :: rest => do
    let totals ← addToPhase record totals
    addRecords totals rest

/-- `burned_by_phase`. -/
def burnedByPhase : Exec Empty BurnManager (List (SupplyPhase × U128)) := do
  let m ← Exec.get
  addRecords [(.greatBurn, 0), (.transition, 0), (.goldenEra, 0)] m.burnHistory

/-- The arguments of a call of `burn`. -/
structure Call where
  amount : U128
  reason : BurnReason
  blockHeight : Option BlockHeight

/-- The state after a call. -/
def Call.after (c : Call) (m : BurnManager) : BurnManager :=
  (burn c.amount c.reason c.blockHeight m).2

/-! ## One call -/

/-- The record of a burn. -/
def recordOf (m : BurnManager) (c : Call) : BurnRecord :=
  ⟨c.amount, c.reason, m.clock 0, c.blockHeight, m.currentSupply - c.amount,
    SupplyPhase.fromSupply (m.currentSupply - c.amount)⟩

/-- The state after a burn. -/
def burned (m : BurnManager) (c : Call) : BurnManager :=
  ⟨m.totalBurned + c.amount, m.burnHistory ++ [m.recordOf c], m.currentSupply - c.amount,
    fun k => m.clock (k + 1)⟩

variable {m : BurnManager}

theorem burn_zero (reason : BurnReason) (blockHeight : Option BlockHeight) :
    burn 0 reason blockHeight m = (.err .invalidAmount, m) := rfl

theorem burn_tooLarge {c : Call} (hzero : c.amount ≠ 0) (hlarge : m.currentSupply < c.amount) :
    burn c.amount c.reason c.blockHeight m = (.err .insufficientSupply, m) := by
  unfold burn
  rw [if_neg hzero, run_bind, run_get]
  dsimp only
  rw [if_pos hlarge, run_throw]

theorem burn_of_le {c : Call} (hzero : c.amount ≠ 0) (hle : ¬ m.currentSupply < c.amount)
    (hfits : m.totalBurned.toNat + c.amount.toNat < 2 ^ 128) :
    burn c.amount c.reason c.blockHeight m = (.ok (m.recordOf c), m.burned c) := by
  have hadd : ∀ m' : BurnManager, (Exec.addU128 m.totalBurned c.amount :
      Exec PacyteError BurnManager U128) m' = (.ok (m.totalBurned + c.amount), m') :=
    fun m' => congrFun (if_pos hfits) m'
  unfold burn
  rw [if_neg hzero, run_bind, run_get]
  dsimp only
  rw [if_neg hle, run_bind, run_modify]
  dsimp only
  rw [run_bind_of_ok (hadd _)]
  rfl

/-- The sum of the amounts of records. -/
def amounts (records : List BurnRecord) : ℕ := (records.map fun r => r.amount.toNat).sum

theorem amounts_append (records records' : List BurnRecord) :
    amounts (records ++ records') = amounts records + amounts records' := by
  unfold amounts
  rw [List.map_append, List.sum_append]

theorem amounts_singleton (r : BurnRecord) : amounts [r] = r.amount.toNat := Nat.add_zero _

/-- The books of a manager that began with a supply. -/
structure Booked (initial : U128) (m : BurnManager) : Prop where
  supply : m.currentSupply.toNat + m.totalBurned.toNat = initial.toNat
  total : m.totalBurned.toNat = amounts m.burnHistory
  remaining : ∀ i r, m.burnHistory[i]? = some r →
    r.remainingSupply.toNat + amounts (m.burnHistory.take (i + 1)) = initial.toNat
  phase : ∀ r ∈ m.burnHistory, r.phase = SupplyPhase.fromSupply r.remainingSupply

variable {initial : U128}

theorem booked_new (initial : U128) (clock : Clock) : Booked initial (new initial clock) :=
  ⟨rfl, rfl, nofun, nofun⟩

theorem Booked.fits (h : Booked initial m) {amount : U128} (hle : ¬ m.currentSupply < amount) :
    amount.toNat ≤ m.currentSupply.toNat ∧ m.totalBurned.toNat + amount.toNat < 2 ^ 128 := by
  have hsupply := h.supply
  have hinitial := initial.isLt
  have hamount : amount.toNat ≤ m.currentSupply.toNat := Nat.le_of_not_lt hle
  omega

theorem Booked.burned (h : Booked initial m) {c : Call} (hle : ¬ m.currentSupply < c.amount) :
    Booked initial (m.burned c) := by
  obtain ⟨hamount, hfits⟩ := h.fits hle
  have hsupply := h.supply
  have htotal := h.total
  have hleft : (m.currentSupply - c.amount).toNat = m.currentSupply.toNat - c.amount.toNat :=
    BitVec.toNat_sub_of_le (BitVec.le_def.mpr hamount)
  have hmore : (m.totalBurned + c.amount).toNat = m.totalBurned.toNat + c.amount.toNat :=
    BitVec.toNat_add_of_lt hfits
  have hhistory : amounts (m.burned c).burnHistory = amounts m.burnHistory + c.amount.toNat := by
    show amounts (m.burnHistory ++ [m.recordOf c]) = _
    rw [amounts_append, amounts_singleton]
    rfl
  refine ⟨?_, ?_, fun i r hr => ?_, fun r hr => ?_⟩
  · show (m.currentSupply - c.amount).toNat + (m.totalBurned + c.amount).toNat = initial.toNat
    omega
  · rw [hhistory, ← htotal]
    exact hmore
  · change (m.burnHistory ++ [m.recordOf c])[i]? = some r at hr
    change r.remainingSupply.toNat + amounts ((m.burnHistory ++ [m.recordOf c]).take (i + 1)) = _
    by_cases hi : i < m.burnHistory.length
    · rw [List.getElem?_append_left hi] at hr
      rw [List.take_append_of_le_length hi]
      exact h.remaining i r hr
    · -- The new record is the last one.
      rw [List.getElem?_append_right (Nat.le_of_not_lt hi)] at hr
      have hlast := List.mem_of_getElem? hr
      rw [List.mem_singleton] at hlast
      rw [List.take_of_length_le (by rw [List.length_append, List.length_singleton]; omega),
        show amounts (m.burnHistory ++ [m.recordOf c]) = _ from hhistory, hlast]
      show (m.currentSupply - c.amount).toNat + _ = _
      omega
  · rcases List.mem_append.mp hr with hold | hnew
    · exact h.phase r hold
    · rw [List.mem_singleton.mp hnew]
      rfl

/-- Every call keeps the books. -/
theorem after_booked (h : Booked initial m) (c : Call) : Booked initial (c.after m) := by
  unfold Call.after
  by_cases hzero : c.amount = 0
  · rw [hzero, burn_zero]
    exact h
  · by_cases hlarge : m.currentSupply < c.amount
    · rw [burn_tooLarge hzero hlarge]
      exact h
    · rw [burn_of_le hzero hlarge (h.fits hlarge).2]
      exact h.burned hlarge

/-! ## The views -/

theorem sumU128_run {ε τ : Type} (l : List U128) (acc : U128) (s : τ)
    (h : acc.toNat + (l.map BitVec.toNat).sum < 2 ^ 128) :
    ∃ total : U128, (sumU128 acc l : Exec ε τ U128) s = (.ok total, s) ∧
      total.toNat = acc.toNat + (l.map BitVec.toNat).sum := by
  induction l generalizing acc with
  | nil => exact ⟨acc, rfl, rfl⟩
  | cons a l ih =>
      rw [List.map_cons, List.sum_cons] at h ⊢
      have hfits : acc.toNat + a.toNat < 2 ^ 128 := by omega
      have hadd : (Exec.addU128 acc a : Exec ε τ U128) s = (.ok (acc + a), s) :=
        congrFun (if_pos hfits) s
      have hsum : (acc + a).toNat = acc.toNat + a.toNat := BitVec.toNat_add_of_lt hfits
      obtain ⟨total, hrun, htotal⟩ := ih (acc + a) (by omega)
      refine ⟨total, ?_, by omega⟩
      rw [sumU128, run_bind_of_ok hadd]
      exact hrun

/-- What was burned for a reason. -/
theorem totalBurnedByReason_run (h : Booked initial m) (reason : BurnReason) :
    ∃ total : U128, totalBurnedByReason reason m = (.ok total, m) ∧
      total.toNat = amounts (m.burnHistory.filter fun r => r.reason = reason) := by
  have hle : amounts (m.burnHistory.filter fun r => r.reason = reason) ≤ amounts m.burnHistory :=
    (List.Sublist.map _ List.filter_sublist).sum_le_sum fun _ _ => Nat.zero_le _
  have hsupply := h.supply
  have htotal := h.total
  have hinitial := initial.isLt
  obtain ⟨total, hrun, hsum⟩ := sumU128_run (ε := Empty)
    ((m.burnHistory.filter fun r => r.reason = reason).map BurnRecord.amount) 0 m (by
      rw [List.map_map]
      change 0 + amounts _ < _
      omega)
  rw [List.map_map] at hsum
  exact ⟨total, hrun, hsum.trans (Nat.zero_add _)⟩

/-- The sum of the totals of phases. -/
def phaseSum (totals : List (SupplyPhase × U128)) : ℕ := (totals.map fun t => t.2.toNat).sum

theorem phaseSum_cons (phase : SupplyPhase) (total : U128) (rest : List (SupplyPhase × U128)) :
    phaseSum ((phase, total) :: rest) = total.toNat + phaseSum rest := List.sum_cons

theorem addToPhase_run {ε τ : Type} (record : BurnRecord) (totals : List (SupplyPhase × U128))
    (s : τ) (hphase : record.phase ∈ totals.map Prod.fst)
    (hfits : phaseSum totals + record.amount.toNat < 2 ^ 128) :
    ∃ totals', (addToPhase record totals : Exec ε τ _) s = (.ok totals', s) ∧
      totals'.map Prod.fst = totals.map Prod.fst ∧
      phaseSum totals' = phaseSum totals + record.amount.toNat := by
  induction totals with
  | nil => exact absurd hphase List.not_mem_nil
  | cons t rest ih =>
      obtain ⟨phase, total⟩ := t
      rw [phaseSum_cons] at hfits ⊢
      by_cases hp : phase = record.phase
      · have hsmall : total.toNat + record.amount.toNat < 2 ^ 128 := by omega
        have hadd : (Exec.addU128 total record.amount : Exec ε τ U128) s =
            (.ok (total + record.amount), s) := congrFun (if_pos hsmall) s
        have hsum : (total + record.amount).toNat = total.toNat + record.amount.toNat :=
          BitVec.toNat_add_of_lt hsmall
        refine ⟨(phase, total + record.amount) :: rest, ?_, rfl, ?_⟩
        · rw [addToPhase, if_pos hp, run_bind_of_ok hadd]
          rfl
        · rw [phaseSum_cons, hsum]
          omega
      · rw [List.map_cons, List.mem_cons] at hphase
        obtain ⟨rest', hrun, hkeys, hsum⟩ :=
          ih (hphase.resolve_left fun heq => hp heq.symm) (by omega)
        refine ⟨(phase, total) :: rest', ?_, ?_, ?_⟩
        · rw [addToPhase, if_neg hp, run_bind_of_ok hrun]
          rfl
        · rw [List.map_cons, List.map_cons, hkeys]
        · rw [phaseSum_cons, hsum]
          omega

theorem addRecords_run {ε τ : Type} (records : List BurnRecord)
    (totals : List (SupplyPhase × U128)) (s : τ) (hphase : ∀ phase, phase ∈ totals.map Prod.fst)
    (hfits : phaseSum totals + amounts records < 2 ^ 128) :
    ∃ totals', (addRecords totals records : Exec ε τ _) s = (.ok totals', s) ∧
      totals'.map Prod.fst = totals.map Prod.fst ∧
      phaseSum totals' = phaseSum totals + amounts records := by
  induction records generalizing totals with
  | nil => exact ⟨totals, rfl, rfl, rfl⟩
  | cons record rest ih =>
      have hcons : amounts (record :: rest) = record.amount.toNat + amounts rest := List.sum_cons
      rw [hcons] at hfits ⊢
      obtain ⟨totals₁, hrun, hkeys, hsum⟩ :=
        addToPhase_run (ε := ε) record totals s (hphase record.phase) (by omega)
      obtain ⟨totals₂, hrun₂, hkeys₂, hsum₂⟩ :=
        ih totals₁ (by rwa [hkeys]) (by omega)
      refine ⟨totals₂, ?_, hkeys₂.trans hkeys, by omega⟩
      rw [addRecords, run_bind_of_ok hrun]
      exact hrun₂

/-- What was burned in the phases. -/
theorem burnedByPhase_run (h : Booked initial m) :
    ∃ totals, burnedByPhase m = (.ok totals, m) ∧
      totals.map Prod.fst = [.greatBurn, .transition, .goldenEra] ∧
      phaseSum totals = m.totalBurned.toNat := by
  have hsupply := h.supply
  have htotal := h.total
  have hinitial := initial.isLt
  have hzero : phaseSum [(.greatBurn, 0), (.transition, 0), (.goldenEra, 0)] = 0 := rfl
  obtain ⟨totals, hrun, hkeys, hsum⟩ := addRecords_run (ε := Empty) m.burnHistory
    [(.greatBurn, 0), (.transition, 0), (.goldenEra, 0)] m
    (fun phase => by cases phase <;> decide) (by omega)
  exact ⟨totals, hrun, hkeys, by omega⟩

/-- The groups of the history by reason add up to the history. -/
theorem amounts_reasons (records : List BurnRecord) {reasons : List BurnReason}
    (hnodup : reasons.Nodup) (hcover : ∀ r ∈ records, r.reason ∈ reasons) :
    (reasons.map fun reason => amounts (records.filter fun r => r.reason = reason)).sum =
      amounts records := by
  have hperm := List.flatMap_filter_perm BurnRecord.reason hnodup records hcover
  have hsum := (hperm.map fun r => r.amount.toNat).sum_eq
  rw [List.map_flatMap, List.flatMap, List.sum_flatten, List.map_map] at hsum
  exact hsum

/-! ## Runs -/

theorem run_booked (initial : U128) (clock : Clock) (calls : List Call) :
    Booked initial (Runs.run Call.after (new initial clock) calls) :=
  Runs.invariant (I := Booked initial) (fun _ c h => after_booked h c) (booked_new initial clock)
    calls

/-- The phases of the history never go back. -/
theorem Booked.rank_mono (h : Booked initial m) {i j : ℕ} {r r' : BurnRecord} (hij : i ≤ j)
    (hr : m.burnHistory[i]? = some r) (hr' : m.burnHistory[j]? = some r') :
    r.phase.rank ≤ r'.phase.rank := by
  have hi := h.remaining i r hr
  have hj := h.remaining j r' hr'
  have hle : amounts (m.burnHistory.take (i + 1)) ≤ amounts (m.burnHistory.take (j + 1)) :=
    (List.Sublist.map _ (List.take_sublist_take_left (by omega))).sum_le_sum
      fun _ _ => Nat.zero_le _
  rw [h.phase r (List.mem_of_getElem? hr), h.phase r' (List.mem_of_getElem? hr')]
  exact SupplyPhase.rank_fromSupply_mono (by omega)

/-- **The books balance** in every run of burns from any supply: supply, total and history agree,
so do the two views, the phases do not go back, and a burn that fails changes nothing. -/
theorem books_balance (initial : U128) (clock : Clock) (calls : List Call) :
    let m := Runs.run Call.after (new initial clock) calls
    Booked initial m ∧
      (∃ totals, burnedByPhase m = (.ok totals, m) ∧ phaseSum totals = m.totalBurned.toNat) ∧
      (∀ reasons : List BurnReason, reasons.Nodup → (∀ r ∈ m.burnHistory, r.reason ∈ reasons) →
        ∃ total : BurnReason → U128,
          (∀ reason, totalBurnedByReason reason m = (.ok (total reason), m)) ∧
          (reasons.map fun reason => (total reason).toNat).sum = m.totalBurned.toNat) ∧
      (∀ (i j : ℕ) (r r' : BurnRecord), i ≤ j → m.burnHistory[i]? = some r →
        m.burnHistory[j]? = some r' → r.phase.rank ≤ r'.phase.rank) ∧
      ∀ c : Call,
        (c.amount = 0 → burn c.amount c.reason c.blockHeight m = (.err .invalidAmount, m)) ∧
        (c.amount ≠ 0 → m.currentSupply < c.amount →
          burn c.amount c.reason c.blockHeight m = (.err .insufficientSupply, m)) ∧
        (c.amount ≠ 0 → ¬ m.currentSupply < c.amount →
          burn c.amount c.reason c.blockHeight m = (.ok (m.recordOf c), m.burned c)) := by
  intro m
  have h : Booked initial m := run_booked initial clock calls
  refine ⟨h, ?_, fun reasons hnodup hcover => ?_, fun i j r r' => h.rank_mono, fun c => ?_⟩
  · obtain ⟨totals, hrun, -, hsum⟩ := burnedByPhase_run h
    exact ⟨totals, hrun, hsum⟩
  · choose total hrun hsum using totalBurnedByReason_run h
    refine ⟨total, hrun, ?_⟩
    rw [List.map_congr_left fun reason _ => hsum reason, amounts_reasons _ hnodup hcover, h.total]
  · refine ⟨fun hzero => ?_, fun hzero hlarge => burn_tooLarge hzero hlarge,
      fun hzero hle => burn_of_le hzero hle (h.fits hle).2⟩
    rw [hzero]
    exact burn_zero c.reason c.blockHeight

end BurnManager
