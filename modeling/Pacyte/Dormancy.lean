/-
# Dormant accounts

`DormancyManager` of `src/vault/dormancy.rs`: the records of dormant accounts, a counter of them
and a counter of the balances that are not yet burned.

The counters are exact along a run exactly where every call meets a condition on the record that it
finds (`counters_exact_iff`): activity removes a record and leaves its balance in the counter,
a removal takes the balance of a burned record away a second time, and marking an account again
replaces its record without its balance.
-/
import Pacyte.MapEntries
import Pacyte.Runs
import Pacyte.Types

open Exec

/-- `DORMANCY_THRESHOLD_SECONDS`. -/
def dormancyThresholdSeconds : UInt64 := 6 * 365 * 24 * 60 * 60

/-- `GRACE_PERIOD_SECONDS`. -/
def gracePeriodSeconds : UInt64 := 30 * 24 * 60 * 60

/-- `DormantRecord`. -/
structure DormantRecord where
  address : Address
  balance : U128
  lastActivity : Timestamp
  dormantSince : Timestamp
  burned : Bool
  burnedAt : Option Timestamp
  deriving DecidableEq, Repr

/-- `DormancyManager` with the clock; warnings are left out. -/
structure DormancyManager where
  lastActivity : Map Address Timestamp
  dormantAccounts : Map Address DormantRecord
  totalDormantAccounts : ℕ
  totalDormantValue : U128
  clock : Clock

namespace DormancyManager

/-! ## The calls -/

/-- `DormancyManager::new`. -/
def new (clock : Clock) : DormancyManager := ⟨∅, ∅, 0, 0, clock⟩

/-- `current_timestamp`. -/
def now : Exec Empty DormancyManager Timestamp :=
  Exec.onPart (·.clock) (fun clock m => { m with clock := clock }) currentTimestamp

/-- `*total_dormant_accounts -= 1`. -/
def countDown : Exec Empty DormancyManager Unit := do
  let m ← Exec.get
  if m.totalDormantAccounts = 0 then Exec.abort
  else Exec.modify fun m => { m with totalDormantAccounts := m.totalDormantAccounts - 1 }

/-- `*total_dormant_value += balance`. -/
def addValue (balance : U128) : Exec Empty DormancyManager Unit := do
  let m ← Exec.get
  if m.totalDormantValue.toNat + balance.toNat < 2 ^ 128 then
    Exec.modify fun m => { m with totalDormantValue := m.totalDormantValue + balance }
  else Exec.abort

/-- `*total_dormant_value -= balance`. -/
def takeValue (balance : U128) : Exec Empty DormancyManager Unit := do
  let m ← Exec.get
  if m.totalDormantValue < balance then Exec.abort
  else Exec.modify fun m => { m with totalDormantValue := m.totalDormantValue - balance }

/-- `record_activity`. -/
def recordActivity (address : Address) : Exec Empty DormancyManager Unit := do
  let now ← now
  Exec.modify fun m => { m with lastActivity := m.lastActivity.insert address now }
  let m ← Exec.get
  match m.dormantAccounts.lookup address with
  | none => return ()
  | some _ =>
    Exec.modify fun m => { m with dormantAccounts := m.dormantAccounts.erase address }
    countDown

/-- `add_account`; the balance is not used. -/
def addAccount (address : Address) (_balance : U128) : Exec Empty DormancyManager Unit := do
  let now ← now
  Exec.modify fun m => { m with lastActivity := m.lastActivity.insert address now }

/-- `remove_account`. -/
def removeAccount (address : Address) : Exec Empty DormancyManager Unit := do
  Exec.modify fun m => { m with lastActivity := m.lastActivity.erase address }
  let m ← Exec.get
  match m.dormantAccounts.lookup address with
  | none => return ()
  | some record =>
    Exec.modify fun m => { m with dormantAccounts := m.dormantAccounts.erase address }
    countDown
    takeValue record.balance

/-- `mark_dormant`. -/
def markDormant (address : Address) (balance : U128) : Exec Empty DormancyManager Unit := do
  let now ← now
  let m ← Exec.get
  let record : DormantRecord :=
    ⟨address, balance, (m.lastActivity.lookup address).getD now, now, false, none⟩
  Exec.modify fun m => { m with dormantAccounts := m.dormantAccounts.insert address record }
  match m.dormantAccounts.lookup address with
  | none =>
    Exec.modify fun m => { m with totalDormantAccounts := m.totalDormantAccounts + 1 }
    addValue balance
  | some _ => return ()

/-- `burn_dormant`. -/
def burnDormant (address : Address) : Exec Empty DormancyManager (Option U128) := do
  let m ← Exec.get
  match m.dormantAccounts.lookup address with
  | none => return none
  | some record =>
    if record.burned then return none
    else
      let now ← now
      let thresholdEnd ← Exec.addU64 record.dormantSince dormancyThresholdSeconds
      let graceEnd ← Exec.addU64 thresholdEnd gracePeriodSeconds
      if graceEnd ≤ now then
        Exec.modify fun m => { m with
          dormantAccounts := m.dormantAccounts.insert address
            { record with burned := true, burnedAt := some now } }
        takeValue record.balance
        return some record.balance
      else return none

/-- The calls that change the records. -/
inductive Call : Type where
  | recordActivity (address : Address)
  | addAccount (address : Address) (balance : U128)
  | removeAccount (address : Address)
  | markDormant (address : Address) (balance : U128)
  | burnDormant (address : Address)

/-- A call, without its result. -/
def Call.run : Call → DormancyManager → Outcome Empty Unit × DormancyManager
  | .recordActivity address => DormancyManager.recordActivity address
  | .addAccount address balance => DormancyManager.addAccount address balance
  | .removeAccount address => DormancyManager.removeAccount address
  | .markDormant address balance => DormancyManager.markDormant address balance
  | .burnDormant address => fun m =>
    ((DormancyManager.burnDormant address m).1.discard, (DormancyManager.burnDormant address m).2)

/-- The state after a call. -/
def Call.after (call : Call) (m : DormancyManager) : DormancyManager := (call.run m).2

end DormancyManager

/-- What a record adds to the value that is not yet burned. -/
def DormantRecord.value (r : DormantRecord) : ℕ := if r.burned then 0 else r.balance.toNat

namespace DormancyManager

/-! ## Exact counters -/

/-- The counters are those of the records. -/
structure Exact (m : DormancyManager) : Prop where
  accounts : m.totalDormantAccounts = m.dormantAccounts.entries.length
  value : m.totalDormantValue.toNat = Map.total DormantRecord.value m.dormantAccounts

/-- The end of the grace period of a record that is to be burned is not a 64-bit number. -/
def Call.GraceOverflows (m : DormancyManager) : Call → Prop
  | .burnDormant address => ∃ r ∈ m.dormantAccounts.lookup address, r.burned = false ∧
      2 ^ 64 ≤ r.dormantSince.toNat + dormancyThresholdSeconds.toNat + gracePeriodSeconds.toNat
  | _ => False

/-- The call leaves exact counters, and no counter makes it panic. -/
structure StaysExact (m : DormancyManager) (call : Call) : Prop where
  exact : Exact (call.after m)
  panics : (call.run m).1 = .panic → call.GraceOverflows m

/-- The condition on the record that a call finds: activity finds nothing to burn, a removal takes
away what is counted, and what replaces a record counts as much. -/
def Careful (m : DormancyManager) : Call → Prop
  | .recordActivity address => ∀ r ∈ m.dormantAccounts.lookup address, r.value = 0
  | .addAccount _ _ => True
  | .removeAccount address => ∀ r ∈ m.dormantAccounts.lookup address, r.value = r.balance.toNat
  | .markDormant address balance =>
      (m.dormantAccounts.lookup address = none →
        m.totalDormantValue.toNat + balance.toNat < 2 ^ 128) ∧
      ∀ r ∈ m.dormantAccounts.lookup address, r.value = balance.toNat
  | .burnDormant _ => True

theorem exact_new (clock : Clock) : Exact (new clock) := ⟨rfl, rfl⟩

variable {m : DormancyManager}

/-! ## The calls, by the record that they find -/

/-- The state with the time of the last activity. -/
def touched (m : DormancyManager) (address : Address) : DormancyManager :=
  { m with
    lastActivity := m.lastActivity.insert address (m.clock 0)
    clock := fun k => m.clock (k + 1) }

/-- The state without the record of an account. -/
def dropped (m : DormancyManager) (address : Address) : DormancyManager :=
  { m with
    dormantAccounts := m.dormantAccounts.erase address
    totalDormantAccounts := m.totalDormantAccounts - 1 }

theorem countDown_run (h : m.totalDormantAccounts ≠ 0) :
    countDown m = (.ok (), { m with totalDormantAccounts := m.totalDormantAccounts - 1 }) := by
  show (if m.totalDormantAccounts = 0 then Exec.abort else _ : Exec Empty DormancyManager Unit) m = _
  rw [if_neg h]
  rfl

theorem takeValue_run (balance : U128) : takeValue balance m =
    if m.totalDormantValue < balance then (.panic, m)
    else (.ok (), { m with totalDormantValue := m.totalDormantValue - balance }) := by
  show (if m.totalDormantValue < balance then Exec.abort else _ :
    Exec Empty DormancyManager Unit) m = _
  split_ifs <;> rfl

theorem addValue_run (balance : U128) : addValue balance m =
    if m.totalDormantValue.toNat + balance.toNat < 2 ^ 128 then
      (.ok (), { m with totalDormantValue := m.totalDormantValue + balance })
    else (.panic, m) := by
  show (if m.totalDormantValue.toNat + balance.toNat < 2 ^ 128 then _ else Exec.abort :
    Exec Empty DormancyManager Unit) m = _
  split_ifs <;> rfl

/-- A record that exists is counted. -/
theorem Exact.count_ne_zero (h : Exact m) {address : Address} {r : DormantRecord}
    (hlookup : m.dormantAccounts.lookup address = some r) : m.totalDormantAccounts ≠ 0 := by
  have hlength := Map.total_erase (fun _ => 1) m.dormantAccounts hlookup
  rw [Map.total, Map.total, List.map_const', List.map_const', List.sum_replicate,
    List.sum_replicate, Map.length_toPairs, smul_eq_mul] at hlength
  rw [h.accounts]
  omega

theorem Exact.count_dropped (h : Exact m) {address : Address} {r : DormantRecord}
    (hlookup : m.dormantAccounts.lookup address = some r) :
    (m.dropped address).totalDormantAccounts =
      (m.dropped address).dormantAccounts.entries.length := by
  have hlength := Map.total_erase (fun _ => 1) m.dormantAccounts hlookup
  rw [Map.total, Map.total, List.map_const', List.map_const', List.sum_replicate,
    List.sum_replicate, Map.length_toPairs, Map.length_toPairs, smul_eq_mul, smul_eq_mul] at hlength
  show m.totalDormantAccounts - 1 = (m.dormantAccounts.erase address).entries.length
  rw [h.accounts]
  omega

theorem recordActivity_run (m : DormancyManager) (address : Address) :
    recordActivity address m = match m.dormantAccounts.lookup address with
      | none => (.ok (), m.touched address)
      | some _ => countDown { m.touched address with
          dormantAccounts := m.dormantAccounts.erase address } := by
  show (match m.dormantAccounts.lookup address with
    | none => pure ()
    | some _ => _ : Exec Empty DormancyManager Unit) (m.touched address) = _
  cases m.dormantAccounts.lookup address <;> rfl

/-- Activity keeps the counters exact unless it removes a record with a value. -/
theorem recordActivity_staysExact (h : Exact m) (address : Address) :
    StaysExact m (.recordActivity address) ↔ Careful m (.recordActivity address) := by
  cases hlookup : m.dormantAccounts.lookup address with
  | none =>
      have hrun : (Call.recordActivity address).run m = (.ok (), m.touched address) := by
        show recordActivity address m = _
        rw [recordActivity_run, hlookup]
      refine iff_of_true ⟨?_, fun hpanic => ?_⟩ fun r hr => ?_
      · unfold Call.after
        rw [hrun]
        exact ⟨h.accounts, h.value⟩
      · rw [hrun] at hpanic
        cases hpanic
      · rw [hlookup] at hr
        cases hr
  | some r =>
      have hrun : (Call.recordActivity address).run m =
          (.ok (), (m.touched address).dropped address) := by
        show recordActivity address m = _
        rw [recordActivity_run, hlookup]
        exact countDown_run (h.count_ne_zero hlookup)
      have htotal := Map.total_erase DormantRecord.value m.dormantAccounts hlookup
      have hvalue := h.value
      constructor
      · rintro ⟨hexact, -⟩ r' hr'
        obtain rfl : r = r' := Option.some.inj (hlookup.symm.trans hr')
        unfold Call.after at hexact
        rw [hrun] at hexact
        have hleft : m.totalDormantValue.toNat =
            Map.total DormantRecord.value (m.dormantAccounts.erase address) := hexact.value
        omega
      · intro hcareful
        have hzero : r.value = 0 := hcareful r hlookup
        refine ⟨?_, fun hpanic => ?_⟩
        · unfold Call.after
          rw [hrun]
          refine ⟨h.count_dropped hlookup, ?_⟩
          show m.totalDormantValue.toNat =
            Map.total DormantRecord.value (m.dormantAccounts.erase address)
          omega
        · rw [hrun] at hpanic
          cases hpanic

/-- Adding an account touches no counter. -/
theorem addAccount_staysExact (h : Exact m) (address : Address) (balance : U128) :
    StaysExact m (.addAccount address balance) :=
  ⟨⟨h.accounts, h.value⟩, fun hpanic => nomatch hpanic⟩

theorem removeAccount_run (m : DormancyManager) (address : Address) :
    removeAccount address m = match m.dormantAccounts.lookup address with
      | none => (.ok (), { m with lastActivity := m.lastActivity.erase address })
      | some r => (countDown >>= fun _ => takeValue r.balance)
          { m with
            lastActivity := m.lastActivity.erase address
            dormantAccounts := m.dormantAccounts.erase address } := by
  show (match m.dormantAccounts.lookup address with
    | none => pure ()
    | some r => _ : Exec Empty DormancyManager Unit)
      { m with lastActivity := m.lastActivity.erase address } = _
  cases m.dormantAccounts.lookup address <;> rfl

/-- A removal keeps the counters exact if it takes away what is counted. -/
theorem removeAccount_staysExact (h : Exact m) (address : Address) :
    StaysExact m (.removeAccount address) ↔ Careful m (.removeAccount address) := by
  cases hlookup : m.dormantAccounts.lookup address with
  | none =>
      have hrun : (Call.removeAccount address).run m =
          (.ok (), { m with lastActivity := m.lastActivity.erase address }) := by
        show removeAccount address m = _
        rw [removeAccount_run, hlookup]
      refine iff_of_true ⟨?_, fun hpanic => ?_⟩ fun r hr => ?_
      · unfold Call.after
        rw [hrun]
        exact ⟨h.accounts, h.value⟩
      · rw [hrun] at hpanic
        cases hpanic
      · rw [hlookup] at hr
        cases hr
  | some r =>
      set m₁ : DormancyManager :=
        { m.dropped address with lastActivity := m.lastActivity.erase address } with hm₁
      have hrun : (Call.removeAccount address).run m = takeValue r.balance m₁ := by
        show removeAccount address m = _
        rw [removeAccount_run, hlookup]
        exact run_bind_of_ok (countDown_run (h.count_ne_zero hlookup))
      have htotal := Map.total_erase DormantRecord.value m.dormantAccounts hlookup
      have hvalue := h.value
      have hsmall : r.value ≤ r.balance.toNat := by
        unfold DormantRecord.value
        split_ifs
        · exact Nat.zero_le _
        · exact le_rfl
      constructor
      · rintro ⟨hexact, hpanics⟩ r' hr'
        obtain rfl : r = r' := Option.some.inj (hlookup.symm.trans hr')
        by_cases hlt : m₁.totalDormantValue < r.balance
        · have hpanic : ((Call.removeAccount address).run m).1 = .panic := by
            rw [hrun, takeValue_run, if_pos hlt]
          exact (hpanics hpanic).elim
        · unfold Call.after at hexact
          rw [hrun, takeValue_run, if_neg hlt] at hexact
          have hleft : (m.totalDormantValue - r.balance).toNat =
              Map.total DormantRecord.value (m.dormantAccounts.erase address) := hexact.value
          have hle : r.balance.toNat ≤ m.totalDormantValue.toNat := Nat.le_of_not_lt hlt
          rw [BitVec.toNat_sub_of_le (BitVec.le_def.mpr hle)] at hleft
          omega
      · intro hcareful
        have hequal : r.value = r.balance.toNat := hcareful r hlookup
        have hle : r.balance.toNat ≤ m.totalDormantValue.toNat := by omega
        have hnot : ¬ m₁.totalDormantValue < r.balance := Nat.not_lt.mpr hle
        rw [takeValue_run, if_neg hnot] at hrun
        refine ⟨?_, fun hpanic => ?_⟩
        · unfold Call.after
          rw [hrun]
          refine ⟨h.count_dropped hlookup, ?_⟩
          show (m.totalDormantValue - r.balance).toNat =
            Map.total DormantRecord.value (m.dormantAccounts.erase address)
          rw [BitVec.toNat_sub_of_le (BitVec.le_def.mpr hle)]
          omega
        · rw [hrun] at hpanic
          cases hpanic

/-- The new record of an account. -/
def marked (m : DormancyManager) (address : Address) (balance : U128) : DormantRecord :=
  ⟨address, balance, (m.lastActivity.lookup address).getD (m.clock 0), m.clock 0, false, none⟩

theorem markDormant_run (m : DormancyManager) (address : Address) (balance : U128) :
    markDormant address balance m = match m.dormantAccounts.lookup address with
      | none => addValue balance
          { m with
            dormantAccounts := m.dormantAccounts.insert address (m.marked address balance)
            totalDormantAccounts := m.totalDormantAccounts + 1
            clock := fun k => m.clock (k + 1) }
      | some _ => (.ok (), { m with
          dormantAccounts := m.dormantAccounts.insert address (m.marked address balance)
          clock := fun k => m.clock (k + 1) }) := by
  show (match m.dormantAccounts.lookup address with
    | none => _
    | some r => pure () : Exec Empty DormancyManager Unit)
      { m with
        dormantAccounts := m.dormantAccounts.insert address (m.marked address balance)
        clock := fun k => m.clock (k + 1) } = _
  cases m.dormantAccounts.lookup address <;> rfl

/-- Marking an account keeps the counters exact if the value fits, or what is replaced counts as
much. -/
theorem markDormant_staysExact (h : Exact m) (address : Address) (balance : U128) :
    StaysExact m (.markDormant address balance) ↔ Careful m (.markDormant address balance) := by
  have hmarked : (m.marked address balance).value = balance.toNat := rfl
  have hvalue := h.value
  cases hlookup : m.dormantAccounts.lookup address with
  | none =>
      have hnew := Map.total_insert_new DormantRecord.value m.dormantAccounts
        (m.marked address balance) hlookup
      have hlength := Map.length_entries_insert_new m.dormantAccounts
        (m.marked address balance) hlookup
      have hrun : (Call.markDormant address balance).run m = addValue balance
          { m with
            dormantAccounts := m.dormantAccounts.insert address (m.marked address balance)
            totalDormantAccounts := m.totalDormantAccounts + 1
            clock := fun k => m.clock (k + 1) } := by
        show markDormant address balance m = _
        rw [markDormant_run, hlookup]
      rw [addValue_run] at hrun
      dsimp only at hrun
      constructor
      · rintro ⟨-, hpanics⟩
        refine ⟨fun _ => ?_, fun r hr => ?_⟩
        · by_contra hlarge
          rw [if_neg hlarge] at hrun
          exact (hpanics (by rw [hrun])).elim
        · rw [hlookup] at hr
          cases hr
      · rintro ⟨hfits, -⟩
        rw [if_pos (hfits hlookup)] at hrun
        refine ⟨?_, fun hpanic => ?_⟩
        · unfold Call.after
          rw [hrun]
          refine ⟨?_, ?_⟩
          · show m.totalDormantAccounts + 1 = (m.dormantAccounts.insert address _).entries.length
            rw [hlength, h.accounts]
          · show (m.totalDormantValue + balance).toNat =
              Map.total DormantRecord.value (m.dormantAccounts.insert address _)
            rw [BitVec.toNat_add_of_lt (hfits hlookup), hnew, hmarked, hvalue]
            omega
        · rw [hrun] at hpanic
          cases hpanic
  | some r =>
      have hold := Map.total_insert_old DormantRecord.value m.dormantAccounts
        (m.marked address balance) hlookup
      have hlength := Map.length_entries_insert_old m.dormantAccounts
        (m.marked address balance) hlookup
      have hrun : (Call.markDormant address balance).run m = (.ok (), { m with
          dormantAccounts := m.dormantAccounts.insert address (m.marked address balance)
          clock := fun k => m.clock (k + 1) }) := by
        show markDormant address balance m = _
        rw [markDormant_run, hlookup]
      rw [hmarked] at hold
      constructor
      · rintro ⟨hexact, -⟩
        refine ⟨fun hnone => ?_, fun r' hr' => ?_⟩
        · rw [hlookup] at hnone
          cases hnone
        · obtain rfl : r = r' := Option.some.inj (hlookup.symm.trans hr')
          unfold Call.after at hexact
          rw [hrun] at hexact
          have hsame : m.totalDormantValue.toNat =
              Map.total DormantRecord.value (m.dormantAccounts.insert address _) := hexact.value
          omega
      · rintro ⟨-, hcareful⟩
        have hequal : r.value = balance.toNat := hcareful r hlookup
        refine ⟨?_, fun hpanic => ?_⟩
        · unfold Call.after
          rw [hrun]
          refine ⟨?_, ?_⟩
          · show m.totalDormantAccounts = (m.dormantAccounts.insert address _).entries.length
            rw [hlength, h.accounts]
          · show m.totalDormantValue.toNat =
              Map.total DormantRecord.value (m.dormantAccounts.insert address _)
            omega
        · rw [hrun] at hpanic
          cases hpanic

theorem addU64_fits {σ : Type} {a b : UInt64} {s : σ} (h : a.toNat + b.toNat < 2 ^ 64) :
    (Exec.addU64 a b : Exec Empty σ UInt64) s = (.ok (a + b), s) :=
  congrFun (if_pos h) s

theorem addU64_overflows {σ : Type} {a b : UInt64} {s : σ} (h : ¬ a.toNat + b.toNat < 2 ^ 64) :
    (Exec.addU64 a b : Exec Empty σ UInt64) s = (.panic, s) :=
  congrFun (if_neg h) s

/-- The ways in which `burn_dormant` can end. -/
theorem burnDormant_cases (m : DormancyManager) (address : Address) :
    (∃ o clock, burnDormant address m = (o, { m with clock := clock }) ∧
      (o = .panic → (Call.burnDormant address).GraceOverflows m)) ∨
    ∃ r clock burnedAt, m.dormantAccounts.lookup address = some r ∧ r.burned = false ∧
      burnDormant address m = (takeValue r.balance >>= fun _ => pure (some r.balance))
        { m with
          dormantAccounts := m.dormantAccounts.insert address
            { r with burned := true, burnedAt := burnedAt }
          clock := clock } := by
  have hover : ∀ r, m.dormantAccounts.lookup address = some r → r.burned = false →
      2 ^ 64 ≤ r.dormantSince.toNat + dormancyThresholdSeconds.toNat + gracePeriodSeconds.toNat →
      (Call.burnDormant address).GraceOverflows m := fun r hr hburned hlarge =>
    ⟨r, hr, hburned, hlarge⟩
  unfold burnDormant
  -- The two periods are only names in what follows.
  generalize dormancyThresholdSeconds = threshold at *
  generalize gracePeriodSeconds = grace at *
  rw [run_bind, run_get]
  dsimp only
  cases hlookup : m.dormantAccounts.lookup address with
  | none => exact Or.inl ⟨.ok none, m.clock, rfl, nofun⟩
  | some r =>
      dsimp only
      cases hburned : r.burned with
      | true =>
          rw [if_pos rfl]
          exact Or.inl ⟨.ok none, m.clock, rfl, nofun⟩
      | false =>
          rw [if_neg Bool.false_ne_true]
          have hnow : now m = (.ok (m.clock 0), { m with clock := fun k => m.clock (k + 1) }) := rfl
          rw [run_bind_of_ok hnow]
          by_cases hthreshold : r.dormantSince.toNat + threshold.toNat < 2 ^ 64
          · have hend := toNat_add_of_fits hthreshold
            rw [run_bind_of_ok (addU64_fits hthreshold)]
            by_cases hgrace : (r.dormantSince + threshold).toNat + grace.toNat < 2 ^ 64
            · rw [run_bind_of_ok (addU64_fits hgrace)]
              by_cases hdue : r.dormantSince + threshold + grace ≤ m.clock 0
              · rw [if_pos hdue]
                exact Or.inr ⟨r, _, _, rfl, hburned, rfl⟩
              · rw [if_neg hdue]
                exact Or.inl ⟨.ok none, _, rfl, nofun⟩
            · rw [run_bind_of_panic (addU64_overflows hgrace)]
              rw [hend] at hgrace
              exact Or.inl ⟨.panic, _, rfl, fun _ =>
                hover r hlookup hburned (Nat.le_of_not_lt hgrace)⟩
          · rw [run_bind_of_panic (addU64_overflows hthreshold)]
            exact Or.inl ⟨.panic, _, rfl, fun _ =>
              hover r hlookup hburned (Nat.le_add_right_of_le (Nat.le_of_not_lt hthreshold))⟩

/-- Burning keeps the counters exact. -/
theorem burnDormant_staysExact (h : Exact m) (address : Address) :
    StaysExact m (.burnDormant address) := by
  have hrun : (Call.burnDormant address).run m =
      ((burnDormant address m).1.discard, (burnDormant address m).2) := rfl
  rcases burnDormant_cases m address with
    ⟨o, clock, hburn, hpanics⟩ | ⟨r, clock, burnedAt, hlookup, hburned, hburn⟩
  · rw [hburn] at hrun
    refine ⟨?_, fun hpanic => hpanics ?_⟩
    · unfold Call.after
      rw [hrun]
      exact ⟨h.accounts, h.value⟩
    · rw [hrun] at hpanic
      cases o with
      | ok a => cases hpanic
      | err e => exact e.elim
      | panic => rfl
  · have hvalue := h.value
    have hlength := Map.length_entries_insert_old m.dormantAccounts
      { r with burned := true, burnedAt := burnedAt } hlookup
    have hold := Map.total_insert_old DormantRecord.value m.dormantAccounts
      { r with burned := true, burnedAt := burnedAt } hlookup
    have hcounted : r.value = r.balance.toNat := by
      unfold DormantRecord.value
      rw [hburned]
      rfl
    have hzero : DormantRecord.value { r with burned := true, burnedAt := burnedAt } = 0 := rfl
    have htotal := Map.total_erase DormantRecord.value m.dormantAccounts hlookup
    have hle : r.balance.toNat ≤ m.totalDormantValue.toNat := by omega
    set m₁ : DormancyManager :=
      { m with
        dormantAccounts := m.dormantAccounts.insert address
          { r with burned := true, burnedAt := burnedAt }
        clock := clock } with hm₁
    have hnot : ¬ m₁.totalDormantValue < r.balance := Nat.not_lt.mpr hle
    have htake := takeValue_run (m := m₁) r.balance
    rw [if_neg hnot] at htake
    rw [hburn, run_bind_of_ok htake] at hrun
    refine ⟨?_, fun hpanic => ?_⟩
    · unfold Call.after
      rw [hrun]
      refine ⟨?_, ?_⟩
      · show m.totalDormantAccounts = (m.dormantAccounts.insert address _).entries.length
        rw [hlength, h.accounts]
      · show (m.totalDormantValue - r.balance).toNat =
          Map.total DormantRecord.value (m.dormantAccounts.insert address _)
        rw [BitVec.toNat_sub_of_le (BitVec.le_def.mpr hle)]
        omega
    · rw [hrun] at hpanic
      cases hpanic

/-! ## Runs -/

/-- One call, from exact counters. -/
theorem staysExact_iff (h : Exact m) (call : Call) : StaysExact m call ↔ Careful m call := by
  cases call with
  | recordActivity address => exact recordActivity_staysExact h address
  | addAccount address balance => exact iff_of_true (addAccount_staysExact h address balance) trivial
  | removeAccount address => exact removeAccount_staysExact h address
  | markDormant address balance => exact markDormant_staysExact h address balance
  | burnDormant address => exact iff_of_true (burnDormant_staysExact h address) trivial

theorem along_staysExact_iff (h : Exact m) (calls : List Call) :
    Runs.Along Call.after StaysExact m calls ↔ Runs.Along Call.after Careful m calls := by
  induction calls generalizing m with
  | nil => exact Iff.rfl
  | cons call rest ih =>
      rw [Runs.along_cons, Runs.along_cons]
      constructor
      · rintro ⟨hstays, hrest⟩
        exact ⟨(staysExact_iff h call).mp hstays, (ih hstays.exact).mp hrest⟩
      · rintro ⟨hcareful, hrest⟩
        have hstays := (staysExact_iff h call).mpr hcareful
        exact ⟨hstays, (ih hstays.exact).mpr hrest⟩

/-- **When the counters are exact along a run**: if every call meets the condition on the record
that it finds. -/
theorem counters_exact_iff (clock : Clock) (calls : List Call) :
    Runs.Along Call.after StaysExact (new clock) calls ↔
      Runs.Along Call.after Careful (new clock) calls :=
  along_staysExact_iff (exact_new clock) calls

end DormancyManager

/-! ## A reactivated account -/

section Example

open DormancyManager

/-- An account with 100 becomes active again after it was marked. -/
def reactivation : List Call := [.markDormant zero32 100, .recordActivity zero32]

/-- The balance stays in the counter, which counts no records. -/
theorem reactivated_value_stays :
    (Runs.run Call.after (new fun _ => 0) reactivation).totalDormantAccounts = 0 ∧
      (Runs.run Call.after (new fun _ => 0) reactivation).totalDormantValue = 100 ∧
      ¬ Runs.Along Call.after StaysExact (new fun _ => 0) reactivation := by
  refine ⟨by decide, by decide, fun h => ?_⟩
  have hcareful := (along_staysExact_iff (exact_new fun _ => 0) reactivation).mp h
  have hzero : DormantRecord.value ⟨zero32, 100, 0, 0, false, none⟩ = 0 := hcareful.2.1 _ rfl
  exact absurd hzero (by decide)

end Example
