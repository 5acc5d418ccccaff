/-
# The statuses of a bridge

How one call moves the status of a bridge (`Transition`), and what follows for a manager that
clients and reapers call in any order.

A reaper pass lists the expired bridges once and then reverts them one by one, so that the list
may be out of date when it acts, and other calls may come between `revert_bridge` and
`mark_reverted`.  A pass only marks bridges it has set to `Reverting`, and no call leads from
there back to `Relayed`; hence no bridge is both finalized and reverted
(`finalize_excludes_revert`).
-/
import Pacyte.BridgeManager
import Pacyte.Runs

namespace BridgeManager

/-! ## Statuses -/

/-- The status of a bridge, if there is one under the identifier. -/
def statusOf (m : BridgeManager) (id : UInt64) : Option BridgeStatus :=
  (m.bridges.lookup id).map (·.status)

@[simp] theorem bridges_pushPending (m : BridgeManager) (shard : ShardId) (id : UInt64) :
    (m.pushPending shard id).bridges = m.bridges := rfl

@[simp] theorem nextBridgeId_pushPending (m : BridgeManager) (shard : ShardId) (id : UInt64) :
    (m.pushPending shard id).nextBridgeId = m.nextBridgeId := rfl

@[simp] theorem bridges_dropPending (m : BridgeManager) (shard : ShardId) (id : UInt64) :
    (m.dropPending shard id).bridges = m.bridges := by
  unfold dropPending
  cases m.pendingByShard.lookup shard <;> rfl

@[simp] theorem nextBridgeId_dropPending (m : BridgeManager) (shard : ShardId) (id : UInt64) :
    (m.dropPending shard id).nextBridgeId = m.nextBridgeId := by
  unfold dropPending
  cases m.pendingByShard.lookup shard <;> rfl

@[simp] theorem bridges_dropEverywhere (m : BridgeManager) (id : UInt64) :
    (m.dropEverywhere id).bridges = m.bridges := rfl

@[simp] theorem nextBridgeId_dropEverywhere (m : BridgeManager) (id : UInt64) :
    (m.dropEverywhere id).nextBridgeId = m.nextBridgeId := rfl

@[simp] theorem nextBridgeId_withStatus (m : BridgeManager) (id : UInt64)
    (tx : BridgeTransaction) (status : BridgeStatus) :
    (m.withStatus id tx status).nextBridgeId = m.nextBridgeId := rfl

theorem lookup_withStatus (m : BridgeManager) (id id' : UInt64) (tx : BridgeTransaction)
    (status : BridgeStatus) :
    (m.withStatus id tx status).bridges.lookup id'
      = if id' = id then some { tx with status := status } else m.bridges.lookup id' := by
  by_cases hid : id' = id
  · rw [if_pos hid, hid]
    exact AList.lookup_insert _
  · rw [if_neg hid]
    exact AList.lookup_insert_ne hid

theorem statusOf_congr {m m' : BridgeManager} (h : m.bridges = m'.bridges) (id : UInt64) :
    m.statusOf id = m'.statusOf id := by
  rw [statusOf, statusOf, h]

theorem statusOf_withStatus (m : BridgeManager) (id id' : UInt64) (tx : BridgeTransaction)
    (status : BridgeStatus) :
    (m.withStatus id tx status).statusOf id'
      = if id' = id then some status else m.statusOf id' := by
  rw [statusOf, lookup_withStatus]
  split_ifs <;> rfl

theorem statusOf_of_lookup {m : BridgeManager} {id : UInt64} {tx : BridgeTransaction}
    (h : m.bridges.lookup id = some tx) : m.statusOf id = some tx.status := by
  rw [statusOf, h]
  rfl

/-- Every identifier in use is below the next one. -/
def Numbered (m : BridgeManager) : Prop :=
  ∀ id tx, m.bridges.lookup id = some tx → id.toNat < m.nextBridgeId.toNat

theorem numbered_new : Numbered new := nofun

/-- A bridge that is written again keeps its identifier. -/
theorem Numbered.withStatus {m : BridgeManager} (h : m.Numbered) {id : UInt64}
    {tx : BridgeTransaction} (hfound : m.bridges.lookup id = some tx) (status : BridgeStatus) :
    (m.withStatus id tx status).Numbered := by
  intro id' tx' hlookup
  rw [lookup_withStatus] at hlookup
  split_ifs at hlookup with hid
  · rw [hid]
    exact h id tx hfound
  · exact h id' tx' hlookup

theorem Numbered.congr {m m' : BridgeManager} (h : m.Numbered) (hbridges : m'.bridges = m.bridges)
    (hnext : m.nextBridgeId.toNat ≤ m'.nextBridgeId.toNat) : m'.Numbered := by
  intro id tx hlookup
  rw [hbridges] at hlookup
  exact (h id tx hlookup).trans_le hnext

/-- An identifier that is not in use yet. -/
theorem Numbered.lookup_next {m : BridgeManager} (h : m.Numbered) :
    m.bridges.lookup m.nextBridgeId = none := by
  cases hlookup : m.bridges.lookup m.nextBridgeId with
  | none => rfl
  | some tx => exact absurd (h _ tx hlookup) (Nat.lt_irrefl _)

/-- Every call keeps the identifiers below the next one. -/
theorem Numbered.call {m m' : BridgeManager} {c : BridgeCall} {o : Outcome PacyteError Unit}
    (h : m.Numbered) (hcall : CallEnd m c o m') : m'.Numbered := by
  cases hcall with
  | failed => exact h
  | exhausted => exact h
  | endless hfits =>
      refine h.congr rfl ?_
      rw [Exec.toNat_add_of_fits hfits]
      exact Nat.le_add_right _ _
  | initiated _ _ hfits =>
      intro id tx hlookup
      rw [nextBridgeId_pushPending, Exec.toNat_add_of_fits hfits]
      rw [bridges_pushPending, Map.lookup_insert_some] at hlookup
      rcases hlookup with ⟨rfl, -⟩ | ⟨-, hold⟩
      · exact Nat.lt_succ_self _
      · exact Nat.lt_succ_of_lt (h id tx hold)
  | locked hfound _ => exact h.withStatus hfound _
  | relayed hfound _ =>
      refine (h.withStatus hfound .relayed).congr ?_ ?_
      · rw [bridges_pushPending, bridges_dropPending]
      · rw [nextBridgeId_pushPending, nextBridgeId_dropPending]
  | finalized hfound _ _ =>
      refine (h.withStatus hfound .finalized).congr ?_ ?_
      · rw [bridges_dropPending]
      · rw [nextBridgeId_dropPending]
  | unpaid hfound _ _ => exact h.withStatus hfound _
  | reverting hfound _ => exact h.withStatus hfound _
  | reverted hfound _ => exact (h.withStatus hfound .reverted).congr rfl (Nat.le_refl _)
  | uncounted hfound _ => exact h.withStatus hfound _

/-! ## Transitions -/

/-- What a call can do to the status of the bridge `id`. -/
inductive Transition (id : UInt64) : BridgeCall → BridgeStatus → BridgeStatus → Prop where
  | stays (c : BridgeCall) (s : BridgeStatus) : Transition id c s s
  | lock : Transition id (.lock id) .pending .locked
  | relay : Transition id (.relay id) .locked .relayed
  | finalize : Transition id (.finalize id) .relayed .finalized
  | revert (s : BridgeStatus) (h : s ≠ .finalized) : Transition id (.revert id) s .reverting
  | mark (s : BridgeStatus) : Transition id (.markReverted id) s .reverted

/-- **A call moves the status of a bridge along a transition.** -/
theorem CallEnd.transition {m m' : BridgeManager} {c : BridgeCall}
    {o : Outcome PacyteError Unit} (hcall : CallEnd m c o m') (hnumbered : m.Numbered)
    {id : UInt64} {s : BridgeStatus} (hs : m.statusOf id = some s) :
    ∃ s', m'.statusOf id = some s' ∧ Transition id c s s' := by
  -- writing the status of one bridge leaves the other ones alone
  have hwrite : ∀ {id' : UInt64} {tx : BridgeTransaction} {status : BridgeStatus}
      {n : BridgeManager}, m.bridges.lookup id' = some tx →
      n.bridges = (m.withStatus id' tx status).bridges →
      (id = id' → s = tx.status → Transition id c s status) →
      ∃ s', n.statusOf id = some s' ∧ Transition id c s s' := by
    intro id' tx status n hfound hbridges htransition
    rw [statusOf_congr hbridges, statusOf_withStatus]
    by_cases hid : id = id'
    · rw [if_pos hid]
      subst hid
      rw [statusOf_of_lookup hfound] at hs
      exact ⟨status, rfl, htransition rfl (Option.some.inj hs).symm⟩
    · rw [if_neg hid]
      exact ⟨s, hs, .stays c s⟩
  cases hcall with
  | failed => exact ⟨s, hs, .stays _ s⟩
  | exhausted => exact ⟨s, hs, .stays _ s⟩
  | endless => exact ⟨s, hs, .stays _ s⟩
  | initiated =>
      refine ⟨s, ?_, .stays _ s⟩
      obtain ⟨tx, hlookup, rfl⟩ := Option.map_eq_some_iff.mp hs
      have hne : id ≠ m.nextBridgeId := by
        rintro rfl
        exact Nat.lt_irrefl _ (hnumbered _ tx hlookup)
      rw [statusOf, bridges_pushPending, AList.lookup_insert_ne hne, hlookup]
      rfl
  | locked hfound hstatus =>
      refine hwrite hfound rfl ?_
      rintro rfl rfl
      rw [hstatus]
      exact .lock
  | relayed hfound hstatus =>
      refine hwrite hfound (by rw [bridges_pushPending, bridges_dropPending]) ?_
      rintro rfl rfl
      rw [hstatus]
      exact .relay
  | finalized hfound hstatus _ =>
      refine hwrite hfound (bridges_dropPending _ _ _) ?_
      rintro rfl rfl
      rw [hstatus]
      exact .finalize
  | unpaid hfound hstatus _ =>
      refine hwrite hfound rfl ?_
      rintro rfl rfl
      rw [hstatus]
      exact .finalize
  | reverting hfound hstatus =>
      refine hwrite hfound rfl ?_
      rintro rfl rfl
      exact .revert _ hstatus
  | reverted hfound _ =>
      refine hwrite hfound rfl ?_
      rintro rfl rfl
      exact .mark _
  | uncounted hfound _ =>
      refine hwrite hfound rfl ?_
      rintro rfl rfl
      exact .mark _

end BridgeManager

/-! ## Reapers -/

/-- A call of a client: anything but the two calls of the reaper. -/
def BridgeCall.isClient : BridgeCall → Bool
  | revert _ => false
  | markReverted _ => false
  | _ => true

/-- A pass of a reaper: the bridges it has found and not handled yet, and the one it has set to
`Reverting` and not marked yet. -/
structure ReaperPass where
  waiting : List UInt64
  marking : Option UInt64
  deriving DecidableEq, Repr

/-- What has been done to a bridge. -/
inductive BridgeEvent : Type where
  /-- It was set to `Finalized`. -/
  | finalized (id : UInt64)
  /-- It was counted in `total_bridged`. -/
  | counted (id : UInt64)
  /-- It was set to `Reverting`. -/
  | reverting (id : UInt64)
  /-- It was set to `Reverted`. -/
  | reverted (id : UInt64)
  deriving DecidableEq, Repr

/-- What a call has done that has ended in `o`: without an error the status is written, and
without a panic the counter is. -/
def BridgeCall.events (c : BridgeCall) (o : Outcome PacyteError Unit) : List BridgeEvent :=
  match c, o with
  | _, .err _ => []
  | .finalize id, .ok _ => [.finalized id, .counted id]
  | .finalize id, .panic => [.finalized id]
  | .revert id, _ => [.reverting id]
  | .markReverted id, _ => [.reverted id]
  | _, _ => []

/-- A manager, the passes that are under way, and what has been done so far. -/
structure BridgeSystem where
  manager : BridgeManager
  passes : List ReaperPass
  history : List BridgeEvent

/-- What may happen next. -/
inductive BridgeAction : Type where
  /-- A client calls. -/
  | client (c : {c : BridgeCall // c.isClient = true})
  /-- A pass begins: `find_expired_bridges`. -/
  | findExpired (now : Timestamp)
  /-- A pass calls `revert_bridge` for the bridge at a place of its list. -/
  | revertNext (pass place : ℕ)
  /-- A pass calls `mark_reverted`. -/
  | markNext (pass : ℕ)

namespace BridgeSystem

/-- A new manager, and nothing under way. -/
def new : BridgeSystem := ⟨BridgeManager.new, [], []⟩

/-- Make a call. -/
def perform (c : BridgeCall) (s : BridgeSystem) : BridgeSystem :=
  { s with
    manager := (c.run s.manager).2
    history := s.history ++ c.events (c.run s.manager).1 }

/-- What a call returns. -/
def outcome (c : BridgeCall) (s : BridgeSystem) : Outcome PacyteError Unit := (c.run s.manager).1

/-- `revert_bridge` in a pass: after an error the next bridge is tried, else this one is
marked. -/
def revertIn (pass : ℕ) (waiting : List UInt64) (id : UInt64) (s : BridgeSystem) : BridgeSystem :=
  { s.perform (.revert id) with
    passes := s.passes.set pass
      ⟨waiting, if (s.outcome (.revert id)).IsOk then some id else none⟩ }

/-- `mark_reverted` in a pass, whose error is dropped.  A panic ends the pass. -/
def markIn (pass : ℕ) (waiting : List UInt64) (id : UInt64) (s : BridgeSystem) : BridgeSystem :=
  { s.perform (.markReverted id) with
    passes := s.passes.set pass
      ⟨if s.outcome (.markReverted id) = .panic then [] else waiting, none⟩ }

/-- One action.  What a pass cannot do in its present state has no effect. -/
def step (a : BridgeAction) (s : BridgeSystem) : BridgeSystem :=
  match a with
  | .client c => s.perform c.1
  | .findExpired now =>
    { s with passes := s.passes ++ [⟨s.manager.findExpiredBridges now, none⟩] }
  | .revertNext pass place =>
    match s.passes[pass]? with
    | some ⟨waiting, none⟩ =>
      match waiting[place]? with
      | some id => s.revertIn pass (waiting.eraseIdx place) id
      | none => s
    | _ => s
  | .markNext pass =>
    match s.passes[pass]? with
    | some ⟨waiting, some id⟩ => s.markIn pass waiting id
    | _ => s

/-! ## The invariant -/

/-- The bridge is being reverted, or has been. -/
def Leaving (m : BridgeManager) (id : UInt64) : Prop :=
  m.statusOf id = some .reverting ∨ m.statusOf id = some .reverted

/-- What a reaper may call: it marks only bridges that are being reverted. -/
def Permitted (m : BridgeManager) (c : BridgeCall) : Prop :=
  ∀ id, c = .markReverted id → Leaving m id

/-- What is done agrees with the statuses, and so do the passes. -/
structure Faithful (s : BridgeSystem) : Prop where
  numbered : s.manager.Numbered
  finalized : ∀ id, .finalized id ∈ s.history → s.manager.statusOf id = some .finalized
  counted : ∀ id, .counted id ∈ s.history → .finalized id ∈ s.history
  leaving : ∀ id, .reverting id ∈ s.history ∨ .reverted id ∈ s.history → Leaving s.manager id
  marking : ∀ pass ∈ s.passes, ∀ id, pass.marking = some id → Leaving s.manager id

/-- A bridge that is being reverted stays so, whoever calls. -/
theorem Leaving.call {m m' : BridgeManager} {c : BridgeCall} {o : Outcome PacyteError Unit}
    {id : UInt64} (h : Leaving m id) (hcall : BridgeManager.CallEnd m c o m')
    (hnumbered : m.Numbered) : Leaving m' id := by
  rcases h with hs | hs
  · obtain ⟨s', hs', htransition⟩ := hcall.transition hnumbered hs
    cases htransition with
    | stays => exact Or.inl hs'
    | revert => exact Or.inl hs'
    | mark => exact Or.inr hs'
  · obtain ⟨s', hs', htransition⟩ := hcall.transition hnumbered hs
    cases htransition with
    | stays => exact Or.inr hs'
    | revert => exact Or.inl hs'
    | mark => exact Or.inr hs'

/-- A finalized bridge stays so, as long as nobody marks it. -/
theorem finalized_call {m m' : BridgeManager} {c : BridgeCall} {o : Outcome PacyteError Unit}
    {id : UInt64} (h : m.statusOf id = some .finalized)
    (hcall : BridgeManager.CallEnd m c o m') (hnumbered : m.Numbered) (hpermitted : Permitted m c) :
    m'.statusOf id = some .finalized := by
  obtain ⟨s', hs', htransition⟩ := hcall.transition hnumbered h
  cases htransition with
  | stays => exact hs'
  | revert _ hne => exact absurd rfl hne
  | mark =>
      rcases hpermitted id rfl with hleaving | hleaving <;>
      · rw [h] at hleaving
        cases hleaving

/-- A status that has been written. -/
theorem statusOf_written {m : BridgeManager} {id : UInt64} {tx : BridgeTransaction}
    {status : BridgeStatus} : (m.withStatus id tx status).statusOf id = some status := by
  rw [BridgeManager.statusOf_withStatus, if_pos rfl]

/-- What an event says of the manager after it, and of the events of the same call. -/
def Shown (m : BridgeManager) (events : List BridgeEvent) : BridgeEvent → Prop
  | .finalized id => m.statusOf id = some .finalized
  | .counted id => .finalized id ∈ events
  | .reverting id => Leaving m id
  | .reverted id => Leaving m id

/-- What a call reports is what it has written. -/
theorem shown_of_mem_events {m m' : BridgeManager} {c : BridgeCall}
    {o : Outcome PacyteError Unit} (hcall : BridgeManager.CallEnd m c o m') {e : BridgeEvent}
    (he : e ∈ c.events o) : Shown m' (c.events o) e := by
  cases hcall with
  | failed => cases c <;> cases he
  | exhausted => cases he
  | endless => cases he
  | initiated => cases he
  | locked => cases he
  | relayed => cases he
  | finalized =>
      rcases List.mem_cons.mp he with rfl | hcounted
      · exact (BridgeManager.statusOf_congr (BridgeManager.bridges_dropPending _ _ _) _).trans
          statusOf_written
      · obtain rfl := List.mem_singleton.mp hcounted
        exact List.mem_cons_self
  | unpaid =>
      obtain rfl := List.mem_singleton.mp he
      exact statusOf_written
  | reverting =>
      obtain rfl := List.mem_singleton.mp he
      exact Or.inl statusOf_written
  | reverted =>
      obtain rfl := List.mem_singleton.mp he
      exact Or.inr statusOf_written
  | uncounted =>
      obtain rfl := List.mem_singleton.mp he
      exact Or.inr statusOf_written

/-- A permitted call keeps the invariant. -/
theorem Faithful.perform {s : BridgeSystem} (h : s.Faithful) {c : BridgeCall}
    (hpermitted : Permitted s.manager c) : (s.perform c).Faithful := by
  have hcall := BridgeManager.call_ends s.manager c
  constructor
  · exact h.numbered.call hcall
  · intro id hid
    rcases List.mem_append.mp hid with hid | hid
    · exact finalized_call (h.finalized id hid) hcall h.numbered hpermitted
    · exact shown_of_mem_events hcall hid
  · intro id hid
    rcases List.mem_append.mp hid with hid | hid
    · exact List.mem_append_left _ (h.counted id hid)
    · exact List.mem_append_right _ (shown_of_mem_events hcall hid)
  · intro id hid
    have hor : (.reverting id ∈ s.history ∨ .reverted id ∈ s.history) ∨
        .reverting id ∈ c.events (c.run s.manager).1 ∨
        .reverted id ∈ c.events (c.run s.manager).1 := by
      rcases hid with hid | hid <;> rcases List.mem_append.mp hid with hid | hid
      · exact Or.inl (Or.inl hid)
      · exact Or.inr (Or.inl hid)
      · exact Or.inl (Or.inr hid)
      · exact Or.inr (Or.inr hid)
    rcases hor with hold | hnew | hnew
    · exact (h.leaving id hold).call hcall h.numbered
    · exact shown_of_mem_events hcall hnew
    · exact shown_of_mem_events hcall hnew
  · intro pass hpass id hid
    exact (h.marking pass hpass id hid).call hcall h.numbered

/-- Replacing a pass by one that marks a bridge that is being reverted, or none. -/
theorem Faithful.setPass {s : BridgeSystem} (h : s.Faithful) (k : ℕ) (pass : ReaperPass)
    (hpass : ∀ id, pass.marking = some id → Leaving s.manager id) :
    Faithful { s with passes := s.passes.set k pass } where
  numbered := h.numbered
  finalized := h.finalized
  counted := h.counted
  leaving := h.leaving
  marking := by
    intro pass' hmem id hid
    rcases List.mem_or_eq_of_mem_set hmem with hmem | rfl
    · exact h.marking pass' hmem id hid
    · exact hpass id hid

/-- A call of `revert_bridge` that returns a value leaves a bridge that is being reverted. -/
theorem leaving_of_reverted {s : BridgeSystem} {id : UInt64}
    (h : (s.outcome (.revert id)).IsOk) : Leaving (s.perform (.revert id)).manager id := by
  obtain ⟨u, hok⟩ := (Outcome.isOk_iff _).mp h
  have hevents : .reverting id ∈ BridgeCall.events (.revert id) (s.outcome (.revert id)) := by
    rw [hok]
    exact List.mem_singleton_self _
  exact shown_of_mem_events (BridgeManager.call_ends s.manager (.revert id)) hevents

/-- **Every action keeps the invariant.** -/
theorem Faithful.step {s : BridgeSystem} (h : s.Faithful) (a : BridgeAction) :
    (s.step a).Faithful := by
  cases a with
  | client c =>
      apply h.perform
      intro id hc
      have hclient := c.2
      rw [hc] at hclient
      cases hclient
  | findExpired now =>
      refine ⟨h.numbered, h.finalized, h.counted, h.leaving, ?_⟩
      intro pass hpass id hid
      rcases List.mem_append.mp hpass with hpass | hpass
      · exact h.marking pass hpass id hid
      · rw [List.mem_singleton.mp hpass] at hid
        cases hid
  | revertNext pass place =>
      unfold BridgeSystem.step
      dsimp only
      split
      · split
        · next waiting _ _ id _ =>
            have hperform := h.perform (c := .revert id) nofun
            apply hperform.setPass
            intro id' hid'
            split_ifs at hid' with hok
            cases hid'
            exact leaving_of_reverted hok
        · exact h
      · exact h
  | markNext pass =>
      unfold BridgeSystem.step
      dsimp only
      split
      · next waiting id hpass =>
          have hleaving : Leaving s.manager id :=
            h.marking _ (List.mem_of_getElem? hpass) id rfl
          have hpermitted : Permitted s.manager (.markReverted id) := by
            rintro id' ⟨⟩
            exact hleaving
          exact (h.perform hpermitted).setPass _ _ nofun
      · exact h

theorem faithful_new : Faithful new where
  numbered := BridgeManager.numbered_new
  finalized := nofun
  counted := nofun
  leaving := by
    rintro id (hid | hid) <;> cases hid
  marking := nofun

/-- **No bridge is both counted and reverted.**  Whatever clients and reapers do in whatever
order, a bridge that is counted in `total_bridged` is never set to `Reverted`, and a bridge that
is set to `Reverting` or `Reverted` is never finalized. -/
theorem finalize_excludes_revert (actions : List BridgeAction) (id : UInt64) :
    (.counted id ∈ (Runs.run step new actions).history →
      .reverted id ∉ (Runs.run step new actions).history) ∧
    (.reverting id ∈ (Runs.run step new actions).history ∨
        .reverted id ∈ (Runs.run step new actions).history →
      .finalized id ∉ (Runs.run step new actions).history) := by
  have hfaithful : (Runs.run step new actions).Faithful :=
    Runs.invariant (I := Faithful) (fun s a hs => Faithful.step hs a) faithful_new actions
  have hapart : .reverting id ∈ (Runs.run step new actions).history ∨
        .reverted id ∈ (Runs.run step new actions).history →
      .finalized id ∉ (Runs.run step new actions).history := by
    intro hleaving hfinalized
    have hstatus := hfaithful.finalized id hfinalized
    rcases hfaithful.leaving id hleaving with h | h <;>
    · rw [hstatus] at h
      cases h
  exact ⟨fun hcounted hreverted =>
    hapart (Or.inr hreverted) (hfaithful.counted id hcounted), hapart⟩

end BridgeSystem
