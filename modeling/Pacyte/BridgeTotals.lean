/-
# The totals of the bridge manager

`total_bridged` should be the sum of the amounts of the finalized bridges, `total_failed` the
number of the reverted ones, and neither kind of bridge should change its status any more.

`revert_bridge` also takes a reverted bridge back to `Reverting`, and `mark_reverted` marks a
finalized bridge, or a reverted one once more.  A run is consistent exactly when it never makes
such a call (`consistent_iff`).
-/
import Pacyte.BridgeLifecycle

namespace BridgeManager

/-! ## What the totals should be -/

/-- The amount of a finalized bridge. -/
def finalizedAmount (tx : BridgeTransaction) : ℕ :=
  if tx.status = .finalized then tx.amount.toNat else 0

/-- One for a reverted bridge. -/
def revertedOne (tx : BridgeTransaction) : ℕ := if tx.status = .reverted then 1 else 0

/-- The totals are those of the bridges. -/
structure Tallied (m : BridgeManager) : Prop where
  bridged : m.totalBridged.toNat = Map.total finalizedAmount m.bridges
  failed : m.totalFailed.toNat = Map.total revertedOne m.bridges

/-- Finalized bridges stay finalized, and reverted ones reverted. -/
def Settled (m m' : BridgeManager) : Prop :=
  ∀ id s, m.statusOf id = some s → s = .finalized ∨ s = .reverted → m'.statusOf id = some s

/-- A call that does not touch a settled bridge. -/
def Careful (m : BridgeManager) : BridgeCall → Prop
  | .revert id => m.statusOf id ≠ some .reverted
  | .markReverted id => m.statusOf id ≠ some .finalized ∧ m.statusOf id ≠ some .reverted
  | _ => True

instance (m : BridgeManager) : (c : BridgeCall) → Decidable (m.Careful c)
  | .revert _ => instDecidableNot
  | .markReverted _ => instDecidableAnd
  | .initiate .. => isTrue trivial
  | .lock _ => isTrue trivial
  | .relay _ => isTrue trivial
  | .finalize _ => isTrue trivial

theorem Settled.refl (m : BridgeManager) : Settled m m := fun _ _ h _ => h

theorem Settled.trans {m m' m'' : BridgeManager} (h : Settled m m') (h' : Settled m' m'') :
    Settled m m'' := fun id s hs hor => h' id s (h id s hs hor) hor

/-! ## Bounds -/

/-- There are fewer bridges than identifiers, and no amount is above the limit. -/
structure Sized (m : BridgeManager) : Prop where
  numbered : m.Numbered
  length : m.bridges.entries.length < m.nextBridgeId.toNat
  amount : ∀ id tx, m.bridges.lookup id = some tx → tx.amount ≤ maxBridgeAmount

theorem sized_new : Sized new := ⟨numbered_new, by decide, nofun⟩

theorem Sized.withStatus {m : BridgeManager} (h : m.Sized) {id : UInt64} {tx : BridgeTransaction}
    (hfound : m.bridges.lookup id = some tx) (status : BridgeStatus) :
    (m.withStatus id tx status).Sized where
  numbered := h.numbered.withStatus hfound status
  length := by
    change (m.bridges.insert id _).entries.length < m.nextBridgeId.toNat
    rw [Map.length_entries_insert_old m.bridges _ hfound]
    exact h.length
  amount := by
    intro id' tx' hlookup
    rw [lookup_withStatus] at hlookup
    split_ifs at hlookup with hid
    · rw [← Option.some.inj hlookup]
      exact h.amount id tx hfound
    · exact h.amount id' tx' hlookup

theorem Sized.congr {m m' : BridgeManager} (h : m.Sized) (hbridges : m'.bridges = m.bridges)
    (hnext : m.nextBridgeId.toNat ≤ m'.nextBridgeId.toNat) : m'.Sized where
  numbered := h.numbered.congr hbridges hnext
  length := by
    rw [hbridges]
    exact h.length.trans_le hnext
  amount := by
    rw [hbridges]
    exact h.amount

theorem Sized.call {m m' : BridgeManager} {c : BridgeCall} {o : Outcome PacyteError Unit}
    (h : m.Sized) (hcall : CallEnd m c o m') : m'.Sized := by
  have hnumbered := h.numbered.call hcall
  cases hcall with
  | failed => exact h
  | exhausted => exact h
  | endless hfits =>
      refine h.congr rfl ?_
      rw [Exec.toNat_add_of_fits hfits]
      exact Nat.le_add_right _ _
  | initiated hamount _ hfits =>
      refine ⟨hnumbered, ?_, ?_⟩
      · rw [bridges_pushPending, nextBridgeId_pushPending, Exec.toNat_add_of_fits hfits,
          Map.length_entries_insert_new m.bridges _ h.numbered.lookup_next]
        exact Nat.succ_lt_succ h.length
      · intro id tx hlookup
        rw [bridges_pushPending, Map.lookup_insert_some] at hlookup
        rcases hlookup with ⟨-, rfl⟩ | ⟨-, hold⟩
        · exact hamount
        · exact h.amount id tx hold
  | locked hfound _ => exact h.withStatus hfound _
  | relayed hfound _ =>
      refine (h.withStatus hfound .relayed).congr ?_ ?_
      · rw [bridges_pushPending, bridges_dropPending]
      · rw [nextBridgeId_pushPending, nextBridgeId_dropPending]
  | finalized hfound _ _ =>
      refine (h.withStatus hfound .finalized).congr ?_ ?_
      · rw [bridges_dropPending]
      · rw [nextBridgeId_dropPending]
  | unpaid hfound _ _ => exact h.withStatus hfound _
  | reverting hfound _ => exact h.withStatus hfound _
  | reverted hfound _ => exact (h.withStatus hfound .reverted).congr rfl (Nat.le_refl _)
  | uncounted hfound _ => exact h.withStatus hfound _

/-- The count of the reverted bridges can always be raised. -/
theorem Sized.reverted_lt {m : BridgeManager} (h : m.Sized) :
    Map.total revertedOne m.bridges + 1 < 2 ^ 64 := by
  have hle : Map.total revertedOne m.bridges ≤ m.bridges.entries.length * 1 :=
    Map.total_le revertedOne m.bridges 1 fun id tx _ => by
      unfold revertedOne
      split_ifs <;> omega
  have hlength := h.length
  have hnext := m.nextBridgeId.toNat_lt
  omega

/-- The sum of the amounts can always be raised. -/
theorem Sized.finalized_lt {m : BridgeManager} (h : m.Sized) {amount : U128}
    (hamount : amount ≤ maxBridgeAmount) :
    Map.total finalizedAmount m.bridges + amount.toNat < 2 ^ 128 := by
  have hmax : maxBridgeAmount.toNat = 10000000000000 := by decide
  have hbound : ∀ a : U128, a ≤ maxBridgeAmount → a.toNat ≤ 10000000000000 := by
    intro a ha
    rw [← hmax]
    exact ha
  have hle : Map.total finalizedAmount m.bridges ≤ m.bridges.entries.length * 10000000000000 :=
    Map.total_le finalizedAmount m.bridges _ fun id tx hlookup => by
      unfold finalizedAmount
      split_ifs
      · exact hbound _ (h.amount id tx hlookup)
      · exact Nat.zero_le _
  have hlength := h.length
  have hnext := m.nextBridgeId.toNat_lt
  have hnew := hbound amount hamount
  omega

/-! ## One call -/

/-- Writing a status changes a total by the difference of one term. -/
theorem total_withStatus (f : BridgeTransaction → ℕ) (m : BridgeManager) {id : UInt64}
    {tx : BridgeTransaction} (hfound : m.bridges.lookup id = some tx) (status : BridgeStatus) :
    Map.total f (m.withStatus id tx status).bridges + f tx
      = Map.total f m.bridges + f { tx with status := status } :=
  Map.total_insert_old f m.bridges _ hfound

/-- A status that is neither the one of a total nor becomes it leaves the totals alone. -/
theorem Tallied.withStatus {m : BridgeManager} (h : m.Tallied) {id : UInt64}
    {tx : BridgeTransaction} (hfound : m.bridges.lookup id = some tx) {status : BridgeStatus}
    (hold : tx.status ≠ .finalized ∧ tx.status ≠ .reverted)
    (hnew : status ≠ .finalized ∧ status ≠ .reverted) : (m.withStatus id tx status).Tallied := by
  have hfinal := total_withStatus finalizedAmount m hfound status
  have hrevert := total_withStatus revertedOne m hfound status
  rw [finalizedAmount, finalizedAmount, if_neg hold.1, if_neg hnew.1] at hfinal
  rw [revertedOne, revertedOne, if_neg hold.2, if_neg hnew.2] at hrevert
  exact ⟨h.bridged.trans (by omega), h.failed.trans (by omega)⟩

theorem Tallied.congr {m m' : BridgeManager} (h : m.Tallied) (hbridges : m'.bridges = m.bridges)
    (hbridged : m'.totalBridged = m.totalBridged) (hfailed : m'.totalFailed = m.totalFailed) :
    m'.Tallied := by
  constructor
  · rw [hbridged, hbridges]
    exact h.bridged
  · rw [hfailed, hbridges]
    exact h.failed

@[simp] theorem totalBridged_dropPending (m : BridgeManager) (shard : ShardId) (id : UInt64) :
    (m.dropPending shard id).totalBridged = m.totalBridged := by
  unfold dropPending
  cases m.pendingByShard.lookup shard <;> rfl

@[simp] theorem totalFailed_dropPending (m : BridgeManager) (shard : ShardId) (id : UInt64) :
    (m.dropPending shard id).totalFailed = m.totalFailed := by
  unfold dropPending
  cases m.pendingByShard.lookup shard <;> rfl

/-- **A careful call keeps the totals right.** -/
theorem Tallied.call {m m' : BridgeManager} {c : BridgeCall} {o : Outcome PacyteError Unit}
    (h : m.Tallied) (hcall : CallEnd m c o m') (hsized : m.Sized) (hcareful : m.Careful c) :
    m'.Tallied := by
  cases hcall with
  | failed => exact h
  | exhausted => exact h
  | endless => exact h.congr rfl rfl rfl
  | initiated =>
      have hnone := hsized.numbered.lookup_next
      constructor
      · refine h.bridged.trans ?_
        rw [bridges_pushPending, Map.total_insert_new _ _ _ hnone, finalizedAmount, if_neg nofun,
          Nat.zero_add]
      · refine h.failed.trans ?_
        rw [bridges_pushPending, Map.total_insert_new _ _ _ hnone, revertedOne, if_neg nofun,
          Nat.zero_add]
  | locked hfound hstatus =>
      exact h.withStatus hfound (by rw [hstatus]; exact ⟨nofun, nofun⟩) ⟨nofun, nofun⟩
  | @relayed id tx hfound hstatus =>
      have hwrite : (m.withStatus id tx .relayed).Tallied :=
        h.withStatus hfound (by rw [hstatus]; exact ⟨nofun, nofun⟩) ⟨nofun, nofun⟩
      refine hwrite.congr ?_ ?_ ?_
      · rw [bridges_pushPending, bridges_dropPending]
      · exact totalBridged_dropPending _ _ _
      · exact totalFailed_dropPending _ _ _
  | @finalized id tx hfound hstatus hfits =>
      have hfinal := total_withStatus finalizedAmount m hfound .finalized
      have hrevert := total_withStatus revertedOne m hfound .finalized
      rw [finalizedAmount, finalizedAmount, hstatus, if_neg nofun, if_pos rfl] at hfinal
      rw [revertedOne, revertedOne, hstatus, if_neg nofun, if_neg nofun] at hrevert
      constructor
      · rw [totalBridged_dropPending, bridges_dropPending, BitVec.toNat_add,
          Nat.mod_eq_of_lt hfits, h.bridged]
        exact hfinal.symm
      · rw [totalFailed_dropPending, bridges_dropPending]
        exact h.failed.trans hrevert.symm
  | unpaid hfound _ hfits =>
      rw [h.bridged] at hfits
      exact absurd (hsized.finalized_lt (hsized.amount _ _ hfound)) hfits
  | reverting hfound hstatus =>
      refine h.withStatus hfound ⟨hstatus, fun hreverted => ?_⟩ ⟨nofun, nofun⟩
      exact hcareful (by rw [statusOf_of_lookup hfound, hreverted])
  | @reverted id tx hfound hfits =>
      have hold : tx.status ≠ .finalized ∧ tx.status ≠ .reverted := by
        rw [Careful, statusOf_of_lookup hfound] at hcareful
        exact ⟨fun heq => hcareful.1 (congrArg some heq), fun heq => hcareful.2 (congrArg some heq)⟩
      have hfinal := total_withStatus finalizedAmount m hfound .reverted
      have hrevert := total_withStatus revertedOne m hfound .reverted
      rw [finalizedAmount, finalizedAmount, if_neg hold.1, if_neg nofun] at hfinal
      rw [revertedOne, revertedOne, if_neg hold.2, if_pos rfl] at hrevert
      constructor
      · exact h.bridged.trans hfinal.symm
      · change (m.totalFailed + 1).toNat = _
        rw [Exec.toNat_add_of_fits hfits, h.failed]
        exact hrevert.symm
  | uncounted hfound hfits =>
      rw [h.failed] at hfits
      exact absurd hsized.reverted_lt hfits

/-- **A careful call leaves the settled bridges alone.** -/
theorem Settled.call {m m' : BridgeManager} {c : BridgeCall} {o : Outcome PacyteError Unit}
    (hcall : CallEnd m c o m') (hnumbered : m.Numbered) (hcareful : m.Careful c) :
    Settled m m' := by
  intro id s hs hor
  obtain ⟨s', hs', htransition⟩ := hcall.transition hnumbered hs
  cases htransition with
  | stays => exact hs'
  | lock => rcases hor with h | h <;> cases h
  | relay => rcases hor with h | h <;> cases h
  | finalize => rcases hor with h | h <;> cases h
  | revert _ hne =>
      rcases hor with rfl | rfl
      · exact absurd rfl hne
      · exact absurd hs hcareful
  | mark =>
      rcases hor with rfl | rfl
      · exact absurd hs hcareful.1
      · exact absurd hs hcareful.2

/-- **A call that is not careful moves a settled bridge, or counts one twice.** -/
theorem careful_of_settled {m m' : BridgeManager} {c : BridgeCall}
    {o : Outcome PacyteError Unit} (hcall : CallEnd m c o m') (hsized : m.Sized)
    (htallied : m.Tallied) (hsettled : Settled m m') (htallied' : m'.Tallied) : m.Careful c := by
  cases hcall with
  | failed c e hrefuses =>
      cases c with
      | revert id =>
          intro hs
          obtain ⟨tx, hlookup, hstatus⟩ := Option.map_eq_some_iff.mp hs
          rw [hrefuses tx hlookup] at hstatus
          cases hstatus
      | markReverted id =>
          have hnone : m.statusOf id = none := by
            rw [statusOf, show m.bridges.lookup id = none from hrefuses]
            rfl
          constructor
          · rw [hnone]
            rintro ⟨⟩
          · rw [hnone]
            rintro ⟨⟩
      | initiate => trivial
      | lock => trivial
      | relay => trivial
      | finalize => trivial
  | exhausted => trivial
  | endless => trivial
  | initiated => trivial
  | locked => trivial
  | relayed => trivial
  | finalized => trivial
  | unpaid => trivial
  | reverting hfound hstatus =>
      intro hs
      have hkept := hsettled _ _ hs (Or.inr rfl)
      rw [statusOf_withStatus, if_pos rfl] at hkept
      cases hkept
  | @reverted id tx hfound hfits =>
      constructor
      · intro hs
        have hkept : (m.withStatus id tx .reverted).statusOf id = some .finalized :=
          hsettled _ _ hs (Or.inl rfl)
        rw [statusOf_withStatus, if_pos rfl] at hkept
        cases hkept
      · intro hs
        -- the bridge was counted before
        rw [statusOf_of_lookup hfound] at hs
        have hstatus : tx.status = .reverted := Option.some.inj hs
        have hrevert := total_withStatus revertedOne m hfound .reverted
        rw [revertedOne, revertedOne, if_pos hstatus, if_pos rfl] at hrevert
        have hfailed := htallied'.failed
        change (m.totalFailed + 1).toNat = Map.total revertedOne (m.withStatus id tx .reverted).bridges
          at hfailed
        rw [Exec.toNat_add_of_fits hfits, htallied.failed] at hfailed
        have hone : (1 : UInt64).toNat = 1 := rfl
        omega
  | uncounted hfound hfits =>
      rw [htallied.failed] at hfits
      exact absurd hsized.reverted_lt hfits

/-! ## Runs -/

/-- The manager after a call, however it ends. -/
def step (c : BridgeCall) (m : BridgeManager) : BridgeManager := (c.run m).2

/-- The manager after some calls. -/
def after (calls : List BridgeCall) : BridgeManager := Runs.run step new calls

theorem after_append (calls calls' : List BridgeCall) :
    after (calls ++ calls') = Runs.run step (after calls) calls' := Runs.run_append step _ _ _

theorem sized_after (calls : List BridgeCall) : (after calls).Sized :=
  Runs.invariant (I := Sized) (fun m c h => h.call (call_ends m c)) sized_new calls

/-- What should hold along some calls. -/
structure Consistent (calls : List BridgeCall) : Prop where
  /-- Settled bridges keep their status from any point of the run to any later one. -/
  settled : ∀ past next rest, calls = past ++ next ++ rest →
    Settled (after past) (after (past ++ next))
  /-- The totals are right at any point of the run. -/
  tallied : ∀ past rest, calls = past ++ rest → (after past).Tallied
  /-- A call that returns an error changes nothing. -/
  failed : ∀ past c rest, calls = past ++ c :: rest → (c.run (after past)).1.IsErr →
    after (past ++ [c]) = after past

theorem tallied_new : Tallied new := ⟨rfl, rfl⟩

/-- An error comes before any change. -/
theorem step_of_err {m : BridgeManager} {c : BridgeCall} (h : (c.run m).1.IsErr) :
    step c m = m := by
  have hcall := call_ends m c
  obtain ⟨e, herr⟩ := h
  rw [herr] at hcall
  change (c.run m).2 = m
  generalize (c.run m).2 = m' at hcall
  cases hcall
  rfl

/-- **A run is consistent exactly when all its calls are careful**: `revert_bridge` is not
called for a reverted bridge, nor `mark_reverted` for a finalized or a reverted one. -/
theorem consistent_iff (calls : List BridgeCall) :
    Consistent calls ↔ Runs.Along step Careful new calls := by
  constructor
  · intro h
    apply Runs.along_of_forall
    rintro past c rest rfl
    refine careful_of_settled (call_ends _ c) (sized_after past) (h.tallied past _ rfl) ?_ ?_
    · have hsettled := h.settled past [c] rest (by rw [List.append_assoc]; rfl)
      rw [after_append] at hsettled
      exact hsettled
    · have htallied := h.tallied (past ++ [c]) rest (by rw [List.append_assoc]; rfl)
      rw [after_append] at htallied
      exact htallied
  · intro h
    have htallied : ∀ past rest, calls = past ++ rest → (after past).Tallied := by
      rintro past rest rfl
      have hcareful := ((Runs.along_append _ _).mp h).1
      have hboth : (after past).Tallied ∧ (after past).Sized :=
        hcareful.invariant (I := fun m => m.Tallied ∧ m.Sized)
          (fun m c hm hc => ⟨hm.1.call (call_ends m c) hm.2 hc, hm.2.call (call_ends m c)⟩)
          ⟨tallied_new, sized_new⟩
      exact hboth.1
    refine ⟨?_, htallied, ?_⟩
    · rintro past next rest rfl
      rw [List.append_assoc] at h
      have hrest := ((Runs.along_append _ _).mp h).2
      have hcareful := ((Runs.along_append _ _).mp hrest).1
      rw [after_append]
      have hboth := hcareful.invariant (I := fun m => Settled (after past) m ∧ m.Sized)
        (fun m c hm hc => ⟨hm.1.trans (Settled.call (call_ends m c) hm.2.numbered hc),
          hm.2.call (call_ends m c)⟩) ⟨Settled.refl _, sized_after past⟩
      exact hboth.1
    · rintro past c rest - herr
      rw [after_append]
      exact step_of_err herr

/-! ## A run that is not consistent -/

section Example

/-- A bridge that is initiated, locked, relayed and finalized. -/
def lifecycle : List BridgeCall :=
  [.initiate (Vector.replicate 32 1) (Vector.replicate 32 2) 1000000 1 2 0, .lock 1, .relay 1,
    .finalize 1]

/-- A finalized bridge can be marked as reverted. -/
theorem not_consistent_marked :
    ¬ Consistent (lifecycle ++ [.markReverted 1]) := by
  intro h
  have hkept := h.settled lifecycle [.markReverted 1] [] rfl 1 .finalized (by decide)
    (Or.inl rfl)
  exact absurd hkept (by decide)

end Example

end BridgeManager
