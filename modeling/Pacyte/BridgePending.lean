/-
# The pending bridges of a shard

`pending_by_shard` lists a pending or locked bridge under its source shard, a relayed one under
its target shard, and no finalized or reverted one.  A bridge that is being reverted stays where
it was, or nowhere if it had been reverted before.

`shardsOf` is the set of the shards that list a bridge.  `Placed` says what it must be for each
status, and every call that returns keeps it so (`Filed.call`).
-/
import Pacyte.BridgeLifecycle

namespace BridgeManager

/-! ## The lists -/

/-- The shards that list a bridge. -/
def shardsOf (m : BridgeManager) (id : UInt64) : Set ShardId := {shard | id ∈ m.listing shard}

theorem mem_shardsOf {m : BridgeManager} {id : UInt64} {shard : ShardId} :
    shard ∈ m.shardsOf id ↔ id ∈ m.listing shard := Iff.rfl

theorem listing_pushPending (m : BridgeManager) (shard shard' : ShardId) (id : UInt64) :
    (m.pushPending shard id).listing shard'
      = if shard' = shard then m.listing shard ++ [id] else m.listing shard' :=
  Map.getD_lookup_insert _ _ _ _ _

theorem listing_dropPending (m : BridgeManager) (shard shard' : ShardId) (id : UInt64) :
    (m.dropPending shard id).listing shard'
      = if shard' = shard then (m.listing shard).filter (· ≠ id) else m.listing shard' := by
  unfold dropPending
  cases hlookup : m.pendingByShard.lookup shard with
  | none =>
      split_ifs with hshard
      · rw [hshard, listing, hlookup]
        rfl
      · rfl
  | some list =>
      have hlisting : m.listing shard = list := by
        rw [listing, hlookup]
        rfl
      rw [hlisting]
      exact Map.getD_lookup_insert _ _ _ _ _

theorem listing_dropEverywhere (m : BridgeManager) (shard : ShardId) (id : UInt64) :
    (m.dropEverywhere id).listing shard = (m.listing shard).filter (· ≠ id) := by
  rw [listing, dropEverywhere, Map.lookup_mapValues, listing]
  cases m.pendingByShard.lookup shard <;> rfl

theorem shardsOf_pushPending (m : BridgeManager) (shard : ShardId) (id : UInt64) :
    (m.pushPending shard id).shardsOf id = insert shard (m.shardsOf id) := by
  ext shard'
  rw [mem_shardsOf, listing_pushPending, Set.mem_insert_iff]
  split_ifs with hshard
  · exact iff_of_true (List.mem_append_right _ (List.mem_singleton_self id)) (Or.inl hshard)
  · exact ⟨Or.inr, fun h => h.resolve_left hshard⟩

theorem shardsOf_dropPending (m : BridgeManager) (shard : ShardId) (id : UInt64) :
    (m.dropPending shard id).shardsOf id = m.shardsOf id \ {shard} := by
  ext shard'
  rw [mem_shardsOf, listing_dropPending, Set.mem_sdiff, Set.mem_singleton_iff]
  split_ifs with hshard
  · refine iff_of_false (fun h => ?_) (fun h => h.2 hshard)
    exact (of_decide_eq_true (List.mem_filter.mp h).2) rfl
  · exact ⟨fun h => ⟨h, hshard⟩, And.left⟩

theorem shardsOf_dropEverywhere (m : BridgeManager) (id : UInt64) :
    (m.dropEverywhere id).shardsOf id = ∅ := by
  ext shard
  rw [mem_shardsOf, listing_dropEverywhere]
  exact iff_of_false (fun h => of_decide_eq_true (List.mem_filter.mp h).2 rfl) (Set.notMem_empty _)

/-- The lists of `m'` are those of `m`, except for one bridge. -/
def SameElsewhere (id : UInt64) (m m' : BridgeManager) : Prop :=
  ∀ id', id' ≠ id → m'.shardsOf id' = m.shardsOf id'

theorem sameElsewhere_pushPending (m : BridgeManager) (shard : ShardId) (id : UInt64) :
    SameElsewhere id m (m.pushPending shard id) := by
  intro id' hid
  ext shard'
  rw [mem_shardsOf, listing_pushPending, mem_shardsOf]
  split_ifs with hshard
  · rw [hshard, List.mem_append, List.mem_singleton, or_iff_left hid]
  · rfl

theorem mem_filter_of_ne {id id' : UInt64} (hid : id' ≠ id) (list : List UInt64) :
    id' ∈ list.filter (· ≠ id) ↔ id' ∈ list := by
  rw [List.mem_filter]
  exact ⟨And.left, fun h => ⟨h, decide_eq_true hid⟩⟩

theorem sameElsewhere_dropPending (m : BridgeManager) (shard : ShardId) (id : UInt64) :
    SameElsewhere id m (m.dropPending shard id) := by
  intro id' hid
  ext shard'
  rw [mem_shardsOf, listing_dropPending, mem_shardsOf]
  split_ifs with hshard
  · rw [mem_filter_of_ne hid, hshard]
  · rfl

theorem sameElsewhere_dropEverywhere (m : BridgeManager) (id : UInt64) :
    SameElsewhere id m (m.dropEverywhere id) := by
  intro id' hid
  ext shard'
  rw [mem_shardsOf, listing_dropEverywhere, mem_filter_of_ne hid]
  rfl

/-- No list has a bridge twice. -/
def Distinct (m : BridgeManager) : Prop := ∀ shard, (m.listing shard).Nodup

theorem Distinct.pushPending {m : BridgeManager} (h : m.Distinct) {shard : ShardId}
    {id : UInt64} (hnew : shard ∉ m.shardsOf id) : (m.pushPending shard id).Distinct := by
  intro shard'
  rw [listing_pushPending]
  split_ifs
  · refine (h shard).append (List.nodup_singleton id) ?_
    rw [List.disjoint_singleton]
    exact hnew
  · exact h shard'

theorem Distinct.dropPending {m : BridgeManager} (h : m.Distinct) (shard : ShardId)
    (id : UInt64) : (m.dropPending shard id).Distinct := by
  intro shard'
  rw [listing_dropPending]
  split_ifs
  · exact (h shard).filter _
  · exact h shard'

theorem Distinct.dropEverywhere {m : BridgeManager} (h : m.Distinct) (id : UInt64) :
    (m.dropEverywhere id).Distinct := by
  intro shard
  rw [listing_dropEverywhere]
  exact (h shard).filter _

/-! ## Where a bridge is listed -/

/-- The shards that may list a bridge, by its status. -/
def Placed (tx : BridgeTransaction) (shards : Set ShardId) : Prop :=
  match tx.status with
  | .pending => shards = {tx.sourceShard}
  | .locked => shards = {tx.sourceShard}
  | .relayed => shards = {tx.targetShard}
  | .reverting => shards.Subsingleton
  | .finalized => shards = ∅
  | .reverted => shards = ∅
  | .expired => shards = ∅

/-- Whatever its status, a bridge is listed at most once. -/
theorem Placed.subsingleton {tx : BridgeTransaction} {shards : Set ShardId}
    (h : Placed tx shards) : shards.Subsingleton := by
  unfold Placed at h
  split at h
  · exact h ▸ Set.subsingleton_singleton
  · exact h ▸ Set.subsingleton_singleton
  · exact h ▸ Set.subsingleton_singleton
  · exact h
  · exact h ▸ Set.subsingleton_empty
  · exact h ▸ Set.subsingleton_empty
  · exact h ▸ Set.subsingleton_empty

/-- **The lists agree with the bridges.** -/
structure Filed (m : BridgeManager) : Prop where
  numbered : m.Numbered
  identified : ∀ id tx, m.bridges.lookup id = some tx → tx.id = id
  crossing : ∀ id tx, m.bridges.lookup id = some tx → tx.sourceShard ≠ tx.targetShard
  placed : ∀ id tx, m.bridges.lookup id = some tx → Placed tx (m.shardsOf id)
  unknown : ∀ id, m.bridges.lookup id = none → m.shardsOf id = ∅
  distinct : m.Distinct

theorem filed_new : Filed new where
  numbered := numbered_new
  identified := nofun
  crossing := nofun
  placed := nofun
  unknown _ _ := Set.eq_empty_of_forall_notMem fun _ h => nomatch h
  distinct _ := List.nodup_nil

/-- A bridge is written with a new status, and its lists are brought up to date. -/
theorem Filed.write {m m' : BridgeManager} (h : m.Filed) {id : UInt64} {tx : BridgeTransaction}
    (status : BridgeStatus) (hfound : m.bridges.lookup id = some tx)
    (hnumbered : m'.Numbered) (hbridges : m'.bridges = (m.withStatus id tx status).bridges)
    (hsame : SameElsewhere id m m') (hdistinct : m'.Distinct)
    (hplaced : Placed { tx with status := status } (m'.shardsOf id)) : m'.Filed := by
  have hlookup : ∀ id', m'.bridges.lookup id'
      = if id' = id then some { tx with status := status } else m.bridges.lookup id' := by
    intro id'
    rw [hbridges]
    exact lookup_withStatus m id id' tx status
  constructor
  · exact hnumbered
  · intro id' tx' hlookup'
    rw [hlookup] at hlookup'
    split_ifs at hlookup' with hid
    · rw [← Option.some.inj hlookup', hid]
      exact h.identified id tx hfound
    · exact h.identified id' tx' hlookup'
  · intro id' tx' hlookup'
    rw [hlookup] at hlookup'
    split_ifs at hlookup' with hid
    · rw [← Option.some.inj hlookup']
      exact h.crossing id tx hfound
    · exact h.crossing id' tx' hlookup'
  · intro id' tx' hlookup'
    rw [hlookup] at hlookup'
    split_ifs at hlookup' with hid
    · rw [← Option.some.inj hlookup', hid]
      exact hplaced
    · rw [hsame id' hid]
      exact h.placed id' tx' hlookup'
  · intro id' hnone
    rw [hlookup] at hnone
    split_ifs at hnone with hid
    rw [hsame id' hid]
    exact h.unknown id' hnone
  · exact hdistinct

/-! ## Calls -/

/-- The invariant reads the bridges and the lists only. -/
theorem Filed.congr {m m' : BridgeManager} (h : m.Filed) (hnumbered : m'.Numbered)
    (hbridges : m'.bridges = m.bridges) (hlists : m'.listing = m.listing) : m'.Filed := by
  have hshards : ∀ id, m'.shardsOf id = m.shardsOf id := by
    intro id
    rw [shardsOf, shardsOf, hlists]
  constructor
  · exact hnumbered
  · rw [hbridges]
    exact h.identified
  · rw [hbridges]
    exact h.crossing
  · intro id tx hlookup
    rw [hbridges] at hlookup
    rw [hshards]
    exact h.placed id tx hlookup
  · intro id hnone
    rw [hbridges] at hnone
    rw [hshards]
    exact h.unknown id hnone
  · rw [Distinct, hlists]
    exact h.distinct

/-- A new bridge is listed under its source shard. -/
theorem Filed.initiated {m : BridgeManager} (h : m.Filed) (sender recipient : Address)
    (amount : U128) {source target : ShardId} (now : Timestamp) (hshards : source ≠ target)
    (hfits : m.nextBridgeId.toNat + 1 < 2 ^ 64) :
    (pushPending
      { m with
        nextBridgeId := m.nextBridgeId + 1
        bridges := m.bridges.insert m.nextBridgeId
          (fresh m.nextBridgeId sender recipient amount source target now) }
      source m.nextBridgeId).Filed := by
  have hnone := h.numbered.lookup_next
  have hempty := h.unknown _ hnone
  set tx := fresh m.nextBridgeId sender recipient amount source target now with htx
  set n : BridgeManager := { m with
    nextBridgeId := m.nextBridgeId + 1
    bridges := m.bridges.insert m.nextBridgeId tx } with hn
  have hnumbered : (n.pushPending source m.nextBridgeId).Numbered := by
    intro id tx' hlookup
    rw [nextBridgeId_pushPending]
    change id.toNat < (m.nextBridgeId + 1).toNat
    rw [Exec.toNat_add_of_fits hfits]
    rw [bridges_pushPending, Map.lookup_insert_some] at hlookup
    rcases hlookup with ⟨rfl, -⟩ | ⟨-, hold⟩
    · exact Nat.lt_succ_self _
    · exact Nat.lt_succ_of_lt (h.numbered id tx' hold)
  have hown : (n.pushPending source m.nextBridgeId).shardsOf m.nextBridgeId = {source} := by
    rw [shardsOf_pushPending]
    change insert source (m.shardsOf m.nextBridgeId) = {source}
    rw [hempty]
    exact insert_empty_eq source
  have hother : ∀ id, id ≠ m.nextBridgeId →
      (n.pushPending source m.nextBridgeId).shardsOf id = m.shardsOf id :=
    fun id hid => sameElsewhere_pushPending n source m.nextBridgeId id hid
  constructor
  · exact hnumbered
  · intro id tx' hlookup
    rw [bridges_pushPending, Map.lookup_insert_some] at hlookup
    rcases hlookup with ⟨rfl, rfl⟩ | ⟨-, hold⟩
    · rfl
    · exact h.identified id tx' hold
  · intro id tx' hlookup
    rw [bridges_pushPending, Map.lookup_insert_some] at hlookup
    rcases hlookup with ⟨rfl, rfl⟩ | ⟨-, hold⟩
    · exact hshards
    · exact h.crossing id tx' hold
  · intro id tx' hlookup
    rw [bridges_pushPending, Map.lookup_insert_some] at hlookup
    rcases hlookup with ⟨rfl, rfl⟩ | ⟨hid, hold⟩
    · exact hown
    · rw [hother id hid]
      exact h.placed id tx' hold
  · intro id hlookup
    rw [bridges_pushPending] at hlookup
    have hid : id ≠ m.nextBridgeId := by
      rintro rfl
      rw [AList.lookup_insert] at hlookup
      cases hlookup
    rw [AList.lookup_insert_ne hid] at hlookup
    rw [hother id hid]
    exact h.unknown id hlookup
  · apply Distinct.pushPending h.distinct
    rw [hempty]
    exact Set.notMem_empty source

/-- **Every call that returns keeps the lists right.** -/
theorem Filed.call {m m' : BridgeManager} {c : BridgeCall} {o : Outcome PacyteError Unit}
    (h : m.Filed) (hcall : CallEnd m c o m') (hreturns : o ≠ .panic) : m'.Filed := by
  have hnumbered := h.numbered.call hcall
  cases hcall with
  | failed => exact h
  | exhausted => exact absurd rfl hreturns
  | endless => exact absurd rfl hreturns
  | initiated _ hshards hfits => exact h.initiated _ _ _ _ hshards hfits
  | @locked id tx hfound hstatus =>
      have hplaced := h.placed id tx hfound
      rw [Placed, hstatus] at hplaced
      exact h.write .locked hfound hnumbered rfl (fun _ _ => rfl) h.distinct hplaced
  | @relayed id tx hfound hstatus =>
      have hplaced := h.placed id tx hfound
      rw [Placed, hstatus] at hplaced
      have hdropped : ((m.withStatus id tx .relayed).dropPending tx.sourceShard id).shardsOf id
          = ∅ := by
        rw [shardsOf_dropPending]
        change m.shardsOf id \ {tx.sourceShard} = ∅
        rw [hplaced, sdiff_self]
        rfl
      refine h.write .relayed hfound hnumbered ?_ ?_ ?_ ?_
      · rw [bridges_pushPending, bridges_dropPending]
      · intro id' hid
        rw [sameElsewhere_pushPending _ _ _ id' hid, sameElsewhere_dropPending _ _ _ id' hid]
        rfl
      · apply Distinct.pushPending
        · exact Distinct.dropPending (m := m.withStatus id tx .relayed) h.distinct _ _
        · rw [hdropped]
          exact Set.notMem_empty _
      · change shardsOf _ id = {tx.targetShard}
        rw [shardsOf_pushPending, hdropped]
        exact insert_empty_eq _
  | @finalized id tx hfound hstatus hfits =>
      have hplaced := h.placed id tx hfound
      rw [Placed, hstatus] at hplaced
      refine h.write .finalized hfound hnumbered (bridges_dropPending _ _ _)
        (sameElsewhere_dropPending _ _ _) ?_ ?_
      · apply Distinct.dropPending
        exact h.distinct
      · change shardsOf _ id = ∅
        rw [shardsOf_dropPending]
        change m.shardsOf id \ {tx.targetShard} = ∅
        rw [hplaced, sdiff_self]
        rfl
  | unpaid => exact absurd rfl hreturns
  | @reverting id tx hfound hstatus =>
      exact h.write .reverting hfound hnumbered rfl (fun _ _ => rfl) h.distinct
        (h.placed id tx hfound).subsingleton
  | @reverted id tx hfound hfits =>
      refine h.write .reverted hfound hnumbered rfl (sameElsewhere_dropEverywhere _ _)
        ?_ (shardsOf_dropEverywhere _ id)
      apply Distinct.dropEverywhere
      exact h.distinct
  | uncounted => exact absurd rfl hreturns

/-! ## Reachable managers -/

/-- The managers that calls lead to, one after the other.  A call that panics does not return,
and the run ends there. -/
inductive Reachable : BridgeManager → Prop where
  | new : Reachable BridgeManager.new
  | call {m : BridgeManager} (h : Reachable m) (c : BridgeCall) (hreturns : (c.run m).1 ≠ .panic) :
      Reachable (c.run m).2

theorem Reachable.filed {m : BridgeManager} (h : m.Reachable) : m.Filed := by
  induction h with
  | new => exact filed_new
  | call _ c hreturns ih => exact ih.call (call_ends _ c) hreturns

/-- The count of a bridge in a list without duplicates. -/
theorem Filed.count {m : BridgeManager} (h : m.Filed) {id : UInt64} {home : ShardId}
    (hshards : m.shardsOf id = {home}) (shard : ShardId) :
    (m.listing shard).count id = if shard = home then 1 else 0 := by
  have hmem : id ∈ m.listing shard ↔ shard = home := by
    rw [← mem_shardsOf, hshards, Set.mem_singleton_iff]
  split_ifs with hshard
  · exact List.count_eq_one_of_mem (h.distinct shard) (hmem.mpr hshard)
  · exact List.count_eq_zero.mpr fun hin => hshard (hmem.mp hin)

theorem mem_getPendingForShard {m : BridgeManager} {shard : ShardId} {tx : BridgeTransaction} :
    tx ∈ m.getPendingForShard shard ↔ ∃ id ∈ m.listing shard, m.bridges.lookup id = some tx :=
  List.mem_filterMap

theorem mem_getAllPending {m : BridgeManager} {tx : BridgeTransaction} :
    tx ∈ m.getAllPending ↔ (∃ id, m.bridges.lookup id = some tx) ∧
      (tx.status = .pending ∨ tx.status = .locked ∨ tx.status = .relayed) := by
  rw [getAllPending, List.mem_filter, List.mem_map, decide_eq_true_iff]
  refine and_congr_left fun _ => ⟨?_, ?_⟩
  · rintro ⟨e, he, rfl⟩
    exact ⟨e.1, (Map.mem_toPairs _ _ _).mp he⟩
  · rintro ⟨id, hlookup⟩
    exact ⟨(id, tx), (Map.mem_toPairs _ _ _).mpr hlookup, rfl⟩

/-- A pending bridge is among the bridges of some shard. -/
theorem Filed.listed {m : BridgeManager} (h : m.Filed) {tx : BridgeTransaction}
    (hpending : tx ∈ m.getAllPending) : ∃ shard, tx ∈ m.getPendingForShard shard := by
  obtain ⟨⟨id, hlookup⟩, hstatus⟩ := mem_getAllPending.mp hpending
  have hplaced := h.placed id tx hlookup
  have hnonempty : (m.shardsOf id).Nonempty := by
    unfold Placed at hplaced
    rcases hstatus with hstatus | hstatus | hstatus <;>
    · rw [hstatus] at hplaced
      exact hplaced ▸ Set.singleton_nonempty _
  obtain ⟨shard, hshard⟩ := hnonempty
  exact ⟨shard, mem_getPendingForShard.mpr ⟨id, hshard, hlookup⟩⟩

/-- The identifiers of the bridges of a shard are the listed ones. -/
theorem Filed.map_id_getPendingForShard {m : BridgeManager} (h : m.Filed) (shard : ShardId) :
    (m.getPendingForShard shard).map (·.id) = m.listing shard := by
  have hlist : ∀ ids : List UInt64, (∀ id ∈ ids, (m.bridges.lookup id).isSome) →
      (ids.filterMap m.bridges.lookup).map (·.id) = ids := by
    intro ids
    induction ids with
    | nil => exact fun _ => rfl
    | cons id ids ih =>
        intro hknown
        obtain ⟨tx, hlookup⟩ := Option.isSome_iff_exists.mp (hknown id List.mem_cons_self)
        rw [List.filterMap_cons, hlookup, List.map_cons, h.identified id tx hlookup,
          ih fun id' hid' => hknown id' (List.mem_cons_of_mem id hid')]
  apply hlist
  intro id hid
  by_contra hnone
  have hempty := h.unknown id (Option.not_isSome_iff_eq_none.mp hnone)
  exact Set.notMem_empty shard (hempty ▸ mem_shardsOf.mpr hid)

/-- Every bridge is listed by at most one shard. -/
theorem Filed.shardsOf_subsingleton {m : BridgeManager} (h : m.Filed) (id : UInt64) :
    (m.shardsOf id).Subsingleton := by
  cases hlookup : m.bridges.lookup id with
  | none => exact h.unknown id hlookup ▸ Set.subsingleton_empty
  | some tx => exact (h.placed id tx hlookup).subsingleton

/-- Going through the shards gives no bridge twice. -/
theorem Filed.nodup_flatMap {m : BridgeManager} (h : m.Filed) {shards : List ShardId}
    (hshards : shards.Nodup) : ((shards.flatMap m.getPendingForShard).map (·.id)).Nodup := by
  rw [List.map_flatMap]
  simp only [h.map_id_getPendingForShard]
  rw [List.nodup_flatMap]
  refine ⟨fun shard _ => h.distinct shard, ?_⟩
  refine hshards.imp fun {shard shard'} hne => ?_
  intro id hid hid'
  exact hne (h.shardsOf_subsingleton id hid hid')

/-- **The pending index.**  In every reachable manager a pending or locked bridge is listed
exactly once, under its source shard, a relayed one exactly once, under its target shard, a
finalized or reverted one not at all, and no bridge twice.  Going through all shards gives every
pending bridge, and none twice. -/
theorem pending_indexed {m : BridgeManager} (h : m.Reachable) :
    (∀ id tx, m.bridges.lookup id = some tx →
      (tx.status = .pending ∨ tx.status = .locked →
        ∀ shard, (m.listing shard).count id = if shard = tx.sourceShard then 1 else 0) ∧
      (tx.status = .relayed →
        ∀ shard, (m.listing shard).count id = if shard = tx.targetShard then 1 else 0) ∧
      (tx.status = .finalized ∨ tx.status = .reverted → ∀ shard, id ∉ m.listing shard)) ∧
    (∀ id shard, (m.listing shard).count id ≤ 1 ∧
      ∀ shard', id ∈ m.listing shard → id ∈ m.listing shard' → shard = shard') ∧
    ∀ shards : List ShardId, shards.Nodup → (∀ shard, m.listing shard ≠ [] → shard ∈ shards) →
      m.getAllPending ⊆ shards.flatMap m.getPendingForShard ∧
        ((shards.flatMap m.getPendingForShard).map (·.id)).Nodup := by
  have hfiled := h.filed
  refine ⟨?_, ?_, ?_⟩
  · intro id tx hlookup
    have hplaced := hfiled.placed id tx hlookup
    unfold Placed at hplaced
    refine ⟨?_, ?_, ?_⟩
    · rintro (hstatus | hstatus) <;>
      · rw [hstatus] at hplaced
        exact hfiled.count hplaced
    · intro hstatus
      rw [hstatus] at hplaced
      exact hfiled.count hplaced
    · rintro (hstatus | hstatus) shard hid <;>
      · rw [hstatus] at hplaced
        exact Set.notMem_empty shard (hplaced ▸ mem_shardsOf.mpr hid)
  · intro id shard
    exact ⟨List.nodup_iff_count_le_one.mp (hfiled.distinct shard) id,
      fun shard' hid hid' => hfiled.shardsOf_subsingleton id hid hid'⟩
  · intro shards hnodup hcover
    refine ⟨fun tx hpending => ?_, hfiled.nodup_flatMap hnodup⟩
    obtain ⟨shard, hshard⟩ := hfiled.listed hpending
    refine List.mem_flatMap.mpr ⟨shard, hcover shard ?_, hshard⟩
    obtain ⟨id, hid, -⟩ := mem_getPendingForShard.mp hshard
    exact List.ne_nil_of_mem hid

/-- The manager after some calls. -/
def runCalls (calls : List BridgeCall) (m : BridgeManager) : BridgeManager :=
  calls.foldl (fun m c => (c.run m).2) m

/-- Calls that return lead to a reachable manager. -/
theorem Reachable.runCalls {m : BridgeManager} (h : m.Reachable) (calls : List BridgeCall)
    (hreturn : ∀ k, (hk : k < calls.length) →
      ((calls.get ⟨k, hk⟩).run (runCalls (calls.take k) m)).1 ≠ .panic) :
    (BridgeManager.runCalls calls m).Reachable := by
  induction calls generalizing m with
  | nil => exact h
  | cons c rest ih =>
      refine ih (h.call c (hreturn 0 (Nat.zero_lt_succ _))) fun k hk => ?_
      exact hreturn (k + 1) (Nat.succ_lt_succ hk)

/-- A bridge from the first shard to another one. -/
def bridgeTo (target : ShardId) : BridgeCall :=
  .initiate (Vector.replicate 32 1) (Vector.replicate 32 2) 1000000 1 target 0

/-- Four bridges: the first one stays locked, the second one is relayed, the third one finalized,
the last one only initiated. -/
def fourBridges : List BridgeCall :=
  [bridgeTo 2, bridgeTo 2, bridgeTo 3, .lock 1, .lock 2, .lock 3, .relay 2, .relay 3, .finalize 3,
    bridgeTo 3]

/-- They are listed where they should be. -/
theorem four_bridges_indexed :
    let m := runCalls fourBridges new
    m.listing 1 = [1, 4] ∧ (∀ shard, (m.listing shard).count 1 = if shard = 1 then 1 else 0) ∧
      (∀ shard, (m.listing shard).count 2 = if shard = 2 then 1 else 0) ∧
      ∀ shard, 3 ∉ m.listing shard := by
  intro m
  have hreachable : m.Reachable := Reachable.new.runCalls fourBridges (by decide)
  have hindexed := (pending_indexed hreachable).1
  have hfound : ∀ id status, (m.bridges.lookup id).map (·.status) = some status →
      ∃ tx, m.bridges.lookup id = some tx ∧ tx.status = status := fun id status h =>
    Option.map_eq_some_iff.mp h
  obtain ⟨tx₁, hlookup₁, hlocked⟩ := hfound 1 .locked (by decide)
  obtain ⟨tx₂, hlookup₂, hrelayed⟩ := hfound 2 .relayed (by decide)
  obtain ⟨tx₃, hlookup₃, hfinalized⟩ := hfound 3 .finalized (by decide)
  have hsource : (m.bridges.lookup 1).map (·.sourceShard) = some 1 := by decide
  have htarget : (m.bridges.lookup 2).map (·.targetShard) = some 2 := by decide
  rw [hlookup₁, Option.map_some, Option.some.injEq] at hsource
  rw [hlookup₂, Option.map_some, Option.some.injEq] at htarget
  refine ⟨by decide, fun shard => ?_, fun shard => ?_,
    (hindexed 3 tx₃ hlookup₃).2.2 (Or.inl hfinalized)⟩
  · have hcount := (hindexed 1 tx₁ hlookup₁).1 (Or.inr hlocked) shard
    rwa [hsource] at hcount
  · have hcount := (hindexed 2 tx₂ hlookup₂).2.1 hrelayed shard
    rwa [htarget] at hcount

end BridgeManager
