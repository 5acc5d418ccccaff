/-
# Gossip

`GossipRouter` of `src/network/gossip.rs`: a table of the short hashes that were seen, with the time
of the last hand-over.

A message of the chain that is handed over again within the time to live is not propagated again,
whatever else passes in between (`not_repeated`).  What is new is propagated exactly where no
record of the same short message is left in the table (`propagates_new_iff`); the short message of
a vote, for one, does not tell a prevote from a precommit.
-/
import Pacyte.Grouping
import Pacyte.Runs
import Pacyte.WireMessages

open Exec Primitives

/-! ## Short hashes -/

namespace WireMessage

/-- The bytes of an ASCII literal. -/
def tagBytes (text : String) : Bytes := text.toList.map fun c => UInt8.ofNat c.toNat

variable [Primitives]

/-- The bytes that `compute_short_hash` hashes; only the messages without a case of their own need
a reading of the clock. -/
def shortMessage (now : Timestamp) : WireMessage → Bytes
  | .newTransaction tx => tagBytes "tx:" ++ tx.hash.toList
  | .newBlock block => tagBytes "block:" ++ block.hash.toList
  | .proposal p => tagBytes "proposal:" ++ p.block.hash.toList ++ leBytes 8 p.round.toNat
  | .vote v =>
    tagBytes "vote:" ++ v.blockHash.toList ++ leBytes 8 v.voter.toNat ++ leBytes 8 v.round.toNat
  | _ => tagBytes "other:" ++ leBytes 8 now.toNat

omit [Primitives] in
/-- Transactions, blocks, proposals and votes, which have a case of their own. -/
def ofChain : WireMessage → Bool
  | .newTransaction _ | .newBlock _ | .proposal _ | .vote _ => true
  | _ => false

omit [Primitives] in
/-- How many readings of the clock the short hash takes. -/
def readings (m : WireMessage) : ℕ := if m.ofChain then 0 else 1

/-- The short message of a message of the chain does not depend on the clock. -/
theorem shortMessage_ofChain {m : WireMessage} (h : m.ofChain = true) (now later : Timestamp) :
    m.shortMessage now = m.shortMessage later := by
  cases m with
  | newTransaction | newBlock | proposal | vote => rfl
  | _ => exact absurd h Bool.false_ne_true

end WireMessage

/-! ## The router -/

/-- `GossipRouter`, with the clock. -/
structure GossipRouter where
  seenMessages : Map Hash UInt64
  maxSeenCache : ℕ
  ttlSeconds : UInt64
  clock : Clock

namespace GossipRouter

/-- `GossipRouter::new`. -/
def new (maxSeenCache : ℕ) (ttlSeconds : UInt64) (clock : Clock) : GossipRouter :=
  ⟨∅, maxSeenCache, ttlSeconds, clock⟩

/-- `current_timestamp`. -/
def now : Exec Empty GossipRouter Timestamp :=
  Exec.onPart (·.clock) (fun clock r => { r with clock := clock }) currentTimestamp

/-- `now.saturating_sub(ttl)`. -/
def cutoff (ttlSeconds now : UInt64) : UInt64 := if ttlSeconds ≤ now then now - ttlSeconds else 0

/-- `cleanup_expired`. -/
def cleanupExpired (now : UInt64) (r : GossipRouter) : GossipRouter :=
  { r with
    seenMessages :=
      Map.retain (fun _ timestamp => cutoff r.ttlSeconds now < timestamp) r.seenMessages }

variable [Primitives]

/-- `compute_short_hash`. -/
def computeShortHash (message : WireMessage) : Exec Empty GossipRouter Hash :=
  match message with
  | .newTransaction _ | .newBlock _ | .proposal _ | .vote _ =>
    return sha3_256 (message.shortMessage 0)
  | _ => do
    let now ← now
    return sha3_256 (message.shortMessage now)

/-- `should_propagate`. -/
def shouldPropagate (message : WireMessage) : Exec Empty GossipRouter Bool := do
  let hash ← computeShortHash message
  let now ← now
  Exec.modify fun r =>
    if r.maxSeenCache < r.seenMessages.entries.length then r.cleanupExpired now else r
  let r ← Exec.get
  match r.seenMessages.lookup hash with
  | some _ =>
    Exec.modify fun r => { r with seenMessages := r.seenMessages.insert hash now }
    return false
  | none =>
    Exec.modify fun r => { r with seenMessages := r.seenMessages.insert hash now }
    return true

/-- The router after a message was handed over. -/
def handOver (message : WireMessage) (r : GossipRouter) : GossipRouter :=
  (shouldPropagate message r).2

/-! ## One hand-over -/

omit [Primitives] in
/-- The records that are left when a message is looked up. -/
def survivors (r : GossipRouter) (now : UInt64) : Map Hash UInt64 :=
  if r.maxSeenCache < r.seenMessages.entries.length then
    Map.retain (fun _ timestamp => cutoff r.ttlSeconds now < timestamp) r.seenMessages
  else r.seenMessages

/-- The hash under which a message is looked up. -/
def keyOf (r : GossipRouter) (m : WireMessage) : Hash := sha3_256 (m.shortMessage (r.clock 0))

omit [Primitives] in
/-- The time at which a message is looked up. -/
def timeOf (r : GossipRouter) (m : WireMessage) : UInt64 := r.clock m.readings

theorem computeShortHash_run (m : WireMessage) (r : GossipRouter) :
    computeShortHash m r =
      (.ok (r.keyOf m), { r with clock := fun k => r.clock (k + m.readings) }) := by
  cases m <;> rfl

theorem shouldPropagate_run (m : WireMessage) (r : GossipRouter) :
    shouldPropagate m r =
      (.ok ((r.survivors (r.timeOf m)).lookup (r.keyOf m)).isNone,
        { r with
          seenMessages := (r.survivors (r.timeOf m)).insert (r.keyOf m) (r.timeOf m)
          clock := fun k => r.clock (k + 1 + m.readings) }) := by
  have hclock : (fun k => r.clock (k + m.readings)) 0 = r.timeOf m :=
    congrArg r.clock (Nat.zero_add _)
  have hnow : now { r with clock := fun k => r.clock (k + m.readings) } =
      (.ok (r.timeOf m), { r with clock := fun k => r.clock (k + 1 + m.readings) }) := by
    rw [← hclock]
    rfl
  unfold shouldPropagate
  rw [run_bind_of_ok (computeShortHash_run m r), run_bind_of_ok hnow, run_bind, run_modify]
  unfold survivors
  dsimp only
  split_ifs with hfull
  · rw [run_bind, run_get]
    unfold cleanupExpired
    dsimp only
    cases hlookup : (Map.retain (fun _ timestamp => cutoff r.ttlSeconds (r.timeOf m) < timestamp)
        r.seenMessages).lookup (r.keyOf m) with
    | none => rfl
    | some t => rfl
  · rw [run_bind, run_get]
    dsimp only
    cases hlookup : r.seenMessages.lookup (r.keyOf m) with
    | none => rfl
    | some t => rfl

/-! ## Repeated messages -/

omit [Primitives] in
theorem toNat_cutoff (ttlSeconds now : UInt64) :
    (cutoff ttlSeconds now).toNat = now.toNat - ttlSeconds.toNat := by
  unfold cutoff
  split_ifs with h
  · exact UInt64.toNat_sub_of_le _ _ h
  · have hlt : ¬ ttlSeconds.toNat ≤ now.toNat := fun hle => h (UInt64.le_iff_toNat_le.mpr hle)
    have hzero : (0 : UInt64).toNat = 0 := rfl
    omega

/-- The readings of a clock are positive and do not decrease. -/
structure Forward (clock : Clock) : Prop where
  pos : ∀ k, 0 < clock k
  mono : ∀ k l, k ≤ l → clock k ≤ clock l

/-- There is a record under a hash that is not older than a time. -/
def Recorded (hash : Hash) (first : UInt64) (seen : Map Hash UInt64) : Prop :=
  ∃ t, seen.lookup hash = some t ∧ first ≤ t

variable {r : GossipRouter} {hash : Hash} {first : UInt64}

omit [Primitives] in
/-- Within the time to live no clean-up drops the record. -/
theorem recorded_survivors (h : Recorded hash first r.seenMessages) (hpos : 0 < first)
    {now : UInt64} (hnow : now.toNat < first.toNat + r.ttlSeconds.toNat) :
    Recorded hash first (r.survivors now) := by
  obtain ⟨t, hlookup, hle⟩ := h
  refine ⟨t, ?_, hle⟩
  unfold survivors
  split_ifs
  · rw [Map.lookup_retain_some, decide_eq_true_eq]
    refine ⟨hlookup, ?_⟩
    rw [UInt64.lt_iff_toNat_lt, toNat_cutoff]
    rw [UInt64.lt_iff_toNat_lt] at hpos
    rw [UInt64.le_iff_toNat_le] at hle
    have hzero : (0 : UInt64).toNat = 0 := rfl
    omega
  · exact hlookup

theorem seenMessages_handOver (m : WireMessage) (r : GossipRouter) :
    (handOver m r).seenMessages =
      (r.survivors (r.timeOf m)).insert (r.keyOf m) (r.timeOf m) := by
  unfold handOver
  rw [shouldPropagate_run]

theorem clock_handOver (m : WireMessage) (r : GossipRouter) :
    (handOver m r).clock = fun k => r.clock (k + 1 + m.readings) := by
  unfold handOver
  rw [shouldPropagate_run]

@[simp] theorem ttlSeconds_handOver (m : WireMessage) (r : GossipRouter) :
    (handOver m r).ttlSeconds = r.ttlSeconds := by
  unfold handOver
  rw [shouldPropagate_run]

theorem forward_handOver (m : WireMessage) (h : Forward r.clock) :
    Forward (handOver m r).clock := by
  rw [clock_handOver]
  exact ⟨fun k => h.pos _, fun k l hkl => h.mono _ _ (by omega)⟩

/-- The time does not go back in a run. -/
theorem clock_le_run (messages : List WireMessage) (h : Forward r.clock) (k : ℕ) :
    r.clock k ≤ (Runs.run handOver r messages).clock k := by
  induction messages generalizing r with
  | nil => exact UInt64.le_refl _
  | cons m rest ih =>
      have hstep : r.clock k ≤ (handOver m r).clock k := by
        rw [clock_handOver]
        exact h.mono _ _ (by omega)
      exact UInt64.le_trans hstep (ih (forward_handOver m h))

theorem recorded_handOver (m : WireMessage) (h : Recorded hash first r.seenMessages)
    (hpos : 0 < first) (hfirst : first ≤ r.timeOf m)
    (hnow : (r.timeOf m).toNat < first.toNat + r.ttlSeconds.toNat) :
    Recorded hash first (handOver m r).seenMessages := by
  rw [seenMessages_handOver]
  by_cases hkey : hash = r.keyOf m
  · subst hkey
    exact ⟨r.timeOf m, AList.lookup_insert _, hfirst⟩
  · obtain ⟨t, hlookup, hle⟩ := recorded_survivors h hpos hnow
    exact ⟨t, (AList.lookup_insert_ne hkey).trans hlookup, hle⟩

/-- A record stays for the time to live. -/
theorem recorded_run (messages : List WireMessage) (h : Recorded hash first r.seenMessages)
    (hclock : Forward r.clock) (hpos : 0 < first) (hfirst : first ≤ r.clock 0)
    (hend : ((Runs.run handOver r messages).clock 0).toNat <
      first.toNat + r.ttlSeconds.toNat) :
    Recorded hash first (Runs.run handOver r messages).seenMessages := by
  induction messages generalizing r with
  | nil => exact h
  | cons m rest ih =>
      have htime : r.timeOf m ≤ (handOver m r).clock 0 := by
        rw [clock_handOver]
        exact hclock.mono _ _ (by omega)
      have hstart : first ≤ r.timeOf m := UInt64.le_trans hfirst (hclock.mono _ _ (Nat.zero_le _))
      have hlast := UInt64.le_trans htime (clock_le_run rest (forward_handOver m hclock) 0)
      rw [UInt64.le_iff_toNat_le] at hlast
      rw [Runs.run_cons] at hend
      have hkept := recorded_handOver m h hpos hstart (by omega)
      exact ih hkept (forward_handOver m hclock) (UInt64.le_trans hstart htime)
        (by rwa [ttlSeconds_handOver])

@[simp] theorem ttlSeconds_run (messages : List WireMessage) (r : GossipRouter) :
    (Runs.run handOver r messages).ttlSeconds = r.ttlSeconds :=
  Runs.invariant (I := fun r' => r'.ttlSeconds = r.ttlSeconds)
    (fun r' m h => (ttlSeconds_handOver m r').trans h) rfl messages

/-- **No repetition**: a transaction, block, proposal or vote that is handed over again within the
time to live is not propagated. -/
theorem not_repeated (maxSeenCache : ℕ) (ttlSeconds : UInt64) {clock : Clock}
    (hclock : Forward clock) (done between : List WireMessage) {m : WireMessage}
    (hm : m.ofChain = true)
    (hsoon : ((Runs.run handOver (new maxSeenCache ttlSeconds clock)
        (done ++ m :: between)).clock 0).toNat <
      ((Runs.run handOver (new maxSeenCache ttlSeconds clock) done).clock 0).toNat +
        ttlSeconds.toNat) :
    (shouldPropagate m (Runs.run handOver (new maxSeenCache ttlSeconds clock)
      (done ++ m :: between))).1 = .ok false := by
  set r := Runs.run handOver (new maxSeenCache ttlSeconds clock) done with hr
  have hforward : Forward r.clock :=
    Runs.invariant (I := fun r : GossipRouter => Forward r.clock)
      (fun _ m h => forward_handOver m h) hclock done
  have httl : r.ttlSeconds = ttlSeconds := ttlSeconds_run done _
  have hreadings : m.readings = 0 := if_pos hm
  have htime : r.timeOf m = r.clock 0 := congrArg r.clock hreadings
  rw [Runs.run_append, Runs.run_cons, ← hr] at hsoon ⊢
  have hfirst : Recorded (r.keyOf m) (r.clock 0) (handOver m r).seenMessages := by
    rw [seenMessages_handOver, htime]
    exact ⟨r.clock 0, AList.lookup_insert _, UInt64.le_refl _⟩
  have hnext : r.clock 0 ≤ (handOver m r).clock 0 := by
    rw [clock_handOver]
    exact hforward.mono _ _ (Nat.zero_le _)
  have hkept := recorded_run between hfirst (forward_handOver m hforward) (hforward.pos 0) hnext
    (by rwa [ttlSeconds_handOver, httl])
  set r' := Runs.run handOver (handOver m r) between with hr'
  have httl' : r'.ttlSeconds = ttlSeconds := by
    rw [hr', ttlSeconds_run, ttlSeconds_handOver, httl]
  have hkey : r'.keyOf m = r.keyOf m := congrArg sha3_256 (WireMessage.shortMessage_ofChain hm _ _)
  have htime' : r'.timeOf m = r'.clock 0 := congrArg r'.clock hreadings
  obtain ⟨t, hlookup, -⟩ := recorded_survivors hkept (hforward.pos 0) (by rwa [httl'])
  rw [shouldPropagate_run, hkey, htime', hlookup]
  rfl

/-! ## New messages -/

/-- A router with everything that was handed over to it, and the short messages. -/
structure Traffic where
  router : GossipRouter
  history : List (WireMessage × Bytes)

/-- A message is handed over. -/
def Traffic.handOver (m : WireMessage) (s : Traffic) : Traffic :=
  ⟨GossipRouter.handOver m s.router, (m, m.shortMessage (s.router.clock 0)) :: s.history⟩

/-- Every record stems from a message of the history. -/
def Traffic.Traced (s : Traffic) : Prop :=
  ∀ hash t, s.router.seenMessages.lookup hash = some t → ∃ e ∈ s.history, sha3_256 e.2 = hash

omit [Primitives] in
theorem lookup_survivors {now t : UInt64} (h : (r.survivors now).lookup hash = some t) :
    r.seenMessages.lookup hash = some t := by
  unfold survivors at h
  split_ifs at h
  · exact ((Map.lookup_retain_some _ _).mp h).1
  · exact h

theorem traced_handOver (m : WireMessage) {s : Traffic} (h : s.Traced) :
    (Traffic.handOver m s).Traced := by
  intro hash t hlookup
  change (GossipRouter.handOver m s.router).seenMessages.lookup hash = some t at hlookup
  rw [seenMessages_handOver, Map.lookup_insert_some] at hlookup
  rcases hlookup with ⟨rfl, -⟩ | ⟨-, hold⟩
  · exact ⟨_, List.mem_cons_self, rfl⟩
  · obtain ⟨e, he, hhash⟩ := h hash t (lookup_survivors hold)
    exact ⟨e, List.mem_cons_of_mem _ he, hhash⟩

section New

variable {γ : Type} (content : WireMessage → γ)

/-- The content of the message differs from what was handed over before. -/
def New (s : Traffic) (m : WireMessage) : Prop := ∀ e ∈ s.history, content e.1 ≠ content m

/-- A new message is propagated. -/
def PropagatesNew (s : Traffic) (m : WireMessage) : Prop :=
  New content s m → (shouldPropagate m s.router).1 = .ok true

/-- The clean-up has left no record of an earlier message with the short message of a new one. -/
def Cleared (s : Traffic) (m : WireMessage) : Prop :=
  New content s m → ∀ e ∈ s.history, e.2 = m.shortMessage (s.router.clock 0) →
    (s.router.survivors (s.router.timeOf m)).lookup (sha3_256 e.2) = none

/-- One hand-over, where the hash has no collision among the short messages. -/
theorem propagatesNew_iff_cleared {s : Traffic} (h : s.Traced) {m : WireMessage}
    (hcollision : ∀ e ∈ s.history, sha3_256 e.2 = s.router.keyOf m →
      e.2 = m.shortMessage (s.router.clock 0)) :
    PropagatesNew content s m ↔ Cleared content s m := by
  refine imp_congr_right fun _ => ?_
  rw [shouldPropagate_run]
  dsimp only
  constructor
  · intro hanswer e he hshort
    rw [Outcome.ok.injEq, Option.isNone_iff_eq_none] at hanswer
    rw [hshort]
    exact hanswer
  · intro hcleared
    cases hlookup : (s.router.survivors (s.router.timeOf m)).lookup (s.router.keyOf m) with
    | none => rfl
    | some t =>
        obtain ⟨e, he, hhash⟩ := h _ t (lookup_survivors hlookup)
        have hgone := hcleared e he (hcollision e he hhash)
        rw [hhash, hlookup] at hgone
        cases hgone

/-- **When gossip swallows no new message**: in a run without collisions of the short messages,
new messages are propagated exactly if, at each of them, no record is left of an earlier message
with the same short message. -/
theorem propagates_new_iff (maxSeenCache : ℕ) (ttlSeconds : UInt64) (clock : Clock)
    (messages : List WireMessage)
    (hcollision : Set.InjOn sha3_256 {b | ∃ m ∈ messages, ∃ now, b = m.shortMessage now}) :
    Runs.Along Traffic.handOver (PropagatesNew content) ⟨new maxSeenCache ttlSeconds clock, []⟩
        messages ↔
      Runs.Along Traffic.handOver (Cleared content) ⟨new maxSeenCache ttlSeconds clock, []⟩
        messages := by
  have hrun : ∀ (rest : List WireMessage) (s : Traffic), (∀ m ∈ rest, m ∈ messages) → s.Traced →
      (∀ e ∈ s.history, ∃ m ∈ messages, ∃ now, e.2 = m.shortMessage now) →
      (Runs.Along Traffic.handOver (PropagatesNew content) s rest ↔
        Runs.Along Traffic.handOver (Cleared content) s rest) := by
    intro rest
    induction rest with
    | nil => exact fun _ _ _ _ => Iff.rfl
    | cons m rest ih =>
        intro s hmem htraced hhistory
        have hm := hmem m List.mem_cons_self
        rw [Runs.along_cons, Runs.along_cons]
        refine and_congr (propagatesNew_iff_cleared content htraced fun e he hhash => ?_) ?_
        · exact hcollision (hhistory e he) ⟨m, hm, _, rfl⟩ hhash
        · refine ih _ (fun m' hm' => hmem m' (List.mem_cons_of_mem m hm'))
            (traced_handOver m htraced) fun e he => ?_
          rcases List.mem_cons.mp he with rfl | hold
          · exact ⟨m, hm, _, rfl⟩
          · exact hhistory e hold
  exact hrun messages _ (fun _ h => h) (fun _ _ h => nomatch h) fun _ h => nomatch h

end New

end GossipRouter

/-! ## Two votes for one block -/

section Example

open GossipRouter
open scoped Sample

/-- A vote of the first validator for a block in the first round. -/
def blockVote (voteType : VoteType) : WireMessage := .vote ⟨1, 0, zero32, 1, voteType, []⟩

/-- A router whose clock stands still. -/
def stillRouter : GossipRouter := new 100 60 fun _ => 1000

/-- A prevote for the same block. -/
def prevoteOf (voter : UInt64) : WireMessage := .vote ⟨1, 0, zero32, voter, .prevote, []⟩

/-- A clock that moves on by a minute and a half after the first message. -/
def lateClock : Clock := fun k => if k = 0 then 1000 else 1090

/-- A router that has room for one record sees a prevote again, after those of two others.  By then
its clean-up has removed the one that came first. -/
theorem vote_not_repeated :
    let r := Runs.run handOver (new 1 60 lateClock)
      [prevoteOf 4, prevoteOf 1, prevoteOf 2, prevoteOf 3]
    (shouldPropagate (prevoteOf 1) r).1 = .ok false ∧
      (shouldPropagate (prevoteOf 4) r).1 = .ok true := by
  have hclock : Forward lateClock := by
    refine ⟨fun k => ?_, fun k l hkl => ?_⟩
    · unfold lateClock
      split_ifs <;> decide
    · unfold lateClock
      split_ifs with hk hl hl
      · decide
      · decide
      · omega
      · decide
  refine ⟨?_, by decide +kernel⟩
  exact not_repeated 1 60 hclock [prevoteOf 4] [prevoteOf 2, prevoteOf 3] rfl (by decide +kernel)

/-- The precommit of a validator is swallowed after its prevote. -/
theorem precommit_swallowed :
    ¬ Runs.Along Traffic.handOver (PropagatesNew id) ⟨stillRouter, []⟩
      [blockVote .prevote, blockVote .precommit] := by
  rintro ⟨-, hsecond, -⟩
  have hnew : New id (Traffic.handOver (blockVote .prevote) ⟨stillRouter, []⟩)
      (blockVote .precommit) := by
    intro e he
    rw [List.mem_singleton.mp he]
    decide
  have hanswer := hsecond hnew
  rw [shouldPropagate_run] at hanswer
  exact absurd hanswer (by decide +kernel)

instance (s : Traffic) (m : WireMessage) : Decidable (New id s m) :=
  inferInstanceAs (Decidable (∀ e ∈ s.history, _))

instance (s : Traffic) (m : WireMessage) : Decidable (Cleared id s m) :=
  inferInstanceAs (Decidable (_ → ∀ e ∈ s.history, _))

/-- The prevotes of three validators, one of them twice. -/
def prevotes : List WireMessage := [prevoteOf 1, prevoteOf 2, prevoteOf 1, prevoteOf 3]

/-- All that are new are propagated. -/
theorem prevotes_propagated :
    Runs.Along Traffic.handOver (PropagatesNew id) ⟨stillRouter, []⟩ prevotes := by
  have hshort : ∀ m ∈ prevotes, ∀ now, m.shortMessage now = m.shortMessage 0 := by
    intro m hm now
    have hchain : ∀ m ∈ prevotes, m.ofChain = true := by decide
    exact WireMessage.shortMessage_ofChain (hchain m hm) now 0
  have hcollision : ∀ m ∈ prevotes, ∀ m' ∈ prevotes,
      sha3_256 (m.shortMessage 0) = sha3_256 (m'.shortMessage 0) →
        m.shortMessage 0 = m'.shortMessage 0 := by decide +kernel
  refine (propagates_new_iff id 100 60 (fun _ => 1000) prevotes ?_).mpr ?_
  · rintro _ ⟨m, hm, now, rfl⟩ _ ⟨m', hm', now', rfl⟩ hsame
    rw [hshort m hm now, hshort m' hm' now'] at hsame ⊢
    exact hcollision m hm m' hm' hsame
  · refine ⟨?_, ?_, ?_, ?_, trivial⟩
    all_goals decide +kernel

end Example
