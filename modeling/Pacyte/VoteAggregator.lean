/-
# The vote aggregator

`VoteAggregator` of `src/consensus/vote.rs`.  It keeps one set of voters for a block, so of the two
votes of a validator for a block only the first one counts.

The counters are those of the first votes (`Counts`), from which `findsWinner_iff` says for which
votes and quorums the aggregator finds the winner.
-/
import Pacyte.MapEntries
import Pacyte.Runs
import Pacyte.Validators

open Exec

/-- `AggregatedVotes`. -/
structure AggregatedVotes where
  prevotes : ℕ
  precommits : ℕ
  votingPower : UInt64
  voters : Finset UInt64

/-- `AggregatedVotes::default`. -/
def AggregatedVotes.empty : AggregatedVotes := ⟨0, 0, 0, ∅⟩

/-- `VoteAggregator`. -/
structure VoteAggregator where
  votes : Map Hash AggregatedVotes

namespace VoteAggregator

/-! ## The aggregator -/

/-- `VoteAggregator::new`. -/
def new : VoteAggregator := ⟨∅⟩

/-- The entry of a block. -/
def entry (agg : VoteAggregator) (h : Hash) : AggregatedVotes :=
  (agg.votes.lookup h).getD AggregatedVotes.empty

/-- Replace the entry of a block. -/
def setEntry (h : Hash) (e : AggregatedVotes) : Exec Empty VoteAggregator Unit :=
  Exec.modify fun agg => ⟨agg.votes.insert h e⟩

/-- The voter counts for the type of its vote. -/
def AggregatedVotes.count (e : AggregatedVotes) : VoteType → AggregatedVotes
  | .prevote => { e with prevotes := e.prevotes + 1 }
  | .precommit => { e with precommits := e.precommits + 1 }

/-- `add_vote`. -/
def addVote (vote : Vote) (votingPower : UInt64) : Exec Empty VoteAggregator Unit := do
  let agg ← Exec.get
  let e := agg.entry vote.blockHash
  if vote.voter ∈ e.voters then
    setEntry vote.blockHash e
  else
    let e := { e with voters := insert vote.voter e.voters }
    setEntry vote.blockHash e
    let power ← Exec.addU64 e.votingPower votingPower
    setEntry vote.blockHash (AggregatedVotes.count { e with votingPower := power } vote.voteType)

/-- `max_by_key`: the last of the largest elements. -/
def maxByKey {α : Type} (key : α → UInt64) (l : List α) : Option α :=
  l.foldl (fun best x => match best with
    | none => some x
    | some y => if key y ≤ key x then some x else some y) none

/-- `get_winner`, for an order of the entries. -/
def getWinner (order : Listing (Hash × AggregatedVotes)) (quorum : ℕ) (agg : VoteAggregator) :
    Option Hash :=
  let voted := (order.list agg.votes.toPairs).filter fun e =>
    quorum ≤ e.2.prevotes ∧ quorum ≤ e.2.precommits
  (maxByKey (fun e => e.2.votingPower) voted).map Prod.fst

/-- A vote with the power that it is added with. -/
abbrev Call := Vote × UInt64

/-- The aggregator after a vote. -/
def after (c : Call) (agg : VoteAggregator) : VoteAggregator := (addVote c.1 c.2 agg).2

/-! ## The voters of a block -/

/-- The votes for a block. -/
def votesFor (calls : List Call) (h : Hash) : List Call :=
  calls.filter fun c => c.1.blockHash = h

/-- The voters of a block. -/
def voters (calls : List Call) (h : Hash) : Finset UInt64 :=
  ((votesFor calls h).map fun c => c.1.voter).toFinset

/-- The first vote of a voter for a block. -/
def firstVote (calls : List Call) (h : Hash) (v : UInt64) : Option Call :=
  (votesFor calls h).find? fun c => c.1.voter = v

/-- The voters with a vote of a type for a block. -/
def votersOf (voteType : VoteType) (calls : List Call) (h : Hash) : Finset UInt64 :=
  (((votesFor calls h).filter fun c => c.1.voteType = voteType).map fun c => c.1.voter).toFinset

/-- The voters whose first vote for a block has a type. -/
def firstVotersOf (voteType : VoteType) (calls : List Call) (h : Hash) : Finset UInt64 :=
  (voters calls h).filter fun v => ∃ c ∈ firstVote calls h v, c.1.voteType = voteType

/-- The power of a voter, which is that of its first vote. -/
def powerOf (calls : List Call) (h : Hash) (v : UInt64) : ℕ :=
  ((firstVote calls h v).map fun c => c.2.toNat).getD 0

/-- The power of all voters of a block. -/
def totalPower (calls : List Call) (h : Hash) : ℕ := ∑ v ∈ voters calls h, powerOf calls h v

/-- Another vote for a block. -/
theorem votesFor_append (calls : List Call) (c : Call) (h : Hash) :
    votesFor (calls ++ [c]) h =
      votesFor calls h ++ if c.1.blockHash = h then [c] else [] := by
  unfold votesFor
  rw [List.filter_append, List.filter_singleton]
  by_cases hc : c.1.blockHash = h
  · rw [if_pos hc, decide_eq_true hc]
    rfl
  · rw [if_neg hc, decide_eq_false hc]
    rfl

theorem mem_voters {calls : List Call} {h : Hash} {v : UInt64} :
    v ∈ voters calls h ↔ ∃ c ∈ votesFor calls h, c.1.voter = v := by
  unfold voters
  rw [List.mem_toFinset, List.mem_map]

variable {calls : List Call} {c : Call} {h : Hash}

theorem votesFor_other (hc : c.1.blockHash ≠ h) : votesFor (calls ++ [c]) h = votesFor calls h := by
  rw [votesFor_append, if_neg hc, List.append_nil]

theorem votesFor_same (hc : c.1.blockHash = h) :
    votesFor (calls ++ [c]) h = votesFor calls h ++ [c] := by
  rw [votesFor_append, if_pos hc]

theorem voters_same (hc : c.1.blockHash = h) :
    voters (calls ++ [c]) h = insert c.1.voter (voters calls h) := by
  unfold voters
  rw [votesFor_same hc, List.map_append, List.toFinset_append, List.map_singleton,
    List.toFinset_cons, List.toFinset_nil, Finset.union_comm]
  rfl

theorem voters_old (hc : c.1.blockHash ≠ h ∨ c.1.voter ∈ voters calls h) :
    voters (calls ++ [c]) h = voters calls h := by
  by_cases hh : c.1.blockHash = h
  · rw [voters_same hh, Finset.insert_eq_of_mem (hc.resolve_left fun hne => hne hh)]
  · unfold voters
    rw [votesFor_other hh]

/-- The first vote of a voter stays the first one. -/
theorem firstVote_old {v : UInt64} (hv : v ∈ voters calls h) (c : Call) :
    firstVote (calls ++ [c]) h v = firstVote calls h v := by
  obtain ⟨c', hc', hvoter⟩ := mem_voters.mp hv
  unfold firstVote
  rw [votesFor_append, List.find?_append]
  cases hfind : (votesFor calls h).find? fun c => c.1.voter = v with
  | none => exact absurd (decide_eq_true hvoter) (List.find?_eq_none.mp hfind c' hc')
  | some first => rfl

theorem firstVote_new (hc : c.1.blockHash = h) (hv : c.1.voter ∉ voters calls h) :
    firstVote (calls ++ [c]) h c.1.voter = some c := by
  have hnone : (votesFor calls h).find? (fun c' => c'.1.voter = c.1.voter) = none := by
    rw [List.find?_eq_none]
    intro c' hc' heq
    exact hv (mem_voters.mpr ⟨c', hc', of_decide_eq_true heq⟩)
  unfold firstVote
  rw [votesFor_same hc, List.find?_append, hnone, Option.none_or]
  exact List.find?_cons_of_pos (decide_eq_true rfl)

theorem powerOf_new (hc : c.1.blockHash = h) (hv : c.1.voter ∉ voters calls h) :
    powerOf (calls ++ [c]) h c.1.voter = c.2.toNat := by
  unfold powerOf
  rw [firstVote_new hc hv]
  rfl

theorem powerOf_old {v : UInt64} (hv : v ∈ voters calls h) (c : Call) :
    powerOf (calls ++ [c]) h v = powerOf calls h v := by
  unfold powerOf
  rw [firstVote_old hv]

/-- The power that a new voter adds. -/
theorem totalPower_new (hc : c.1.blockHash = h) (hv : c.1.voter ∉ voters calls h) :
    totalPower (calls ++ [c]) h = c.2.toNat + totalPower calls h := by
  unfold totalPower
  rw [voters_same hc, Finset.sum_insert hv, powerOf_new hc hv]
  congr 1
  exact Finset.sum_congr rfl fun v hmem => powerOf_old hmem c

theorem totalPower_old (hc : c.1.blockHash ≠ h ∨ c.1.voter ∈ voters calls h) :
    totalPower (calls ++ [c]) h = totalPower calls h := by
  unfold totalPower
  rw [voters_old hc]
  exact Finset.sum_congr rfl fun v hmem => powerOf_old hmem c

theorem totalPower_le (calls : List Call) (c : Call) (h : Hash) :
    totalPower calls h ≤ totalPower (calls ++ [c]) h := by
  by_cases hc : c.1.blockHash ≠ h ∨ c.1.voter ∈ voters calls h
  · rw [totalPower_old hc]
  · rw [not_or, not_not] at hc
    rw [totalPower_new hc.1 hc.2]
    exact Nat.le_add_left _ _

theorem mem_firstVotersOf {voteType : VoteType} {v : UInt64} :
    v ∈ firstVotersOf voteType calls h ↔
      v ∈ voters calls h ∧ ∃ c ∈ firstVote calls h v, c.1.voteType = voteType :=
  Finset.mem_filter

/-- A new voter is among the first voters of the type of its vote. -/
theorem firstVotersOf_new (hc : c.1.blockHash = h) (hv : c.1.voter ∉ voters calls h)
    (voteType : VoteType) : firstVotersOf voteType (calls ++ [c]) h =
      if c.1.voteType = voteType then insert c.1.voter (firstVotersOf voteType calls h)
      else firstVotersOf voteType calls h := by
  ext v
  have hold : v ∈ voters calls h → (v ∈ firstVotersOf voteType (calls ++ [c]) h ↔
      v ∈ firstVotersOf voteType calls h) := by
    intro hmem
    rw [mem_firstVotersOf, mem_firstVotersOf, firstVote_old hmem, voters_same hc,
      Finset.mem_insert]
    exact and_congr_left' (iff_of_true (Or.inr hmem) hmem)
  by_cases hvc : v = c.1.voter
  · subst hvc
    rw [mem_firstVotersOf, firstVote_new hc hv, voters_same hc]
    split_ifs with htype
    · exact iff_of_true ⟨Finset.mem_insert_self _ _, c, rfl, htype⟩ (Finset.mem_insert_self _ _)
    · refine iff_of_false ?_ fun hmem => hv (mem_firstVotersOf.mp hmem).1
      rintro ⟨-, c', hc', htype'⟩
      obtain rfl := Option.some.inj hc'
      exact htype htype'
  · have hiff : v ∈ firstVotersOf voteType (calls ++ [c]) h ↔
        v ∈ firstVotersOf voteType calls h := by
      by_cases hmem : v ∈ voters calls h
      · exact hold hmem
      · refine iff_of_false (fun hnew => ?_) fun h => hmem (mem_firstVotersOf.mp h).1
        have hvoters := (mem_firstVotersOf.mp hnew).1
        rw [voters_same hc, Finset.mem_insert] at hvoters
        exact hvoters.elim hvc hmem
    rw [hiff]
    split_ifs
    · rw [Finset.mem_insert]
      exact ⟨Or.inr, fun h => h.resolve_left hvc⟩
    · exact Iff.rfl

theorem firstVotersOf_old (hc : c.1.blockHash ≠ h ∨ c.1.voter ∈ voters calls h)
    (voteType : VoteType) :
    firstVotersOf voteType (calls ++ [c]) h = firstVotersOf voteType calls h := by
  ext v
  rw [mem_firstVotersOf, mem_firstVotersOf, voters_old hc]
  refine and_congr_right fun hmem => ?_
  rw [firstVote_old hmem]

/-- Who voted first with a type has voted with the type. -/
theorem firstVotersOf_subset (voteType : VoteType) (calls : List Call) (h : Hash) :
    firstVotersOf voteType calls h ⊆ votersOf voteType calls h := by
  intro v hv
  obtain ⟨-, c, hc, htype⟩ := mem_firstVotersOf.mp hv
  have hmem := List.mem_of_find?_eq_some hc
  have hvoter := List.find?_some hc
  unfold votersOf
  rw [List.mem_toFinset, List.mem_map]
  exact ⟨c, List.mem_filter.mpr ⟨hmem, decide_eq_true htype⟩, of_decide_eq_true hvoter⟩

/-! ## The counters -/

/-- The aggregator holds what the first votes say. -/
structure Counts (calls : List Call) (agg : VoteAggregator) : Prop where
  present : ∀ h, h ∈ agg.votes ↔ (voters calls h).Nonempty
  known : ∀ h, (agg.entry h).voters = voters calls h
  prevotes : ∀ h, (agg.entry h).prevotes = (firstVotersOf .prevote calls h).card
  precommits : ∀ h, (agg.entry h).precommits = (firstVotersOf .precommit calls h).card
  power : ∀ h, (agg.entry h).votingPower.toNat = totalPower calls h

theorem counts_new : Counts [] new :=
  ⟨fun h => iff_of_false (AList.notMem_empty h) Finset.not_nonempty_empty, fun _ => rfl,
    fun _ => rfl, fun _ => rfl, fun _ => rfl⟩

variable {agg : VoteAggregator}

theorem entry_insert (agg : VoteAggregator) (h h' : Hash) (e : AggregatedVotes) :
    entry ⟨agg.votes.insert h e⟩ h' = if h' = h then e else agg.entry h' :=
  Map.getD_lookup_insert _ _ _ _ _

/-- A vote of a known voter. -/
theorem after_old (hv : c.1.voter ∈ (agg.entry c.1.blockHash).voters) :
    after c agg = ⟨agg.votes.insert c.1.blockHash (agg.entry c.1.blockHash)⟩ := by
  unfold after addVote
  rw [run_bind, run_get]
  dsimp only
  rw [if_pos hv]
  rfl

/-- A vote of a new voter whose power fits. -/
theorem after_new (hv : c.1.voter ∉ (agg.entry c.1.blockHash).voters)
    (hfits : (agg.entry c.1.blockHash).votingPower.toNat + c.2.toNat < 2 ^ 64) :
    after c agg = ⟨(agg.votes.insert c.1.blockHash
        { agg.entry c.1.blockHash with
          voters := insert c.1.voter (agg.entry c.1.blockHash).voters }).insert c.1.blockHash
      (AggregatedVotes.count
        { agg.entry c.1.blockHash with
          votingPower := (agg.entry c.1.blockHash).votingPower + c.2
          voters := insert c.1.voter (agg.entry c.1.blockHash).voters } c.1.voteType)⟩ := by
  have hadd : ∀ s : VoteAggregator,
      (Exec.addU64 (agg.entry c.1.blockHash).votingPower c.2 : Exec Empty VoteAggregator UInt64) s =
        (.ok ((agg.entry c.1.blockHash).votingPower + c.2), s) := fun s => congrFun (if_pos hfits) s
  unfold after addVote
  rw [run_bind, run_get]
  dsimp only
  rw [if_neg hv]
  unfold setEntry
  rw [run_bind, run_modify]
  dsimp only
  rw [run_bind_of_ok (hadd _)]
  rfl

/-- The entry of the block of a new voter, and the others. -/
theorem Counts.append (hcounts : Counts calls agg) (c : Call)
    (hfits : totalPower (calls ++ [c]) c.1.blockHash < 2 ^ 64) :
    Counts (calls ++ [c]) (after c agg) := by
  have hset := hcounts.known c.1.blockHash
  by_cases hv : c.1.voter ∈ voters calls c.1.blockHash
  · rw [← hset] at hv
    have hold : ∀ h, c.1.blockHash ≠ h ∨ c.1.voter ∈ voters calls h := by
      intro h
      by_cases hh : c.1.blockHash = h
      · subst hh
        rw [← hset]
        exact Or.inr hv
      · exact Or.inl hh
    have hentry : ∀ h, (after c agg).entry h = agg.entry h := by
      intro h
      rw [after_old hv, entry_insert]
      split_ifs with hh
      · rw [hh]
      · rfl
    refine ⟨fun h => ?_, fun h => ?_, fun h => ?_, fun h => ?_, fun h => ?_⟩
    · rw [after_old hv, AList.mem_insert, hcounts.present, voters_old (hold h)]
      refine or_iff_right_of_imp ?_
      rintro rfl
      rw [hset] at hv
      exact ⟨_, hv⟩
    · rw [hentry, hcounts.known, voters_old (hold h)]
    · rw [hentry, hcounts.prevotes, firstVotersOf_old (hold h)]
    · rw [hentry, hcounts.precommits, firstVotersOf_old (hold h)]
    · rw [hentry, hcounts.power, totalPower_old (hold h)]
  · have hnew := totalPower_new rfl hv
    have hpower := hcounts.power c.1.blockHash
    have hsum : (agg.entry c.1.blockHash).votingPower.toNat + c.2.toNat < 2 ^ 64 := by omega
    have hv' : c.1.voter ∉ (agg.entry c.1.blockHash).voters := by rwa [hset]
    have hafter := after_new hv' hsum
    have hother : ∀ h, c.1.blockHash ≠ h → (after c agg).entry h = agg.entry h := by
      intro h hh
      rw [hafter, entry_insert, if_neg fun heq => hh heq.symm, entry_insert,
        if_neg fun heq => hh heq.symm]
    have hsame : (after c agg).entry c.1.blockHash = AggregatedVotes.count
        { agg.entry c.1.blockHash with
          votingPower := (agg.entry c.1.blockHash).votingPower + c.2
          voters := insert c.1.voter (agg.entry c.1.blockHash).voters } c.1.voteType := by
      rw [hafter, entry_insert, if_pos rfl]
    have hfirst : ∀ voteType, c.1.voter ∉ firstVotersOf voteType calls c.1.blockHash :=
      fun voteType hmem => hv (mem_firstVotersOf.mp hmem).1
    refine ⟨fun h => ?_, fun h => ?_, fun h => ?_, fun h => ?_, fun h => ?_⟩
    · rw [hafter, AList.mem_insert, AList.mem_insert, hcounts.present]
      by_cases hh : c.1.blockHash = h
      · rw [voters_same hh]
        exact iff_of_true (Or.inl hh.symm) ⟨_, Finset.mem_insert_self _ _⟩
      · rw [voters_old (Or.inl hh)]
        exact ⟨fun hor => (hor.resolve_left fun heq => hh heq.symm).resolve_left
          fun heq => hh heq.symm, fun hne => Or.inr (Or.inr hne)⟩
    · by_cases hh : c.1.blockHash = h
      · subst hh
        rw [hsame, voters_same rfl, ← hset]
        cases c.1.voteType <;> rfl
      · rw [hother h hh, voters_old (Or.inl hh), hcounts.known]
    · by_cases hh : c.1.blockHash = h
      · subst hh
        rw [hsame, firstVotersOf_new rfl hv]
        cases c.1.voteType with
        | prevote =>
            rw [if_pos rfl, Finset.card_insert_of_notMem (hfirst _), ← hcounts.prevotes]
            rfl
        | precommit =>
            rw [if_neg (by decide), ← hcounts.prevotes]
            rfl
      · rw [hother h hh, firstVotersOf_old (Or.inl hh), hcounts.prevotes]
    · by_cases hh : c.1.blockHash = h
      · subst hh
        rw [hsame, firstVotersOf_new rfl hv]
        cases c.1.voteType with
        | prevote =>
            rw [if_neg (by decide), ← hcounts.precommits]
            rfl
        | precommit =>
            rw [if_pos rfl, Finset.card_insert_of_notMem (hfirst _), ← hcounts.precommits]
            rfl
      · rw [hother h hh, firstVotersOf_old (Or.inl hh), hcounts.precommits]
    · by_cases hh : c.1.blockHash = h
      · subst hh
        have hadded : ((after c agg).entry c.1.blockHash).votingPower =
            (agg.entry c.1.blockHash).votingPower + c.2 := by
          rw [hsame]
          cases c.1.voteType <;> rfl
        rw [hadded, toNat_add_of_fits hsum, hnew, hpower]
        omega
      · rw [hother h hh, totalPower_old (Or.inl hh), hcounts.power]

/-! ## The winner -/

theorem maxByKey_mem {α : Type} (key : α → UInt64) (l : List α) (best : Option α) :
    ∀ x, l.foldl (fun best x => match best with
      | none => some x
      | some y => if key y ≤ key x then some x else some y) best = some x → x ∈ l ∨ best = some x := by
  induction l generalizing best with
  | nil => exact fun x h => Or.inr h
  | cons a l ih =>
      intro x h
      rw [List.foldl_cons] at h
      rcases ih _ x h with hmem | hbest
      · exact Or.inl (List.mem_cons_of_mem _ hmem)
      · cases best with
        | none =>
            obtain rfl := Option.some.inj hbest
            exact Or.inl List.mem_cons_self
        | some y =>
            dsimp only at hbest
            split_ifs at hbest
            · obtain rfl := Option.some.inj hbest
              exact Or.inl List.mem_cons_self
            · exact Or.inr hbest

theorem maxByKey_isSome {α : Type} (key : α → UInt64) (l : List α) (best : Option α) :
    (l.foldl (fun best x => match best with
      | none => some x
      | some y => if key y ≤ key x then some x else some y) best).isSome = true ↔
      best.isSome = true ∨ l ≠ [] := by
  induction l generalizing best with
  | nil => exact ⟨Or.inl, fun h => h.resolve_right fun hne => hne rfl⟩
  | cons a l ih =>
      rw [List.foldl_cons, ih]
      refine iff_of_true (Or.inl ?_) (Or.inr (List.cons_ne_nil _ _))
      cases best with
      | none => rfl
      | some y =>
          dsimp only
          split_ifs <;> rfl

/-- The blocks among which the winner is chosen. -/
def Eligible (quorum : ℕ) (agg : VoteAggregator) (h : Hash) : Prop :=
  h ∈ agg.votes ∧ quorum ≤ (agg.entry h).prevotes ∧ quorum ≤ (agg.entry h).precommits

theorem mem_voted (order : Listing (Hash × AggregatedVotes)) (quorum : ℕ) (agg : VoteAggregator)
    (h : Hash) :
    (∃ e, (h, e) ∈ (order.list agg.votes.toPairs).filter fun e =>
      quorum ≤ e.2.prevotes ∧ quorum ≤ e.2.precommits) ↔ Eligible quorum agg h := by
  have hmem : ∀ e, (h, e) ∈ (order.list agg.votes.toPairs).filter (fun e =>
      quorum ≤ e.2.prevotes ∧ quorum ≤ e.2.precommits) ↔
      agg.votes.lookup h = some e ∧ quorum ≤ e.prevotes ∧ quorum ≤ e.precommits := by
    intro e
    rw [List.mem_filter, (order.perm _).mem_iff, Map.mem_toPairs, decide_eq_true_eq]
  unfold Eligible entry
  rw [← AList.lookup_isSome, Option.isSome_iff_exists]
  constructor
  · rintro ⟨e, he⟩
    obtain ⟨hlookup, hquorum⟩ := (hmem e).mp he
    rw [hlookup]
    exact ⟨⟨e, rfl⟩, hquorum⟩
  · rintro ⟨⟨e, hlookup⟩, hquorum⟩
    rw [hlookup] at hquorum
    exact ⟨e, (hmem e).mpr ⟨hlookup, hquorum⟩⟩

/-- A winner is one of the eligible blocks. -/
theorem eligible_of_getWinner {order : Listing (Hash × AggregatedVotes)} {quorum : ℕ}
    {agg : VoteAggregator} {h : Hash} (hwinner : getWinner order quorum agg = some h) :
    Eligible quorum agg h := by
  unfold getWinner at hwinner
  obtain ⟨⟨h', e⟩, hmax, rfl⟩ := Option.map_eq_some_iff.mp hwinner
  refine (mem_voted order quorum agg h').mp ⟨e, ?_⟩
  exact (maxByKey_mem _ _ none _ hmax).resolve_right fun hnone => nomatch hnone

/-- There is a winner if a block is eligible. -/
theorem getWinner_isSome (order : Listing (Hash × AggregatedVotes)) (quorum : ℕ)
    (agg : VoteAggregator) :
    (getWinner order quorum agg).isSome = true ↔ ∃ h, Eligible quorum agg h := by
  unfold getWinner
  rw [Option.isSome_map]
  unfold maxByKey
  rw [maxByKey_isSome]
  constructor
  · intro h
    obtain ⟨⟨h', e⟩, he⟩ := List.exists_mem_of_ne_nil _
      (h.resolve_left fun hnone => nomatch hnone)
    exact ⟨h', (mem_voted order quorum agg h').mp ⟨e, he⟩⟩
  · rintro ⟨h, heligible⟩
    obtain ⟨e, he⟩ := (mem_voted order quorum agg h).mpr heligible
    exact Or.inr (List.ne_nil_of_mem he)

/-! ## All votes -/

/-- The aggregator after all votes. -/
def ofCalls (calls : List Call) : VoteAggregator := Runs.run after new calls

/-- What is promised of the aggregator: a block with a quorum of both types gives a winner, a winner
has both, and the power of a voter counts once. -/
structure FindsWinner (order : Listing (Hash × AggregatedVotes)) (quorum : ℕ)
    (calls : List Call) : Prop where
  complete : ∀ h, quorum ≤ (votersOf .prevote calls h).card →
    quorum ≤ (votersOf .precommit calls h).card → (getWinner order quorum (ofCalls calls)).isSome
  sound : ∀ h, getWinner order quorum (ofCalls calls) = some h →
    quorum ≤ (votersOf .prevote calls h).card ∧ quorum ≤ (votersOf .precommit calls h).card
  power : ∀ h, ((ofCalls calls).entry h).votingPower.toNat = totalPower calls h

/-- The votes and quorums for which the first votes decide as all votes do. -/
structure FirstVotesDecide (quorum : ℕ) (calls : List Call) : Prop where
  fits : ∀ h, totalPower calls h < 2 ^ 64
  decide : (∃ h, quorum ≤ (votersOf .prevote calls h).card ∧
      quorum ≤ (votersOf .precommit calls h).card) →
    ∃ h, (voters calls h).Nonempty ∧ quorum ≤ (firstVotersOf .prevote calls h).card ∧
      quorum ≤ (firstVotersOf .precommit calls h).card

theorem counts_ofCalls (calls : List Call) (hfits : ∀ h, totalPower calls h < 2 ^ 64) :
    Counts calls (ofCalls calls) := by
  induction calls using List.reverseRecOn with
  | nil => exact counts_new
  | append_singleton calls c ih =>
      have hprefix := ih fun h => (totalPower_le calls c h).trans_lt (hfits h)
      unfold ofCalls
      rw [Runs.run_append]
      exact hprefix.append c (hfits _)

/-- **When the aggregator finds the winner**: exactly if the powers fit, and a quorum of both types
for some block comes with a voted block that has both quorums among the first votes. -/
theorem findsWinner_iff (order : Listing (Hash × AggregatedVotes)) (quorum : ℕ)
    (calls : List Call) : FindsWinner order quorum calls ↔ FirstVotesDecide quorum calls := by
  have hfits : FindsWinner order quorum calls → ∀ h, totalPower calls h < 2 ^ 64 := fun hfinds h =>
    (hfinds.power h).symm.trans_lt (UInt64.toNat_lt _)
  have helig : Counts calls (ofCalls calls) → ∀ h, Eligible quorum (ofCalls calls) h ↔
      (voters calls h).Nonempty ∧ quorum ≤ (firstVotersOf .prevote calls h).card ∧
        quorum ≤ (firstVotersOf .precommit calls h).card := by
    intro hcounts h
    unfold Eligible
    rw [hcounts.present, hcounts.prevotes, hcounts.precommits]
  constructor
  · intro hfinds
    have hcounts := counts_ofCalls calls (hfits hfinds)
    refine ⟨hfits hfinds, ?_⟩
    rintro ⟨h, hprevote, hprecommit⟩
    obtain ⟨h', heligible⟩ := (getWinner_isSome order quorum _).mp
      (hfinds.complete h hprevote hprecommit)
    exact ⟨h', (helig hcounts h').mp heligible⟩
  · intro hfirst
    have hcounts := counts_ofCalls calls hfirst.fits
    refine ⟨fun h hprevote hprecommit => ?_, fun h hwinner => ?_, hcounts.power⟩
    · obtain ⟨h', hfirst'⟩ := hfirst.decide ⟨h, hprevote, hprecommit⟩
      exact (getWinner_isSome order quorum _).mpr ⟨h', (helig hcounts h').mpr hfirst'⟩
    · obtain ⟨-, hprevote, hprecommit⟩ := (helig hcounts h).mp (eligible_of_getWinner hwinner)
      exact ⟨hprevote.trans (Finset.card_le_card (firstVotersOf_subset _ _ _)),
        hprecommit.trans (Finset.card_le_card (firstVotersOf_subset _ _ _))⟩

end VoteAggregator

/-! ## One validator votes twice -/

section Example

open VoteAggregator

/-- The votes of the first validator for a block. -/
def bothVotes : List Call :=
  [(⟨1, 0, zero32, 1, .prevote, [], 0⟩, 10), (⟨1, 0, zero32, 1, .precommit, [], 0⟩, 10)]

/-- A quorum of one is reached for both types, and there is no winner. -/
theorem precommit_not_counted :
    (getWinner ⟨id, List.Perm.refl⟩ 1 (ofCalls bothVotes)) = none ∧
      1 ≤ (votersOf .prevote bothVotes zero32).card ∧
      1 ≤ (votersOf .precommit bothVotes zero32).card := by
  refine ⟨by decide, by decide, by decide⟩

end Example
