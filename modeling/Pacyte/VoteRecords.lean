/-
# Recorded and broadcast votes

What the vote books of an engine hold, and what a step adds to them.

* The votes recorded for a height and a hash are votes of that kind, height and
  hash, from different voters (`VoteBook.Sound`).
* A step adds to the books the vote it received and the own votes it cast
  (`Ballot.Step.mem_precommits`), broadcasts at most one own prevote and one own
  precommit (`Ballot.Step.mem_votes`), and saves a block only when it has counted
  a quorum of precommits (`Ballot.Step.mem_commits`).

`Ballot.CountsPrevotes` and `Ballot.CountsPrecommits` name the moments at which
a command makes the engine count.
-/
import Pacyte.Ballot

/-! ## Vote books -/

namespace VoteBook

theorem votes_empty (h : BlockHeight) (x : Hash) : votes ∅ h x = [] := rfl

theorem votes_eq (book : VoteBook) (h : BlockHeight) (x : Hash) :
    book.votes h x = (((book.lookup h).getD ∅).lookup x).getD [] := by
  unfold votes
  cases book.lookup h <;> rfl

/-- Recording a vote changes the votes of its height and hash only. -/
theorem votes_add (book : VoteBook) (v : Vote) (h : BlockHeight) (x : Hash) :
    (book.add v).votes h x =
      if h = v.height ∧ x = v.blockHash then
        if (book.votes h x).any (fun w => w.voter = v.voter) then book.votes h x
        else book.votes h x ++ [v]
      else book.votes h x := by
  rw [votes_eq, votes_eq, add]
  by_cases hh : h = v.height
  · subst hh
    rw [AList.lookup_insert, Option.getD_some]
    by_cases hx : x = v.blockHash
    · subst hx
      rw [AList.lookup_insert, Option.getD_some,
        if_pos (show v.height = v.height ∧ v.blockHash = v.blockHash from ⟨rfl, rfl⟩)]
    · rw [AList.lookup_insert_ne hx, if_neg (fun hc => hx hc.2)]
  · rw [AList.lookup_insert_ne hh, if_neg (fun hc => hh hc.1)]

theorem mem_votes_add {book : VoteBook} {v w : Vote} {h : BlockHeight} {x : Hash}
    (hw : w ∈ (book.add v).votes h x) : w ∈ book.votes h x ∨ w = v ∧ h = v.height ∧ x = v.blockHash := by
  rw [votes_add] at hw
  split_ifs at hw with hat hany
  · exact Or.inl hw
  · rcases List.mem_append.mp hw with hw | hw
    · exact Or.inl hw
    · exact Or.inr ⟨List.mem_singleton.mp hw, hat⟩
  · exact Or.inl hw

/-- Every recorded vote stands under its height and hash, is of the book's kind,
and no voter stands twice under one height and hash. -/
structure Sound (voteType : VoteType) (book : VoteBook) : Prop where
  height : ∀ h x, ∀ v ∈ book.votes h x, v.height = h
  blockHash : ∀ h x, ∀ v ∈ book.votes h x, v.blockHash = x
  kind : ∀ h x, ∀ v ∈ book.votes h x, v.voteType = voteType
  nodup : ∀ h x, ((book.votes h x).map Vote.voter).Nodup

theorem sound_empty (voteType : VoteType) : Sound voteType ∅ := by
  refine ⟨?_, ?_, ?_, ?_⟩ <;> intro h x <;> rw [votes_empty] <;> simp

theorem Sound.add {voteType : VoteType} {book : VoteBook} (hs : Sound voteType book) {v : Vote}
    (hv : v.voteType = voteType) : Sound voteType (book.add v) where
  height := by
    intro h x w hw
    rcases mem_votes_add hw with hw | ⟨rfl, hh, -⟩
    · exact hs.height h x w hw
    · exact hh.symm
  blockHash := by
    intro h x w hw
    rcases mem_votes_add hw with hw | ⟨rfl, -, hx⟩
    · exact hs.blockHash h x w hw
    · exact hx.symm
  kind := by
    intro h x w hw
    rcases mem_votes_add hw with hw | ⟨rfl, -, -⟩
    · exact hs.kind h x w hw
    · exact hv
  nodup := by
    intro h x
    rw [votes_add]
    split_ifs with hat hany
    · exact hs.nodup h x
    · rw [List.map_append, List.map_singleton, List.nodup_append]
      refine ⟨hs.nodup h x, List.nodup_singleton _, ?_⟩
      rintro a ha b hb rfl
      obtain ⟨w, hw, hwa⟩ := List.mem_map.mp ha
      apply hany
      rw [List.any_eq_true]
      exact ⟨w, hw, by simpa [hwa] using hb⟩
    · exact hs.nodup h x

/-- The voters recorded for a height and a hash. -/
def voters (book : VoteBook) (h : BlockHeight) (x : Hash) : Finset UInt64 :=
  ((book.votes h x).map Vote.voter).toFinset

theorem Sound.card_voters {voteType : VoteType} {book : VoteBook} (hs : Sound voteType book)
    (h : BlockHeight) (x : Hash) : (book.voters h x).card = (book.votes h x).length := by
  rw [voters, List.toFinset_card_of_nodup (hs.nodup h x), List.length_map]

theorem mem_voters {book : VoteBook} {h : BlockHeight} {x : Hash} {id : UInt64} :
    id ∈ book.voters h x ↔ ∃ v ∈ book.votes h x, v.voter = id := by
  rw [voters, List.mem_toFinset, List.mem_map]

end VoteBook

/-! ## Moments of counting -/

namespace Ballot

theorem mem_precommits_record {b : Ballot} {v w : Vote} {h : BlockHeight} {x : Hash}
    (hw : w ∈ (b.record v).precommits.votes h x) : w ∈ b.precommits.votes h x ∨ w = v := by
  unfold record at hw
  cases ht : v.voteType <;> rw [ht] at hw
  · exact Or.inl hw
  · exact (VoteBook.mem_votes_add hw).imp_right And.left

variable [Primitives]

/-- The command makes the engine count the prevotes for `x`, on the ballot
`b₁`. -/
inductive CountsPrevotes (Accepts : Proposal → Prop) (b : Ballot) :
    ConsensusCommand → Hash → Ballot → Prop
  | received {v : Vote} : v.height = b.height → v.round = b.round → v.voteType = .prevote →
      CountsPrevotes Accepts b (.voteReceived v) v.blockHash (b.record v)
  | proposal {p : Proposal} {v : Vote} : Accepts p → Own b .prevote p.hash v →
      CountsPrevotes Accepts b (.proposalReceived p) p.hash (cast v { b with proposal := some p })

/-- The command makes the engine count the precommits for `x`, on the ballot
`b₁`. -/
inductive CountsPrecommits (Accepts : Proposal → Prop) (b : Ballot) :
    ConsensusCommand → Hash → Ballot → Prop
  | received {v : Vote} : v.height = b.height → v.round = b.round → v.voteType = .precommit →
      CountsPrecommits Accepts b (.voteReceived v) v.blockHash (b.record v)
  | cast {command : ConsensusCommand} {x : Hash} {b₁ : Ballot} {v : Vote} :
      CountsPrevotes Accepts b command x b₁ → PrevoteQuorum b₁ x → Own b₁ .precommit x v →
      CountsPrecommits Accepts b command x (b₁.cast v)

/-- What a ballot in the middle of a step still shares with the one at its
beginning. -/
structure Midway (b b₁ : Ballot) : Prop where
  validatorSet : b₁.validatorSet = b.validatorSet
  me : b₁.me = b.me
  height : b₁.height = b.height
  round : b₁.round = b.round
  commits : b₁.commits = b.commits
  votes : b.votes ⊆ b₁.votes

variable {Accepts : Proposal → Prop} {b b₁ b' : Ballot} {command : ConsensusCommand} {x : Hash}

theorem CountsPrevotes.midway (h : CountsPrevotes Accepts b command x b₁) : Midway b b₁ := by
  cases h with
  | received => constructor <;> simp
  | proposal => constructor <;> simp

/-- A command makes the engine count the prevotes for one hash only. -/
theorem CountsPrevotes.unique {y : Hash} {b₂ : Ballot}
    (h : CountsPrevotes Accepts b command x b₁) (h' : CountsPrevotes Accepts b command y b₂) :
    x = y := by
  cases h <;> cases h' <;> rfl

theorem CountsPrecommits.midway (h : CountsPrecommits Accepts b command x b₁) :
    Midway b b₁ := by
  cases h with
  | received => constructor <;> simp
  | cast h _ _ =>
      obtain ⟨h₁, h₂, h₃, h₄, h₅, h₆⟩ := h.midway
      refine ⟨by simpa, by simpa, by simpa, by simpa, by simpa, ?_⟩
      exact List.Subset.trans h₆ (List.subset_append_left _ _)

omit [Primitives] in
/-- A commit leaves the books and the votes alone. -/
theorem Commits.frame (h : Commits x b b') :
    b'.validatorSet = b.validatorSet ∧ b'.me = b.me ∧ b'.prevotes = b.prevotes ∧
      b'.precommits = b.precommits ∧ b'.votes = b.votes := by
  cases h <;> exact ⟨rfl, rfl, rfl, rfl, rfl⟩

/-! ## What a step adds -/

/-- **A step is quiet, or counts votes**: it changes round or proposal only, or
ends after counting the prevotes or the precommits for a hash. -/
theorem Step.shape (h : Step Accepts b command b') :
    (∃ r q, b' = { b with round := r, proposal := q }) ∨
    (∃ x b₁, CountsPrevotes Accepts b command x b₁ ∧ b' = b₁) ∨
    (∃ x b₁, CountsPrecommits Accepts b command x b₁ ∧ Commits x b₁ b') := by
  have hprecommits : ∀ {x b₁}, CountsPrevotes Accepts b command x b₁ → Precommits x b₁ b' →
      (∃ x b₁, CountsPrevotes Accepts b command x b₁ ∧ b' = b₁) ∨
      (∃ x b₁, CountsPrecommits Accepts b command x b₁ ∧ Commits x b₁ b') := by
    intro x b₁ hcount hpre
    cases hpre with
    | stays => exact Or.inl ⟨x, b', hcount, rfl⟩
    | cast hq hown hcom => exact Or.inr ⟨x, _, CountsPrecommits.cast hcount hq hown, hcom⟩
  cases h with
  | idle => exact Or.inl ⟨b.round, b.proposal, rfl⟩
  | propose => exact Or.inl ⟨_, _, rfl⟩
  | timeout _ => exact Or.inl ⟨_, _, rfl⟩
  | accepted _ => exact Or.inl ⟨b.round, _, rfl⟩
  | prevoted hacc hown hpre => exact Or.inr (hprecommits (CountsPrevotes.proposal hacc hown) hpre)
  | prevoteReceived hh hr ht hpre =>
      exact Or.inr (hprecommits (CountsPrevotes.received hh hr ht) hpre)
  | precommitReceived hh hr ht hcom =>
      exact Or.inr (Or.inr ⟨_, _, CountsPrecommits.received hh hr ht, hcom⟩)

/-- A property of the two books and the votes sent that every vote that is
recorded or cast preserves, from the ballot before the step to the ballot after
it. -/
theorem Step.induct (P : VoteBook → VoteBook → List ConsensusVote → Prop)
    (h : Step Accepts b command b')
    (hreceived : ∀ v, command = .voteReceived v → v.height = b.height → v.round = b.round →
      P b.prevotes b.precommits b.votes →
      P (b.record v).prevotes (b.record v).precommits b.votes)
    (hcast : ∀ b₁ ty y v, Midway b b₁ → Own b₁ ty y v →
      P b₁.prevotes b₁.precommits b₁.votes →
      P (b₁.cast v).prevotes (b₁.cast v).precommits (b₁.cast v).votes)
    (hb : P b.prevotes b.precommits b.votes) : P b'.prevotes b'.precommits b'.votes := by
  have hpre : ∀ {x b₁}, CountsPrevotes Accepts b command x b₁ →
      P b₁.prevotes b₁.precommits b₁.votes := by
    intro x b₁ hc
    cases hc with
    | @received v hh hr ht =>
        rw [votes_record]
        exact hreceived v rfl hh hr hb
    | @proposal p v hacc hown =>
        refine hcast { b with proposal := some p } .prevote p.hash v ?_ ?_ hb
        · exact ⟨rfl, rfl, rfl, rfl, rfl, List.Subset.refl _⟩
        · exact ⟨hown.voter, hown.height, hown.round, hown.blockHash, hown.voteType⟩
  have hcom : ∀ {x b₁}, CountsPrecommits Accepts b command x b₁ →
      P b₁.prevotes b₁.precommits b₁.votes := by
    intro x b₁ hc
    cases hc with
    | @received v hh hr ht =>
        rw [votes_record]
        exact hreceived v rfl hh hr hb
    | cast hc _ hown => exact hcast _ _ _ _ hc.midway hown (hpre hc)
  rcases h.shape with ⟨r, q, rfl⟩ | ⟨x, b₁, hc, rfl⟩ | ⟨x, b₁, hc, hk⟩
  · exact hb
  · exact hpre hc
  · obtain ⟨-, -, h₁, h₂, h₃⟩ := hk.frame
    rw [h₁, h₂, h₃]
    exact hcom hc

/-- The votes sent by a step: an own prevote for a proposal it accepts, and an
own precommit for a hash whose prevotes it has counted as a quorum. -/
theorem Step.mem_votes (h : Step Accepts b command b') {w : ConsensusVote} (hw : w ∈ b'.votes) :
    w ∈ b.votes ∨
    (∃ p v, command = .proposalReceived p ∧ Accepts p ∧ Own b .prevote p.hash v ∧ w = v.wire) ∨
    (∃ x b₁ v, CountsPrevotes Accepts b command x b₁ ∧ PrevoteQuorum b₁ x ∧
      Own b₁ .precommit x v ∧ w = v.wire) := by
  have hpre : ∀ {x b₁}, CountsPrevotes Accepts b command x b₁ → w ∈ b₁.votes → w ∈ b.votes ∨
      ∃ p v, command = .proposalReceived p ∧ Accepts p ∧ Own b .prevote p.hash v ∧
        w = v.wire := by
    intro x b₁ hc hw
    cases hc with
    | received => exact Or.inl (by simpa using hw)
    | @proposal p v hacc hown =>
        rcases List.mem_append.mp hw with hw | hw
        · exact Or.inl hw
        · exact Or.inr ⟨p, v, rfl, hacc, hown, List.mem_singleton.mp hw⟩
  rcases h.shape with ⟨r, q, rfl⟩ | ⟨x, b₁, hc, rfl⟩ | ⟨x, b₁, hc, hk⟩
  · exact Or.inl hw
  · exact (hpre hc hw).imp_right Or.inl
  · rw [hk.frame.2.2.2.2] at hw
    cases hc with
    | received => exact Or.inl (by simpa using hw)
    | cast hc hq hown =>
        rcases List.mem_append.mp hw with hw | hw
        · exact (hpre hc hw).imp_right Or.inl
        · exact Or.inr (Or.inr ⟨_, _, _, hc, hq, hown, List.mem_singleton.mp hw⟩)

/-- The block a step saves: the current proposal's, after the precommits for the
hash of the certificate were counted as a quorum. -/
theorem Step.mem_commits (h : Step Accepts b command b') {k : Commit} (hk : k ∈ b'.commits) :
    k ∈ b.commits ∨
    ∃ x b₁ p, CountsPrecommits Accepts b command x b₁ ∧ PrecommitQuorum b₁ x ∧
      b₁.proposal = some p ∧ k = ⟨⟨b.height, b.round, x⟩, p.block⟩ ∧
      b'.precommits = b₁.precommits ∧ b'.votes = b₁.votes := by
  rcases h.shape with ⟨r, q, rfl⟩ | ⟨x, b₁, hc, rfl⟩ | ⟨x, b₁, hc, hcom⟩
  · exact Or.inl hk
  · rw [hc.midway.commits] at hk
    exact Or.inl hk
  · obtain ⟨-, -, -, hheight, hvotes⟩ := hcom.frame
    have hmid := hc.midway
    have key : PrecommitQuorum b₁ x → ∀ p, b₁.proposal = some p →
        k ∈ (b₁.commit x p).commits → k ∈ b.commits ∨
        ∃ x b₁ p, CountsPrecommits Accepts b command x b₁ ∧ PrecommitQuorum b₁ x ∧
          b₁.proposal = some p ∧ k = ⟨⟨b.height, b.round, x⟩, p.block⟩ ∧
          b'.precommits = b₁.precommits ∧ b'.votes = b₁.votes := by
      intro hq p hp hk
      rw [commit, hmid.commits, hmid.height, hmid.round] at hk
      rcases List.mem_append.mp hk with hk | hk
      · exact Or.inl hk
      · exact Or.inr ⟨x, b₁, p, hc, hq, hp, List.mem_singleton.mp hk, hheight, hvotes⟩
    cases hcom with
    | stays =>
        rw [hmid.commits] at hk
        exact Or.inl hk
    | saved hq hp => exact key hq _ hp hk
    | advanced hq hp _ => exact key hq _ hp hk

/-! ## Invariants of every run -/

/-- Both books are sound. -/
def BooksSound (b : Ballot) : Prop :=
  VoteBook.Sound .prevote b.prevotes ∧ VoteBook.Sound .precommit b.precommits

omit [Primitives] in
theorem booksSound_record {c : Ballot} (v : Vote)
    (h : VoteBook.Sound .prevote c.prevotes ∧ VoteBook.Sound .precommit c.precommits) :
    VoteBook.Sound .prevote (c.record v).prevotes ∧
      VoteBook.Sound .precommit (c.record v).precommits := by
  unfold record
  cases ht : v.voteType with
  | prevote => exact ⟨h.1.add ht, h.2⟩
  | precommit => exact ⟨h.1, h.2.add ht⟩

theorem Step.booksSound (h : Step Accepts b command b') (hb : BooksSound b) : BooksSound b' :=
  h.induct (fun pre com _ => VoteBook.Sound .prevote pre ∧ VoteBook.Sound .precommit com)
    (fun v _ _ _ hb => booksSound_record v hb) (fun _ _ _ v _ _ hb => booksSound_record v hb) hb

/-- Validator set and id are never changed by a step. -/
theorem Step.constants (h : Step Accepts b command b') :
    b'.validatorSet = b.validatorSet ∧ b'.me = b.me := by
  rcases h.shape with ⟨r, q, rfl⟩ | ⟨x, b₁, hc, rfl⟩ | ⟨x, b₁, hc, hk⟩
  · exact ⟨rfl, rfl⟩
  · exact ⟨hc.midway.validatorSet, hc.midway.me⟩
  · exact ⟨hk.frame.1.trans hc.midway.validatorSet, hk.frame.2.1.trans hc.midway.me⟩

/-- Votes that were sent stay sent. -/
theorem Step.votes_subset (h : Step Accepts b command b') : b.votes ⊆ b'.votes := by
  rcases h.shape with ⟨r, q, rfl⟩ | ⟨x, b₁, hc, rfl⟩ | ⟨x, b₁, hc, hk⟩
  · exact List.Subset.refl _
  · exact hc.midway.votes
  · rw [hk.frame.2.2.2.2]
    exact hc.midway.votes

end Ballot
