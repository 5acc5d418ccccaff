/-
# Engine height and state height

Three counters move at different places: the height of the engine, the height of
the state manager and the height of the stored chain.  `commit_block` keeps the
first one above the second as long as no write fails, so the question is where
they start.  `run` sets the engine's height to the stored height, while
`StateManager::new` starts at zero whatever is stored: they are in step only on a
storage whose last block has height one (`in_step_iff`).
-/
import Pacyte.ChainLinks

namespace Engine

open Exec

variable {σ μ ν : Type} [Primitives] [Storage σ]

/-- The engine is one height above its state manager, so that a block it accepts
passes the height check of `apply_block`. -/
structure InStep (e : Engine σ μ ν) : Prop where
  heights : e.height.toNat = e.stateManager.currentHeight.toNat + 1
  accepted : ∀ block, (validateBlock block e).1 = .ok true →
    StateManager.NextHeight e.stateManager block

/-- A block that passes the check has the height of the engine. -/
theorem validateBlock_height (block : Block) (e : Engine σ μ ν) :
    Post (validateBlock block) e fun o _ => o = .ok true → block.header.height = e.height := by
  unfold validateBlock
  rw [post_bind, post_get]
  dsimp only
  rw [post_ite]
  refine ⟨by rintro - ⟨⟩, fun heq => ?_⟩
  exact fun _ => not_not.mp heq

/-- The heights alone decide. -/
theorem InStep.of_heights {e : Engine σ μ ν}
    (h : e.height.toNat = e.stateManager.currentHeight.toNat + 1) : InStep e := by
  refine ⟨h, fun block hvalid => ?_⟩
  rw [StateManager.NextHeight, validateBlock_height block e hvalid]
  exact h

variable {Good : σ → Prop} {saved : σ → BlockHeight}

/-- Good storage and heights in step. -/
structure Synced (Good : σ → Prop) (e : Engine σ μ ν) : Prop where
  good : Good e.stateManager.storage
  heights : e.height.toNat = e.stateManager.currentHeight.toNat + 1

omit [Primitives] [Storage σ] in
theorem Synced.steady {e e' : Engine σ μ ν} (h : Synced Good e) (hs : Steady Good saved e e') :
    Synced Good e' := by
  obtain ⟨hgood, -, hheight⟩ := hs.stateManager h.good
  exact ⟨hgood, by rw [hs.height, hheight, h.heights]⟩

variable [LawfulMempool μ σ] [Network ν]

omit [Network ν] in
/-- Between commits the heights stay in step. -/
theorem synced_proposes (h : Storage.KeepsHeight Good saved) :
    Proposes (Steady (μ := μ) (ν := ν) Good saved) (fun _ _ => True) (Synced Good)
      (fun _ => True) where
  inert := voteInert_steady h.toDependable
  height _ _ hs := hs.height
  panic _ _ := trivial
  moves _ _ hs he := he.steady hs
  round _ _ _ _ he := ⟨he.good, he.heights⟩
  fits _ _ _ _ _ _ := trivial
  created _ _ _ _ _ := trivial
  validated _ _ _ _ := trivial
  proposal _ _ he _ := ⟨he.good, he.heights⟩

/-- What `commit_block` does after the block is saved brings the heights back in
step. -/
theorem synced_afterSave (h : Storage.KeepsHeight Good saved) (block : Block) (e : Engine σ μ ν)
    (hgood : Good e.stateManager.storage) (hheight : e.stateManager.currentHeight = e.height) :
    Post (afterSave e.height block) e (Ends (Synced Good) fun _ => True) := by
  refine (cleanup_steady h.toDependable _ e).seq ?_
    (fun err _ h' => absurd (Outcome.isErr_err err) h'.2) (fun _ _ => trivial)
  rintro _ e₁ ⟨hs, -⟩
  obtain ⟨hgood₁, -, hheight₁⟩ := hs.stateManager hgood
  simp only [post_bind, post_modify, emit, post_addU64]
  refine ⟨fun hfit => ?_, fun _ => trivial⟩
  refine (synced_proposes h).startNewRound _ 0 _ ⟨hgood₁, ?_⟩
  have hnext : (e.height + 1).toNat = e₁.stateManager.currentHeight.toNat + 1 := by
    rw [hheight₁, hheight]
    exact toNat_add_of_fits hfit
  exact hnext

/-- **A commit keeps the heights in step** when the writes do not fail. -/
theorem synced_commit (h : Storage.KeepsHeight Good saved) (e : Engine σ μ ν)
    (certificate : Certificate) (he : Synced Good e) :
    Post (commitBlock e.height certificate) e (Ends (Synced Good) fun _ => True) := by
  refine commitBlock_rule h.toDependable e e.height certificate he.good (fun _ => he.steady)
    (fun _ => trivial) ?_
  intro p sm st _ hnext hheight hgood _ hsave
  have hsaved := h.saveBlock p.block sm.storage hgood (by rw [hsave])
  rw [hsave] at hsaved
  refine synced_afterSave h p.block _ hsaved (hheight.trans ?_)
  exact UInt64.toNat_inj.mp (hnext.trans he.heights.symm)

theorem synced_upheld (h : Storage.KeepsHeight Good saved) :
    Upheld (Steady (μ := μ) (ν := ν) Good saved) (fun _ _ => True) (Synced Good)
      (fun _ => True) where
  toProposes := synced_proposes h
  commit := synced_commit h

/-! ## The start-up -/

/-- What the start-up leaves: the stored height, and a state manager at zero. -/
structure Started (Good : σ → Prop) (saved : σ → BlockHeight) (start : BlockHeight)
    (e : Engine σ μ ν) : Prop where
  good : Good e.stateManager.storage
  stored : saved e.stateManager.storage = start
  height : e.height = start
  stateHeight : e.stateManager.currentHeight = 0

omit [Network ν] in
theorem started_proposes (h : Storage.KeepsHeight Good saved) (start : BlockHeight) :
    Proposes (Steady (μ := μ) (ν := ν) Good saved) (fun _ _ => True) (Started Good saved start)
      (Started Good saved start) where
  inert := voteInert_steady h.toDependable
  height _ _ hs := hs.height
  panic _ he := he
  moves e e' hs he := by
    obtain ⟨hgood, hsaved, hheight⟩ := hs.stateManager he.good
    exact ⟨hgood, hsaved.trans he.stored, hs.height.trans he.height, hheight.trans he.stateHeight⟩
  round _ _ _ _ he := ⟨he.good, he.stored, he.height, he.stateHeight⟩
  fits _ _ _ _ _ _ := trivial
  created _ _ _ _ _ := trivial
  validated _ _ _ _ := trivial
  proposal _ _ he _ := ⟨he.good, he.stored, he.height, he.stateHeight⟩

omit [Primitives] [LawfulMempool μ σ] [Network ν] in
/-- `get_block_height` is read and the height raised to it. -/
theorem raiseHeight_started (h : Storage.KeepsHeight Good saved) (e : Engine σ μ ν)
    (hgood : Good e.stateManager.storage)
    (hheight : e.height = 0 ∨ e.height = saved e.stateManager.storage)
    (hstate : e.stateManager.currentHeight = 0) :
    Post raiseHeight e fun o e' =>
      o = .ok () ∧ Started Good saved (saved e.stateManager.storage) e' := by
  have hread := h.getBlockHeight_eq e.stateManager.storage hgood
  have hkeep := h.getBlockHeight e.stateManager.storage hgood
  unfold raiseHeight
  rw [post_bind, post_unwrapOr, onStorage, onState, StateManager.onStorage, post_onPart,
    post_onPart, Post]
  rcases hr : Storage.getBlockHeight e.stateManager.storage with ⟨o, st⟩
  rw [hr] at hread hkeep
  obtain rfl : o = .ok (saved e.stateManager.storage) := hread
  dsimp only
  rw [post_modify]
  refine ⟨rfl, ?_⟩
  split_ifs with hlt
  · exact ⟨hkeep.1, hkeep.2, rfl, hstate⟩
  · refine ⟨hkeep.1, hkeep.2, ?_, hstate⟩
    rcases hheight with hzero | heq
    · have hle : ¬ e.height < saved e.stateManager.storage := hlt
      rw [hzero, UInt64.lt_iff_toNat_lt, UInt64.toNat_zero] at hle
      refine hzero.trans (UInt64.toNat_inj.mp ?_)
      rw [UInt64.toNat_zero]
      omega
    · exact heq

/-- The start-up sets the engine's height to the stored one. -/
theorem startUp_started (h : Storage.KeepsHeight Good saved) (e : Engine σ μ ν)
    (hgood : Good e.stateManager.storage) (hheight : e.height = 0)
    (hstate : e.stateManager.currentHeight = 0) :
    Post startUp e fun _ e' => Started Good saved (saved e.stateManager.storage) e' := by
  unfold startUp
  refine (raiseHeight_started h e hgood (Or.inl hheight) hstate).seq ?_ (fun _ _ h' => h'.2)
    (fun _ h' => h'.2)
  rintro _ e₁ ⟨-, h₁⟩
  rw [post_bind, post_get]
  refine ((started_proposes h _).startNewRound e₁.height 0 e₁ h₁).seq ?_ (fun _ _ h' => h')
    (fun _ h' => h')
  intro _ e₂ h₂
  have hraise := raiseHeight_started h e₂ h₂.good (Or.inr (h₂.height.trans h₂.stored.symm))
    h₂.stateHeight
  rw [h₂.stored] at hraise
  exact hraise.mono fun _ _ h' => h'.2

end Engine

/-! ## Runs -/

namespace Node

open Engine

variable {σ μ ν : Type} [Primitives] [Storage σ] [LawfulMempool μ σ] [Network ν]

/-- **Engine and state manager are in step exactly on a chain of height one.**  An
engine and a state manager as they are constructed, on a storage whose writes do
not fail: the engine is one height above the state manager after the start-up and
in every state the loop reaches if and only if the stored height is one. -/
theorem in_step_iff {Good : σ → Prop} {saved : σ → BlockHeight}
    (h : Storage.KeepsHeight Good saved) (e : Engine σ μ ν)
    (hgood : Good e.stateManager.storage) (hheight : e.height = 0)
    (hstate : e.stateManager.currentHeight = 0) :
    (InStep (boot e).engine ∧ ∀ commands, ((boot e).run commands).running →
      InStep ((boot e).run commands).engine) ↔ saved e.stateManager.storage = 1 := by
  have hstart := startUp_started h e hgood hheight hstate
  have hboot : Started Good saved (saved e.stateManager.storage) (boot e).engine := by
    rw [boot_engine]
    exact hstart
  constructor
  · rintro ⟨hin, -⟩
    have hheights := hin.heights
    rw [hboot.height, hboot.stateHeight, UInt64.toNat_zero] at hheights
    exact UInt64.toNat_inj.mp hheights
  · intro hone
    have hsynced : Synced Good (boot e).engine := by
      refine ⟨hboot.good, ?_⟩
      rw [hboot.height, hboot.stateHeight, hone]
      rfl
    refine ⟨InStep.of_heights hsynced.heights, fun commands hrun => ?_⟩
    have hinit : Holds (Synced Good) (fun _ => True) (boot e) := by
      unfold Holds
      split_ifs
      · exact hsynced
      · trivial
    have hheld := run_holds (synced_upheld h) (boot e) commands hinit
    rw [Holds, if_pos hrun] at hheld
    exact InStep.of_heights hheld.heights

end Node

/-! ## A fresh start and a restart -/

section Example

open scoped Sample
open Sample Engine

/-- The second of two validators over a storage with the given blocks. -/
def Sample.waitingEngine (blocks : List Block) : Engine MemoryStorage EmptyPool OpenNetwork :=
  { engine 2 [1, 2] 7 with
    stateManager := StateManager.new { MemoryStorage.new (fun _ => 0) with blocks := blocks }
      fun _ => 7 }

/-- The third block of the chain. -/
def Sample.blockTwo : Block := Block.new 2 blockOne.hash [] zero32 0

/-- The heights of a node that is not in step. -/
theorem Sample.not_inStep (e : Engine MemoryStorage EmptyPool OpenNetwork)
    (h : e.height.toNat ≠ e.stateManager.currentHeight.toNat + 1) : ¬ InStep e :=
  fun hin => h hin.heights

/-- On an empty storage both heights are zero; on a chain of three blocks the
engine is two above the state manager, and the block it accepts next is refused by
`apply_block`. -/
theorem fresh_and_restarted_out_of_step :
    let fresh := Node.boot (waitingEngine [])
    let restarted := Node.boot (waitingEngine [blockZero, blockOne, blockTwo])
    let next := Block.new 2 blockTwo.hash [] zero32 7
    (fresh.running ∧ ¬ InStep fresh.engine) ∧
      (restarted.running ∧ ¬ InStep restarted.engine) ∧
      (Engine.validateBlock next restarted.engine).1 = .ok true ∧
      ¬ (StateManager.applyBlock next restarted.engine.stateManager).1.IsOk := by
  intro fresh restarted next
  refine ⟨⟨by decide, ?_⟩, ⟨by decide, ?_⟩, by decide +kernel, by decide⟩
  · exact Sample.not_inStep _ (by decide)
  · exact Sample.not_inStep _ (by decide)

/-- On a chain of two blocks the heights are in step, also after a commit. -/
theorem restarted_at_one_in_step :
    let node := Node.boot (engine 1 [1] 7)
    (node.run [.proposalReceived ownProposal]).engine.commits.length = 1 ∧
    (node.run [.proposalReceived ownProposal]).running ∧
    (InStep node.engine ∧ ∀ commands, (node.run commands).running →
      InStep (node.run commands).engine) := by
  intro node
  refine ⟨by decide +kernel, by decide +kernel, ?_⟩
  exact (Node.in_step_iff MemoryStorage.keepsHeight (engine 1 [1] 7) trivial rfl rfl).mpr rfl

end Example
