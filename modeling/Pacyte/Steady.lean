/-
# What stays between two commits

Look-ups, transfers and votes keep a part of the storage, the height of the state
manager, the height of the engine, the current proposal and the saved blocks
(`Steady`).  Only `apply_block` moves the height of the state manager, by one, and
only when nothing has failed (`applyBlock_steady`).
-/
import Pacyte.AccountView
import Pacyte.Frame
import Pacyte.StateFrame

/-! ## The state manager -/

namespace StateManager

open Exec

variable {σ β : Type} {Good : σ → Prop} {view : σ → β}

/-- From a good storage: the storage stays good and keeps its view, and the
height stays. -/
def Steady (Good : σ → Prop) (view : σ → β) (sm sm' : StateManager σ) : Prop :=
  Good sm.storage → Good sm'.storage ∧ view sm'.storage = view sm.storage ∧
    sm'.currentHeight = sm.currentHeight

instance : Std.Refl (Steady Good view) := ⟨fun _ h => ⟨h, rfl, rfl⟩⟩

instance : IsTrans (StateManager σ) (Steady Good view) := by
  refine ⟨fun sm₁ sm₂ sm₃ h h' hgood => ?_⟩
  obtain ⟨hg, hv, hh⟩ := h hgood
  obtain ⟨hg', hv', hh'⟩ := h' hg
  exact ⟨hg', hv'.trans hv, hh'.trans hh⟩

/-- A change of other fields is steady. -/
theorem steady_of_eq {sm sm' : StateManager σ} (hs : sm'.storage = sm.storage)
    (hh : sm'.currentHeight = sm.currentHeight) : Steady Good view sm sm' := by
  intro hgood
  rw [hs]
  exact ⟨hgood, rfl, hh⟩

variable [Storage σ]

omit [Storage σ] in
theorem onStorage_steady {α : Type} {m : Exec PacyteError σ α}
    (h : Storage.KeepsView Good view m) : Within (Steady Good view) (onStorage m) :=
  fun sm hgood => ⟨(h sm.storage hgood).1, (h sm.storage hgood).2, rfl⟩

/-- Transfers are steady. -/
theorem inert_steady (h : Storage.Dependable Good view) : Inert (Steady Good view) where
  fields _ _ := steady_of_eq
  stored a := onStorage_steady (h.getAccount a)

/-- `commit_dirty_accounts` is steady and returns no error. -/
theorem commitDirtyAccounts_steady (h : Storage.Dependable Good view) (sm : StateManager σ)
    (hgood : Good sm.storage) :
    Post commitDirtyAccounts sm fun o sm' => Steady Good view sm sm' ∧ ¬ o.IsErr := by
  have hblocks : sm.dirtyBatch.blocks = [] :=
    (foldl_addAccount sm.dirtyAccounts.toPairs WriteBatch.new).2
  rw [Post, commitDirtyAccounts_run]
  split_ifs
  · exact ⟨steady_of_eq rfl rfl, Outcome.not_isErr_ok ()⟩
  · obtain ⟨hg, hv⟩ := h.writeBatch _ hblocks sm.storage hgood
    exact ⟨fun _ => ⟨hg, hv, rfl⟩, h.writeBatch_noErr _ _ hblocks hgood⟩

/-- **`apply_block` moves the height by one or not at all.**  On a dependable
storage it accepts the next height only, and an error leaves the height as it
was. -/
theorem applyBlock_steady [Primitives] (h : Storage.Dependable Good view) (block : Block)
    (sm : StateManager σ) (hgood : Good sm.storage) :
    Post (applyBlock block) sm fun o sm' =>
      match o with
      | .ok _ => NextHeight sm block ∧ sm'.currentHeight = block.header.height ∧
          Good sm'.storage ∧ view sm'.storage = view sm.storage
      | .err _ => Steady Good view sm sm'
      | .panic => True := by
  unfold applyBlock
  simp only [post_bind, post_get, post_addU64]
  refine ⟨fun hfit => ?_, fun _ => trivial⟩
  rw [post_ite]
  refine ⟨fun _ => refl_of (Steady Good view) sm, fun heq => ?_⟩
  have hnext : NextHeight sm block := by
    rw [NextHeight, not_not.mp heq]
    exact toNat_add_of_fits hfit
  refine (((inert_steady h).applyTransactions block.body.transactions).post sm).seq ?_
    (fun _ _ h => h) (fun _ _ => trivial)
  intro _ mid hmid
  obtain ⟨root, hroot⟩ := computeStateRoot_run mid
  rw [post_bind, Post, hroot]
  simp only [post_bind, post_now, post_modify]
  -- the root is saved: from here on the height is the new one
  refine Post.mono ((onStorage_steady (h.saveStateRoot block.header.height root)).post _) ?_
  rintro (_ | _ | _) sm₁ h₁
  · have hgood₁ := (trans_of (Steady Good view) hmid (h₁ : Steady Good view mid sm₁)) hgood
    refine Post.mono (commitDirtyAccounts_steady h
      { sm₁ with currentRoot := root, currentHeight := block.header.height } hgood₁.1) ?_
    rintro (_ | _ | _) sm₂ ⟨h₂, herr⟩
    · obtain ⟨hg, hv, hh⟩ := h₂ hgood₁.1
      exact ⟨hnext, hh, hg, hv.trans hgood₁.2.1⟩
    · exact absurd (Outcome.isErr_err _) herr
    · trivial
  · exact trans_of (Steady Good view) hmid h₁
  · trivial

end StateManager

/-! ## The engine -/

namespace Engine

open Exec

variable {σ μ ν β : Type}

/-- The heights, the current proposal and the saved blocks stay, and the storage
keeps its view. -/
structure Steady (Good : σ → Prop) (view : σ → β) (e e' : Engine σ μ ν) : Prop where
  height : e'.height = e.height
  currentProposal : e'.currentProposal = e.currentProposal
  commits : e'.commits = e.commits
  stateManager : StateManager.Steady Good view e.stateManager e'.stateManager

section Steady

variable {Good : σ → Prop} {view : σ → β}

instance : Std.Refl (Steady (μ := μ) (ν := ν) Good view) :=
  ⟨fun e => ⟨rfl, rfl, rfl, refl_of (StateManager.Steady Good view) e.stateManager⟩⟩

instance : IsTrans (Engine σ μ ν) (Steady Good view) :=
  ⟨fun _ _ _ h h' => ⟨h'.height.trans h.height, h'.currentProposal.trans h.currentProposal,
    h'.commits.trans h.commits,
    trans_of (StateManager.Steady Good view) h.stateManager h'.stateManager⟩⟩

/-- A change of other fields is steady. -/
theorem Steady.of_eq {e e' : Engine σ μ ν} (h₁ : e'.height = e.height)
    (h₂ : e'.currentProposal = e.currentProposal) (h₃ : e'.commits = e.commits)
    (h₄ : e'.stateManager = e.stateManager) : Steady Good view e e' :=
  ⟨h₁, h₂, h₃, h₄ ▸ refl_of (StateManager.Steady Good view) e.stateManager⟩

theorem onState_steady {α : Type} {m : Exec PacyteError (StateManager σ) α}
    (h : Within (StateManager.Steady Good view) m) :
    Within (Steady Good view) (onState m : Exec PacyteError (Engine σ μ ν) α) :=
  fun e => ⟨rfl, rfl, rfl, h e.stateManager⟩

variable [Storage σ] [LawfulMempool μ σ]

omit [LawfulMempool μ σ] in
/-- A mempool operation that only looks up accounts is steady. -/
theorem onMempool_steady {α : Type} (h : Storage.Dependable Good view)
    {m : Exec Empty (μ × StateManager σ) α} (hm : ∀ p sm, ∃ as, (m (p, sm)).2.2 = sm.lookups as) :
    Within (Steady Good view) (onMempool m : Exec PacyteError (Engine σ μ ν) α) := by
  intro e
  obtain ⟨as, has⟩ := hm e.mempool e.stateManager
  have hstate : (onMempool m e).2.stateManager = e.stateManager.lookups as := by
    rw [← has, onMempool, run_onPart, infallible]
    rcases m (e.mempool, e.stateManager) with ⟨_ | x | _, p⟩
    · rfl
    · exact x.elim
    · rfl
  refine ⟨rfl, rfl, rfl, ?_⟩
  rw [hstate]
  exact (StateManager.inert_steady h).lookups as e.stateManager

/-- Reads, votes and messages are steady. -/
theorem voteInert_steady (h : Storage.Dependable Good view) :
    VoteInert (Steady (μ := μ) (ν := ν) Good view) where
  clock _ _ := ⟨rfl, rfl, rfl, StateManager.steady_of_eq rfl rfl⟩
  latestBlock := onState_steady (StateManager.onStorage_steady h.getLatestBlock)
  selectForBlock count size :=
    onMempool_steady h (LawfulMempool.selectForBlock_lookups count size)
  event _ _ := Steady.of_eq rfl rfl rfl rfl
  sent _ _ := Steady.of_eq rfl rfl rfl rfl
  network _ _ := Steady.of_eq rfl rfl rfl rfl
  commands _ _ := Steady.of_eq rfl rfl rfl rfl
  recorded e v := by
    unfold addVote
    cases v.voteType <;> exact Steady.of_eq rfl rfl rfl rfl
  voted _ _ := Steady.of_eq rfl rfl rfl rfl

/-! ## Commits -/

variable [Primitives] [Network ν]

omit [Primitives] [Network ν] in
/-- `cleanup` is steady and returns no error. -/
theorem cleanup_steady (h : Storage.Dependable Good view) (hashes : List Hash)
    (e : Engine σ μ ν) :
    Post (onMempool (Mempool.cleanup hashes) : Exec PacyteError (Engine σ μ ν) Unit) e
      fun o e' => Steady Good view e e' ∧ ¬ o.IsErr :=
  ⟨onMempool_steady h (LawfulMempool.cleanup_lookups hashes) e, onMempool_noErr _ e⟩

/-- **The rule for `commit_block`** on a dependable storage: it leaves everything
in place, panics with nothing saved, or goes on after having saved the block of
the current proposal, which then had the next height. -/
theorem commitBlock_rule (h : Storage.Dependable Good view) {J K : Engine σ μ ν → Prop}
    (e : Engine σ μ ν) (height : BlockHeight) (certificate : Certificate)
    (hgood : Good e.stateManager.storage) (hsteady : ∀ e', Steady Good view e e' → J e')
    (hpanic : ∀ sm, K { e with stateManager := sm })
    (hsaved : ∀ p (sm : StateManager σ) st, e.currentProposal = some p →
      StateManager.NextHeight e.stateManager p.block →
      sm.currentHeight = p.block.header.height → Good sm.storage →
      view sm.storage = view e.stateManager.storage →
      Storage.saveBlock p.block sm.storage = (.ok (), st) →
      Post (afterSave height p.block)
        { e with
          stateManager := { sm with storage := st }
          commits := e.commits ++ [⟨certificate, p.block⟩] } (Ends J K)) :
    Post (commitBlock height certificate) e (Ends J K) := by
  unfold commitBlock
  rw [post_bind, post_get]
  dsimp only
  cases hp : e.currentProposal with
  | none => exact hsteady e (refl_of (Steady Good view) e)
  | some p =>
      rw [post_bind, onState, post_onPart]
      refine Post.mono (StateManager.applyBlock_steady h p.block e.stateManager hgood) ?_
      rintro (version | _ | _) sm hsm
      · obtain ⟨hnext, hheight, hgood', hview⟩ := hsm
        have hnoerr := h.saveBlock_noErr p.block sm.storage hgood'
        dsimp only
        rw [post_bind, onStorage, onState, StateManager.onStorage, post_onPart, post_onPart, Post]
        rcases hr : Storage.saveBlock p.block sm.storage with ⟨_ | _ | _, st⟩ <;> rw [hr] at hnoerr
        · rw [post_bind, post_modify]
          exact hsaved p sm st hp hnext hheight hgood' hview hr
        · exact absurd (Outcome.isErr_err _) hnoerr
        · exact hpanic _
      · exact hsteady _ ⟨rfl, rfl, rfl, hsm⟩
      · exact hpanic sm

end Steady

end Engine
