/-
# What transfers leave alone

Look-ups and transfers of the state manager read the storage, read the clock and change the
cached and the uncommitted accounts.  A relation between states that all of these respect is
`Inert`; `get_account`, `set_account`, `apply_transfer` and the loop over the transactions
then move along it.
-/
import Pacyte.Consensus

namespace StateManager

open Exec

variable {σ : Type}

/-- Account look-ups of the storage, and changes of everything but the storage and the
height, move along `R`. -/
structure Inert [Storage σ] (R : StateManager σ → StateManager σ → Prop) : Prop where
  fields : ∀ sm sm' : StateManager σ, sm'.storage = sm.storage →
    sm'.currentHeight = sm.currentHeight → R sm sm'
  stored : ∀ a, Within R (onStorage (Storage.getAccount a))

namespace Inert

variable [Storage σ] {R : StateManager σ → StateManager σ → Prop}

theorem onClock {α : Type} (h : Inert R) (m : Exec PacyteError Clock α) :
    Within R (StateManager.onClock m) := fun _ => h.fields _ _ rfl rfl

variable [Std.Refl R] [IsTrans (StateManager σ) R]

theorem getAccount (h : Inert R) (a : Address) : Within R (StateManager.getAccount a) := by
  refine Within.bind Within.get fun sm => ?_
  cases sm.accountCache.lookup a with
  | some account => exact Within.pure _
  | none =>
      cases sm.dirtyAccounts.lookup a with
      | some account => exact Within.pure _
      | none =>
          refine Within.bind (h.stored a) fun r => ?_
          cases r with
          | none => exact Within.pure _
          | some account =>
              exact Within.bind (Within.modify fun _ => h.fields _ _ rfl rfl) fun _ =>
                Within.pure _

theorem lookups (h : Inert R) (addresses : List Address) (sm : StateManager σ) :
    R sm (sm.lookups addresses) := by
  induction addresses generalizing sm with
  | nil => exact refl_of R sm
  | cons a rest ih => exact trans_of R (h.getAccount a sm) (ih _)

theorem getAccountOrNew (h : Inert R) (a : Address) :
    Within R (StateManager.getAccountOrNew a) := by
  refine Within.bind (h.getAccount a) fun r => ?_
  cases r with
  | some account => exact Within.pure _
  | none => exact Within.bind (h.onClock _) fun _ => Within.pure _

omit [Std.Refl R] in
theorem setAccount (h : Inert R) (a : Address) (account : Account) :
    Within R (StateManager.setAccount a account) :=
  Within.bind (Within.modify fun _ => h.fields _ _ rfl rfl) fun _ =>
    Within.modify fun _ => h.fields _ _ rfl rfl

theorem applyTransfer (h : Inert R) («from» «to» : Address) (amount fee : U128) :
    Within R (StateManager.applyTransfer «from» «to» amount fee) := by
  refine Within.bind (h.getAccount «from») fun r => ?_
  cases r with
  | none => exact Within.throw _
  | some account =>
      refine Within.ite (Within.throw _) ?_
      exact Within.bind (h.onClock _) fun _ => Within.bind (h.getAccountOrNew «to») fun _ =>
        Within.bind (h.onClock _) fun _ => Within.bind (h.setAccount _ _) fun _ =>
          h.setAccount _ _

theorem applyTransactions (h : Inert R) (txs : List Transaction) :
    Within R (StateManager.applyTransactions txs) := by
  induction txs with
  | nil => exact Within.pure _
  | cons tx rest ih => exact Within.bind (h.applyTransfer _ _ _ _) fun _ => ih

end Inert

end StateManager
