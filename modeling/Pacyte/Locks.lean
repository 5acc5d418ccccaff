/-
# Reader-writer locks that are not reentrant

A thread that holds a guard of a lock and asks for the same lock in a conflicting
mode waits for itself.  `Guards` is what one thread knows of its locks: the guards
it holds, and whether it has ever asked for one that conflicts with them.

`Exec.guarded` runs a program while a guard is held, in the way scoped guards do:
the guard is taken before the program and is given back after it, however the
program ends.
-/
import Pacyte.Exec

namespace Locks

/-- The two ways to take a lock. -/
inductive Mode : Type where
  | read
  | write
  deriving DecidableEq, Repr

/-- Two readers do not exclude each other. -/
def Mode.conflicts : Mode → Mode → Bool
  | read, read => false
  | read, write => true
  | write, _ => true

/-- The guards that a thread holds, and whether an acquisition has met a conflicting
guard of the thread itself. -/
structure Guards (L : Type) where
  held : List (L × Mode)
  clash : Bool
  deriving DecidableEq

namespace Guards

variable {L : Type} [DecidableEq L]

/-- No guard is held. -/
def free : Guards L := ⟨[], false⟩

/-- A guard that is held excludes the lock in this mode. -/
def blocks (g : Guards L) (l : L) (m : Mode) : Bool :=
  g.held.any fun h => decide (h.1 = l) && h.2.conflicts m

/-- Take a guard. -/
def acquire (g : Guards L) (l : L) (m : Mode) : Guards L :=
  ⟨(l, m) :: g.held, g.clash || g.blocks l m⟩

/-- Take a guard and give it back at once. -/
def touch (g : Guards L) (l : L) (m : Mode) : Guards L := ⟨g.held, g.clash || g.blocks l m⟩

@[simp] theorem blocks_free (l : L) (m : Mode) : (free : Guards L).blocks l m = false := rfl

/-- A guard of the same lock matters when the modes conflict. -/
theorem blocks_acquire_self (g : Guards L) (l : L) (m m' : Mode) :
    (g.acquire l m').blocks l m = (m'.conflicts m || g.blocks l m) := by
  simp [blocks, acquire]

/-- Asking twice is as good as asking once. -/
@[simp] theorem touch_touch (g : Guards L) (l : L) (m : Mode) :
    (g.touch l m).touch l m = g.touch l m := by
  simp [touch, blocks]

@[simp] theorem blocks_touch (g : Guards L) (l l' : L) (m m' : Mode) :
    (g.touch l' m').blocks l m = g.blocks l m := rfl

end Guards

end Locks

namespace Exec

open Locks

variable {ε σ α L : Type} [DecidableEq L]

/-- Run a program while a guard is held.  The guards of the state are read by `view`
and written by `put`. -/
def guarded (view : σ → Guards L) (put : Guards L → σ → σ) (l : L) (m : Mode)
    (body : Exec ε σ α) : Exec ε σ α := fun s =>
  let r := body (put ((view s).acquire l m) s)
  (r.1, put ⟨(view s).held, (view r.2).clash⟩ r.2)

theorem run_guarded (view : σ → Guards L) (put : Guards L → σ → σ) (l : L) (m : Mode)
    (body : Exec ε σ α) (s : σ) :
    guarded view put l m body s =
      ((body (put ((view s).acquire l m) s)).1,
        put ⟨(view s).held, (view (body (put ((view s).acquire l m) s)).2).clash⟩
          (body (put ((view s).acquire l m) s)).2) := rfl

end Exec
