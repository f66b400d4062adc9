import Mathlib.Data.Int.Order.Basic
import Mathlib.Data.List.Chain
import Mathlib.Order.Basic

/-!
Things done at intervals. A stamp keeps the time of the last one, 0 stands for
none, and the next one is due when the stamp is 0 or lies far enough back. The
clock may do what it likes in between.
-/

/-- Every time is followed by one that is later by at least `gap`, unless it
is 0. -/
def Paced (gap : Int) (times : List Int) : Prop :=
  times.IsChain (fun time next => time = 0 ∨ gap ≤ next - time)

namespace Pacing

/-- The stamp allows the next time. -/
def Due (gap stamp now : Int) : Prop := stamp = 0 ∨ gap ≤ now - stamp

/-- The times since a stamp stood at `start`, and the stamp now. -/
structure Runs (gap start : Int) (times : List Int) (stamp : Int) : Prop where
  paced : Paced gap (start :: times)
  last : (start :: times).getLast? = some stamp

variable {gap start stamp now : Int} {times : List Int}

theorem Runs.refl (gap start : Int) : Runs gap start [] start :=
  ⟨List.isChain_singleton start, rfl⟩

theorem Runs.due (h : Runs gap start times stamp) (hdue : Due gap stamp now) :
    Runs gap start (times ++ [now]) now := by
  constructor
  · have hchain : Paced gap ((start :: times) ++ [now]) := by
      refine h.paced.append (List.isChain_singleton now) ?_
      intro time htime next hnext
      rw [h.last, Option.mem_some_iff] at htime
      rw [List.head?_singleton, Option.mem_some_iff] at hnext
      rw [← htime, ← hnext]
      exact hdue
    exact hchain
  · rw [← List.cons_append, List.getLast?_concat]

end Pacing
