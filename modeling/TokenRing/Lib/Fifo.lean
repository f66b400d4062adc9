import Mathlib.Data.List.Pairwise
import Mathlib.Data.List.Sublists

/-!
A first-in-first-out channel, oldest element first, that loses and repeats
elements in place.
-/

namespace Fifo

variable {α : Type*} {channel channel' : List α} {R : α → α → Prop}

def lose (channel : List α) (i : Nat) : List α := channel.eraseIdx i

def duplicate (channel : List α) (i : Nat) : List α :=
  channel.take (i + 1) ++ channel.drop i

/-- A later content of the channel when nothing is sent or received. -/
structure Degrades (R : α → α → Prop) (channel channel' : List α) : Prop where
  mem : ∀ a ∈ channel', a ∈ channel
  order : channel.Pairwise R → channel'.Pairwise R

theorem degrades_lose (channel : List α) (i : Nat) : Degrades R channel (lose channel i) :=
  ⟨fun _ => List.mem_of_mem_eraseIdx, fun h => h.sublist (List.eraseIdx_sublist channel i)⟩

theorem mem_duplicate {i : Nat} {a : α} (h : a ∈ duplicate channel i) : a ∈ channel := by
  rcases List.mem_append.mp h with hfront | hback
  · exact List.mem_of_mem_take hfront
  · exact List.mem_of_mem_drop hback

/-- A repeated element stands next to itself, so it only has to be in order
with itself. -/
theorem degrades_duplicate (hself : ∀ a, R a a) (channel : List α) (i : Nat) :
    Degrades R channel (duplicate channel i) := by
  refine ⟨fun a => mem_duplicate, fun h => ?_⟩
  induction channel generalizing i with
  | nil => simp [duplicate]
  | cons a rest ih =>
      obtain ⟨hhead, htail⟩ := List.pairwise_cons.mp h
      cases i with
      | zero =>
          simp only [duplicate, List.take_succ_cons, List.take_zero, List.drop_zero,
            List.singleton_append, List.pairwise_cons]
          refine ⟨fun b hb => ?_, hhead, htail⟩
          rcases List.mem_cons.mp hb with rfl | hb
          · exact hself b
          · exact hhead b hb
      | succ k =>
          have hrest : duplicate (a :: rest) (k + 1) = a :: duplicate rest k := rfl
          rw [hrest, List.pairwise_cons]
          exact ⟨fun b hb => hhead b (mem_duplicate hb), ih k htail⟩

end Fifo
