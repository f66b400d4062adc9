import Mathlib.Algebra.BigOperators.Group.Finset.Piecewise
import Mathlib.Algebra.Order.Group.Multiset
import TokenRing.Lib.SlotTable

/-!
The entries of a table of slots as a multiset, for arguments that count what
comes in and goes out.
-/

namespace SlotTable

variable {n : Nat} {α : Type*}

/-- No entry, or one. -/
def content (slot : Option α) : Multiset α := slot.toList

@[simp] theorem content_none : content (none : Option α) = 0 := rfl

@[simp] theorem content_some (a : α) : content (some a) = {a} := rfl

def bag (table : SlotTable n α) : Multiset α := ∑ i, content (table i)

/-- Writing a slot exchanges its content. -/
theorem bag_set (table : SlotTable n α) (i : Fin n) (slot : Option α) :
    bag (table.set i slot) + content (table i) = bag table + content slot := by
  have hrest : ∑ j ∈ Finset.univ.erase i, content (table.set i slot j) =
      ∑ j ∈ Finset.univ.erase i, content (table j) := by
    apply Finset.sum_congr rfl
    intro j hj
    rw [set_of_ne _ _ (Finset.ne_of_mem_erase hj)]
  have hnew := Finset.add_sum_erase Finset.univ (fun j => content (table.set i slot j))
    (Finset.mem_univ i)
  have hold := Finset.add_sum_erase Finset.univ (fun j => content (table j)) (Finset.mem_univ i)
  unfold bag
  rw [← hnew, ← hold, hrest, set_self]
  ac_rfl

theorem bag_fill {table : SlotTable n α} {i : Fin n} (hfree : table i = none) (a : α) :
    bag (table.set i (some a)) = bag table + {a} := by
  simpa [hfree] using bag_set table i (some a)

theorem bag_free {table : SlotTable n α} {i : Fin n} {a : α} (hentry : table i = some a) :
    bag (table.set i none) + {a} = bag table := by
  simpa [hentry] using bag_set table i none

theorem card_bag (table : SlotTable n α) : table.bag.card = table.used.card := by
  unfold bag
  rw [Multiset.card_sum, used, Finset.card_filter]
  apply Finset.sum_congr rfl
  intro i _
  cases table i <;> rfl

end SlotTable
