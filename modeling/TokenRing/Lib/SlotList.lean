import TokenRing.Lib.SlotTable

/-!
The entries of a table of slots as a list, from the lowest slot up: what a scan
for the first used slot takes, and where a new entry comes to stand.
-/

namespace SlotTable

variable {n : Nat} {α : Type*} {table : SlotTable n α} {i : Fin n} {a : α}

def entries (table : SlotTable n α) : List α := (List.finRange n).filterMap table

/-- The entries in lower slots. -/
def below (table : SlotTable n α) (i : Fin n) : List α :=
  ((List.finRange n).take i).filterMap table

/-- The entries in higher slots. -/
def above (table : SlotTable n α) (i : Fin n) : List α :=
  ((List.finRange n).drop (i + 1)).filterMap table

theorem entries_eq_nil : table.entries = [] ↔ ∀ i, table i = none := by
  simp [entries, List.filterMap_eq_nil_iff]

/-- The slots below, the slot itself and the slots above. -/
theorem entries_split (table : SlotTable n α) (i : Fin n) :
    table.entries = table.below i ++ (table i).toList ++ table.above i := by
  have hlength : i.val < (List.finRange n).length := by simp
  have hslots : List.finRange n =
      (List.finRange n).take i ++ [i] ++ (List.finRange n).drop (i + 1) := by
    have htake := List.take_append_getElem hlength
    rw [List.getElem_finRange, Fin.cast_mk] at htake
    rw [htake, List.take_append_drop]
  have hslot : [i].filterMap table = (table i).toList := by
    cases hcontent : table i <;> simp [hcontent]
  unfold entries below above
  conv_lhs => rw [hslots]
  rw [List.filterMap_append, List.filterMap_append, hslot]

theorem below_set (content : Option α) : (table.set i content).below i = table.below i := by
  apply List.filterMap_congr
  intro j hj
  apply set_of_ne
  rintro rfl
  obtain ⟨k, hk, heq⟩ := List.mem_take_iff_getElem.mp hj
  simp only [List.getElem_finRange, Fin.ext_iff, Fin.val_cast] at heq
  omega

theorem above_set (content : Option α) : (table.set i content).above i = table.above i := by
  apply List.filterMap_congr
  intro j hj
  apply set_of_ne
  rintro rfl
  obtain ⟨k, hk, heq⟩ := List.mem_drop_iff_getElem.mp hj
  simp only [List.getElem_finRange, Fin.ext_iff, Fin.val_cast] at heq
  omega

theorem entries_free (hfree : table i = none) :
    table.entries = table.below i ++ table.above i := by
  rw [entries_split table i, hfree]
  simp

theorem entries_fill (table : SlotTable n α) (i : Fin n) (a : α) :
    (table.set i (some a)).entries = table.below i ++ a :: table.above i := by
  rw [entries_split _ i, below_set, above_set, set_self]
  simp

/-- The first used slot holds the first entry. -/
theorem entries_first (hfirst : table.firstSlot Option.isSome = some i) (ha : table i = some a) :
    table.entries = a :: (table.set i none).entries := by
  have hbelow : table.below i = [] := by
    apply List.filterMap_eq_nil_iff.mpr
    intro j hj
    obtain ⟨k, hk, rfl⟩ := List.mem_take_iff_getElem.mp hj
    have hlow := ((table.firstSlot_eq_some_iff _ _).mp hfirst).2
    have hnone := hlow ((List.finRange n)[k]) (by
      simp only [List.getElem_finRange, Fin.lt_def, Fin.val_cast]
      omega)
    simpa using hnone
  rw [entries_split table i, entries_split (table.set i none) i, below_set, above_set, set_self,
    hbelow, ha]
  rfl

end SlotTable
