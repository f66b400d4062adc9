import TokenRing.Lib.SlotTable

/-!
Taking the entry with the least key out of a table of slots again and again:
what leaves is a beginning of the order by key and slot.
-/

namespace SlotTable

variable {n : Nat} {α κ : Type*} [LinearOrder κ] {key : α → κ}

/-- The table without the entries that so many scans for the least key find. -/
def dropLeast (key : α → κ) : Nat → SlotTable n α → SlotTable n α
  | 0, table => table
  | left + 1, table =>
      match leastSlot key table with
      | none => table
      | some (i, _) => dropLeast key left (table.set i none)

theorem dropLeast_none {table : SlotTable n α} (h : leastSlot key table = none) (left : Nat) :
    dropLeast key left table = table := by
  cases left with
  | zero => rfl
  | succ left => simp [dropLeast, h]

theorem dropLeast_some {table : SlotTable n α} {i : Fin n} {k : κ}
    (h : leastSlot key table = some (i, k)) (left : Nat) :
    dropLeast key (left + 1) table = dropLeast key left (table.set i none) := by
  simp [dropLeast, h]

theorem dropLeast_within (left : Nat) (table : SlotTable n α) :
    Within (dropLeast key left table) table := by
  induction left generalizing table with
  | zero => exact .refl table
  | succ left ih =>
      cases h : leastSlot key table with
      | none =>
          rw [dropLeast_none h]
          exact .refl table
      | some found =>
          rw [dropLeast_some h]
          exact (ih _).trans (within_set_none table found.1)

/-- As many entries leave as scans are allowed, while there are any. -/
theorem card_used_dropLeast (left : Nat) (table : SlotTable n α) :
    (dropLeast key left table).used.card + min left table.used.card = table.used.card := by
  induction left generalizing table with
  | zero => simp [dropLeast]
  | succ left ih =>
      cases h : leastSlot key table with
      | none =>
          rw [dropLeast_none h, (used_card_eq_zero table).mpr (leastSlot_eq_none h)]
          omega
      | some found =>
          obtain ⟨i, k⟩ := found
          obtain ⟨⟨a, ha, _⟩, _⟩ := leastSlot_eq_some h
          have hfree := card_used_free table i (by simp [ha])
          have hrest := ih (table.set i none)
          rw [dropLeast_some h]
          omega

/-- An entry that left stands before every entry that stayed. -/
theorem dropLeast_first (left : Nat) (table : SlotTable n α) {i j : Fin n} {a b : α}
    (ha : table i = some a) (hgone : dropLeast key left table i = none)
    (hb : dropLeast key left table j = some b) : key a < key b ∨ key a = key b ∧ i < j := by
  induction left generalizing table with
  | zero =>
      change table i = none at hgone
      rw [ha] at hgone
      cases hgone
  | succ left ih =>
      cases h : leastSlot key table with
      | none =>
          rw [dropLeast_none h, ha] at hgone
          cases hgone
      | some found =>
          obtain ⟨x, k⟩ := found
          rw [dropLeast_some h] at hgone hb
          have hstays := dropLeast_within left (table.set x none) j b hb
          by_cases hix : i = x
          · subst hix
            have hji : j ≠ i := by
              rintro rfl
              simp at hstays
            rw [set_of_ne table none hji] at hstays
            obtain ⟨⟨least, hleast, hkey⟩, _⟩ := leastSlot_eq_some h
            rw [ha] at hleast
            cases hleast
            subst hkey
            exact leastSlot_first h hstays hji
          · apply ih (table.set x none) _ hgone hb
            rw [set_of_ne table none hix, ha]

end SlotTable
