import Mathlib.Data.Finset.Card
import Mathlib.Data.Fintype.Card
import Mathlib.Data.List.FinRange

/-!
Fixed tables of slots, each free or holding one entry. The operations are the
three a C program performs on such an array: scan upwards for the first slot
with a property, scan for the least key, and overwrite one slot.
-/

abbrev SlotTable (n : Nat) (α : Type*) := Fin n → Option α

namespace SlotTable

variable {n : Nat} {α κ : Type*}

def empty : SlotTable n α := fun _ => none

/-- The lowest slot whose content satisfies `p`. -/
def firstSlot (table : SlotTable n α) (p : Option α → Bool) : Option (Fin n) :=
  (List.finRange n).find? (fun i => p (table i))

def set (table : SlotTable n α) (i : Fin n) (content : Option α) : SlotTable n α :=
  Function.update table i content

@[simp] theorem set_self (table : SlotTable n α) (i : Fin n) (content : Option α) :
    table.set i content i = content := by
  simp [set]

theorem set_of_ne (table : SlotTable n α) {i j : Fin n} (content : Option α)
    (h : j ≠ i) : table.set i content j = table j := by
  simp [set, h]

theorem set_apply (table : SlotTable n α) (i j : Fin n) (content : Option α) :
    table.set i content j = if j = i then content else table j := by
  simp [set, Function.update_apply]

theorem firstSlot_eq_none_iff (table : SlotTable n α) (p : Option α → Bool) :
    table.firstSlot p = none ↔ ∀ i, p (table i) = false := by
  simp [firstSlot]

theorem firstSlot_eq_some_iff (table : SlotTable n α) (p : Option α → Bool) (i : Fin n) :
    table.firstSlot p = some i ↔
      p (table i) = true ∧ ∀ j, j < i → p (table j) = false := by
  unfold firstSlot
  rw [List.find?_eq_some_iff_getElem]
  constructor
  · rintro ⟨hp, k, hk, hki, hlow⟩
    refine ⟨hp, fun j hj => ?_⟩
    have hik : i.val = k := by simpa using (congrArg Fin.val hki).symm
    have := hlow j.val (by omega)
    simpa using this
  · rintro ⟨hp, hlow⟩
    refine ⟨hp, i.val, by simp, by simp, fun j hj => ?_⟩
    have := hlow ⟨j, by omega⟩ (by simpa [Fin.lt_def] using hj)
    simpa using this

theorem firstSlot_spec {table : SlotTable n α} {p : Option α → Bool} {i : Fin n}
    (h : table.firstSlot p = some i) : p (table i) = true :=
  ((table.firstSlot_eq_some_iff p i).mp h).1

theorem firstSlot_isSome {table : SlotTable n α} {p : Option α → Bool} {i : Fin n}
    (h : p (table i) = true) : ∃ j, table.firstSlot p = some j := by
  cases hfirst : table.firstSlot p with
  | none =>
      have := (table.firstSlot_eq_none_iff p).mp hfirst i
      simp [h] at this
  | some j => exact ⟨j, rfl⟩

/-- The slots in use. -/
def used (table : SlotTable n α) : Finset (Fin n) :=
  Finset.univ.filter (fun i => (table i).isSome)

@[simp] theorem mem_used (table : SlotTable n α) (i : Fin n) :
    i ∈ table.used ↔ (table i).isSome = true := by
  simp [used]

@[simp] theorem used_empty : (empty : SlotTable n α).used = ∅ := by
  ext i
  simp [empty]

theorem used_set_some (table : SlotTable n α) (i : Fin n) (a : α) :
    (table.set i (some a)).used = insert i table.used := by
  ext j
  by_cases h : j = i <;> simp [set_apply, h]

theorem used_set_none (table : SlotTable n α) (i : Fin n) :
    (table.set i none).used = table.used.erase i := by
  ext j
  by_cases h : j = i <;> simp [set_apply, h]

theorem card_used_le (table : SlotTable n α) : table.used.card ≤ n := by
  simpa using Finset.card_le_univ table.used

theorem card_used_lt (table : SlotTable n α) {i : Fin n} (h : table i = none) :
    table.used.card < n := by
  have hfree : i ∉ table.used := by simp [h]
  simpa using Finset.card_lt_univ_of_notMem hfree

theorem card_used_fill (table : SlotTable n α) (i : Fin n) (a : α) (h : table i = none) :
    (table.set i (some a)).used.card = table.used.card + 1 := by
  rw [used_set_some, Finset.card_insert_of_notMem (by simp [h])]

theorem card_used_overwrite (table : SlotTable n α) (i : Fin n) (a : α)
    (h : (table i).isSome = true) :
    (table.set i (some a)).used.card = table.used.card := by
  rw [used_set_some, Finset.insert_eq_of_mem (by simpa using h)]

theorem card_used_free (table : SlotTable n α) (i : Fin n) (h : (table i).isSome = true) :
    (table.set i none).used.card + 1 = table.used.card := by
  rw [used_set_none]
  exact Finset.card_erase_add_one (by simpa using h)

theorem used_card_eq_zero (table : SlotTable n α) :
    table.used.card = 0 ↔ ∀ i, table i = none := by
  rw [Finset.card_eq_zero, Finset.eq_empty_iff_forall_notMem]
  simp

/-- `Within small large`: every entry of `small` stands in the same slot of
`large`. Freeing slots gives such a table. -/
def Within (small large : SlotTable n α) : Prop :=
  ∀ i a, small i = some a → large i = some a

theorem Within.refl (table : SlotTable n α) : Within table table := fun _ _ h => h

theorem Within.trans {a b c : SlotTable n α} (hab : Within a b) (hbc : Within b c) :
    Within a c := fun i x h => hbc i x (hab i x h)

theorem within_set_none (table : SlotTable n α) (i : Fin n) :
    Within (table.set i none) table := by
  intro j a h
  by_cases hji : j = i
  · subst hji
    simp at h
  · rwa [set_of_ne table none hji] at h

section Least

variable [LinearOrder κ]

/-- One step of the upward scan for the least key: the slot found so far and
its key are replaced only by a strictly smaller key. -/
def leastStep (key : α → κ) (table : SlotTable n α) (best : Option (Fin n × κ))
    (i : Fin n) : Option (Fin n × κ) :=
  match table i, best with
  | none, _ => best
  | some a, none => some (i, key a)
  | some a, some (j, k) => if key a < k then some (i, key a) else some (j, k)

def leastSlot (key : α → κ) (table : SlotTable n α) : Option (Fin n × κ) :=
  (List.finRange n).foldl (leastStep key table) none

/-- What the scan knows after the slots in `seen`: nothing was in use, or the
slot it holds is in use with the least key seen. -/
def LeastAmong (key : α → κ) (table : SlotTable n α) (seen : List (Fin n)) :
    Option (Fin n × κ) → Prop
  | none => ∀ i ∈ seen, table i = none
  | some (i, k) => (∃ a, table i = some a ∧ key a = k) ∧
      ∀ j ∈ seen, ∀ b, table j = some b → k ≤ key b

theorem leastAmong_step (key : α → κ) (table : SlotTable n α) (seen : List (Fin n))
    (best : Option (Fin n × κ)) (i : Fin n) (h : LeastAmong key table seen best) :
    LeastAmong key table (seen ++ [i]) (leastStep key table best i) := by
  cases hslot : table i with
  | none =>
      cases best with
      | none =>
          simp only [leastStep, hslot]
          intro j hj
          rcases List.mem_append.mp hj with hold | hnew
          · exact h j hold
          · rw [List.mem_singleton.mp hnew, hslot]
      | some entry =>
          simp only [leastStep, hslot]
          refine ⟨h.1, fun j hj b hb => ?_⟩
          rcases List.mem_append.mp hj with hold | hnew
          · exact h.2 j hold b hb
          · rw [List.mem_singleton.mp hnew, hslot] at hb
            cases hb
  | some a =>
      cases best with
      | none =>
          simp only [leastStep, hslot]
          refine ⟨⟨a, hslot, rfl⟩, fun j hj b hb => ?_⟩
          rcases List.mem_append.mp hj with hold | hnew
          · rw [h j hold] at hb
            cases hb
          · rw [List.mem_singleton.mp hnew, hslot] at hb
            rw [Option.some.inj hb]
      | some entry =>
          obtain ⟨j, k⟩ := entry
          simp only [leastStep, hslot]
          by_cases hlt : key a < k
          · rw [if_pos hlt]
            refine ⟨⟨a, hslot, rfl⟩, fun x hx b hb => ?_⟩
            rcases List.mem_append.mp hx with hold | hnew
            · exact hlt.le.trans (h.2 x hold b hb)
            · rw [List.mem_singleton.mp hnew, hslot] at hb
              rw [Option.some.inj hb]
          · rw [if_neg hlt]
            refine ⟨h.1, fun x hx b hb => ?_⟩
            rcases List.mem_append.mp hx with hold | hnew
            · exact h.2 x hold b hb
            · rw [List.mem_singleton.mp hnew, hslot] at hb
              rw [← Option.some.inj hb]
              exact not_lt.mp hlt

theorem leastAmong_foldl (key : α → κ) (table : SlotTable n α) (rest seen : List (Fin n))
    (best : Option (Fin n × κ)) (h : LeastAmong key table seen best) :
    LeastAmong key table (seen ++ rest) (rest.foldl (leastStep key table) best) := by
  induction rest generalizing seen best with
  | nil => simpa using h
  | cons i tail ih =>
      have hstep := leastAmong_step key table seen best i h
      simpa using ih (seen ++ [i]) _ hstep

theorem leastAmong_leastSlot (key : α → κ) (table : SlotTable n α) :
    LeastAmong key table (List.finRange n) (leastSlot key table) := by
  have hempty : LeastAmong key table [] none := by
    intro i hi
    cases hi
  simpa [leastSlot] using
    leastAmong_foldl key table (List.finRange n) [] none hempty

theorem leastSlot_eq_none {key : α → κ} {table : SlotTable n α}
    (h : leastSlot key table = none) (i : Fin n) : table i = none := by
  have hleast := leastAmong_leastSlot key table
  rw [h] at hleast
  exact hleast i (List.mem_finRange i)

theorem leastSlot_eq_some {key : α → κ} {table : SlotTable n α} {i : Fin n} {k : κ}
    (h : leastSlot key table = some (i, k)) :
    (∃ a, table i = some a ∧ key a = k) ∧ ∀ j b, table j = some b → k ≤ key b := by
  have hleast := leastAmong_leastSlot key table
  rw [h] at hleast
  exact ⟨hleast.1, fun j b hb => hleast.2 j (List.mem_finRange j) b hb⟩

/-- The slot found is the lowest of the least key: those scanned before it have
greater keys. -/
def LowestAmong (key : α → κ) (table : SlotTable n α) (seen : List (Fin n)) :
    Option (Fin n × κ) → Prop
  | none => True
  | some (i, k) => ∃ front back, seen = front ++ i :: back ∧
      ∀ j ∈ front, ∀ b, table j = some b → k < key b

theorem lowestAmong_step (key : α → κ) (table : SlotTable n α) (seen : List (Fin n))
    (best : Option (Fin n × κ)) (i : Fin n) (hleast : LeastAmong key table seen best)
    (h : LowestAmong key table seen best) :
    LowestAmong key table (seen ++ [i]) (leastStep key table best i) := by
  have hkeep : LowestAmong key table (seen ++ [i]) best := by
    cases best with
    | none => trivial
    | some entry =>
        obtain ⟨front, back, rfl, hfront⟩ := h
        exact ⟨front, back ++ [i], by simp, hfront⟩
  cases hslot : table i with
  | none => simpa only [leastStep, hslot] using hkeep
  | some a =>
      cases best with
      | none =>
          simp only [leastStep, hslot]
          refine ⟨seen, [], rfl, ?_⟩
          intro j hj b hb
          rw [hleast j hj] at hb
          cases hb
      | some entry =>
          obtain ⟨j, k⟩ := entry
          simp only [leastStep, hslot]
          split
          · rename_i hlt
            refine ⟨seen, [], rfl, ?_⟩
            intro x hx b hb
            exact hlt.trans_le (hleast.2 x hx b hb)
          · exact hkeep

theorem lowestAmong_foldl (key : α → κ) (table : SlotTable n α) (rest seen : List (Fin n))
    (best : Option (Fin n × κ)) (hleast : LeastAmong key table seen best)
    (h : LowestAmong key table seen best) :
    LowestAmong key table (seen ++ rest) (rest.foldl (leastStep key table) best) := by
  induction rest generalizing seen best with
  | nil => simpa using h
  | cons i tail ih =>
      have hstep := leastAmong_step key table seen best i hleast
      have hlow := lowestAmong_step key table seen best i hleast h
      simpa using ih (seen ++ [i]) _ hstep hlow

/-- The least key, and of several slots with it the lowest one. -/
theorem leastSlot_first {key : α → κ} {table : SlotTable n α} {i j : Fin n} {k : κ} {b : α}
    (h : leastSlot key table = some (i, k)) (hb : table j = some b) (hj : j ≠ i) :
    k < key b ∨ k = key b ∧ i < j := by
  have hle := (leastSlot_eq_some h).2 j b hb
  rcases lt_or_eq_of_le hle with hless | hsame
  · exact .inl hless
  right
  refine ⟨hsame, lt_of_le_of_ne (not_lt.mp ?_) hj.symm⟩
  intro hji
  have hempty : LeastAmong key table [] none := by
    intro i hi
    cases hi
  have hlow := lowestAmong_foldl key table (List.finRange n) [] none hempty trivial
  unfold leastSlot at h
  rw [h] at hlow
  obtain ⟨front, back, hsplit, hfront⟩ := hlow
  have hsorted : (front ++ i :: back).Pairwise (· < ·) := by
    rw [← hsplit]
    exact List.pairwise_lt_finRange n
  have hmem : j ∈ front ++ i :: back := by
    rw [← hsplit]
    exact List.mem_finRange j
  -- a slot below the one found was scanned before it
  rcases List.mem_append.mp hmem with hbefore | hafter
  · exact absurd hsame (hfront j hbefore b hb).ne
  · rcases List.mem_cons.mp hafter with heq | hback
    · exact hj heq
    · have hless := (List.pairwise_cons.mp (List.pairwise_append.mp hsorted).2.1).1 j hback
      exact lt_asymm hji hless

end Least

end SlotTable
