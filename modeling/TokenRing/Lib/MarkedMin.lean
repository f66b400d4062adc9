import Mathlib.Order.Lattice
import Mathlib.Data.List.Basic

/-!
A running minimum that starts at 0 and takes 0 for the sign that there is no
value yet. It is the minimum as long as 0 is none of the values.
-/

namespace MarkedMin

variable {α : Type*} [LinearOrder α] [Zero α] {values : List α} {least value : α}

def keepSooner (least value : α) : α :=
  if least = 0 ∨ value < least then value else least

def markedMin (values : List α) : α := values.foldl keepSooner 0

@[simp] theorem keepSooner_zero (value : α) : keepSooner 0 value = value := by
  simp [keepSooner]

theorem keepSooner_eq_or (least value : α) :
    keepSooner least value = least ∨ keepSooner least value = value := by
  unfold keepSooner
  split
  · exact .inr rfl
  · exact .inl rfl

theorem keepSooner_le (h : least ≠ 0) (value : α) :
    keepSooner least value ≤ least ∧ keepSooner least value ≤ value := by
  unfold keepSooner
  split
  · rename_i hsooner
    have hless := hsooner.resolve_left h
    exact ⟨hless.le, le_rfl⟩
  · rename_i hnot
    have hmore := (not_or.mp hnot).2
    exact ⟨le_rfl, not_lt.mp hmore⟩

/-- From a value on, the pass keeps a lower bound of all it has seen. -/
theorem foldl_keepSooner (h : least ≠ 0) (hvalues : 0 ∉ values) :
    values.foldl keepSooner least ≠ 0 ∧ values.foldl keepSooner least ≤ least ∧
      ∀ value ∈ values, values.foldl keepSooner least ≤ value := by
  induction values generalizing least with
  | nil => exact ⟨h, le_rfl, nofun⟩
  | cons first rest ih =>
      obtain ⟨hfirst, hrest⟩ := not_or.mp (List.mem_cons.not.mp hvalues)
      have hstep : keepSooner least first ≠ 0 := by
        rcases keepSooner_eq_or least first with heq | heq
        · rw [heq]
          exact h
        · rw [heq]
          exact fun hzero => hfirst hzero.symm
      obtain ⟨hbefore, hvalue⟩ := keepSooner_le h first
      obtain ⟨hsome, hle, hall⟩ := ih hstep hrest
      rw [List.foldl_cons]
      refine ⟨hsome, hle.trans hbefore, ?_⟩
      intro value hmem
      rcases List.mem_cons.mp hmem with rfl | hlater
      · exact hle.trans hvalue
      · exact hall value hlater

theorem foldl_keepSooner_mem (least : α) (values : List α) :
    values.foldl keepSooner least = least ∨ values.foldl keepSooner least ∈ values := by
  induction values generalizing least with
  | nil => exact .inl rfl
  | cons first rest ih =>
      rw [List.foldl_cons]
      rcases ih (keepSooner least first) with hstep | hlater
      · rw [hstep]
        rcases keepSooner_eq_or least first with heq | heq
        · exact .inl heq
        · rw [heq]
          exact .inr (List.mem_cons_self ..)
      · exact .inr (List.mem_cons_of_mem first hlater)

theorem markedMin_mem (h : markedMin values ≠ 0) : markedMin values ∈ values :=
  (foldl_keepSooner_mem 0 values).resolve_left h

theorem markedMin_le (hvalues : 0 ∉ values) (hmem : value ∈ values) :
    markedMin values ≠ 0 ∧ markedMin values ≤ value := by
  cases values with
  | nil => cases hmem
  | cons first rest =>
      obtain ⟨hfirst, hrest⟩ := not_or.mp (List.mem_cons.not.mp hvalues)
      obtain ⟨hsome, hle, hall⟩ := foldl_keepSooner (fun hzero => hfirst hzero.symm) hrest
      unfold markedMin
      rw [List.foldl_cons, keepSooner_zero]
      refine ⟨hsome, ?_⟩
      rcases List.mem_cons.mp hmem with rfl | hlater
      · exact hle
      · exact hall value hlater

end MarkedMin
