import TokenRing.Lib.SlotTable

/-!
When a table of slots keeps the order in which entries came. Each used slot
carries the stamp of its entry; entries of one key are in order when their
slots are in the order of the stamps.
-/

namespace SlotTable

variable {n : Nat} {α κ τ : Type*}

/-- Of two entries with one key the one in the lower slot has the lower
stamp. -/
def Ordered [LT τ] (key : α → κ) (stamps : Fin n → τ) (table : SlotTable n α) : Prop :=
  ∀ i j a b, table i = some a → table j = some b → key a = key b → i < j →
    stamps i < stamps j

section Keep

variable [LT τ] {key : α → κ} {stamps : Fin n → τ} {table small : SlotTable n α} {i : Fin n}

theorem Ordered.within (h : Ordered key stamps table) (hwithin : Within small table) :
    Ordered key stamps small := by
  intro i j a b ha hb hkey hij
  exact h i j a b (hwithin i a ha) (hwithin j b hb) hkey hij

/-- The stamp of a free slot says nothing. -/
theorem Ordered.restamp (h : Ordered key stamps table) (hfree : table i = none) (stamp : τ) :
    Ordered key (Function.update stamps i stamp) table := by
  intro j k a b ha hb hkey hjk
  have hj : j ≠ i := by
    rintro rfl
    simp [hfree] at ha
  have hk : k ≠ i := by
    rintro rfl
    simp [hfree] at hb
  rw [Function.update_of_ne hj, Function.update_of_ne hk]
  exact h j k a b ha hb hkey hjk

/-- The first entry of the scan is the oldest one of its key. -/
theorem Ordered.first (h : Ordered key stamps table) {j : Fin n} {a b : α}
    (hfirst : table.firstSlot Option.isSome = some i) (ha : table i = some a)
    (hb : table j = some b) (hkey : key a = key b) (hji : j ≠ i) : stamps i < stamps j := by
  apply h i j a b ha hb hkey
  have hlow := ((table.firstSlot_eq_some_iff _ _).mp hfirst).2
  rcases lt_or_gt_of_ne hji with hless | hmore
  · have hnone := hlow j hless
    simp [hb] at hnone
  · exact hmore

end Keep

section Fill

variable [Preorder τ] {key : α → κ} {stamps : Fin n → τ} {table : SlotTable n α} {i : Fin n}
  {a : α} {stamp : τ}

/-- A newer entry keeps the order exactly when it goes above all entries of its
key. -/
theorem ordered_fill_iff (h : Ordered key stamps table) (hfree : table i = none)
    (hnewest : ∀ j b, table j = some b → stamps j < stamp) :
    Ordered key (Function.update stamps i stamp) (table.set i (some a)) ↔
      ∀ j b, table j = some b → key b = key a → j < i := by
  have hother : ∀ {j b}, table j = some b → j ≠ i := by
    rintro j b hb rfl
    simp [hfree] at hb
  constructor
  · intro hordered j b hb hkey
    rcases lt_or_gt_of_ne (hother hb) with hless | hmore
    · exact hless
    · have hnew := hordered i j a b (set_self _ _ _)
        (by rw [set_of_ne _ _ (hother hb), hb]) hkey.symm hmore
      rw [Function.update_self, Function.update_of_ne (hother hb)] at hnew
      exact absurd (hnewest j b hb) hnew.asymm
  · intro habove j k b c hb hc hkey hjk
    rw [set_apply] at hb hc
    split at hb
    · rename_i hji
      subst hji
      cases hb
      rw [if_neg hjk.ne'] at hc
      exact absurd (habove k c hc hkey.symm) hjk.asymm
    · rename_i hji
      split at hc
      · rename_i hki
        subst hki
        rw [Function.update_of_ne hji, Function.update_self]
        exact hnewest j b hb
      · rename_i hki
        rw [Function.update_of_ne hji, Function.update_of_ne hki]
        exact h j k b c hb hc hkey hjk

end Fill

end SlotTable
