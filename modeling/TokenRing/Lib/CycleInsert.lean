import Mathlib.GroupTheory.Perm.Cycle.Basic

/-!
Inserting one point into a cycle. A permutation that is one cycle on a set and
fixes a point outside of it becomes one cycle on both when the point is put
after a member.
-/

namespace CycleInsert

open Equiv

variable {α : Type*} [DecidableEq α] {f : Perm α} {s : Set α} {p b x : α}

/-- The permutation with `b`, a fixed point so far, put after `p`. -/
def insertAfter (f : Perm α) (p b : α) : Perm α := f * swap p b

theorem insertAfter_pred (hfix : f b = b) : insertAfter f p b p = b := by
  simp [insertAfter, hfix]

theorem insertAfter_new : insertAfter f p b b = f p := by
  simp [insertAfter]

theorem insertAfter_of_ne (hp : x ≠ p) (hb : x ≠ b) : insertAfter f p b x = f x := by
  simp [insertAfter, swap_apply_of_ne_of_ne hp hb]

theorem insertAfter_symm_new (hfix : f b = b) : (insertAfter f p b).symm b = p := by
  rw [symm_apply_eq, insertAfter_pred hfix]

theorem insertAfter_symm_next : (insertAfter f p b).symm (f p) = b := by
  rw [symm_apply_eq, insertAfter_new]

theorem insertAfter_symm_of_ne (hnext : x ≠ f p) (hb : x ≠ b) (hfix : f b = b) :
    (insertAfter f p b).symm x = f.symm x := by
  have hp : f.symm x ≠ p := by
    intro h
    exact hnext (by rw [← h, apply_symm_apply])
  have hother : f.symm x ≠ b := by
    intro h
    have hx : x = f b := by rw [← h, apply_symm_apply]
    exact hb (hx.trans hfix)
  rw [symm_apply_eq, insertAfter_of_ne hp hother, apply_symm_apply]

/-- A step of the old cycle is one or two steps of the new one. -/
theorem sameCycle_step (hb : b ∉ s) (hfix : f b = b) (hx : x ∈ s) :
    (insertAfter f p b).SameCycle x (f x) := by
  by_cases hp : x = p
  · subst hp
    have hfirst : (insertAfter f x b).SameCycle x b :=
      ⟨1, by rw [zpow_one, insertAfter_pred hfix]⟩
    have hsecond : (insertAfter f x b).SameCycle b (f x) :=
      ⟨1, by rw [zpow_one, insertAfter_new]⟩
    exact hfirst.trans hsecond
  · have hne : x ≠ b := by
      rintro rfl
      exact hb hx
    exact ⟨1, by rw [zpow_one, insertAfter_of_ne hp hne]⟩

theorem sameCycle_zpow (hf : f.IsCycleOn s) (hb : b ∉ s) (hfix : f b = b) (hx : x ∈ s)
    (n : ℤ) : (insertAfter f p b).SameCycle x ((f ^ n) x) := by
  have hmem : ∀ k : ℤ, (f ^ k) x ∈ s := fun k => (hf.1.perm_zpow k).mapsTo hx
  induction n with
  | zero => exact Perm.SameCycle.refl _ x
  | succ k ih =>
      have hstep := sameCycle_step (p := p) hb hfix (hmem k)
      rw [add_comm, zpow_add, Perm.mul_apply, zpow_one]
      exact ih.trans hstep
  | pred k ih =>
      have hstep := sameCycle_step (p := p) hb hfix (hmem (-(k : ℤ) - 1))
      rw [← Perm.mul_apply, ← zpow_one_add, add_sub_cancel] at hstep
      exact ih.trans hstep.symm

/-- The set with the new point is one cycle. -/
theorem isCycleOn_insertAfter (hf : f.IsCycleOn s) (hp : p ∈ s) (hb : b ∉ s)
    (hfix : f b = b) : (insertAfter f p b).IsCycleOn (insert b s) := by
  constructor
  · have hswap : Set.BijOn (swap p b) (insert b s) (insert b s) := by
      refine (swap p b).bijOn fun x => ?_
      by_cases hxp : x = p
      · subst hxp
        simp [hp]
      · by_cases hxb : x = b
        · subst hxb
          simp [hp]
        · rw [swap_apply_of_ne_of_ne hxp hxb]
    have hbij : Set.BijOn f (insert b s) (insert b s) := by
      have hinsert := hf.1.insert (a := b) (by rwa [hfix])
      rwa [hfix] at hinsert
    exact hbij.comp hswap
  · have hreach : ∀ x ∈ insert b s, (insertAfter f p b).SameCycle p x := by
      rintro x (rfl | hx)
      · exact ⟨1, by rw [zpow_one, insertAfter_pred hfix]⟩
      · obtain ⟨n, rfl⟩ := hf.2 hp hx
        exact sameCycle_zpow hf hb hfix hp n
    intro x hx y hy
    exact (hreach x hx).symm.trans (hreach y hy)

end CycleInsert
