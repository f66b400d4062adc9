import Mathlib.GroupTheory.Perm.Cycle.Basic

/-!
The number of steps from one point of a cycle to another: at least one, so
from a point to itself it is once around.
-/

namespace CycleDistance

variable {α : Type*} {f : Equiv.Perm α} {a b : α} {k m : ℕ}

/-- The first return to `b` after `a` is after `k` steps. -/
structure Distance (f : Equiv.Perm α) (a b : α) (k : ℕ) : Prop where
  pos : 0 < k
  arrives : (f ^ k) a = b
  first : ∀ j, 0 < j → j < k → (f ^ j) a ≠ b

theorem pow_succ_apply (f : Equiv.Perm α) (k : ℕ) (a : α) : (f ^ (k + 1)) a = f ((f ^ k) a) := by
  rw [pow_succ', Equiv.Perm.mul_apply]

theorem exists_distance [Fintype α] (hf : f.IsCycleOn Set.univ) (a b : α) :
    ∃ k, Distance f a b k ∧ k ≤ Fintype.card α := by
  classical
  have hcycle : f.IsCycleOn (Finset.univ : Finset α) := by rwa [Finset.coe_univ]
  have hsome : ∃ k, 0 < k ∧ (f ^ k) a = b ∧ k ≤ Fintype.card α := by
    obtain ⟨k, hk, harrives⟩ := hcycle.exists_pow_eq (Finset.mem_univ a) (Finset.mem_univ b)
    have hcard : 0 < Fintype.card α := Fintype.card_pos_iff.mpr ⟨a⟩
    rcases Nat.eq_zero_or_pos k with rfl | hpos
    · refine ⟨Fintype.card α, hcard, ?_, le_rfl⟩
      have haround := hcycle.pow_card_apply (Finset.mem_univ a)
      rw [Finset.card_univ] at haround
      rw [haround]
      simpa using harrives
    · exact ⟨k, hpos, harrives, hk.le⟩
  obtain ⟨hpos, harrives, hle⟩ := Nat.find_spec hsome
  refine ⟨Nat.find hsome, ⟨hpos, harrives, ?_⟩, hle⟩
  intro j hj hlt heq
  exact Nat.find_min hsome hlt ⟨hj, heq, hlt.le.trans hle⟩

/-- From a point to itself it is once around. -/
theorem Distance.self [Fintype α] (hf : f.IsCycleOn Set.univ) (h : Distance f a a k) :
    k = Fintype.card α := by
  have hcycle : f.IsCycleOn (Finset.univ : Finset α) := by rwa [Finset.coe_univ]
  have haround := hcycle.pow_card_apply (Finset.mem_univ a)
  have hdvd : (Finset.univ : Finset α).card ∣ k :=
    (hcycle.pow_apply_eq (Finset.mem_univ a)).mp h.arrives
  rw [Finset.card_univ] at haround hdvd
  have hle : Fintype.card α ≤ k := Nat.le_of_dvd h.pos hdvd
  rcases hle.lt_or_eq with hlt | heq
  · exact absurd haround (h.first _ (Fintype.card_pos_iff.mpr ⟨a⟩) hlt)
  · exact heq.symm

end CycleDistance
