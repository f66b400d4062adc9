import TokenRing.Lib.CycleInsert

/-!
A ring with one token, as a set of nodes that a permutation runs through in one
cycle. The token goes from node to node; a new node enters right before the
place of the token.
-/

structure GrowingRing (α : Type*) where
  nodes : Set α
  next : Equiv.Perm α
  place : α
  cycle : next.IsCycleOn nodes
  outside : ∀ x, x ∉ nodes → next x = x
  place_mem : place ∈ nodes

namespace GrowingRing

open Equiv CycleInsert

variable {α : Type*}

/-- The part of a permutation on a set that it maps into itself, with all other
points fixed, is one cycle on the set if the permutation is. -/
theorem isCycleOn_ofSubtype {f : Perm α} {s : Set α} [DecidablePred (· ∈ s)]
    (hf : f.IsCycleOn s) :
    (Perm.ofSubtype (f.subtypePerm fun _ => hf.apply_mem_iff) : Perm α).IsCycleOn s := by
  have heq : ∀ x ∈ s, Perm.ofSubtype (f.subtypePerm fun _ => hf.apply_mem_iff) x = f x := by
    intro x hx
    rw [Perm.ofSubtype_apply_of_mem _ hx, Perm.subtypePerm_apply]
  refine ⟨hf.1.congr fun x hx => (heq x hx).symm, fun x hx y hy => ?_⟩
  obtain ⟨n, rfl⟩ := hf.2 hx hy
  refine ⟨n, ?_⟩
  rw [← map_zpow, Perm.subtypePerm_zpow, Perm.ofSubtype_apply_of_mem _ hx, Perm.subtypePerm_apply]

/-- The ring of the points of a cycle, with the token at one of them. -/
def ofCycle (f : Perm α) (s : Set α) [DecidablePred (· ∈ s)] (hf : f.IsCycleOn s) (x : α)
    (hx : x ∈ s) : GrowingRing α where
  nodes := s
  next := Perm.ofSubtype (f.subtypePerm fun _ => hf.apply_mem_iff)
  place := x
  cycle := isCycleOn_ofSubtype hf
  outside _ hy := Perm.ofSubtype_apply_of_not_mem _ hy
  place_mem := hx

theorem ofCycle_next {f : Perm α} {s : Set α} [DecidablePred (· ∈ s)] {hf : f.IsCycleOn s}
    {x : α} {hx : x ∈ s} {y : α} (hy : y ∈ s) : (ofCycle f s hf x hx).next y = f y := by
  unfold ofCycle
  rw [Perm.ofSubtype_apply_of_mem _ hy, Perm.subtypePerm_apply]

theorem ofCycle_prev {f : Perm α} {s : Set α} [DecidablePred (· ∈ s)] {hf : f.IsCycleOn s}
    {x : α} {hx : x ∈ s} {y : α} (hy : y ∈ s) :
    (ofCycle f s hf x hx).next.symm y = f.symm y := by
  have hback : f.symm y ∈ s := hf.apply_mem_iff.mp (by simpa using hy)
  rw [symm_apply_eq, ofCycle_next hback, apply_symm_apply]

/-- The token goes to the next node. -/
def pass (r : GrowingRing α) : GrowingRing α :=
  { r with
    place := r.next r.place
    place_mem := r.cycle.apply_mem_iff.mpr r.place_mem }

variable [DecidableEq α]

/-- A new node enters right before the place of the token. -/
def enter (r : GrowingRing α) (new : α) (hnew : new ∉ r.nodes) : GrowingRing α where
  nodes := insert new r.nodes
  next := insertAfter r.next (r.next.symm r.place) new
  place := r.place
  cycle := by
    have hprev : r.next.symm r.place ∈ r.nodes :=
      r.cycle.apply_mem_iff.mp (by simpa using r.place_mem)
    exact isCycleOn_insertAfter r.cycle hprev hnew (r.outside new hnew)
  outside := by
    intro x hx
    have hold : x ∉ r.nodes := fun h => hx (Set.mem_insert_of_mem _ h)
    have hprev : x ≠ r.next.symm r.place := by
      rintro rfl
      exact hold (r.cycle.apply_mem_iff.mp (by simpa using r.place_mem))
    have hother : x ≠ new := by
      rintro rfl
      exact hx (Set.mem_insert _ _)
    rw [insertAfter_of_ne hprev hother, r.outside x hold]
  place_mem := Set.mem_insert_of_mem _ r.place_mem

/-- One step of the ring. -/
inductive Step : GrowingRing α → GrowingRing α → Prop where
  | pass (r : GrowingRing α) : Step r r.pass
  | enter (r : GrowingRing α) (new : α) (hnew : new ∉ r.nodes) : Step r (r.enter new hnew)

/-- The rings that some steps lead to. -/
abbrev Steps : GrowingRing α → GrowingRing α → Prop := Relation.ReflTransGen Step

end GrowingRing
