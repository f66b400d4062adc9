import TokenRing.Lib.SlotTable

/-!
Freeing the first slot of each of several kinds, of which an entry has at most
one: the scans do not disturb each other, so their order does not matter.
-/

namespace SlotTable

variable {n : Nat} {α ι : Type*} {table : SlotTable n α} {p q : Option α → Bool}
  {kind : ι → Option α → Bool}

def freeFirst (table : SlotTable n α) (p : Option α → Bool) : SlotTable n α :=
  match table.firstSlot p with
  | none => table
  | some i => table.set i none

theorem freeFirst_apply (table : SlotTable n α) (p : Option α → Bool) (i : Fin n) :
    table.freeFirst p i = if table.firstSlot p = some i then none else table i := by
  unfold freeFirst
  cases hfirst : table.firstSlot p with
  | none => simp
  | some j =>
      simp only [set_apply, Option.some.injEq]
      split
      · rename_i hij
        rw [if_pos hij.symm]
      · rename_i hij
        rw [if_neg (fun hji => hij hji.symm)]

theorem freeFirst_empty (p : Option α → Bool) :
    (empty : SlotTable n α).freeFirst p = empty := by
  funext i
  rw [freeFirst_apply]
  split <;> rfl

/-- Freeing an entry of another kind leaves the scan where it was. -/
theorem firstSlot_freeFirst (hfree : p none = false)
    (hother : ∀ content, q content = true → p content = false) :
    (table.freeFirst q).firstSlot p = table.firstSlot p := by
  unfold firstSlot
  congr 1
  funext i
  rw [freeFirst_apply]
  split
  · rename_i hfirst
    rw [hfree, hother _ (firstSlot_spec hfirst)]
  · rfl

/-- A slot ends free when it was the first of a kind in the list. -/
theorem foldl_freeFirst {kinds : List ι} (hnodup : kinds.Nodup)
    (hfree : ∀ k, kind k none = false)
    (honce : ∀ k l content, kind k content = true → kind l content = true → k = l)
    (table : SlotTable n α) (i : Fin n) :
    (kinds.foldl (fun table k => table.freeFirst (kind k)) table) i =
      if ∃ k ∈ kinds, table.firstSlot (kind k) = some i then none else table i := by
  induction kinds generalizing table with
  | nil => simp
  | cons k rest ih =>
      obtain ⟨hnew, hrest⟩ := List.nodup_cons.mp hnodup
      have hscan : ∀ l ∈ rest, (table.freeFirst (kind k)).firstSlot (kind l) =
          table.firstSlot (kind l) := by
        intro l hl
        apply firstSlot_freeFirst (hfree l)
        intro content hk
        apply Bool.eq_false_iff.mpr
        intro hkind
        rw [honce k l content hk hkind] at hnew
        exact hnew hl
      have hsame : (∃ l ∈ rest, (table.freeFirst (kind k)).firstSlot (kind l) = some i) ↔
          ∃ l ∈ rest, table.firstSlot (kind l) = some i := by
        constructor
        · rintro ⟨l, hl, hfirst⟩
          exact ⟨l, hl, hscan l hl ▸ hfirst⟩
        · rintro ⟨l, hl, hfirst⟩
          exact ⟨l, hl, (hscan l hl).trans hfirst⟩
      rw [List.foldl_cons, ih hrest, freeFirst_apply]
      simp only [hsame, List.exists_mem_cons_iff]
      by_cases hfirst : table.firstSlot (kind k) = some i
      · simp [hfirst]
      · simp [hfirst]

theorem foldl_freeFirst_empty (kinds : List ι) :
    kinds.foldl (fun table k => table.freeFirst (kind k)) (empty : SlotTable n α) = empty := by
  induction kinds with
  | nil => rfl
  | cons k rest ih =>
      rw [List.foldl_cons, freeFirst_empty]
      exact ih

theorem foldl_freeFirst_perm {kinds kinds' : List ι} (hperm : kinds.Perm kinds')
    (hnodup : kinds.Nodup) (hfree : ∀ k, kind k none = false)
    (honce : ∀ k l content, kind k content = true → kind l content = true → k = l)
    (table : SlotTable n α) :
    kinds.foldl (fun table k => table.freeFirst (kind k)) table =
      kinds'.foldl (fun table k => table.freeFirst (kind k)) table := by
  funext i
  rw [foldl_freeFirst hnodup hfree honce, foldl_freeFirst (hperm.nodup_iff.mp hnodup) hfree honce]
  simp only [hperm.mem_iff]

end SlotTable
