import Mathlib.Data.Finset.Card
import Mathlib.Data.List.Nodup

/-!
A bounded first-in-first-out set: a key that is present stays where it is, a
new one goes to the end, and a full set then loses its oldest key. Entries with
a value under each key follow their keys.
-/

namespace FifoSet

variable {α κ : Type*} [DecidableEq κ] {capacity : Nat} {key : α → κ} {keys older newer : List κ}
  {k x : κ}

def insert (capacity : Nat) (keys : List κ) (k : κ) : List κ :=
  if k ∈ keys then
    keys
  else if capacity ≤ keys.length then
    (keys ++ [k]).tail
  else
    keys ++ [k]

/-- An entry replaces the one with its key, or is inserted as a new one. -/
def record (capacity : Nat) (key : α → κ) (entries : List α) (entry : α) : List α :=
  if key entry ∈ entries.map key then
    entries.map (fun old => if key old = key entry then entry else old)
  else if capacity ≤ entries.length then
    (entries ++ [entry]).tail
  else
    entries ++ [entry]

/-- How many keys of the second list are absent when they are inserted. -/
def misses (capacity : Nat) : List κ → List κ → Nat
  | _, [] => 0
  | keys, k :: rest => (if k ∈ keys then 0 else 1) + misses capacity (insert capacity keys k) rest

theorem insert_of_mem (h : k ∈ keys) : insert capacity keys k = keys := by
  simp [insert, h]

theorem insert_of_full (h : k ∉ keys) (hfull : capacity ≤ keys.length) :
    insert capacity keys k = (keys ++ [k]).tail := by
  simp [insert, h, hfull]

theorem insert_of_room (h : k ∉ keys) (hroom : keys.length < capacity) :
    insert capacity keys k = keys ++ [k] := by
  have hnot : ¬ capacity ≤ keys.length := Nat.not_le.mpr hroom
  simp [insert, h, hnot]

/-- The keys of recorded entries are a set of keys. -/
theorem map_record (entries : List α) (entry : α) :
    (record capacity key entries entry).map key =
      insert capacity (entries.map key) (key entry) := by
  unfold record insert
  rw [List.length_map]
  split
  · rw [List.map_map]
    apply List.map_congr_left
    intro old _
    by_cases hsame : key old = key entry
    · simp [hsame]
    · simp [hsame]
  · split
    · simp [List.map_tail]
    · simp

theorem insert_nodup (h : keys.Nodup) : (insert capacity keys k).Nodup := by
  unfold insert
  split
  · exact h
  · rename_i hnew
    have happend : (keys ++ [k]).Nodup := by
      apply List.nodup_append.mpr
      refine ⟨h, List.nodup_singleton k, ?_⟩
      intro a ha b hb hab
      rw [hab, List.mem_singleton.mp hb] at ha
      exact hnew ha
    split
    · exact happend.tail
    · exact happend

theorem insert_length (h : keys.length ≤ capacity) :
    (insert capacity keys k).length ≤ capacity := by
  unfold insert
  split
  · exact h
  · split
    · simpa using h
    · simp
      omega

theorem mem_insert_self (hcapacity : 0 < capacity) : k ∈ insert capacity keys k := by
  unfold insert
  split
  · assumption
  · split
    · rename_i hfull
      cases keys with
      | nil => simp at hfull; omega
      | cons first rest => simp
    · simp

/-- A key with newer ones behind it leaves with the one that fills the set. -/
theorem insert_behind (hnew : k ∉ older ++ x :: newer)
    (hbound : (older ++ x :: newer).length ≤ capacity) (hroom : newer.length + 1 < capacity) :
    ∃ left, insert capacity (older ++ x :: newer) k = left ++ x :: (newer ++ [k]) := by
  by_cases hfull : capacity ≤ (older ++ x :: newer).length
  · rw [insert_of_full hnew hfull]
    cases older with
    | nil => simp at hfull; omega
    | cons first rest => exact ⟨rest, by simp⟩
  · rw [insert_of_room hnew (Nat.lt_of_not_le hfull)]
    exact ⟨older, by simp⟩

theorem insert_last (hnew : k ∉ older ++ x :: newer)
    (hbound : (older ++ x :: newer).length ≤ capacity) (hlast : newer.length + 1 = capacity) :
    insert capacity (older ++ x :: newer) k = newer ++ [k] := by
  have holder : older = [] := by
    apply List.length_eq_zero_iff.mp
    simp at hbound
    omega
  subst holder
  rw [insert_of_full hnew (by simp; omega)]
  simp

section Room

variable {entries recorded : List α} {entry e : α}

/-- With room for a new key nothing leaves but the entry that is replaced. -/
theorem mem_record (hroom : key entry ∈ entries.map key ∨ entries.length < capacity) :
    e ∈ record capacity key entries entry ↔
      e = entry ∨ (e ∈ entries ∧ key e ≠ key entry) := by
  unfold record
  split
  · rename_i hknown
    obtain ⟨old, hold, hsame⟩ := List.mem_map.mp hknown
    rw [List.mem_map]
    constructor
    · rintro ⟨x, hx, rfl⟩
      split
      · exact .inl rfl
      · exact .inr ⟨hx, ‹_›⟩
    · rintro (rfl | ⟨he, hother⟩)
      · exact ⟨old, hold, if_pos hsame⟩
      · exact ⟨e, he, if_neg hother⟩
  · rename_i hnew
    have hspace := hroom.resolve_left hnew
    rw [if_neg (by omega), List.mem_append, List.mem_singleton]
    constructor
    · rintro (he | rfl)
      · right
        refine ⟨he, ?_⟩
        intro hsame
        exact hnew (List.mem_map.mpr ⟨e, he, hsame⟩)
      · exact .inl rfl
    · rintro (rfl | ⟨he, _⟩)
      · exact .inr rfl
      · exact .inl he

theorem mem_insert (hroom : k ∈ keys ∨ keys.length < capacity) :
    x ∈ insert capacity keys k ↔ x = k ∨ x ∈ keys := by
  by_cases hknown : k ∈ keys
  · rw [insert_of_mem hknown]
    constructor
    · exact .inr
    · rintro (rfl | hx)
      · exact hknown
      · exact hx
  · rw [insert_of_room hknown (hroom.resolve_left hknown), List.mem_append, List.mem_singleton,
      or_comm]

/-- A key of a collection that fits is known or finds room. -/
theorem known_or_room {all : Finset κ} (hkeys : keys.Nodup) (hsub : keys.toFinset ⊆ all)
    (hk : k ∈ all) (hroom : all.card ≤ capacity) : k ∈ keys ∨ keys.length < capacity := by
  by_cases hknown : k ∈ keys
  · exact .inl hknown
  · right
    have hmore : keys.toFinset.card < all.card := by
      apply Finset.card_lt_card
      apply (Finset.ssubset_iff_of_subset hsub).mpr
      exact ⟨k, hk, fun hmem => hknown (List.mem_toFinset.mp hmem)⟩
    rw [List.toFinset_card_of_nodup hkeys] at hmore
    omega

/-- While all keys fit, the recorded entries are there in the end, and the older
ones of other keys. -/
theorem mem_foldl_record (hkeys : (entries.map key).Nodup) (hrecorded : (recorded.map key).Nodup)
    (hroom : ((entries.map key).toFinset ∪ (recorded.map key).toFinset).card ≤ capacity) :
    e ∈ recorded.foldl (record capacity key) entries ↔
      e ∈ recorded ∨ (e ∈ entries ∧ key e ∉ recorded.map key) := by
  induction recorded generalizing entries with
  | nil => simp
  | cons entry rest ih =>
      obtain ⟨hfirst, hrest⟩ := List.nodup_cons.mp hrecorded
      have hspace := known_or_room hkeys Finset.subset_union_left
        (Finset.mem_union_right _ (by simp : key entry ∈ ((entry :: rest).map key).toFinset)) hroom
      have hmid : ((record capacity key entries entry).map key).Nodup := by
        rw [map_record]
        exact insert_nodup hkeys
      have hsame : ((record capacity key entries entry).map key).toFinset ∪
            (rest.map key).toFinset =
          (entries.map key).toFinset ∪ ((entry :: rest).map key).toFinset := by
        ext k
        rw [map_record, Finset.mem_union, List.mem_toFinset, mem_insert hspace]
        simp only [Finset.mem_union, List.mem_toFinset, List.map_cons, List.mem_cons]
        tauto
      rw [List.length_map] at hspace
      rw [List.foldl_cons, ih hmid hrest (hsame ▸ hroom), mem_record hspace, List.mem_cons,
        List.map_cons, List.mem_cons]
      constructor
      · rintro (he | ⟨rfl | ⟨he, hother⟩, hlater⟩)
        · exact .inl (.inr he)
        · exact .inl (.inl rfl)
        · right
          exact ⟨he, fun hmem => hmem.elim hother hlater⟩
      · rintro ((rfl | he) | ⟨he, hnone⟩)
        · exact .inr ⟨.inl rfl, hfirst⟩
        · exact .inl he
        · right
          exact ⟨.inr ⟨he, fun hsame => hnone (.inl hsame)⟩, fun hlater => hnone (.inr hlater)⟩

end Room

theorem foldl_insert_of_no_misses (more : List κ) (h : misses capacity keys more = 0) :
    more.foldl (insert capacity) keys = keys := by
  induction more with
  | nil => rfl
  | cons k rest ih =>
      have hmem : k ∈ keys := by
        by_contra hnew
        simp [misses, hnew] at h
      have hrest : misses capacity keys rest = 0 := by
        simpa [misses, hmem, insert_of_mem] using h
      rw [List.foldl_cons, insert_of_mem hmem]
      exact ih hrest

/-- Behind a key there is room for as many new ones as the capacity leaves; the
one after them removes it. -/
theorem mem_foldl_behind (more : List κ) (hnodup : (older ++ x :: newer).Nodup)
    (hbound : (older ++ x :: newer).length ≤ capacity)
    (hmisses : newer.length + misses capacity (older ++ x :: newer) more ≤ capacity) :
    x ∈ more.foldl (insert capacity) (older ++ x :: newer) ↔
      newer.length + misses capacity (older ++ x :: newer) more < capacity := by
  induction more generalizing older newer with
  | nil =>
      simp [misses] at hbound ⊢
      omega
  | cons k rest ih =>
      have hafter : (insert capacity (older ++ x :: newer) k).Nodup := insert_nodup hnodup
      have hlength := insert_length (k := k) hbound
      rw [List.foldl_cons]
      by_cases hmem : k ∈ older ++ x :: newer
      · simp only [misses, hmem, if_true, insert_of_mem, Nat.zero_add] at hmisses ⊢
        exact ih hnodup hbound hmisses
      · simp only [misses, hmem, if_false] at hmisses ⊢
        by_cases hroom : newer.length + 1 < capacity
        · obtain ⟨left, hleft⟩ := insert_behind hmem hbound hroom
          rw [hleft] at hafter hlength hmisses ⊢
          have hmore : (newer ++ [k]).length = newer.length + 1 := by simp
          rw [ih hafter hlength (by omega)]
          omega
        · have hlast : newer.length + 1 = capacity := by
            simp at hbound
            omega
          have hgone := insert_last hmem hbound hlast
          have hnone : misses capacity (insert capacity (older ++ x :: newer) k) rest = 0 := by
            omega
          rw [foldl_insert_of_no_misses rest hnone, hgone]
          have hx : x ∉ newer ++ [k] := by
            have hbehind := (List.nodup_cons.mp (List.nodup_append.mp hnodup).2.1).1
            have hother : x ≠ k := by
              rintro rfl
              simp at hmem
            simp [hbehind, hother]
          simp only [hx, false_iff, Nat.not_lt]
          omega

/-- An absent key that is inserted stays until as many further absent keys as
the set holds have been inserted. -/
theorem mem_foldl_iff (more : List κ) (hcapacity : 0 < capacity) (hnodup : keys.Nodup)
    (hbound : keys.length ≤ capacity) (hnew : x ∉ keys)
    (hmisses : misses capacity (insert capacity keys x) more ≤ capacity) :
    x ∈ more.foldl (insert capacity) (insert capacity keys x) ↔
      misses capacity (insert capacity keys x) more < capacity := by
  have hlast : ∃ older, insert capacity keys x = older ++ x :: [] := by
    by_cases hfull : capacity ≤ keys.length
    · rw [insert_of_full hnew hfull]
      cases keys with
      | nil => simp at hfull; omega
      | cons first rest => exact ⟨rest, by simp⟩
    · exact ⟨keys, insert_of_room hnew (Nat.lt_of_not_le hfull)⟩
  obtain ⟨older, hlast⟩ := hlast
  have hafter : (insert capacity keys x).Nodup := insert_nodup hnodup
  have hlength := insert_length (k := x) hbound
  rw [hlast] at hafter hlength hmisses ⊢
  have hall := mem_foldl_behind more hafter hlength (by simpa using hmisses)
  simpa using hall

end FifoSet
