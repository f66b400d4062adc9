import Mathlib.Data.Finmap
import TokenRing.Lib.SlotKeys

/-!
Finite maps with a bound on the number of their keys, and the tables of slots
that represent such a map: each entry stands for a key with its value, and no
key has two entries.
-/

/-- A finite map with at most `n` keys. -/
structure BoundedMap (n : Nat) (κ β : Type*) where
  entries : Finmap (fun _ : κ => β)
  bounded : entries.keys.card ≤ n

namespace BoundedMap

variable {n : Nat} {κ β : Type*}

def empty : BoundedMap n κ β := ⟨∅, by simp⟩

/-- The number of keys. -/
def size (map : BoundedMap n κ β) : Nat := map.entries.keys.card

variable [DecidableEq κ]

def find (map : BoundedMap n κ β) (k : κ) : Option β := map.entries.lookup k

theorem keys_insert (entries : Finmap (fun _ : κ => β)) (k : κ) (b : β) :
    (entries.insert k b).keys = insert k entries.keys := by
  ext j
  simp [Finmap.mem_keys, Finmap.mem_insert]

/-- One more key, where there is room for it. -/
def add (map : BoundedMap n κ β) (k : κ) (b : β) : Option (BoundedMap n κ β) :=
  if hroom : map.size < n then
    some ⟨map.entries.insert k b, by
      rw [keys_insert]
      exact (Finset.card_insert_le _ _).trans hroom⟩
  else
    none

/-- A new value for a key that the map has. -/
def modify (map : BoundedMap n κ β) (k : κ) (f : β → β) : BoundedMap n κ β :=
  match hfind : map.find k with
  | none => map
  | some b => ⟨map.entries.insert k (f b), by
      have hmem : k ∈ map.entries.keys :=
        Finmap.mem_keys.mpr (Finmap.mem_of_lookup_eq_some hfind)
      rw [keys_insert, Finset.insert_eq_of_mem hmem]
      exact map.bounded⟩

variable {map map' : BoundedMap n κ β} {k : κ} {b : β}

@[simp] theorem find_empty (k : κ) : (empty : BoundedMap n κ β).find k = none :=
  Finmap.lookup_empty k

theorem find_insert (entries : Finmap (fun _ : κ => β)) (k j : κ) (b : β) :
    (entries.insert k b).lookup j = if j = k then some b else entries.lookup j := by
  split
  · rename_i hsame
    rw [hsame]
    exact Finmap.lookup_insert entries
  · rename_i hother
    exact Finmap.lookup_insert_of_ne entries hother

/-- The other keys keep their values. -/
theorem find_add (h : map.add k b = some map') (j : κ) :
    map'.find j = if j = k then some b else map.find j := by
  unfold add at h
  split at h
  · cases h
    exact find_insert map.entries k j b
  · cases h

theorem find_modify (map : BoundedMap n κ β) (k : κ) (f : β → β) (j : κ) :
    (map.modify k f).find j = if j = k then (map.find k).map f else map.find j := by
  unfold modify
  split
  · rename_i hnone
    split
    · rename_i hsame
      rw [hsame, hnone]
      rfl
    · rfl
  · rename_i old hold
    simp only [hold, Option.map_some]
    exact find_insert map.entries k j (f old)

theorem mem_keys : k ∈ map.entries.keys ↔ ∃ b, map.find k = some b := by
  rw [Finmap.mem_keys]
  exact Finmap.mem_iff

end BoundedMap

namespace SlotTable

variable {n : Nat} {α κ β : Type*} {key : α → κ} {value : α → β} {table : SlotTable n α}
  {map : BoundedMap n κ β} {i : Fin n} {a a' : α} {k : κ}

/-- A slot that is free, or whose entry has the key, gets an entry of that key:
the entries of the other keys stay. -/
theorem others_set {b : β} (hsame : ∀ old, table i = some old → key old = key a)
    (hother : k ≠ key a) :
    (∃ j entry, table.set i (some a) j = some entry ∧ key entry = k ∧ value entry = b) ↔
      ∃ j entry, table j = some entry ∧ key entry = k ∧ value entry = b := by
  constructor
  · rintro ⟨j, entry, hentry, hkey, hvalue⟩
    rw [set_apply] at hentry
    split at hentry
    · cases hentry
      exact absurd hkey.symm hother
    · exact ⟨j, entry, hentry, hkey, hvalue⟩
  · rintro ⟨j, entry, hentry, hkey, hvalue⟩
    have hj : j ≠ i := by
      rintro rfl
      exact hother (hkey.symm.trans (hsame entry hentry))
    exact ⟨j, entry, by rwa [set_of_ne table _ hj], hkey, hvalue⟩

variable [DecidableEq κ]

structure Represents (key : α → κ) (value : α → β) (table : SlotTable n α)
    (map : BoundedMap n κ β) : Prop where
  distinct : KeysDistinct (fun a => some (key a)) table
  find : ∀ k b, map.find k = some b ↔ ∃ i a, table i = some a ∧ key a = k ∧ value a = b

theorem represents_empty : Represents key value (empty : SlotTable n α) BoundedMap.empty := by
  constructor
  · exact keysDistinct_empty
  · intro k b
    simp [empty]

namespace Represents

theorem of_slot (h : Represents key value table map) (hslot : table i = some a) :
    map.find (key a) = some (value a) :=
  (h.find _ _).mpr ⟨i, a, hslot, rfl, rfl⟩

theorem slot_unique {j : Fin n} (h : Represents key value table map) (hslot : table i = some a)
    (hother : table j = some a') (hkey : key a' = key a) : j = i :=
  h.distinct j i a' a (key a) hother hslot (congrArg some hkey) rfl

/-- The scan for a key comes to its entry. -/
theorem firstSlot_key (h : Represents key value table map) (hslot : table i = some a)
    (hkey : key a = k) :
    table.firstSlot (fun content => content.any (fun entry => key entry = k)) = some i := by
  have hmatch : (table i).any (fun entry => key entry = k) = true := by simp [hslot, hkey]
  obtain ⟨j, hfirst⟩ : ∃ j, table.firstSlot
      (fun content => content.any (fun entry => key entry = k)) = some j :=
    firstSlot_isSome hmatch
  obtain ⟨entry, hentry, hfound⟩ := (Option.any_eq_true _ _).mp (firstSlot_spec hfirst)
  rw [hfirst, h.slot_unique hslot hentry ((of_decide_eq_true hfound).trans hkey.symm)]

theorem not_known (h : Represents key value table map) (hnew : map.find k = none)
    (hslot : table i = some a) : key a ≠ k := by
  rintro rfl
  rw [h.of_slot hslot] at hnew
  cases hnew

theorem firstSlot_unknown (h : Represents key value table map) (hnew : map.find k = none) :
    table.firstSlot (fun content => content.any (fun entry => key entry = k)) = none := by
  rw [firstSlot_eq_none_iff]
  intro i
  cases hslot : table i with
  | none => rfl
  | some a =>
      have hother := h.not_known hnew hslot
      simp [hother]

/-- There are as many entries as keys. -/
theorem size_eq (h : Represents key value table map) : map.size = table.used.card := by
  have hkeys : map.entries.keys.map Function.Embedding.some =
      table.used.image (fun i => (table i).map key) := by
    ext k
    simp only [Finset.mem_map, BoundedMap.mem_keys, h.find, Finset.mem_image, mem_used,
      Option.isSome_iff_exists, Function.Embedding.some_apply]
    constructor
    · rintro ⟨k, ⟨b, i, a, hslot, rfl, _⟩, rfl⟩
      exact ⟨i, ⟨a, hslot⟩, by rw [hslot, Option.map_some]⟩
    · rintro ⟨i, ⟨a, hslot⟩, rfl⟩
      exact ⟨key a, ⟨value a, i, a, hslot, rfl, rfl⟩, by rw [hslot, Option.map_some]⟩
  have hinjective : Set.InjOn (fun i => (table i).map key) table.used := by
    intro i hi j hj hsame
    obtain ⟨a, ha⟩ := Option.isSome_iff_exists.mp ((mem_used table i).mp hi)
    obtain ⟨b, hb⟩ := Option.isSome_iff_exists.mp ((mem_used table j).mp hj)
    simp only [ha, hb, Option.map_some, Option.some.injEq] at hsame
    exact h.slot_unique hb ha hsame
  have hcard := congrArg Finset.card hkeys
  rwa [Finset.card_map, Finset.card_image_of_injOn hinjective] at hcard

/-- The map has room for a key when the table has a free slot. -/
theorem room_iff (h : Represents key value table map) : map.size < n ↔ ∃ i, table i = none := by
  rw [h.size_eq]
  constructor
  · intro hless
    by_contra hfull
    have hall : table.used = Finset.univ := by
      ext i
      simpa [Option.isSome_iff_ne_none] using fun hnone => hfull ⟨i, hnone⟩
    rw [hall, Finset.card_univ, Fintype.card_fin] at hless
    exact lt_irrefl n hless
  · rintro ⟨i, hfree⟩
    exact table.card_used_lt hfree

/-- A new key goes into a free slot. -/
theorem add (h : Represents key value table map) (hfree : table i = none)
    (hnew : map.find (key a) = none) :
    ∃ map', map.add (key a) (value a) = some map' ∧
      Represents key value (table.set i (some a)) map' := by
  have hroom : map.size < n := h.room_iff.mpr ⟨i, hfree⟩
  obtain ⟨map', hadd⟩ : ∃ map', map.add (key a) (value a) = some map' := by
    unfold BoundedMap.add
    rw [dif_pos hroom]
    exact ⟨_, rfl⟩
  refine ⟨map', hadd, ?_, ?_⟩
  · apply h.distinct.set_some
    intro j b k _ hb ha hkey
    have hother := h.not_known hnew hb
    exact hother (Option.some.inj (hkey.trans ha.symm))
  · intro k b
    rw [BoundedMap.find_add hadd]
    split
    · rename_i hsame
      subst hsame
      constructor
      · intro hb
        exact ⟨i, a, set_self table i _, rfl, Option.some.inj hb⟩
      · rintro ⟨j, b', hb', hkey, rfl⟩
        rw [set_apply] at hb'
        split at hb'
        · cases hb'
          rfl
        · exact absurd hkey (h.not_known hnew hb')
    · rename_i hother
      rw [h.find]
      refine (others_set ?_ hother).symm
      intro old hold
      rw [hfree] at hold
      cases hold

/-- An entry gets a new value. -/
theorem modify {f : β → β} (h : Represents key value table map) (hslot : table i = some a)
    (hkey : key a' = key a) (hvalue : value a' = f (value a)) :
    Represents key value (table.set i (some a')) (map.modify (key a) f) := by
  constructor
  · exact h.distinct.replace hslot (congrArg some hkey.symm)
  · intro k b
    rw [BoundedMap.find_modify]
    split
    · rename_i hsame
      subst hsame
      rw [h.of_slot hslot, Option.map_some]
      constructor
      · intro hb
        exact ⟨i, a', set_self table i _, hkey, hvalue.trans (Option.some.inj hb)⟩
      · rintro ⟨j, b', hb', hsame, rfl⟩
        rw [set_apply] at hb'
        split at hb'
        · cases hb'
          rw [hvalue]
        · rename_i hj
          exact absurd (h.slot_unique hslot hb' hsame) hj
    · rename_i hother
      rw [← hkey] at hother
      rw [h.find]
      refine (others_set ?_ hother).symm
      intro old hold
      rw [hslot] at hold
      cases hold
      exact hkey.symm

end Represents

end SlotTable
