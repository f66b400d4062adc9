import Mathlib.Data.Finset.Card
import TokenRing.Lib.SlotTable

/-!
Tables of slots in which a key stands at most once. The key of an entry is
optional: entries without one may repeat.
-/

namespace SlotTable

variable {n : Nat} {α κ : Type*} {key : α → Option κ} {table small : SlotTable n α}
  {i j : Fin n} {a b : α} {k : κ}

/-- No two slots hold entries of one key. -/
def KeysDistinct (key : α → Option κ) (table : SlotTable n α) : Prop :=
  ∀ i j a b k, table i = some a → table j = some b → key a = some k → key b = some k → i = j

theorem keysDistinct_empty : KeysDistinct key (empty : SlotTable n α) := by
  intro i j a b k ha
  cases ha

theorem KeysDistinct.within (h : KeysDistinct key table) (hwithin : Within small table) :
    KeysDistinct key small := by
  intro i j a b k ha hb
  exact h i j a b k (hwithin i a ha) (hwithin j b hb)

/-- An entry goes into a slot when its key stands in no other one. -/
theorem KeysDistinct.set_some (h : KeysDistinct key table)
    (hfresh : ∀ j b k, j ≠ i → table j = some b → key a = some k → key b ≠ some k) :
    KeysDistinct key (table.set i (some a)) := by
  intro x y b c k hx hy hb hc
  rw [set_apply] at hx hy
  split at hx <;> split at hy
  · rename_i hxi hyi
    rw [hxi, hyi]
  · rename_i hxi hyi
    cases hx
    exact absurd hc (hfresh y c k hyi hy hb)
  · rename_i hxi hyi
    cases hy
    exact absurd hb (hfresh x b k hxi hx hc)
  · exact h x y b c k hx hy hb hc

/-- An entry replaces one of the same key. -/
theorem KeysDistinct.replace (h : KeysDistinct key table) (hold : table i = some b)
    (hsame : key b = key a) : KeysDistinct key (table.set i (some a)) := by
  apply h.set_some
  intro j c k hj hc ha hkey
  exact hj (h j i c b k hc hold hkey (hsame.trans ha))

/-- When an entry is freed its key is gone. -/
theorem KeysDistinct.gone (h : KeysDistinct key table) (hslot : table i = some a)
    (ha : key a = some k) (hb : table.set i none j = some b) : key b ≠ some k := by
  intro hkey
  have hj : j ≠ i := by
    rintro rfl
    simp at hb
  rw [set_of_ne table none hj] at hb
  exact hj (h j i b a k hb hslot hkey ha)

/-- The slots whose entries have a key. -/
def keyed (key : α → Option κ) (table : SlotTable n α) : Finset (Fin n) :=
  Finset.univ.filter (fun i => ((table i).bind key).isSome)

theorem mem_keyed : i ∈ table.keyed key ↔ ∃ a k, table i = some a ∧ key a = some k := by
  simp only [keyed, Finset.mem_filter, Finset.mem_univ, true_and, Option.isSome_iff_exists,
    Option.bind_eq_some_iff]
  constructor
  · rintro ⟨k, a, ha, hk⟩
    exact ⟨a, k, ha, hk⟩
  · rintro ⟨a, k, ha, hk⟩
    exact ⟨k, a, ha, hk⟩

/-- There are no more slots with a key than keys. -/
theorem KeysDistinct.card_keyed_le (h : KeysDistinct key table) (keys : Finset κ)
    (hkeys : ∀ i a k, table i = some a → key a = some k → k ∈ keys) :
    (table.keyed key).card ≤ keys.card := by
  have hmaps : ∀ i ∈ table.keyed key, (table i).bind key ∈ keys.map Function.Embedding.some := by
    intro i hi
    obtain ⟨a, k, ha, hk⟩ := mem_keyed.mp hi
    simpa [ha, hk] using hkeys i a k ha hk
  have hinjective : Set.InjOn (fun i => (table i).bind key) (table.keyed key) := by
    intro i hi j hj hsame
    obtain ⟨a, k, ha, hk⟩ := mem_keyed.mp hi
    obtain ⟨b, l, hb, hl⟩ := mem_keyed.mp hj
    have hkl : k = l := by simpa [ha, hk, hb, hl] using hsame
    exact h i j a b k ha hb hk (hkl ▸ hl)
  have hcard := Finset.card_le_card_of_injOn _ hmaps hinjective
  rwa [Finset.card_map] at hcard

end SlotTable
