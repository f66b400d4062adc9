import TokenRing.Types

/-!
Nodes with one-letter names, for rings of a given size.
-/

namespace TokenRing

/-- The numerals of `Fin 2` and `Fin 3` stand for the nodes `A`, `B` and `C`. -/
instance neZero_two : NeZero 2 := ⟨by decide⟩

instance neZero_three : NeZero 3 := ⟨by decide⟩

/-- Node `A` at port 5001, node `B` at the next port, and so on. -/
def letterNode {n : Nat} (i : Fin n) : Route :=
  ⟨NodeName.ofBytes [UInt8.ofNat (65 + i)], UInt16.ofNat (5001 + i)⟩

/-- As long as the letters last, they tell the nodes apart. -/
theorem letterNode_distinct {n : Nat} (hletters : 65 + n ≤ 256) (i j : Fin n)
    (hname : (letterNode i).nodeName = (letterNode j).nodeName) : i = j := by
  have hchars : ∀ k : Fin n, (letterNode k).nodeName.chars = [UInt8.ofNat (65 + k)] := by
    intro k
    have hletter : UInt8.ofNat (65 + k) ≠ 0 := by
      intro hzero
      have hval := congrArg UInt8.toNat hzero
      rw [UInt8.toNat_ofNat', Nat.mod_eq_of_lt (by omega)] at hval
      simp at hval
    have hkept : ∀ c : UInt8, c ≠ 0 → (NodeName.ofBytes [c]).chars = [c] := by
      intro c hc
      simp [NodeName.ofBytes, maxNodeNameSize, hc]
    exact hkept _ hletter
  have hsame := congrArg NodeName.chars hname
  rw [hchars, hchars] at hsame
  have hval := congrArg UInt8.toNat (List.cons.inj hsame).1
  rw [UInt8.toNat_ofNat', UInt8.toNat_ofNat', Nat.mod_eq_of_lt (by omega),
    Nat.mod_eq_of_lt (by omega)] at hval
  omega

theorem twoLetters_distinct (i j : Fin 2)
    (hname : (letterNode i).nodeName = (letterNode j).nodeName) : i = j :=
  letterNode_distinct (by decide) i j hname

theorem threeLetters_distinct (i j : Fin 3)
    (hname : (letterNode i).nodeName = (letterNode j).nodeName) : i = j :=
  letterNode_distinct (by decide) i j hname

end TokenRing
