import Mathlib.Data.Nat.ModEq
import Mathlib.Data.List.Basic

/-!
Numbers of a fixed size as bytes, and records that are made of fields one behind
the other. Reading past the end of a record gives zeros.
-/

namespace ByteFields

variable {size n offset : Nat} {piece rest bytes : List UInt8}

/-- The lowest digits of a number to the base 256, the lowest one first. -/
def littleEndian : Nat → Nat → List UInt8
  | 0, _ => []
  | size + 1, n => UInt8.ofNat n :: littleEndian size (n / 256)

def value (bytes : List UInt8) : Nat := bytes.foldr (fun b n => 256 * n + b.toNat) 0

def slice (record : List UInt8) (offset size : Nat) : List UInt8 :=
  (List.range size).map (fun i => record.getD (offset + i) 0)

section Numbers

@[simp] theorem value_nil : value [] = 0 := rfl

@[simp] theorem value_cons (b : UInt8) (bytes : List UInt8) :
    value (b :: bytes) = 256 * value bytes + b.toNat := rfl

@[simp] theorem length_littleEndian (size n : Nat) : (littleEndian size n).length = size := by
  induction size generalizing n with
  | zero => rfl
  | succ size ih => simp [littleEndian, ih]

theorem value_littleEndian (size n : Nat) : value (littleEndian size n) = n % 256 ^ size := by
  induction size generalizing n with
  | zero => simp [littleEndian, Nat.mod_one]
  | succ size ih =>
      have hdigit : (UInt8.ofNat n).toNat = n % 256 := by simp
      rw [littleEndian, value_cons, ih, hdigit, Nat.pow_succ', Nat.mod_mul]
      omega

theorem value_lt (bytes : List UInt8) : value bytes < 256 ^ bytes.length := by
  induction bytes with
  | nil => simp
  | cons b rest ih =>
      have hdigit := b.toNat_lt
      rw [value_cons, List.length_cons, Nat.pow_succ']
      omega

/-- The digits of a value are its bytes. -/
theorem littleEndian_value (bytes : List UInt8) :
    littleEndian bytes.length (value bytes) = bytes := by
  induction bytes with
  | nil => rfl
  | cons b rest ih =>
      have hdigit := b.toNat_lt
      have hhigh : (256 * value rest + b.toNat) / 256 = value rest := by omega
      have hlow : UInt8.ofNat (256 * value rest + b.toNat) = b := by
        apply UInt8.toNat_inj.mp
        simp only [UInt8.toNat_ofNat']
        omega
      rw [List.length_cons, littleEndian, value_cons, hhigh, hlow, ih]

end Numbers

section Records

@[simp] theorem length_slice (record : List UInt8) (offset size : Nat) :
    (slice record offset size).length = size := by
  simp [slice]

/-- The first field of a record. -/
theorem slice_here (h : piece.length = size) : slice (piece ++ rest) 0 size = piece := by
  apply List.ext_getElem
  · simp [h]
  · intro i hi hi'
    simp [slice, List.getElem?_append_left hi', hi']

theorem slice_whole (h : piece.length = size) : slice piece 0 size = piece := by
  have hwhole : slice (piece ++ []) 0 size = piece := slice_here h
  rwa [List.append_nil] at hwhole

/-- A field behind the first one. -/
theorem slice_behind (h : piece.length ≤ offset) :
    slice (piece ++ rest) offset size = slice rest (offset - piece.length) size := by
  unfold slice
  apply List.map_congr_left
  intro i _
  have hindex : offset + i - piece.length = offset - piece.length + i := by omega
  rw [List.getD_eq_getElem?_getD, List.getD_eq_getElem?_getD,
    List.getElem?_append_right (by omega), hindex]

end Records

end ByteFields
