/-!
# Dots

Lengths and positions on a label are whole numbers of printer dots. They are kept in
a signed 32-bit word, and `Dot` carries that range as part of its value.

A sum, difference or product that leaves the range stops at the nearer end of it
(`Dot.clamp`), so an operation never fails and never wraps. Inside the range it is
the operation on integers (`Dot.val_clamp_of_mem`).
-/

namespace LabelPress

/-- A whole number of dots that a signed 32-bit word can hold. -/
structure Dot where
  /-- The number of dots. -/
  val : Int
  /-- It is at least the least number of the range. -/
  le_val : -2147483648 ≤ val
  /-- It is at most the greatest number of the range. -/
  val_le : val ≤ 2147483647
deriving DecidableEq

namespace Dot

/-- The least number of dots. -/
def least : Int := -2147483648

/-- The greatest number of dots. -/
def greatest : Int := 2147483647

/-- The number of dots nearest to an integer: itself where it is in the range, the
nearer end of the range elsewhere. -/
def clamp (n : Int) : Dot :=
  ⟨max (-2147483648) (min n 2147483647), by omega, by omega⟩

theorem val_clamp (n : Int) : (clamp n).val = max least (min n greatest) := rfl

/-- Clamping changes nothing inside the range. -/
theorem val_clamp_of_mem {n : Int} (lo : least ≤ n) (hi : n ≤ greatest) : (clamp n).val = n := by
  simp only [val_clamp, least, greatest] at *
  omega

/-- Clamping a number of dots gives it back. -/
theorem clamp_val (d : Dot) : clamp d.val = d := by
  obtain ⟨n, lo, hi⟩ := d
  simp only [clamp, Dot.mk.injEq]
  omega

@[ext] theorem ext {a b : Dot} (h : a.val = b.val) : a = b := by
  cases a
  cases b
  simpa using h

/-- The number `d` moved by `n`, stopping at the ends of the range. -/
def shift (d : Dot) (n : Int) : Dot := clamp (d.val + n)

instance {n : Nat} : OfNat Dot n := ⟨clamp n⟩

instance : Inhabited Dot := ⟨0⟩

instance : Add Dot := ⟨fun a b => clamp (a.val + b.val)⟩

instance : Sub Dot := ⟨fun a b => clamp (a.val - b.val)⟩

instance : Mul Dot := ⟨fun a b => clamp (a.val * b.val)⟩

instance : LE Dot := ⟨fun a b => a.val ≤ b.val⟩

instance : LT Dot := ⟨fun a b => a.val < b.val⟩

instance (a b : Dot) : Decidable (a ≤ b) := inferInstanceAs (Decidable (a.val ≤ b.val))

instance (a b : Dot) : Decidable (a < b) := inferInstanceAs (Decidable (a.val < b.val))

instance : Max Dot := maxOfLe

instance : Min Dot := minOfLe

theorem le_def {a b : Dot} : a ≤ b ↔ a.val ≤ b.val := Iff.rfl

theorem lt_def {a b : Dot} : a < b ↔ a.val < b.val := Iff.rfl

theorem val_add (a b : Dot) : (a + b).val = max least (min (a.val + b.val) greatest) := rfl

theorem val_sub (a b : Dot) : (a - b).val = max least (min (a.val - b.val) greatest) := rfl

theorem val_mul (a b : Dot) : (a * b).val = max least (min (a.val * b.val) greatest) := rfl

theorem val_shift (d : Dot) (n : Int) :
    (d.shift n).val = max least (min (d.val + n) greatest) := rfl

theorem val_max (a b : Dot) : (max a b).val = max a.val b.val := by
  change (if a ≤ b then b else a).val = _
  split <;> rename_i h <;> rw [le_def] at h <;> omega

theorem val_min (a b : Dot) : (min a b).val = min a.val b.val := by
  change (if a ≤ b then a else b).val = _
  split <;> rename_i h <;> rw [le_def] at h <;> omega

end Dot

end LabelPress
