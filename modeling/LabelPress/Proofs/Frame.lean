import LabelPress.Proofs.Range

/-!
# The frame of a barcode

The width of a frame comes out of two conversions and a number of operations that stop at the ends
of the range. All that is left of them in the end is one upper limit (`Barcode.val_boxWidth`). The
product of the three factors is clamped at every step, which gives what clamping their exact
product gives (`Dot.clamp_mul_clamp`), and a clamped product is too wide for the sheet anyway.

Where the frame itself leaves the range, its right edge stops at the upper end or its top at the
lower end. Its right edge is then nearer to its left edge than it is wide, and never farther
(`Box.right_le`). Its bottom is its height below its top in every case (`Barcode.val_bottom_frame`).
-/

namespace LabelPress

/-! ## Products -/

namespace Dot

theorem val_clamp_natCast (n : Nat) : (clamp n).val = (min n 2147483647 : Nat) := by
  simp only [val_clamp, least, greatest]
  omega

/-- A factor that is cut off at a number gives the same product up to that number. -/
theorem min_mul_min_right (a b m : Nat) : min (a * min b m) m = min (a * b) m := by
  rcases le_total b m with hb | hb
  · rw [min_eq_left hb]
  · rw [min_eq_right hb]
    rcases Nat.eq_zero_or_pos a with rfl | hpos
    · simp
    · have hcut : m ≤ a * m := Nat.le_mul_of_pos_left m hpos
      have hfull : a * m ≤ a * b := Nat.mul_le_mul_left a hb
      omega

/-- Clamping two natural numbers before they are multiplied makes no difference. -/
theorem clamp_mul_clamp (a b : Nat) : clamp a * clamp b = clamp (a * b : Nat) := by
  refine Dot.ext ?_
  rw [val_mul, val_clamp_natCast, val_clamp_natCast, val_clamp_natCast, ← Nat.cast_mul,
    ← min_mul_min_right a b, Nat.mul_comm a, ← min_mul_min_right _ a, Nat.mul_comm (min b _)]
  simp only [least, greatest]
  omega

end Dot

/-! ## Edges -/

/-- The right edge of a box is at most its width to the right of its left edge. -/
theorem Box.right_le {b : Box} (h : 0 ≤ b.width.val) : b.right.val ≤ b.x.val + b.width.val := by
  have hx := b.x.le_val
  simp only [Box.right, Dot.val_add, Dot.least, Dot.greatest]
  omega

namespace Barcode

theorem le_width_frame (x y : Dot) (spec : BarcodeSpec) : 220 ≤ (frame x y spec).width.val :=
  leastWidth_le_boxWidth x spec.value spec.unit

theorem le_height_frame (x y : Dot) (spec : BarcodeSpec) : 40 ≤ (frame x y spec).height.val :=
  leastHeight_le_boxHeight spec.height

/-- A frame ends its height below its top, also where the top is at the lower end of the range. -/
theorem val_bottom_frame (x y : Dot) (spec : BarcodeSpec) :
    (frame x y spec).bottom.val = (frame x y spec).y.val + (frame x y spec).height.val := by
  have hheight := le_height_frame x y spec
  have hmost := (frame x y spec).height.val_le
  have hanchor := (Point.ofNative x y).y.val_le
  have htop : (frame x y spec).y.val =
      max Dot.least (min ((Point.ofNative x y).y.val - (frame x y spec).height.val) Dot.greatest) :=
    rfl
  simp only [Box.bottom, Dot.val_add, Dot.least, Dot.greatest] at htop ⊢
  omega

/-! ## Widths -/

/-- The width of the box for a value, over the integers. -/
theorem val_boxWidth (x : Dot) (value : String) (unit : UInt32) :
    (boxWidth x value unit).val =
      max 220 (min (min (8 * (Text.units value).length * (effectiveUnit unit).toNat : Int)
        (1614 - x.val)) 2147483637) := by
  have hlow := x.le_val
  have hhigh := x.val_le
  have hunit : unitWidth = Dot.clamp (8 : Nat) := rfl
  have hmul : (Text.units value).length * (effectiveUnit unit).toNat * 8 =
      8 * (Text.units value).length * (effectiveUnit unit).toNat := by
    rw [Nat.mul_comm _ 8, ← Nat.mul_assoc]
  have hleast : leastWidth.val = 220 := rfl
  have hmargin : rightMargin.val = 10 := rfl
  have hsheet : sheetWidth.val = 1624 := rfl
  unfold boxWidth
  dsimp only
  rw [hunit, Dot.clamp_mul_clamp, Dot.clamp_mul_clamp, hmul]
  simp only [Dot.val_max, Dot.val_min, Dot.val_sub, Dot.val_clamp, hleast, hmargin, hsheet,
    Dot.least, Dot.greatest]
  push_cast
  generalize 8 * ((Text.units value).length : Int) * (effectiveUnit unit).toNat = wanted
  omega

/-- The width of a barcode's box is eight dots for each unit of the value and each dot of the bar
unit, at most what is left of the sheet but for ten dots, and at least 220 dots. These are exact
numbers: what the operations cut off at the ends of the range shows nowhere but in the greatest
width there is. So the box keeps to the sheet exactly where the least width has room, and has the
least width everywhere else. -/
theorem boxWidth_over_integers :
    (∀ x value unit, (boxWidth x value unit).val =
      max 220 (min (min (8 * (Text.units value).length * (effectiveUnit unit).toNat : Int)
        (1614 - x.val)) 2147483637)) ∧
    ∀ x y spec, ((place x y spec).frame.right.val ≤ 1614 ↔ x.val ≤ 1394) ∧
      (1394 < x.val → (place x y spec).frame.width.val = 220) := by
  refine ⟨val_boxWidth, fun x y spec => ?_⟩
  have hx := x.le_val
  have hwidth : (frame x y spec).width.val = _ := val_boxWidth x spec.value spec.unit
  have hright : (frame x y spec).right.val =
      max Dot.least (min (x.val + (frame x y spec).width.val) Dot.greatest) := rfl
  simp only [place, hright, hwidth, Dot.least, Dot.greatest]
  generalize 8 * ((Text.units spec.value).length : Int) * (effectiveUnit spec.unit).toNat = wanted
  omega

end Barcode

end LabelPress
