import LabelPress.Proofs.Filling

/-!
# Bars in their frame

The bars of a barcode are the black ones of the stripes that fit into its frame, so each lies where
its stripe was laid: it starts where the stripes before it end, and ends where they end with it
(`edges_barOf`). The sums of widths grow with the number of stripes, which keeps every bar between
the insets of the frame (`liesIn_barOf`) and apart from the other bars (`pairwise_bar?`).

The right edge or the top of a frame may have stopped at an end of the range. A bar is an inset away
from every edge of the frame, so none of its own edges has (`Barcode.LiesIn.isExact`).
-/

namespace LabelPress

/-- Whether no edge of a box is at an end of the range, where an edge stops that would leave it.
The edges are then the exact ones. -/
structure Box.IsExact (b : Box) : Prop where
  least_lt_left : Dot.least < b.x.val
  least_lt_top : Dot.least < b.y.val
  right_lt_greatest : b.x.val + b.width.val < Dot.greatest
  bottom_lt_greatest : b.y.val + b.height.val < Dot.greatest
  val_right : b.right.val = b.x.val + b.width.val
  val_bottom : b.bottom.val = b.y.val + b.height.val

namespace Barcode

/-- Whether a bar lies between the insets of a frame, from top to bottom, and is at most two bar
units wide. -/
structure LiesIn (bar frame : Box) (unit : Nat) : Prop where
  left_le : frame.x.val + 6 ≤ bar.x.val
  right_le : bar.x.val + bar.width.val ≤ frame.right.val - 6
  one_le_width : 1 ≤ bar.width.val
  width_le : bar.width.val ≤ 2 * unit
  top_eq : bar.y.val = frame.y.val + 4
  bottom_eq : bar.y.val + bar.height.val = frame.bottom.val - 4
  le_height : 32 ≤ bar.height.val

/-- A bar in a frame has no edge at an end of the range. -/
theorem LiesIn.isExact {bar frame : Box} {unit : Nat} (h : LiesIn bar frame unit) :
    bar.IsExact := by
  obtain ⟨hleft, hright, hwidth, -, htop, hbottom, hheight⟩ := h
  have hx := frame.x.le_val
  have hy := frame.y.le_val
  have hright' := frame.right.val_le
  have hbottom' := frame.bottom.val_le
  constructor <;>
    simp only [Box.right, Box.bottom, Dot.val_add, Dot.least, Dot.greatest] at * <;> omega

/-! ## Widths -/

/-- A bar unit is at least one dot. -/
theorem one_le_effectiveUnit (unit : UInt32) : 1 ≤ (effectiveUnit unit).toNat := by
  unfold effectiveUnit
  split
  · decide
  · rename_i hunit
    have hne : unit.toNat ≠ 0 := fun h => hunit (UInt32.toNat_inj.mp h)
    omega

namespace Stripes

theorem width_nth_le {s : Stripes} (h : 0 < s.maxWidth) (n : Nat) :
    (s.nth n).width ≤ s.maxWidth := by
  have hmod := Nat.mod_lt (shiftStep (s.skip n).state >>> 1).toNat h
  have hwidth : (s.nth n).width =
      1 + (shiftStep (s.skip n).state >>> 1).toNat % (s.skip n).maxWidth := rfl
  rw [hwidth, maxWidth_skip]
  omega

/-- A stripe is at most two bar units wide. -/
theorem width_nth_start_le (seed unit : UInt32) (n : Nat) :
    ((start seed (effectiveUnit unit)).nth n).width ≤ 2 * (effectiveUnit unit).toNat := by
  have hunit := one_le_effectiveUnit unit
  have hmost : (start seed (effectiveUnit unit)).maxWidth ≤ 2 * (effectiveUnit unit).toNat := by
    simp only [start]
    omega
  exact (width_nth_le (maxWidth_start_pos _ _) n).trans hmost

end Stripes

/-! ## Places -/

section
variable {frame : Box} (hframe : 220 ≤ frame.width.val) {s : Stripes}

theorem eq_barOf_of_bar? {i : Nat} {bar : Box} (h : bar? frame s i = some bar) :
    bar = barOf frame (column frame (s.extent i)) (s.nth i) :=
  (Option.some.inj (Option.ite_none_right_eq_some.mp h).2).symm

include hframe

/-- The bar of a stripe that fits starts where the stripes before it end, and ends where they end
with it. -/
theorem edges_barOf {i : Nat} (hi : i < s.fitting (room frame)) :
    let bar := barOf frame (column frame (s.extent i)) (s.nth i)
    bar.x.val = frame.x.val + 6 + s.extent i ∧
      bar.x.val + bar.width.val = frame.x.val + 6 + s.extent (i + 1) := by
  have hroom := Stripes.lt_fitting_iff.mp hi
  obtain ⟨hcolumn, hwidth, -⟩ := exact_of_le_room (by omega) hroom
  have hextent := s.extent_succ i
  dsimp only [barOf]
  omega

/-- Of the bars of stripes that fit, a later one starts where an earlier one ends, or to the right
of it. -/
theorem pairwise_bar? : ((List.range (s.fitting (room frame))).filterMap (bar? frame s)).Pairwise
    fun a b => a.x.val + a.width.val ≤ b.x.val := by
  rw [List.pairwise_filterMap]
  refine List.pairwise_lt_range.imp_of_mem ?_
  intro i j hi hj hij a ha b hb
  obtain ⟨-, hright⟩ := edges_barOf hframe (List.mem_range.mp hi)
  obtain ⟨hleft, -⟩ := edges_barOf hframe (List.mem_range.mp hj)
  have hextent : s.extent (i + 1) ≤ s.extent j :=
    s.extent_strictMono.monotone (Nat.succ_le_of_lt hij)
  rw [eq_barOf_of_bar? ha, eq_barOf_of_bar? hb]
  omega

end

/-- A bar has the rows of its frame, but for the insets. -/
theorem rows_barOf (x y : Dot) (spec : BarcodeSpec) (cursor : Dot) (stripe : Stripe) :
    let bar := barOf (frame x y spec) cursor stripe
    bar.y.val = (frame x y spec).y.val + 4 ∧
      bar.height.val = (frame x y spec).height.val - 8 := by
  have hheight := le_height_frame x y spec
  have hmost := (frame x y spec).height.val_le
  have hy := (frame x y spec).y.le_val
  have hbottom := (frame x y spec).bottom.val_le
  have hinset : insetY.val = 4 := rfl
  have hinsets : (insetY + insetY).val = 8 := rfl
  rw [val_bottom_frame] at hbottom
  dsimp only [barOf]
  rw [Dot.val_add, Dot.val_sub, hinset, hinsets]
  simp only [Dot.least, Dot.greatest]
  omega

theorem liesIn_barOf {x y : Dot} {spec : BarcodeSpec} {s : Stripes} {unit i : Nat}
    (hi : i < s.fitting (room (frame x y spec))) (hunit : (s.nth i).width ≤ 2 * unit) :
    LiesIn (barOf (frame x y spec) (column (frame x y spec) (s.extent i)) (s.nth i))
      (frame x y spec) unit := by
  obtain ⟨hleft, hright⟩ := edges_barOf (le_width_frame x y spec) hi
  obtain ⟨htop, hheight⟩ :=
    rows_barOf x y spec (column (frame x y spec) (s.extent i)) (s.nth i)
  have hroom := Stripes.lt_fitting_iff.mp hi
  have hextent := s.extent_succ i
  have hone := s.one_le_width_nth i
  have hbottom := val_bottom_frame x y spec
  have hleast := le_height_frame x y spec
  unfold room at hroom
  constructor <;> omega

theorem liesIn_of_mem_bars {x y : Dot} {spec : BarcodeSpec} {bar : Box}
    (h : bar ∈ (place x y spec).bars) :
    LiesIn bar (place x y spec).frame (effectiveUnit spec.unit).toNat := by
  have hbars : bar ∈ bars (frame x y spec) (hash spec.value) spec.unit := h
  rw [bars_eq (le_width_frame x y spec)] at hbars
  obtain ⟨i, hi, hbar⟩ := List.mem_filterMap.mp hbars
  rw [eq_barOf_of_bar? hbar]
  exact liesIn_barOf (List.mem_range.mp hi) (Stripes.width_nth_start_le _ _ i)

theorem pairwise_bars (x y : Dot) (spec : BarcodeSpec) :
    (place x y spec).bars.Pairwise fun a b => a.x.val + a.width.val ≤ b.x.val := by
  change (bars (frame x y spec) (hash spec.value) spec.unit).Pairwise _
  rw [bars_eq (le_width_frame x y spec)]
  exact pairwise_bar? (le_width_frame x y spec)

/-- The bars of a barcode lie in its frame. They keep the inset at every side, from top to bottom
they reach over all that it leaves, and each is between one dot and two bar units wide. A later bar
starts where an earlier one ends, or to the right of it. All of this is meant over the integers, and
no edge of a bar is at an end of the range, wherever the frame is. -/
theorem bars_in_frame (x y : Dot) (spec : BarcodeSpec) :
    (∀ bar ∈ (place x y spec).bars,
      LiesIn bar (place x y spec).frame (effectiveUnit spec.unit).toNat ∧ bar.IsExact) ∧
    (place x y spec).bars.Pairwise fun a b => a.x.val + a.width.val ≤ b.x.val := by
  refine ⟨fun bar hbar => ?_, pairwise_bars x y spec⟩
  have hlies := liesIn_of_mem_bars hbar
  exact ⟨hlies, hlies.isExact⟩

end Barcode

end LabelPress
