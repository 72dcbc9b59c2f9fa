import LabelPress.Checked
import Mathlib.Algebra.Order.Field.Rat
import Mathlib.Tactic.Linarith

/-!
# No operation leaves its range

Layout and painting, done with a check on every operation that does not stop at the ends of its
range by itself, give what they give without the checks (`layoutChecked_eq`,
`Label.renderChecked_eq`). So each of these operations is exact wherever it is reached, whatever
the commands, the label and the magnification are.

The bounds that this rests on are set elsewhere. The frame of a barcode is at least 220 dots wide
and 40 dots tall (`Barcode.leastWidth_le_boxWidth`, `Barcode.leastHeight_le_boxHeight`), so its
right edge is as far from the lower end of the range, and what is taken off for the insets is
there. The greatest width of a stripe is never zero (`Barcode.Stripes.maxWidth_start_pos`). And a
label is painted only if its surface has a pixel, which a label without a dot in one direction
has not (`Surface.extent_eq_zero`).
-/

namespace LabelPress

/-! ## Checked operations -/

namespace Checked

theorem sub_eq {a b : Dot} (lo : Dot.least ≤ a.val - b.val) (hi : a.val - b.val ≤ Dot.greatest) :
    sub a b = some (a - b) := by
  have hval : (a - b).val = a.val - b.val := Dot.val_clamp_of_mem lo hi
  rw [sub, dif_pos ⟨lo, hi⟩]
  exact congrArg some (Dot.ext hval.symm)

/-- A difference from a number of dots that is small and not too far down. -/
theorem sub_eq_of_le {a b : Dot} (hb : 0 ≤ b.val) (h : Dot.least + b.val ≤ a.val) :
    sub a b = some (a - b) := by
  have ha := a.val_le
  refine sub_eq ?_ ?_ <;> simp only [Dot.least, Dot.greatest] at * <;> omega

theorem mod_eq {a b : Nat} (hb : b ≠ 0) : mod a b = some (a % b) := if_neg hb

theorem add_eq {a b : Nat} (h : a + b ≤ 4294967295) : add a b = some (a + b) := if_pos h

theorem mul_eq {a b : Nat} (ha : a ≤ 4294967295) (hb : b ≤ 4294967295) :
    mul a b = some (a * b) := by
  refine if_pos ((Nat.mul_le_mul ha hb).trans ?_)
  decide

end Checked

/-! ## Barcodes -/

namespace Barcode

namespace Stripes

/-- The greatest width of a stripe is never zero. -/
theorem maxWidth_start_pos (seed unit : UInt32) : 0 < (start seed unit).maxWidth := by
  simp only [start]
  omega

theorem maxWidth_skip (n : Nat) (s : Stripes) : (s.skip n).maxWidth = s.maxWidth := by
  induction n generalizing s with
  | zero => rfl
  | succ n ih => rw [skip, ih, next]

/-- The next stripe is found with every operation in its range. -/
theorem nextChecked_eq {s : Stripes} (h : 0 < s.maxWidth) : s.nextChecked = some s.next := by
  have hhalf : (shiftStep s.state >>> 1).toNat = (shiftStep s.state).toNat / 2 := by
    rw [UInt32.toNat_shiftRight, UInt32.toNat_one, Nat.shiftRight_eq_div_pow]
  have hadd : Checked.add 1 ((shiftStep s.state >>> 1).toNat % s.maxWidth) =
      some (1 + (shiftStep s.state >>> 1).toNat % s.maxWidth) := by
    have hword := (shiftStep s.state).toNat_lt
    have hle := Nat.mod_le (shiftStep s.state >>> 1).toNat s.maxWidth
    exact Checked.add_eq (by omega)
  simp only [nextChecked, Checked.mod_eq h.ne', hadd, Option.bind_eq_bind, Option.bind_some,
    Option.pure_def, next]

end Stripes

theorem leastWidth_le_boxWidth (x : Dot) (value : String) (unit : UInt32) :
    leastWidth ≤ boxWidth x value unit := by
  simp only [boxWidth, Dot.le_def, Dot.val_max]
  omega

theorem leastHeight_le_boxHeight (height : UInt32) :
    (leastHeight : Int) ≤ (boxHeight height).val := by
  simp only [boxHeight, Dot.val_clamp, Dot.least, Dot.greatest, leastHeight]
  omega

/-- A frame is as far from the lower end of the range as it is wide. -/
theorem least_add_le_right (x y : Dot) (spec : BarcodeSpec) :
    Dot.least + 220 ≤ (frame x y spec).right.val := by
  have hwidth : (220 : Int) ≤ (frame x y spec).width.val :=
    leastWidth_le_boxWidth x spec.value spec.unit
  have hx := (frame x y spec).x.le_val
  simp only [Box.right, Dot.val_add, Dot.least, Dot.greatest]
  omega

/-- The loop over the stripes gives the bars, and ends. -/
theorem fillChecked_eq (frame : Box) (cursor : Dot) (stripes : Stripes) (h : 0 < stripes.maxWidth) :
    fillChecked (fillLimit frame) (frame.y + insetY) (frame.height - (insetY + insetY)) cursor
      stripes = some (fill frame cursor stripes) := by
  fun_induction fill frame cursor stripes with
  | case1 cursor stripes hstop =>
    rw [fillChecked, Stripes.nextChecked_eq h]
    simp [hstop]
  | case2 cursor stripes hstop hlt rest hblack ih =>
    rw [fillChecked, Stripes.nextChecked_eq h]
    simp only [Option.bind_eq_bind, Option.bind_some, Option.pure_def, hstop, hlt, hblack, if_true,
      if_false]
    rw [ih h]
    rfl
  | case3 cursor stripes hstop hlt rest hwhite ih =>
    rw [fillChecked, Stripes.nextChecked_eq h]
    simp only [Option.bind_eq_bind, Option.bind_some, Option.pure_def, hstop, hlt, hwhite,
      if_false]
    rw [ih h]
    rfl

/-- The limit and the height of the bars in the frame of a barcode are in range. -/
theorem barsChecked_eq (x y : Dot) (spec : BarcodeSpec) (seed unit : UInt32) :
    barsChecked (frame x y spec) seed unit = some (bars (frame x y spec) seed unit) := by
  have hright : Checked.sub (frame x y spec).right insetX = some (fillLimit (frame x y spec)) := by
    refine Checked.sub_eq_of_le (by decide) ?_
    have := least_add_le_right x y spec
    have hinset : insetX.val = 6 := rfl
    omega
  have hheight : Checked.sub (frame x y spec).height (insetY + insetY) =
      some ((frame x y spec).height - (insetY + insetY)) := by
    refine Checked.sub_eq_of_le (by decide) ?_
    have hle : (leastHeight : Int) ≤ (frame x y spec).height.val :=
      leastHeight_le_boxHeight spec.height
    have hinset : (insetY + insetY).val = 8 := rfl
    simp only [leastHeight, Dot.least] at *
    omega
  rw [barsChecked, hright, hheight]
  exact fillChecked_eq _ _ _ (Stripes.maxWidth_start_pos _ _)

theorem placeChecked_eq (x y : Dot) (spec : BarcodeSpec) :
    placeChecked x y spec = some (place x y spec) := by
  rw [placeChecked, barsChecked_eq]
  rfl

end Barcode

/-! ## Layout -/

theorem Command.barcodeChecked_eq (c : Command) : c.barcodeChecked = some c.barcode? := by
  unfold barcodeChecked barcode?
  cases c.shape with
  | barcode spec => simp [Barcode.placeChecked_eq]
  | rule | text => rfl

/-- Layout is done with every operation in its range. -/
theorem layoutChecked_eq (cs : List Command) : layoutChecked cs = some (layout cs) := by
  have hbarcodes : cs.filterMapM Command.barcodeChecked =
      some (cs.filterMap Command.barcode?) := by
    induction cs with
    | nil => rfl
    | cons c cs ih =>
      rw [List.filterMapM_cons, Command.barcodeChecked_eq, ih]
      cases h : c.barcode? <;> simp [h]
  rw [layoutChecked, hbarcodes]
  rfl

/-! ## Rounding

Rounding leaves a number on its side of zero, so what is not above zero measures no pixels.
-/

namespace Single

theorem Magnitude.value_nonneg (m : Magnitude) : 0 ≤ m.value :=
  Rat.mul_nonneg (by exact_mod_cast Nat.zero_le m.significand) (Rat.zpow_nonneg (by decide))

theorem round_nonpos {q : Rat} (h : q ≤ 0) : round q ≤ 0 := by
  have := (nearest (-q)).value_nonneg
  simp only [round, not_lt.mpr h, if_false]
  split <;> linarith

theorem roundAway_nonpos {q : Rat} (h : q ≤ 0) : roundAway q ≤ 0 := by
  have hfloor : 0 ≤ (-q + 1 / 2).floor := Rat.le_floor_iff.mpr (by push_cast; linarith)
  unfold roundAway
  split
  · exact Int.lt_add_one_iff.mp (Rat.floor_lt_iff.mpr (by push_cast; linarith))
  · omega

end Single

namespace Surface

theorem extent_le (dots : Dot) (scale : Rat) : extent dots scale ≤ mostExtent :=
  Nat.min_le_right _ _

/-- What has no dots measures no pixels. -/
theorem extent_eq_zero {dots : Dot} {scale : Rat} (hdots : dots.val ≤ 0) (hscale : 0 ≤ scale) :
    extent dots scale = 0 := by
  have hlength : Single.round dots.val * scale ≤ 0 :=
    mul_nonpos_of_nonpos_of_nonneg (Single.round_nonpos (by exact_mod_cast hdots)) hscale
  have hpixels : Single.roundAway (Single.round (Single.round dots.val * scale)) ≤ 0 :=
    Single.roundAway_nonpos (Single.round_nonpos hlength)
  rw [extent, Int.toNat_of_nonpos hpixels, Nat.zero_min]

/-! ## Painting -/

/-- The number of pixels of a surface is found with its product in range. -/
theorem fitChecked_eq (m : Magnification) (width height : Dot) :
    fitChecked m width height = some (fit m width height) := by
  unfold fitChecked fit
  cases m.scale? with
  | none => rfl
  | some scale =>
    simp only [Checked.mul_eq (extent_le width scale) (extent_le height scale),
      Option.bind_eq_bind, Option.bind_some, Option.pure_def]

/-- The scale of a surface is above zero, and its size is that of what is shown at this scale. -/
theorem eq_of_fit {m : Magnification} {width height : Dot} {s : Surface}
    (hfit : fit m width height = .ok s) :
    0 < s.scale ∧ s.width = extent width s.scale ∧ s.height = extent height s.scale := by
  unfold fit at hfit
  cases hscale : m.scale? with
  | none => simp [hscale] at hfit
  | some scale =>
    have hpos : 0 < scale := by
      simpa using (Option.filter_eq_some_iff.mp hscale).2
    rw [hscale] at hfit
    dsimp only at hfit
    split at hfit
    · cases hfit
    · cases hfit
      exact ⟨hpos, rfl, rfl⟩

/-- Only a label with dots in both directions has a surface with pixels. -/
theorem one_le_of_fit {m : Magnification} {width height : Dot} {s : Surface}
    (hfit : fit m width height = .ok s) (hs : ¬(s.width = 0 ∨ s.height = 0)) :
    1 ≤ width.val ∧ 1 ≤ height.val := by
  obtain ⟨hscale, hwidth, hheight⟩ := eq_of_fit hfit
  rw [not_or, hwidth, hheight] at hs
  constructor
  · by_contra h
    exact hs.1 (extent_eq_zero (by omega) hscale.le)
  · by_contra h
    exact hs.2 (extent_eq_zero (by omega) hscale.le)

end Surface

/-- The paint of a label with dots in both directions is laid with every operation in its
range. -/
theorem Canvas.paintChecked_eq (c : Canvas) (faces : Typeface → Face) {l : Label}
    (hwidth : 1 ≤ l.width.val) (hheight : 1 ≤ l.height.val) :
    c.paintChecked faces l = some (c.paint faces l) := by
  have hinset : (borderInset + borderInset).val = 2 := rfl
  rw [paintChecked,
    Checked.sub_eq_of_le (by omega) (by simp only [Dot.least]; omega),
    Checked.sub_eq_of_le (by omega) (by simp only [Dot.least]; omega)]
  rfl

namespace Label

variable (faces : Typeface → Face) (round : Rat → Rat) (slant : Slant) (l : Label)
  (m : Magnification)

/-- A label is painted once there is a surface with pixels for it. -/
theorem renderWith_eq : l.renderWith faces round slant m =
    match Surface.fit m l.width l.height with
    | .error e => .error e
    | .ok s =>
      if s.width = 0 ∨ s.height = 0 then .error (.noSurface s.width s.height)
      else .ok (Canvas.picture { s with round, slant } faces l) := by
  unfold renderWith
  cases Surface.fit m l.width l.height with
  | error e => rfl
  | ok s => rfl

/-- There is a picture exactly if there is a surface with pixels, and it is painted on that. -/
theorem renderWith_eq_ok_iff (p : Picture) : l.renderWith faces round slant m = .ok p ↔
    ∃ s, Surface.fit m l.width l.height = .ok s ∧ ¬(s.width = 0 ∨ s.height = 0) ∧
      Canvas.picture { s with round, slant } faces l = p := by
  rw [renderWith_eq]
  cases Surface.fit m l.width l.height with
  | error e => simp
  | ok s =>
    by_cases hs : s.width = 0 ∨ s.height = 0
    · simp only [Except.ok.injEq, exists_eq_left', hs, if_true, not_true_eq_false, false_and,
        reduceCtorEq]
    · simp only [Except.ok.injEq, exists_eq_left', hs, if_false, not_false_eq_true, true_and]

/-- A label that is painted has dots in both directions. -/
theorem error_or_one_le :
    (∃ e, l.renderWith faces round slant m = .error e) ∨ (1 ≤ l.width.val ∧ 1 ≤ l.height.val) := by
  rw [renderWith_eq]
  cases hfit : Surface.fit m l.width l.height with
  | error e => exact .inl ⟨e, rfl⟩
  | ok s =>
    by_cases hs : s.width = 0 ∨ s.height = 0
    · exact .inl ⟨.noSurface s.width s.height, if_pos hs⟩
    · exact .inr (Surface.one_le_of_fit hfit hs)

/-- A label is rendered with every operation in its range. -/
theorem renderChecked_eq :
    renderChecked faces round slant l m = some (l.renderWith faces round slant m) := by
  rw [renderChecked, Surface.fitChecked_eq, renderWith_eq, Option.bind_eq_bind, Option.bind_some]
  cases hfit : Surface.fit m l.width l.height with
  | error e => rfl
  | ok s =>
    by_cases hs : s.width = 0 ∨ s.height = 0
    · simp only [if_pos hs, Option.pure_def]
    · obtain ⟨hwidth, hheight⟩ := Surface.one_le_of_fit hfit hs
      simp only [if_neg hs, Canvas.paintChecked_eq _ faces hwidth hheight, Option.bind_eq_bind,
        Option.bind_some, Option.pure_def, Canvas.picture]

end Label

/-- Every operation of layout and painting that does not stop at the ends of its range is in its
range wherever it is reached: with the checks in place, layout and painting give what they give
without them. For layout the reason is in the frame of a barcode and in the greatest width of its
stripes, for painting that a label without a dot in one direction is refused before. -/
theorem operations_in_range :
    (∀ cs, layoutChecked cs = some (layout cs)) ∧
    (∀ x y spec, 40 ≤ (Barcode.frame x y spec).height.val ∧
      Dot.least + 220 ≤ (Barcode.frame x y spec).right.val) ∧
    (∀ seed unit n, ((Barcode.Stripes.start seed unit).skip n).maxWidth ≠ 0) ∧
    (∀ faces round slant l m, Label.renderChecked faces round slant l m =
      some (l.renderWith faces round slant m)) ∧
    ∀ faces round slant l m, (∃ e, Label.renderWith faces round slant l m = .error e) ∨
      (1 ≤ l.width.val ∧ 1 ≤ l.height.val) := by
  refine ⟨layoutChecked_eq, fun x y spec => ⟨?_, Barcode.least_add_le_right x y spec⟩,
    fun seed unit n => ?_, Label.renderChecked_eq, Label.error_or_one_le⟩
  · exact Barcode.leastHeight_le_boxHeight spec.height
  · rw [Barcode.Stripes.maxWidth_skip]
    exact (Barcode.Stripes.maxWidth_start_pos seed unit).ne'

end LabelPress
