import LabelPress.Proofs.Frame

/-!
# Where a barcode stands

A barcode stands on the raster row of its position and grows upward. The row of the position can
only be cut off at the upper end of the range, far below the sheet, and the top of the frame only at
the lower end. In the second case the whole frame is moved down, and ends below the row of the
position (`Barcode.bottom_eq_max`).

The caption starts six dots below the frame. Whether it is shown is told from the row where it
starts, which is itself cut off at the upper end, yet this says the same as the height at which the
barcode stands (`Barcode.captionTop_le_iff`): a frame that was moved down has its bottom above the
sheet, and one whose row was cut off lies below it.
-/

namespace LabelPress.Barcode

section
variable (x y : Dot) (spec : BarcodeSpec)

/-- The height of the box for the height a command says, over the integers. -/
theorem val_boxHeight (height : UInt32) : (boxHeight height).val =
    min (max 40 (if height = 0 then 200 else (height.toNat : Int))) Dot.greatest := by
  simp only [boxHeight, Dot.val_clamp, usualHeight, leastHeight, Dot.least, Dot.greatest]
  split <;> omega

theorem val_y_frame : (frame x y spec).y.val =
    max Dot.least ((Point.ofNative x y).y.val - (frame x y spec).height.val) := by
  have hheight := le_height_frame x y spec
  have hanchor := (Point.ofNative x y).y.val_le
  have htop : (frame x y spec).y.val =
      max Dot.least (min ((Point.ofNative x y).y.val - (frame x y spec).height.val) Dot.greatest) :=
    rfl
  rw [htop, Dot.greatest]
  omega

/-- A frame ends at the row of the position, or below it if it would not fit above. -/
theorem bottom_eq_max : (frame x y spec).bottom.val =
    max (Dot.least + (frame x y spec).height.val) (Point.ofNative x y).y.val := by
  rw [val_bottom_frame, val_y_frame]
  omega

/-! ## The caption -/

/-- The row where the caption starts. -/
def captionTop : Dot := (frame x y spec).bottom + captionGap

theorem val_captionTop :
    (captionTop x y spec).val = min ((frame x y spec).bottom.val + 6) Dot.greatest := by
  have hbottom := (frame x y spec).bottom.le_val
  have hgap : captionGap.val = 6 := rfl
  simp only [captionTop, Dot.val_add, hgap, Dot.least, Dot.greatest]
  omega

/-- There is room for the caption exactly if the barcode stands ten dots above the bottom edge of
the sheet, or higher. -/
theorem captionTop_le_iff : captionTop x y spec ≤ sheetHeight - captionMargin ↔ 10 ≤ y.val := by
  have hmost := (frame x y spec).height.val_le
  have hroom : (sheetHeight - captionMargin).val = 2432 := rfl
  rw [Dot.le_def, hroom, val_captionTop, bottom_eq_max, Point.val_y_ofNative]
  simp only [Dot.least, Dot.greatest]
  omega

theorem caption_place : (place x y spec).caption =
    if spec.value ≠ "" ∧ 10 ≤ y.val then
      some ⟨⟨x, captionTop x y spec⟩, .top, .mono, captionSize, 1, spec.value⟩
    else none :=
  if_congr (and_congr_right fun _ => captionTop_le_iff x y spec) rfl rfl

theorem isSome_caption_place :
    (place x y spec).caption.isSome ↔ spec.value ≠ "" ∧ 10 ≤ y.val := by
  rw [caption_place]
  split
  case isTrue h => exact iff_of_true rfl h
  case isFalse h => exact iff_of_false Bool.false_ne_true h

/-- The row where a caption starts is on the sheet if there is room for it, and then it is exact. -/
theorem val_captionTop_of_le {y : Dot} (hy : 10 ≤ y.val) :
    (captionTop x y spec).val = (frame x y spec).bottom.val + 6 ∧
      (captionTop x y spec).val ≤ 2432 := by
  have hroom : (captionTop x y spec).val ≤ 2432 := (captionTop_le_iff x y spec).mpr hy
  have htop := val_captionTop x y spec
  rw [Dot.greatest] at htop
  omega

end

/-- A frame is as tall as its command says, within the least and the greatest height there are, and
stands on the row of its position. It is below that row only where its top would leave the range:
the top is then at the lower end. The caption is there exactly if the value is not empty and the
barcode stands ten dots above the bottom edge of the sheet, or higher. It starts six dots below the
frame, all of them on the sheet. -/
theorem frame_stands_on_anchor (x y : Dot) (spec : BarcodeSpec) :
    let box := place x y spec
    let height : Int :=
      min (max 40 (if spec.height = 0 then 200 else (spec.height.toNat : Int))) 2147483647
    let anchor : Int := min (2436 - y.val) 2147483647
    box.frame.x = x ∧ box.frame.height.val = height ∧
      (if -2147483648 ≤ anchor - height then box.frame.bottom.val = anchor
        else
          box.frame.y.val = -2147483648 ∧ box.frame.bottom.val = -2147483648 + height ∧
            anchor < box.frame.bottom.val) ∧
      if spec.value ≠ "" ∧ 10 ≤ y.val then
        ∃ top : Dot, top.val = box.frame.bottom.val + 6 ∧ top.val ≤ 2432 ∧
          box.caption = some
            { origin := ⟨x, top⟩
              anchor := .top
              face := .mono
              size := captionSize
              stretch := 1
              content := spec.value }
      else box.caption = none := by
  intro box height anchor
  have hheight : box.frame.height.val = height := val_boxHeight spec.height
  have hanchor : (Point.ofNative x y).y.val = anchor := Point.val_y_ofNative x y
  have htop : box.frame.y.val = max Dot.least (anchor - height) := by
    rw [← hanchor, ← hheight]
    exact val_y_frame x y spec
  have hbottom : box.frame.bottom.val = max (Dot.least + height) anchor := by
    rw [← hanchor, ← hheight]
    exact bottom_eq_max x y spec
  refine ⟨rfl, hheight, ?_, ?_⟩
  · rw [hbottom, htop, Dot.least]
    split <;> omega
  · split
    case isTrue hshown =>
      obtain ⟨hgap, hroom⟩ := val_captionTop_of_le x spec hshown.2
      exact ⟨captionTop x y spec, hgap, hroom, (caption_place x y spec).trans (if_pos hshown)⟩
    case isFalse hshown => exact (caption_place x y spec).trans (if_neg hshown)

end LabelPress.Barcode
