import LabelPress.Dot

/-!
# Points and boxes

A script places things in the sheet's native space: the origin is the bottom left
corner and `y` grows upward. A label is drawn in raster space, where the origin is the
top left corner and `y` grows downward. `Point.ofNative` is the flip from the first to
the second.
-/

namespace LabelPress

/-- The sheet is four inches wide at 406 dots an inch. -/
def sheetWidth : Dot := 1624

/-- The sheet is six inches tall. -/
def sheetHeight : Dot := 2436

/-- A position in raster space. -/
structure Point where
  x : Dot
  y : Dot
deriving DecidableEq

/-- The raster position of a native one: the same column, the row counted from the top
edge of the sheet. -/
def Point.ofNative (x y : Dot) : Point := ⟨x, sheetHeight - y⟩

/-- The raster row of a native one is exact, unless it lies beyond the upper end of the range. -/
theorem Point.val_y_ofNative (x y : Dot) :
    (ofNative x y).y.val = min (2436 - y.val) Dot.greatest := by
  have hy := y.val_le
  have hsheet : sheetHeight.val = 2436 := rfl
  simp only [ofNative, Dot.val_sub, hsheet, Dot.least, Dot.greatest]
  omega

/-- A box with its sides along the axes, given by its top left corner in raster space. -/
structure Box where
  x : Dot
  y : Dot
  width : Dot
  height : Dot
deriving DecidableEq

/-- The column where the box ends. -/
def Box.right (b : Box) : Dot := b.x + b.width

/-- The row where the box ends. -/
def Box.bottom (b : Box) : Dot := b.y + b.height

end LabelPress
