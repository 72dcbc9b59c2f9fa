import LabelPress.Dot
import LabelPress.Picture.Layer
import LabelPress.Single.Basic

/-!
# Boxes of pixels

The pixels that a region may reach are counted in signed words of 32 bits, in one of three
ways. `rounded?` takes the corner and the size of the region to the nearest pixel, `around?`
takes the corner outward and the size upward, and `near?` is a little larger than the pixels
with their centre in the region.

A number that is too far out is replaced by the farthest one that is allowed, and a box that
ends outside the words or holds no pixel is none.
-/

namespace LabelPress

/-- The pixels from a column and a row to those before another column and row. -/
structure PixelBox where
  left : Int
  top : Int
  right : Int
  bottom : Int
deriving DecidableEq

namespace PixelBox

/-- The box with a given corner and size. -/
def ofCorner? (left top width height : Int) : Option PixelBox :=
  if 0 < width ∧ width ≤ Dot.greatest ∧ left + width ≤ Dot.greatest
      ∧ 0 < height ∧ height ≤ Dot.greatest ∧ top + height ≤ Dot.greatest then
    some ⟨left, top, left + width, top + height⟩
  else none

/-- The region that a box of pixels takes. -/
def region (b : PixelBox) : Region := ⟨⟨b.left, b.right⟩, ⟨b.top, b.bottom⟩⟩

/-- The greatest whole number that a word and a number in single precision can both be. -/
def farthest : Int := 2147483520

/-- The whole part of a number, or the farthest one on its side. -/
def whole (q : Rat) : Int := max (-farthest) (min (Single.towardZero q) farthest)

/-- The whole part of the middle of the pixel that a position lies in. -/
def middle (round : Rat → Rat) (q : Rat) : Int := whole (round (q.floor + 1 / 2))

/-- The box of a region with whole pixels for sides. It is at least one pixel wide and one
pixel tall. Left of the first column and above the first row, a region at a whole position
is moved by one pixel. -/
def rounded? (round : Rat → Rat) (r : Region) : Option PixelBox :=
  ofCorner? (middle round r.columns.start) (middle round r.rows.start)
    (max 1 (middle round (round (r.columns.stop - r.columns.start))))
    (max 1 (middle round (round (r.rows.stop - r.rows.start))))

/-- The box that starts where a region starts and is at least as large. -/
def around? (round : Rat → Rat) (r : Region) : Option PixelBox :=
  ofCorner? (whole r.columns.start.floor) (whole r.rows.start.floor)
    (max 1 (whole (round (r.columns.stop - r.columns.start)).ceil))
    (max 1 (whole (round (r.rows.stop - r.rows.start)).ceil))

/-- How far outside a region the centres of pixels near it may lie. -/
def slack : Rat := 3 / 128

/-- The box of the pixels with their centre in a region or near it. -/
def near? (r : Region) : Option PixelBox :=
  let left := (Dot.clamp (r.columns.start - 1 / 2 - slack).ceil).val
  let top := (Dot.clamp (r.rows.start - 1 / 2 - slack).ceil).val
  let right := (Dot.clamp (r.columns.stop + 1 / 2 + slack).floor).val
  let bottom := (Dot.clamp (r.rows.stop + 1 / 2 + slack).floor).val
  ofCorner? left top (right - left) (bottom - top)

end PixelBox

end LabelPress
