import LabelPress.Box
import LabelPress.Surface

/-!
# Slanted strokes

A line along neither a row nor a column covers pixels by parts that depend on how its edges are
followed through them. This is left open: a `Slant` tells the part of each pixel, and all
that is known of it is that it is a share, no less than nothing and no more than the whole.

`Slant.sampled` is one of them. It looks at 16 places in each pixel and counts those that lie in
the rectangle along the line.
-/

namespace LabelPress

/-- A part of a whole. -/
structure Share where
  val : Rat
  /-- It is no less than nothing. -/
  nonneg : 0 ≤ val
  /-- It is no more than the whole. -/
  le_one : val ≤ 1

namespace Share

/-- The share nearest to a number. -/
def clamp (q : Rat) : Share :=
  if hlow : q ≤ 0 then ⟨0, by decide, by decide⟩
  else if hhigh : 1 ≤ q then ⟨1, by decide, by decide⟩
  else ⟨q, Rat.le_of_lt (Rat.not_le.mp hlow), Rat.le_of_lt (Rat.not_le.mp hhigh)⟩

end Share

/-- A straight stroke with flat ends, in dots. -/
structure Stroke where
  thickness : Rat
  start : Point
  stop : Point

/-- How a stroke along neither a row nor a column lies on a surface: the share of the pixel in
a column and a row that it hides. -/
def Slant : Type := Surface → Stroke → Int → Int → Share

namespace Slant

/-- The places in a pixel that are looked at, along a row or a column. -/
def places : List Rat := [1 / 8, 3 / 8, 5 / 8, 7 / 8]

/-- Whether a position, counted in pixels from the start of a line, lies in the rectangle of a
given thickness along it. The line leads by `right` and `down`. -/
def inside (right down thickness x y : Rat) : Bool :=
  let length := right * right + down * down
  let along := x * right + y * down
  let across := x * down - y * right
  0 ≤ along && along ≤ length && 4 * (across * across) ≤ thickness * thickness * length

/-- A stroke as it is seen at the places of each pixel. One that is thinner than a pixel is
looked at as if it were as thick as one, and is fainter by as much as it is thinner, unless it
has no thickness at all. -/
def sampled : Slant := fun s stroke i j =>
  let thickness := stroke.thickness * s.scale
  let right := ((stroke.stop.x.val - stroke.start.x.val : Int) : Rat) * s.scale
  let down := ((stroke.stop.y.val - stroke.start.y.val : Int) : Rat) * s.scale
  let isSeen (dx dy : Rat) : Bool :=
    inside right down (if thickness < 1 then 1 else thickness)
      (i + dx - stroke.start.x.val * s.scale) (j + dy - stroke.start.y.val * s.scale)
  let seen := (places.flatMap fun dy => places.filter fun dx => isSeen dx dy).length
  let strength : Rat := if 0 < thickness ∧ thickness < 1 then thickness else 1
  .clamp (strength * seen / 16)

/-- A thick stroke hides the pixels along its middle. -/
example : (sampled ⟨1, 10, 10⟩ ⟨4, ⟨1, 1⟩, ⟨9, 9⟩⟩ 5 5).val = 1 := by decide +kernel

end Slant

end LabelPress
