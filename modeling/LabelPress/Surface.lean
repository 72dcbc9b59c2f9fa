import LabelPress.Dot
import LabelPress.Single.Text

/-!
# Surfaces

A label is painted on a surface of pixels. How many pixels a dot measures is the product
of two factors, both in single precision. The surface has as many pixels as the label has
dots times this scale, rounded to whole pixels, and there is an upper limit to their
number.
-/

namespace LabelPress

/-- How large a label is shown. -/
structure Magnification where
  /-- The factor the user asks for. -/
  zoom : Float32
  /-- The device pixels in one pixel of the user's. -/
  density : Float32
deriving DecidableEq

/-- One pixel for each dot. -/
def Magnification.unit : Magnification := ⟨1, 1⟩

namespace Magnification

/-- The pixels in one dot. -/
def scale (m : Magnification) : Float32 := m.zoom * m.density

/-- The pixels in one dot, if that is a positive finite number. -/
def scale? (m : Magnification) : Option Rat := (Single.value? m.scale).filter (0 < ·)

end Magnification

/-- Why a label cannot be painted. -/
inductive RenderError where
  /-- The scale is not a positive finite number. -/
  | invalidScale (scale : Float32)
  /-- A surface of this size is empty or too large. -/
  | noSurface (width height : Nat)
deriving DecidableEq

/-- The text that is shown for a label that cannot be painted. -/
def RenderError.message : RenderError → String
  | invalidScale scale => "render scale must be finite and positive, got " ++ Single.text scale
  | noSurface width height =>
    "no drawing surface available for " ++ width.repr ++ "x" ++ height.repr ++ " pixels"

/-- The pixels to paint a label on. -/
structure Surface where
  /-- The pixels in one dot. -/
  scale : Rat
  width : Nat
  height : Nat
deriving DecidableEq

namespace Surface

/-- The most pixels a surface may have. -/
def mostPixels : Nat := 268435456

/-- The greatest number of pixels that is counted in one direction. -/
def mostExtent : Nat := 4294967295

/-- The pixels that a number of dots measures: the whole number nearest to their length, of
two that are equally near the greater one. A negative length measures none. -/
def extent (dots : Dot) (scale : Rat) : Nat :=
  let length := Single.round (Single.round dots.val * scale)
  min (Single.roundAway length).toNat mostExtent

/-- The surface for a label of a given size. It may be empty. -/
def fit (m : Magnification) (width height : Dot) : Except RenderError Surface :=
  match m.scale? with
  | none => .error (.invalidScale m.scale)
  | some scale =>
    let w := extent width scale
    let h := extent height scale
    if mostPixels < w * h then .error (.noSurface w h) else .ok ⟨scale, w, h⟩

end Surface

end LabelPress
