import LabelPress.Box

/-!
# Labels

A label is what is painted: its size and its elements, in raster space and in the order
of painting. A later element lies on top of an earlier one.
-/

namespace LabelPress

/-- The faces that text is set in. -/
inductive Typeface where
  | regular
  | bold
  | mono
deriving DecidableEq

/-- Which point of a line of text its origin is. -/
inductive Anchor where
  /-- The left end of the baseline. -/
  | baseline
  /-- The top left corner of the line. -/
  | top
deriving DecidableEq

/-- One line of text. -/
structure TextRun where
  origin : Point
  anchor : Anchor
  face : Typeface
  /-- The height of the glyphs in dots. -/
  size : Float32
  /-- How far the glyphs are stretched in width. -/
  stretch : Float32
  content : String
deriving DecidableEq

/-- A straight rule with flat ends. -/
structure Rule where
  start : Point
  stop : Point
  /-- The thickness in dots. -/
  thickness : Float32
deriving DecidableEq

/-- The stand-in for a barcode: a box with bars in it, and its value below. -/
structure BarcodeBox where
  frame : Box
  /-- The black bars, from left to right. -/
  bars : List Box
  caption : Option TextRun
deriving DecidableEq

/-- One thing on a label. -/
inductive Element where
  | rule (rule : Rule)
  | barcode (box : BarcodeBox)
  | text (run : TextRun)
deriving DecidableEq

/-- A label with its elements in the order of painting. -/
structure Label where
  width : Dot
  height : Dot
  elements : List Element
deriving DecidableEq

end LabelPress
