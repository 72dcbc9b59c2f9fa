import LabelPress.Picture.BlockFaces

/-!
# Pictures

A picture is a rectangle of pixels, white at first, with layers of paint laid on it.
`paint` says which layers a label has: a faint border along the edge of the sheet, then
the elements in their order. Whether a label can be painted, and how large the picture
is, is settled before anything is painted (`render`).
-/

namespace LabelPress

/-- White paper with layers of paint on it, the lowest one first. -/
structure Picture where
  width : Nat
  height : Nat
  layers : List Layer
deriving DecidableEq

/-- The grey of the pixel in a column and a row, from zero for black to one for white. -/
def Picture.grey (p : Picture) (i j : Int) : Rat :=
  p.layers.foldl (fun grey layer => layer.over i j grey) 1

namespace Canvas

/-- The thickness of the frame around a barcode, in dots. -/
def frameThickness : Rat := 2

/-- The thickness of the border of a label, in dots. -/
def borderThickness : Rat := 1

/-- The opacity of the border of a label. -/
def borderOpacity : Rat := 1 / 5

/-- The dots between the edge of a label and its border. -/
def borderInset : Dot := 1

/-- A rule, unless its thickness is not finite. -/
def rule (c : Canvas) (rule : Rule) : List Layer :=
  match Single.value? rule.thickness with
  | some thickness => c.line thickness rule.start rule.stop
  | none => []

/-- A barcode on a white box of its own. -/
def barcode (c : Canvas) (faces : Typeface → Face) (b : BarcodeBox) : List Layer :=
  c.fill .white b.frame ++ c.outline 1 frameThickness b.frame ++ b.bars.flatMap (c.fill .black)
    ++ b.caption.toList.flatMap fun run => c.text (faces run.face) run

/-- The paint of an element. -/
def element (c : Canvas) (faces : Typeface → Face) : Element → List Layer
  | .rule r => c.rule r
  | .barcode b => c.barcode faces b
  | .text run => c.text (faces run.face) run

/-- The box of the border of a label. -/
def borderBox (l : Label) : Box where
  x := borderInset
  y := borderInset
  width := l.width - (borderInset + borderInset)
  height := l.height - (borderInset + borderInset)

/-- The paint of a label. -/
def paint (c : Canvas) (faces : Typeface → Face) (l : Label) : List Layer :=
  c.outline borderOpacity borderThickness (borderBox l) ++ l.elements.flatMap (c.element faces)

/-- The picture of a label. -/
def picture (c : Canvas) (faces : Typeface → Face) (l : Label) : Picture :=
  ⟨c.width, c.height, c.paint faces l⟩

end Canvas

namespace Label

/-- The picture of a label in given faces, with given rounding and slanted strokes, if there is
a surface for it with any pixels. -/
def renderWith (faces : Typeface → Face) (round : Rat → Rat) (slant : Slant) (l : Label)
    (m : Magnification) : Except RenderError Picture := do
  let surface ← Surface.fit m l.width l.height
  if surface.width = 0 ∨ surface.height = 0 then
    throw (.noSurface surface.width surface.height)
  else return Canvas.picture { surface with round, slant } faces l

/-- The picture of a label in block faces, with the rounding of single precision and with
sampled strokes. -/
def render (l : Label) (m : Magnification) : Except RenderError Picture :=
  l.renderWith blockFaces Single.round .sampled m

end Label

end LabelPress
