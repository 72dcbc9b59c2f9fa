import LabelPress.Layout
import LabelPress.Picture

/-!
# Checked arithmetic

Most operations on dots stop at the ends of the range, but a few of those in layout and painting
are taken to be exact: where the bars of a barcode end and how tall they are, the width of a
stripe, the border of a label, and the number of pixels of a surface. Here these operations are
done with a check. Each gives a number only if the exact result fits its word, and a remainder
only if the divisor is not zero, and what is computed from them is nothing once one of them gave
nothing. What is made of fixed numbers alone is not checked, such as both insets together.

The loop over the stripes of a barcode would go on for ever if a stripe that is within the limit
did not end right of where it starts. It is nothing as well in that case.
-/

namespace LabelPress

/-- A value that was computed with every result in its range, or nothing. -/
abbrev Checked := Option

namespace Checked

/-- The difference of two numbers of dots. -/
def sub (a b : Dot) : Checked Dot :=
  if h : -2147483648 ≤ a.val - b.val ∧ a.val - b.val ≤ 2147483647 then
    some ⟨a.val - b.val, h.1, h.2⟩
  else none

/-- The remainder of two numbers in words of 32 bits. -/
def mod (a b : Nat) : Checked Nat := if b = 0 then none else some (a % b)

/-- The sum of two numbers in words of 32 bits. -/
def add (a b : Nat) : Checked Nat := if a + b ≤ 4294967295 then some (a + b) else none

/-- The product of two numbers in words of 64 bits. -/
def mul (a b : Nat) : Checked Nat := if a * b ≤ 18446744073709551615 then some (a * b) else none

end Checked

/-! ## Layout -/

namespace Barcode

/-- The next stripe, and the place after it. -/
def Stripes.nextChecked (s : Stripes) : Checked (Stripe × Stripes) := do
  let x := shiftStep s.state
  let rest ← Checked.mod (x >>> 1).toNat s.maxWidth
  let width ← Checked.add 1 rest
  return (⟨x &&& 1 = 1, width⟩, { s with state := x })

/-- The bars from column `cursor` on, as long as the next stripe ends within the limit. -/
def fillChecked (limit top height cursor : Dot) (stripes : Stripes) : Checked (List Box) := do
  let (stripe, stripes) ← stripes.nextChecked
  let stop := stripeEnd cursor stripe
  if limit < stop then return []
  else if cursor < stop then
    let rest ← fillChecked limit top height stop stripes
    if stripe.black then return ⟨cursor, top, Dot.clamp stripe.width, height⟩ :: rest
    else return rest
  else none
termination_by (Dot.greatest - cursor.val).toNat
decreasing_by
  have right := (stripeEnd cursor stripe).val_le
  have forward : cursor.val < (stripeEnd cursor stripe).val := ‹cursor < stop›
  simp only [Dot.greatest]
  omega

/-- The bars of a barcode in its frame. -/
def barsChecked (frame : Box) (seed unit : UInt32) : Checked (List Box) := do
  let limit ← Checked.sub frame.right insetX
  let height ← Checked.sub frame.height (insetY + insetY)
  fillChecked limit (frame.y + insetY) height (frame.x + insetX)
    (.start seed (effectiveUnit unit))

/-- The stand-in for a barcode at a native position. -/
def placeChecked (x y : Dot) (spec : BarcodeSpec) : Checked BarcodeBox := do
  let frame := frame x y spec
  let bars ← barsChecked frame (hash spec.value) spec.unit
  return { frame, bars, caption := caption? frame spec.value }

end Barcode

/-- The box of a command, if it is a barcode command. -/
def Command.barcodeChecked (c : Command) : Checked (Option BarcodeBox) :=
  match c.shape with
  | .barcode spec => some <$> Barcode.placeChecked c.x c.y spec
  | _ => return none

/-- The label that commands draw on a sheet. -/
def layoutChecked (commands : List Command) : Checked Label := do
  let rules := commands.filterMap Command.rule?
  let barcodes ← commands.filterMapM Command.barcodeChecked
  let texts := commands.filterMap Command.text?
  return {
    width := sheetWidth
    height := sheetHeight
    elements := rules.map .rule ++ barcodes.map .barcode ++ texts.map .text }

/-! ## Painting -/

/-- The surface for a label of a given size. -/
def Surface.fitChecked (m : Magnification) (width height : Dot) :
    Checked (Except RenderError Surface) :=
  match m.scale? with
  | none => return .error (.invalidScale m.scale)
  | some scale => do
    let w := extent width scale
    let h := extent height scale
    let pixels ← Checked.mul w h
    return if mostPixels < pixels then .error (.noSurface w h) else .ok ⟨scale, w, h⟩

/-- The paint of a label. -/
def Canvas.paintChecked (c : Canvas) (faces : Typeface → Face) (l : Label) :
    Checked (List Layer) := do
  let width ← Checked.sub l.width (borderInset + borderInset)
  let height ← Checked.sub l.height (borderInset + borderInset)
  return c.outline borderOpacity borderThickness ⟨borderInset, borderInset, width, height⟩
    ++ l.elements.flatMap (c.element faces)

/-- The picture of a label in given faces, with given rounding and slanted strokes, if there is a
surface for it with any pixels. -/
def Label.renderChecked (faces : Typeface → Face) (round : Rat → Rat) (slant : Slant) (l : Label)
    (m : Magnification) : Checked (Except RenderError Picture) := do
  match ← Surface.fitChecked m l.width l.height with
  | .error e => return .error e
  | .ok surface =>
    if surface.width = 0 ∨ surface.height = 0 then
      return .error (.noSurface surface.width surface.height)
    else
      let layers ← Canvas.paintChecked { surface with round, slant } faces l
      return .ok ⟨surface.width, surface.height, layers⟩

end LabelPress
