import LabelPress.Barcode.Stripes
import LabelPress.Command
import LabelPress.Label

/-!
# Placing a barcode

A barcode is drawn as a framed box that stands on its position and grows upward. The
length of the value and the bar unit give the width of the box (`boxWidth`), within the
least width and the room to the right edge of the sheet; where there is less room than
the least width, the least width wins.

The hash of the value chooses the stripes. They fill the box from the left for as long
as the next one ends within the inset (`fill`), and the black ones become bars. The value
is written below the box if there is room for it above the bottom edge.
-/

namespace LabelPress.Barcode

/-- The least width of a box. -/
def leastWidth : Dot := 220

/-- The room that is kept free at the right edge of the sheet. -/
def rightMargin : Dot := 10

/-- The dots one unit of the value takes, for a bar unit of one. -/
def unitWidth : Dot := 8

/-- The least height of a box. -/
def leastHeight : Nat := 40

/-- The height of a box for a command that says zero. -/
def usualHeight : Nat := 200

/-- The bar unit for a command that says zero. -/
def usualUnit : UInt32 := 2

/-- The room between the frame and the bars, at the left and the right. -/
def insetX : Dot := 6

/-- The room between the frame and the bars, at the top and the bottom. -/
def insetY : Dot := 4

/-- The room between the box and its caption. -/
def captionGap : Dot := 6

/-- The room that is kept free below the top of a caption. -/
def captionMargin : Dot := 4

/-- The size of a caption. -/
def captionSize : Float32 := 22

/-- The bar unit a command means. -/
def effectiveUnit (unit : UInt32) : UInt32 := if unit = 0 then usualUnit else unit

/-- The width of the box for a value at column `x`. -/
def boxWidth (x : Dot) (value : String) (unit : UInt32) : Dot :=
  let length := Dot.clamp (Text.units value).length
  let wanted := max (length * Dot.clamp (effectiveUnit unit).toNat * unitWidth) leastWidth
  max (min wanted (sheetWidth - x - rightMargin)) leastWidth

/-- The height of the box for the height a command says. -/
def boxHeight (height : UInt32) : Dot :=
  Dot.clamp (max (if height = 0 then usualHeight else height.toNat) leastHeight)

/-- The column where a stripe that starts at column `cursor` ends. -/
def stripeEnd (cursor : Dot) (stripe : Stripe) : Dot := cursor + Dot.clamp stripe.width

/-- The column that no stripe in a frame may pass. -/
def fillLimit (frame : Box) : Dot := frame.right - insetX

/-- A stripe that ends within the limit ends right of where it starts. -/
theorem lt_stripeEnd {frame : Box} {cursor : Dot} {s : Stripes}
    (h : ¬fillLimit frame < stripeEnd cursor s.next.1) : cursor < stripeEnd cursor s.next.1 := by
  have wide := s.one_le_width_next
  have right := frame.right.val_le
  have low := cursor.le_val
  have inset : insetX.val = 6 := rfl
  simp only [Dot.lt_def, fillLimit, stripeEnd, Dot.val_add, Dot.val_sub, Dot.val_clamp, Dot.least,
    Dot.greatest] at h ⊢
  omega

/-- The stripes placed side by side in a frame from column `cursor` on, as long as the
next one ends within the limit, and of those the black ones as bars. -/
def fill (frame : Box) (cursor : Dot) (stripes : Stripes) : List Box :=
  if h : fillLimit frame < stripeEnd cursor stripes.next.1 then []
  else
    have := lt_stripeEnd h
    let rest := fill frame (stripeEnd cursor stripes.next.1) stripes.next.2
    if stripes.next.1.black then
      { x := cursor
        y := frame.y + insetY
        width := Dot.clamp stripes.next.1.width
        height := frame.height - (insetY + insetY) } :: rest
    else rest
termination_by ((fillLimit frame).val - cursor.val).toNat
decreasing_by
  simp only [Dot.lt_def] at h this
  omega

/-- The bars of a barcode in its frame. -/
def bars (frame : Box) (seed unit : UInt32) : List Box :=
  fill frame (frame.x + insetX) (Stripes.start seed (effectiveUnit unit))

/-- The frame of a barcode. It stands on the native position `x`, `y`. -/
def frame (x y : Dot) (spec : BarcodeSpec) : Box :=
  let anchor := Point.ofNative x y
  let height := boxHeight spec.height
  { x := anchor.x
    y := anchor.y - height
    width := boxWidth x spec.value spec.unit
    height }

/-- The caption of a barcode below its frame, if the value is not empty and its top lies
above the margin at the bottom of the sheet. -/
def caption? (frame : Box) (value : String) : Option TextRun :=
  let top := frame.bottom + captionGap
  if value ≠ "" ∧ top ≤ sheetHeight - captionMargin then
    some
      { origin := ⟨frame.x, top⟩
        anchor := .top
        face := .mono
        size := captionSize
        stretch := 1
        content := value }
  else none

/-- The stand-in for a barcode at a native position. -/
def place (x y : Dot) (spec : BarcodeSpec) : BarcodeBox :=
  { frame := frame x y spec
    bars := bars (frame x y spec) (hash spec.value) spec.unit
    caption := caption? (frame x y spec) spec.value }

end LabelPress.Barcode
