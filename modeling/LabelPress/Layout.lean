import LabelPress.Barcode.Placement

/-!
# Layout

The label that a list of commands draws: first the rules, then the barcodes, then the
texts, each kind in the order of the commands. Every command gives one element, save a
text without a value, which gives none.
-/

namespace LabelPress

/-- The glyph heights of the fonts, font number one first. -/
def fontSizes : List Nat := [18, 22, 28, 36, 46, 58, 72, 86]

/-- The glyph height of a font without a size of its own. -/
def usualFontSize : Nat := 22

/-- The first font that is set in the bold face. -/
def firstBoldFont : UInt32 := 6

/-- The glyph height of a font. -/
def fontSize (font : UInt32) : Nat :=
  if font = 0 then usualFontSize else fontSizes.getD (font.toNat - 1) usualFontSize

/-- The face a font is set in. -/
def fontFace (font : UInt32) : Typeface := if firstBoldFont ≤ font then .bold else .regular

/-- The rule a command draws from a native position. It is at least one dot thick. -/
def placeRule (x y : Dot) (spec : RuleSpec) : Rule :=
  { start := Point.ofNative x y
    stop :=
      match spec.direction with
      | .east => Point.ofNative (x.shift spec.length.toNat) y
      | .north => Point.ofNative x (y.shift spec.length.toNat)
    thickness := Float32.ofNat (max spec.thickness.toNat 1) }

/-- The text a command draws with its baseline at a native position, if it has one. A
multiplier of zero counts as one. -/
def placeText (x y : Dot) (spec : TextSpec) : Option TextRun :=
  if spec.value = "" then none
  else
    let xMul := max spec.xMul.toNat 1
    let yMul := max spec.yMul.toNat 1
    some
      { origin := Point.ofNative x y
        anchor := .baseline
        face := fontFace spec.font
        size := Float32.ofNat (min (fontSize spec.font * yMul) 4294967295)
        stretch := Float32.ofNat xMul / Float32.ofNat yMul
        content := spec.value }

namespace Command

/-- The rule of a rule command. -/
def rule? (c : Command) : Option Rule :=
  match c.shape with
  | .rule spec => some (placeRule c.x c.y spec)
  | _ => none

/-- The box of a barcode command. -/
def barcode? (c : Command) : Option BarcodeBox :=
  match c.shape with
  | .barcode spec => some (Barcode.place c.x c.y spec)
  | _ => none

/-- The text of a text command with a value. -/
def text? (c : Command) : Option TextRun :=
  match c.shape with
  | .text spec => placeText c.x c.y spec
  | _ => none

end Command

/-- The label that commands draw on a sheet. -/
def layout (commands : List Command) : Label :=
  { width := sheetWidth
    height := sheetHeight
    elements :=
      (commands.filterMap Command.rule?).map .rule
        ++ (commands.filterMap Command.barcode?).map .barcode
        ++ (commands.filterMap Command.text?).map .text }

end LabelPress
