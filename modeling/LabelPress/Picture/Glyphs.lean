import LabelPress.Label
import LabelPress.Picture.Canvas

/-!
# Glyphs

A face says, for a size in pixels, how high its lines rise above the baseline and what
box and advance each glyph has. A glyph is painted as its filled box.

A run of text is set glyph by glyph along a pen. The glyphs that cannot reach the canvas
are left out (`visible`): those that end left of it, and all from the first one on that
starts right of it.
-/

namespace LabelPress

/-- A glyph at some size, in pixels. Its box is given by its lower left corner, counted
from the pen and upward from the baseline. -/
structure Glyph where
  /-- How far the pen moves on. -/
  advance : Rat
  left : Rat
  bottom : Rat
  width : Rat
  height : Rat
deriving DecidableEq

/-- A face, at every size in pixels. -/
structure Face where
  /-- How high a line rises above its baseline. -/
  ascent : Rat → Rat
  glyph : Rat → Char → Glyph

/-- A glyph and the position of the pen at its start. -/
structure SetGlyph where
  pen : Rat
  glyph : Glyph
deriving DecidableEq

namespace Face

/-- The glyphs of a text at a size, each at its pen position, the first one at `pen`. -/
def setAll (face : Face) (round : Rat → Rat) (size : Rat) : Rat → List Char → List SetGlyph
  | _, [] => []
  | pen, ch :: chs =>
    let glyph := face.glyph size ch
    ⟨pen, glyph⟩ :: setAll face round size (round (pen + glyph.advance)) chs

/-- The glyphs of a text that end at `first` or after it, up to the first one that starts
after `last`. -/
def setBetween (face : Face) (round : Rat → Rat) (size first last : Rat) :
    Rat → List Char → List SetGlyph
  | _, [] => []
  | pen, ch :: chs =>
    if last < pen then []
    else
      let glyph := face.glyph size ch
      let stop := round (pen + glyph.advance)
      let rest := setBetween face round size first last stop chs
      if first ≤ stop then ⟨pen, glyph⟩ :: rest else rest

end Face

namespace TextRun

/-- The least stretch that the edges of the canvas are divided by. -/
def leastStretch : Rat := 1 / 8388608

/-- A run is not drawn if it is more than this many canvases tall. -/
def mostCanvases : Rat := 2

end TextRun

namespace Canvas

/-- The glyphs of a text that can reach the canvas, for a text whose pen starts at column
`left`. -/
def visible (c : Canvas) (face : Face) (size left stretch : Rat) (text : List Char) :
    List SetGlyph :=
  let unit := if stretch ≤ TextRun.leastStretch then TextRun.leastStretch else stretch
  face.setBetween c.round size (c.round (-left / unit))
    (c.round (c.round (c.round c.width - left) / unit)) 0 text

/-- The box of a glyph on the canvas, for a text whose pen starts at column `left` on the
given baseline. Its top lies on an edge between rows. -/
def glyphRegion (c : Canvas) (left baseline stretch : Rat) (g : SetGlyph) : Region :=
  let start := c.round (left + c.round (c.round (g.pen + g.glyph.left) * stretch))
  let stop := c.round (start + c.round (g.glyph.width * stretch))
  let top := Single.roundAway (c.round (c.round (baseline - g.glyph.height) - g.glyph.bottom))
  ⟨.between start stop, ⟨top, c.round (top + g.glyph.height)⟩⟩

/-- A glyph as a layer of paint. -/
def glyphLayer (c : Canvas) (left baseline stretch : Rat) (g : SetGlyph) : Layer :=
  ⟨.black, 1, .solid (c.glyphRegion left baseline stretch g)⟩

/-- A run of text. It is left out if its size or its stretch is not finite, if it has no
size, or if it is far taller than the canvas. -/
def text (c : Canvas) (face : Face) (run : TextRun) : List Layer :=
  match Single.value? run.size, Single.value? run.stretch with
  | some dots, some stretch =>
    let size := c.pixels dots
    if size ≤ 0 ∨ c.round c.height * TextRun.mostCanvases < size then []
    else
      let left := c.pixels (c.round run.origin.x.val)
      let row := c.pixels (c.round run.origin.y.val)
      let baseline :=
        match run.anchor with
        | .baseline => row
        | .top => c.round (row + face.ascent size)
      (c.visible face size left stretch run.content.toList).flatMap fun g =>
        c.lay (c.glyphLayer left baseline stretch g)
  | _, _ => []

end Canvas

end LabelPress
