import LabelPress.Picture.Tile
import LabelPress.RunLength

/-!
# Hairlines

A hairline is a line one pixel thick. Its ends and its middle lie on a grid with 64 steps to
a pixel, and it is painted on the two rows, or columns, of pixels that it lies between, on
each by the part it has of it.

A line that is longer than 511 pixels is halved until no piece is. The pieces are painted one
after another, so a pixel that two pieces share is painted twice. The middle of two points
is found by halving both, which drops an odd step, so it lies on even steps alone. The first
and the last piece of a line on an odd step are therefore oblique, and how far across they
are has to be followed from pixel to pixel (`Piece.levels`).

No position is less than zero. On an oblique piece, and on one along a column, the paint for
the pixel before the first one goes to the first one.
-/

namespace LabelPress

/-- A line along a row or a column. -/
structure Segment where
  axis : Axis
  /-- The position of its middle across its direction. -/
  across : Rat
  along : Span
deriving DecidableEq

/-- The four sides of a region. -/
def Region.sides (r : Region) : List Segment :=
  [⟨.row, r.rows.start, r.columns⟩, ⟨.column, r.columns.stop, r.rows⟩,
    ⟨.row, r.rows.stop, r.columns⟩, ⟨.column, r.columns.start, r.rows⟩]

namespace Hairline

/-- The steps of the grid in one pixel. -/
def steps : Int := 64

/-- The steps from zero to a position. What is left of a step does not count. -/
def toSteps (q : Rat) : Int := Single.towardZero (steps * q)

/-- The opacity of a line that is thinner than a pixel, as a whole number of 255ths. -/
def fade (opacity thickness : Rat) : Rat :=
  if thickness = 1 then opacity
  else
    let part : Int := 255 * (256 * thickness).floor / 256
    (Single.roundAway (opacity * part) : Rat) / 255

/-- A piece of a line, in steps. -/
structure Piece where
  start : Int
  stop : Int
  /-- How far across the piece is at its start. -/
  first : Int
  /-- How far across the piece is at its end. -/
  last : Int
deriving DecidableEq

namespace Piece

/-- The steps of the longest piece. -/
def longest : Int := 511 * steps

/-- Half of one number and half of another. -/
def middle (a b : Int) : Int := a / 2 + b / 2

/-- The pieces of a piece that is halved up to a given number of times. -/
def halves : Nat → Piece → List Piece
  | 0, p => [p]
  | n + 1, p =>
    if p.stop - p.start ≤ longest then [p]
    else
      let along := middle p.start p.stop
      let across := middle p.first p.last
      halves n ⟨p.start, along, p.first, across⟩ ++ halves n ⟨along, p.stop, across, p.last⟩

/-- How often a line on a tile is halved at most. -/
def mostHalvings : Nat := 5

/-- The parts of a pixel in which positions across a piece are followed. -/
def fine : Int := 65536

/-- The way across from one pixel of a piece to the next, in fine parts. -/
def slope (p : Piece) : Int := ((p.last - p.first) * fine).tdiv (p.stop - p.start)

/-- The position across at the middle of the first pixel of a piece, in fine parts. -/
def origin (p : Piece) : Int :=
  p.first * (fine / steps) + (p.slope * (steps / 2 - p.start % steps) + steps / 2) / steps

/-- How far the lower or right edge of a piece is from zero in each of a number of pixels,
in 256ths, from a position of its middle on. -/
def levels (slope : Int) : Nat → Int → List Int
  | 0, _ => []
  | n + 1, position =>
    let edge := max 0 (position + fine / 2)
    edge / (fine / 256) :: levels slope n (edge - fine / 2 + slope)

/-- Runs of pixels as spans, from a given pixel on. -/
def spans : Int → List (Nat × Int) → List (Span × Int)
  | _, [] => []
  | i, (n, level) :: runs => (⟨i, i + n⟩, level) :: spans (i + n) runs

/-- The stretches of a piece on pixels from zero to a length, each with its level. -/
def bands (length : Nat) (p : Piece) : List (Span × Int) :=
  let first := max 0 (p.start / steps)
  let stop : Int := min length ((p.stop + steps - 1) / steps)
  let position := p.origin + p.slope * (first - p.start / steps)
  let runs := joinRuns ((levels p.slope (stop - first).toNat position).map fun l => (1, l))
  (spans first runs).map fun band =>
    (band.1.limit ((p.start : Rat) / steps) ((p.stop : Rat) / steps), band.2)

/-- The rows or columns of pixels that a piece lies on at a level, each with its part in
255ths. -/
def lanes (p : Piece) (axis : Axis) (level : Int) : List (Int × Int) :=
  let lane := level / 256
  let part := level % 256
  let before := max 1 lane - 1
  if p.first = p.last then
    match axis with
    | .row => [(lane, part), (lane - 1, 255 - part)]
    | .column => [(lane, part), (before, 255 - part)]
  else [(before, 255 - part), (before + 1, part)]

end Piece

/-- The pieces of a line on a tile, which is kept to the tile and a pixel more at both ends. -/
def pieces (length : Nat) (s : Segment) : List Piece :=
  let along := s.along.limit (-1) (length + 1)
  if along.stop ≤ along.start ∨ s.across ≤ -1 then []
  else
    let across := toSteps s.across
    (Piece.mk (toSteps along.start) (toSteps along.stop) across across).halves Piece.mostHalvings

/-- The regions that a line covers on a tile, each with its part in 255ths. The line is seen
from the tile. Only pixels next to the line are among them. -/
def regions (t : Tile) (s : Segment) : List (Int × Region) :=
  let length := match s.axis with
    | .row => t.width
    | .column => t.height
  let farthest := (toSteps s.across + steps - 1) / steps
  (pieces length s).flatMap fun p =>
    (p.bands length).flatMap fun band =>
      ((p.lanes s.axis band.2).filter fun lane => lane.1 ≤ farthest && 0 < lane.2).map fun lane =>
        (lane.2, s.axis.region band.1 ⟨lane.1, lane.1 + 1⟩)

/-- A black line on a tile. -/
def layers (t : Tile) (opacity : Rat) (s : Segment) : List Layer :=
  (regions t s).map fun part => ⟨.black, opacity * (part.1 / 255), .smooth (t.place part.2)⟩

end Hairline

end LabelPress
