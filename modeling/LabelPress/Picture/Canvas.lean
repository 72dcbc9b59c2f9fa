import LabelPress.Box
import LabelPress.Picture.Fill
import LabelPress.Picture.Hairline
import LabelPress.Picture.Stroke

/-!
# Figures on a canvas

A canvas is a surface with a way to round each length that is computed on it, and with a
way to draw slanted strokes. It turns boxes and lines that are given in dots into layers of
paint: `fill` paints a box, `outline` draws its edge and `line` a straight line with flat
ends. Every tile of the surface has layers of its own. A slanted line has a layer for each
pixel it covers.

A line more than one pixel thick is the rectangle along it. A thinner one is a hairline,
fainter by as much as it is thinner; one of no thickness at all is drawn like one of a
pixel. Along an outline of that kind each side is a line of its own, so the sides lie on
each other at the corners.
-/

namespace LabelPress

/-- A surface, and how lengths on it are rounded and slanted strokes drawn. -/
structure Canvas extends Surface where
  /-- The number that is used for a computed one. -/
  round : Rat → Rat
  /-- The parts of the pixels that a slanted stroke hides. -/
  slant : Slant

namespace Canvas

/-- A length in dots as a number of pixels. -/
def pixels (c : Canvas) (dots : Rat) : Rat := c.round (dots * c.scale)

/-- A span of dots as a span of pixels. -/
def scaleSpan (c : Canvas) (s : Span) : Span := ⟨c.pixels s.start, c.pixels s.stop⟩

/-- A region of dots as a region of pixels. -/
def scaleRegion (c : Canvas) (r : Region) : Region := ⟨c.scaleSpan r.columns, c.scaleSpan r.rows⟩

/-- A stretch of dots from its start and length. -/
def dotSpan (c : Canvas) (start length : Dot) : Span :=
  ⟨c.round start.val, c.round (c.round start.val + c.round length.val)⟩

/-- The dots in a box, if its sides are not negative. -/
def dots? (c : Canvas) (b : Box) : Option Region :=
  let columns := c.dotSpan b.x b.width
  let rows := c.dotSpan b.y b.height
  if columns.start ≤ columns.stop ∧ rows.start ≤ rows.stop then some ⟨columns, rows⟩ else none

/-! ## Tiles -/

/-- A span with its ends moved by a length. -/
def moveEnds (c : Canvas) (s : Span) (start stop : Rat) : Span :=
  ⟨c.round (s.start + start), c.round (s.stop + stop)⟩

/-- A region as it is seen from the corner of a tile. -/
def view (c : Canvas) (t : Tile) (r : Region) : Region :=
  ⟨c.moveEnds r.columns (-t.left) (-t.left), c.moveEnds r.rows (-t.top) (-t.top)⟩

/-- A layer, tile by tile. -/
def lay (c : Canvas) (l : Layer) : List Layer :=
  c.tiles.filterMap fun t =>
    (t.show? c.round (l.figure.map (c.view t))).map fun figure => { l with figure }

/-- Whether hairlines in a region are drawn on a tile. The region, with one pixel more on
every side, is counted in pixels. These have to meet the tile, and a tile of one or two
columns or rows has to hold them all. -/
def takesHairlines (c : Canvas) (t : Tile) (r : Region) : Bool :=
  match PixelBox.around? c.round ⟨c.moveEnds r.columns (-1) 1, c.moveEnds r.rows (-1) 1⟩ with
  | some box => t.meets box && (t.holds box || (2 < t.width && 2 < t.height))
  | none => false

/-- Hairlines that are drawn together, all of them in a region that they are told by. -/
def hairlines (c : Canvas) (opacity : Rat) (r : Region) (lines : Region → List Segment) :
    List Layer :=
  c.tiles.flatMap fun t =>
    let seen := c.view t r
    if c.takesHairlines t seen then (lines seen).flatMap (Hairline.layers t opacity) else []

/-! ## Boxes and lines -/

/-- A box filled with ink. On a surface of one tile with a pixel for each dot it is a box of
pixels, elsewhere the pixels with their centre in it. -/
def fill (c : Canvas) (ink : Ink) (b : Box) : List Layer :=
  match c.dots? b with
  | none => []
  | some r =>
    if c.scale = 1 ∧ ¬ c.isCut then
      (PixelBox.rounded? c.round r).toList.map fun box => ⟨ink, 1, .solid box.region⟩
    else c.lay ⟨ink, 1, .solid (c.scaleRegion r)⟩

/-- The length of a step of one along a span of dots, as it comes out when the span is
divided by its own length. -/
def unit (c : Canvas) (s : Span) : Rat :=
  let length := c.pixels (c.round (s.stop - s.start))
  c.round (length * c.round (1 / length))

/-- How many dots a line along a span reaches to each side. -/
def reach (c : Canvas) (s : Span) (thickness : Rat) : Rat :=
  c.round (c.unit s * c.round (thickness / 2))

/-- The opacity of a line that is drawn as a hairline, if its thickness asks for that. -/
def hairline? (c : Canvas) (opacity thickness : Rat) : Option Rat :=
  if 1 < c.pixels thickness then none
  else some (if thickness = 0 then opacity else Hairline.fade opacity (c.pixels thickness))

/-- A black line in a direction, in dots. -/
def lineAlong (c : Canvas) (axis : Axis) (opacity thickness across : Rat) (along : Span) :
    List Layer :=
  if along.start = along.stop then []
  else
    match c.hairline? opacity thickness with
    | some faint =>
      c.hairlines faint (c.scaleRegion (axis.region along ⟨across, across⟩))
        fun r => [⟨axis, (r.across axis).start, r.along axis⟩]
    | none =>
      let reach := c.reach along thickness
      c.lay ⟨.black, opacity,
        .smooth (c.scaleRegion (axis.region along (c.moveEnds ⟨across, across⟩ (-reach) reach)))⟩

/-- A black line along neither a row nor a column, pixel by pixel. -/
def stroke (c : Canvas) (line : Stroke) : List Layer :=
  (List.range c.height).flatMap fun (j : Nat) => (List.range c.width).filterMap fun (i : Nat) =>
    let share := c.slant c.toSurface line i j
    if share.val = 0 then none
    else some ⟨.black, share.val, .solid ⟨⟨i, i + 1⟩, ⟨j, j + 1⟩⟩⟩

/-- A black line between two points. A line of negative thickness is not drawn. -/
def line (c : Canvas) (thickness : Rat) (start stop : Point) : List Layer :=
  if thickness < 0 then []
  else if start.y = stop.y then
    c.lineAlong .row 1 thickness (c.round start.y.val)
      (.between (c.round start.x.val) (c.round stop.x.val))
  else if start.x = stop.x then
    c.lineAlong .column 1 thickness (c.round start.x.val)
      (.between (c.round start.y.val) (c.round stop.y.val))
  else c.stroke ⟨thickness, start, stop⟩

/-- The black outline of a box. A box without height has the outline of a line along its
row, one without width that of a line along its column. -/
def outline (c : Canvas) (opacity thickness : Rat) (b : Box) : List Layer :=
  match c.dots? b with
  | none => []
  | some r =>
    match c.hairline? opacity thickness with
    | some faint => c.hairlines faint (c.scaleRegion r) Region.sides
    | none =>
      if r.rows.start = r.rows.stop then c.lineAlong .row opacity thickness r.rows.start r.columns
      else if r.columns.start = r.columns.stop then
        c.lineAlong .column opacity thickness r.columns.start r.rows
      else
        let x := c.reach r.rows thickness
        let y := c.reach r.columns thickness
        c.lay ⟨.black, opacity, .ring
          (c.scaleRegion ⟨c.moveEnds r.columns (-x) x, c.moveEnds r.rows (-y) y⟩)
          (c.scaleRegion ⟨c.moveEnds r.columns x (-x), c.moveEnds r.rows y (-y)⟩)⟩

end Canvas

end LabelPress
