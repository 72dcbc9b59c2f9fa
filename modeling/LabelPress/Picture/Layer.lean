/-!
# Layers of paint

A picture is made of layers of ink, laid on white paper one after another. A layer covers
each pixel by a part between nothing and all of it, and takes the pixel's grey that part
of the way to its ink.

Figures have their sides along the axes, so what they cover is said column by column and
row by row. A figure without smoothing takes the pixels whose centre lies in it; on its
edge, a centre belongs to the figure at the right and lower end alone. A smoothed one
covers a pixel by the area it takes of it.
-/

namespace LabelPress

/-- A stretch of a line of pixels. Pixel number `i` reaches from `i` to `i + 1`. -/
structure Span where
  start : Rat
  stop : Rat
deriving DecidableEq

namespace Span

/-- Whether the centre of a pixel lies in the span. -/
def hits (s : Span) (i : Int) : Prop := s.start < i + 1 / 2 ∧ (i : Rat) + 1 / 2 ≤ s.stop

instance (s : Span) (i : Int) : Decidable (s.hits i) := inferInstanceAs (Decidable (_ ∧ _))

/-- The part of a pixel that lies in the span. -/
def overlap (s : Span) (i : Int) : Rat :=
  let start : Rat := if s.start ≤ i then i else s.start
  let stop : Rat := if s.stop ≤ i + 1 then s.stop else i + 1
  if start ≤ stop then stop - start else 0

/-- The span between two positions, in either order. -/
def between (a b : Rat) : Span := if a ≤ b then ⟨a, b⟩ else ⟨b, a⟩

/-- The part of a span between two positions. -/
def limit (s : Span) (low high : Rat) : Span :=
  ⟨if s.start ≤ low then low else s.start, if s.stop ≤ high then s.stop else high⟩

/-- The span moved on by a length. -/
def shift (s : Span) (n : Rat) : Span := ⟨s.start + n, s.stop + n⟩

end Span

/-- The columns and rows that a figure reaches over. -/
structure Region where
  columns : Span
  rows : Span
deriving DecidableEq

namespace Region

/-- Whether the centre of a pixel lies in the region. -/
def hits (r : Region) (i j : Int) : Prop := r.columns.hits i ∧ r.rows.hits j

instance (r : Region) (i j : Int) : Decidable (r.hits i j) := inferInstanceAs (Decidable (_ ∧ _))

/-- The area of a pixel that lies in the region. -/
def overlap (r : Region) (i j : Int) : Rat := r.columns.overlap i * r.rows.overlap j

end Region

/-- The directions in which pixels lie next to each other. -/
inductive Axis where
  | row
  | column
deriving DecidableEq

/-- The region with a given span along a direction and another one across it. -/
def Axis.region : Axis → Span → Span → Region
  | row, along, across => ⟨along, across⟩
  | column, along, across => ⟨across, along⟩

/-- What a region takes along a direction. -/
def Region.along (r : Region) : Axis → Span
  | .row => r.columns
  | .column => r.rows

/-- What a region takes across a direction. -/
def Region.across (r : Region) : Axis → Span
  | .row => r.rows
  | .column => r.columns

/-- What a layer covers. -/
inductive Figure where
  /-- The pixels with their centre in a region. -/
  | solid (region : Region)
  /-- A region, smoothed. -/
  | smooth (region : Region)
  /-- A region without an inner one, smoothed. -/
  | ring (outer inner : Region)
deriving DecidableEq

/-- The part of a pixel that a figure covers. -/
def Figure.coverage : Figure → Int → Int → Rat
  | solid r, i, j => if r.hits i j then 1 else 0
  | smooth r, i, j => r.overlap i j
  | ring outer inner, i, j =>
    if inner.overlap i j ≤ outer.overlap i j then outer.overlap i j - inner.overlap i j else 0

/-- The figure with its regions changed. -/
def Figure.map (f : Region → Region) : Figure → Figure
  | solid r => solid (f r)
  | smooth r => smooth (f r)
  | ring outer inner => ring (f outer) (f inner)

/-- The region that a figure fills, with what it leaves out inside. -/
def Figure.bounds : Figure → Region
  | solid r => r
  | smooth r => r
  | ring outer _ => outer

/-- The colours of paint. -/
inductive Ink where
  | black
  | white
deriving DecidableEq

/-- The grey of an ink, from zero for black to one for white. -/
def Ink.grey : Ink → Rat
  | black => 0
  | white => 1

/-- A layer of ink. -/
structure Layer where
  ink : Ink
  /-- The part of what is below that the layer hides where it covers it. -/
  opacity : Rat
  figure : Figure
deriving DecidableEq

/-- The grey of a pixel after a layer is laid over the grey it had. -/
def Layer.over (l : Layer) (i j : Int) (grey : Rat) : Rat :=
  grey + (l.ink.grey - grey) * (l.opacity * l.figure.coverage i j)

end LabelPress
