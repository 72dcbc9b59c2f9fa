import LabelPress.Picture.Tile

/-!
# Filled figures

What a tile shows of a filled figure (`Tile.show?`). It shows nothing of a figure that has
hardly any width or height, that lies beside it, or whose pixels are too many to be counted.

The edges of a smoothed figure are taken to the nearest quarter of a pixel. Its rows are
counted in quarters too, in words of 32 bits that wrap around (`Fill.rows?`). Of a figure
that is very tall the last row may so come out below zero, and then nothing is shown, or
above the first one, and then a quarter of a row is. The first row may come out below the
end of the figure, and then the figure goes on there.
-/

namespace LabelPress

/-- The span with its ends on the grid of quarters. Of two quarters that are equally near
the greater one is taken. -/
def Span.quarters (s : Span) : Span :=
  let near (q : Rat) : Rat := (4 * q + 1 / 2).floor / 4
  ⟨near s.start, near s.stop⟩

namespace Fill

/-- A figure that is not wider or not taller than this is not filled. -/
def least : Rat := 1 / 4096

/-- A figure that reaches farther than this is not filled. -/
def farthest : Rat := Single.greatest / 4

/-- Whether a span is long enough to be filled, and near enough. -/
def allows (round : Rat → Rat) (s : Span) : Prop :=
  least < round (s.stop - s.start) ∧ -farthest ≤ s.start ∧ s.stop ≤ farthest

instance (round : Rat → Rat) (s : Span) : Decidable (allows round s) :=
  inferInstanceAs (Decidable (_ ∧ _))

/-- A number of quarter rows in a word of 32 bits. -/
def wrap (quarters : Int) : Int := quarters.bmod 4294967296

/-- The rows of a tile that are painted of a box of pixels, if there are any. -/
def rows? (t : Tile) (b : PixelBox) : Option Span :=
  let first : Int := max 0 (wrap (4 * b.top))
  let last : Int := min (4 * t.height) (wrap (4 * b.bottom))
  let stop : Int := max (first + 1) last
  if last < 0 then none else some ⟨first / 4, stop / 4⟩

/-- The rows of a tile that are painted of a region, out of those that are painted of its
figure. -/
def painted (t : Tile) (window rows : Span) : Span :=
  let rows := rows.quarters.limit 0 t.height
  if rows.start < rows.stop ∧ rows.stop ≤ window.start then window
  else rows.limit window.start window.stop

/-- A region with its sides at the nearest pixel edges outward. -/
def outward (r : Region) : Region :=
  ⟨⟨r.columns.start.floor, r.columns.stop.ceil⟩, ⟨r.rows.start.floor, r.rows.stop.ceil⟩⟩

end Fill

namespace Tile

/-- What a tile shows of a figure without smoothing that fills a region. -/
def solid? (t : Tile) (r : Region) : Option Figure := do
  let box ← PixelBox.near? r
  if t.meets box then some (.solid (t.place r)) else none

/-- What a tile shows of a smoothed figure. -/
def smooth? (t : Tile) (round : Rat → Rat) (f : Figure) : Option Figure := do
  let box ← PixelBox.around? round (Fill.outward f.bounds)
  let rows ← Fill.rows? t box
  if t.meets box then
    some (f.map fun r => t.place ⟨r.columns.quarters, Fill.painted t rows r.rows⟩)
  else none

/-- What a tile shows of a filled figure that is seen from the tile. -/
def show? (t : Tile) (round : Rat → Rat) (f : Figure) : Option Figure :=
  if Fill.allows round f.bounds.columns ∧ Fill.allows round f.bounds.rows then
    match f with
    | .solid r => t.solid? r
    | f => t.smooth? round f
  else none

end Tile

end LabelPress
