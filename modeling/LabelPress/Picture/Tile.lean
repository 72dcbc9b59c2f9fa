import LabelPress.Picture.PixelBox
import LabelPress.Surface

/-!
# Tiles

A surface is painted tile by tile. A surface of moderate size is one tile; a larger one is
cut into several, none of which has more than 8191 columns or rows. On each tile a figure
is seen from the upper left corner of the tile, and what is painted is kept to the tile
(`Tile.place`).
-/

namespace LabelPress

/-- A part of a surface that is painted on its own. -/
structure Tile where
  left : Nat
  top : Nat
  width : Nat
  height : Nat
deriving DecidableEq

namespace Tile

/-- The most columns or rows that a tile has. -/
def longest : Nat := 8191

/-- A length cut into pieces, each with its start. -/
def cut (length : Nat) : List (Nat × Nat) :=
  (List.range ((length + longest - 1) / longest)).map fun n =>
    (n * longest, min longest (length - n * longest))

/-- Whether a box of pixels, seen from the tile, has a pixel on it. -/
def meets (t : Tile) (b : PixelBox) : Prop :=
  b.left < t.width ∧ 0 < b.right ∧ b.top < t.height ∧ 0 < b.bottom

/-- Whether a box of pixels, seen from the tile, has all its pixels on it. -/
def holds (t : Tile) (b : PixelBox) : Prop :=
  0 ≤ b.left ∧ b.right ≤ t.width ∧ 0 ≤ b.top ∧ b.bottom ≤ t.height

instance (t : Tile) (b : PixelBox) : Decidable (t.meets b) := inferInstanceAs (Decidable (_ ∧ _))

instance (t : Tile) (b : PixelBox) : Decidable (t.holds b) := inferInstanceAs (Decidable (_ ∧ _))

/-- The part of a region on the tile, for a region seen from the tile. -/
def place (t : Tile) (r : Region) : Region :=
  ⟨(r.columns.limit 0 t.width).shift t.left, (r.rows.limit 0 t.height).shift t.top⟩

end Tile

namespace Surface

/-- The tiles of a surface, row by row. -/
def tiles (s : Surface) : List Tile :=
  (Tile.cut s.height).flatMap fun rows =>
    (Tile.cut s.width).map fun columns => ⟨columns.1, rows.1, columns.2, rows.2⟩

/-- Whether a surface is more than one tile. -/
def isCut (s : Surface) : Prop := Tile.longest < s.width ∨ Tile.longest < s.height

instance (s : Surface) : Decidable s.isCut := inferInstanceAs (Decidable (_ ∨ _))

end Surface

end LabelPress
