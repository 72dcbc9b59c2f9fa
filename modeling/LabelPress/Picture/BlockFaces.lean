import LabelPress.Picture.Glyphs

/-!
# Block faces

Faces in which every glyph is one filled box and every measure is a whole number of ems,
one em being the size. Digits, capital letters, small letters and the space have glyphs of
their own; all other characters share one.
-/

namespace LabelPress

/-- The kinds of characters that block faces tell apart. -/
inductive GlyphKind where
  | other
  | space
  | upper
  | lower
  | digit
deriving DecidableEq

/-- The kind of a character. -/
def GlyphKind.ofChar (ch : Char) : GlyphKind :=
  if ch = ' ' then .space
  else if ch.isUpper then .upper
  else if ch.isLower then .lower
  else if ch.isDigit then .digit
  else .other

/-- A glyph in ems. Its box reaches from `left` to `right` and from `bottom` to `top`. -/
structure Block where
  advance : Nat
  left : Int
  right : Int
  bottom : Int
  top : Int
deriving DecidableEq

/-- A block as a glyph of a given size. -/
def Block.glyph (b : Block) (size : Rat) : Glyph where
  advance := size * b.advance
  left := size * b.left
  bottom := size * b.bottom
  width := size * ((b.right - b.left : Int) : Rat)
  height := size * ((b.top - b.bottom : Int) : Rat)

/-- The face with a given ascent, in ems, and a given block for each kind. -/
def Face.ofBlocks (ascent : Nat) (block : GlyphKind → Block) : Face where
  ascent size := size * ascent
  glyph size ch := (block (.ofChar ch)).glyph size

/-- The blocks of the regular face. -/
def regularBlock : GlyphKind → Block
  | .other => ⟨1, 0, 1, 0, 1⟩
  | .space => ⟨1, 0, 0, 0, 0⟩
  | .upper => ⟨2, 0, 1, 0, 1⟩
  | .lower => ⟨2, 0, 1, -1, 0⟩
  | .digit => ⟨3, 1, 2, 0, 1⟩

/-- The blocks of the bold face. -/
def boldBlock : GlyphKind → Block
  | .other => ⟨1, 0, 1, 0, 1⟩
  | .space => ⟨1, 0, 0, 0, 0⟩
  | .upper => ⟨2, 0, 1, 0, 2⟩
  | .lower => ⟨2, 0, 1, -1, 1⟩
  | .digit => ⟨3, 0, 2, 0, 1⟩

/-- The blocks of the face with one width for all. -/
def monoBlock : GlyphKind → Block
  | .other => ⟨3, 1, 2, 1, 2⟩
  | .space => ⟨3, 0, 0, 0, 0⟩
  | .upper => ⟨3, 0, 1, 0, 3⟩
  | .lower => ⟨3, 1, 2, 0, 1⟩
  | .digit => ⟨3, 0, 2, 1, 2⟩

/-- The block faces. -/
def blockFaces : Typeface → Face
  | .regular => .ofBlocks 1 regularBlock
  | .bold => .ofBlocks 2 boldBlock
  | .mono => .ofBlocks 3 monoBlock

end LabelPress
