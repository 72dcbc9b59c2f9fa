import LabelPress.Dot

/-!
# Commands

A command draws one thing: a line of text, a rule, or a barcode. Its position is in the
sheet's native space, and it remembers the line of the script it was read from.
-/

namespace LabelPress

/-- The way a rule runs from its position, in native space. -/
inductive Direction where
  /-- Upward. -/
  | north
  /-- To the right. -/
  | east
deriving DecidableEq

/-- The letter that stands for a direction in a script. -/
def Direction.letter : Direction → Char
  | .north => 'N'
  | .east => 'E'

/-- The direction a letter stands for. Two letters stand for one. -/
def Direction.ofLetter? (c : Char) : Option Direction :=
  if c = 'N' then some .north else if c = 'E' then some .east else none

/-- A letter stands for a direction exactly if it is the direction's own. -/
theorem Direction.ofLetter?_eq_some_iff {c : Char} {d : Direction} :
    ofLetter? c = some d ↔ c = d.letter := by
  cases d <;> grind [ofLetter?, letter]

/-- A letter stands for no direction exactly if it is neither `N` nor `E`. -/
theorem Direction.ofLetter?_eq_none_iff {c : Char} : ofLetter? c = none ↔ c ≠ 'N' ∧ c ≠ 'E' := by
  grind [ofLetter?]

/-- What a text command says beside its position. -/
structure TextSpec where
  /-- A letter that is kept and has no effect on the layout. -/
  orientation : Char
  /-- The number of the font. -/
  font : UInt32
  /-- The horizontal multiplier. -/
  xMul : UInt32
  /-- The vertical multiplier. -/
  yMul : UInt32
  /-- The text. -/
  value : String
deriving DecidableEq

/-- What a rule command says beside its position. -/
structure RuleSpec where
  direction : Direction
  /-- The thickness in dots. -/
  thickness : UInt32
  /-- The length in dots. -/
  length : UInt32
deriving DecidableEq

/-- What a barcode command says beside its position. -/
structure BarcodeSpec where
  /-- A letter that is kept and has no effect on the layout. -/
  orientation : Char
  /-- The height in dots, zero for the usual one. -/
  height : UInt32
  /-- The bar unit in dots, zero for the usual one. -/
  unit : UInt32
  /-- A number that is kept and has no effect on the layout. -/
  extra : UInt32
  /-- The text the barcode stands for. -/
  value : String
deriving DecidableEq

/-- What a command draws. -/
inductive Shape where
  | text (spec : TextSpec)
  | rule (spec : RuleSpec)
  | barcode (spec : BarcodeSpec)
deriving DecidableEq

/-- One drawing command, at a native position. -/
structure Command where
  x : Dot
  y : Dot
  /-- The number of its line in the script, the first line being number one. -/
  line : Nat
  shape : Shape
deriving DecidableEq

namespace Command

/-- Whether the command draws a text. -/
def isText (c : Command) : Bool := c.shape matches .text _

/-- Whether the command draws a rule. -/
def isRule (c : Command) : Bool := c.shape matches .rule _

/-- Whether the command draws a barcode. -/
def isBarcode (c : Command) : Bool := c.shape matches .barcode _

end Command

end LabelPress
