import LabelPress.Command

/-!
# Warnings

A drawing line that cannot be used is reported and left out. A warning never stops the
reading of a script.
-/

namespace LabelPress

/-- Why a drawing line was left out. -/
inductive Warning where
  /-- The line has the form of a rule, and its letter stands for no direction. -/
  | unsupportedDirection (line : Nat) (letter : Char)
  /-- The line has the form of no command. It is kept as it was written. -/
  | unparsed (line : Nat) (raw : String)
deriving DecidableEq

namespace Warning

/-- The number of the line in the script. -/
def line : Warning → Nat
  | unsupportedDirection n _ => n
  | unparsed n _ => n

/-- The text that is shown for a warning. -/
def message : Warning → String
  | unsupportedDirection n c =>
    "Line " ++ n.repr ++ ": unsupported line direction '" ++ c.toString ++ "' (only "
      ++ Direction.north.letter.toString ++ " and " ++ Direction.east.letter.toString
      ++ " are drawn)"
  | unparsed n raw => "Line " ++ n.repr ++ ": unparsed command ignored: " ++ raw

end Warning

end LabelPress
