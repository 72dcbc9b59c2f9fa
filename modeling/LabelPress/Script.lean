import LabelPress.Script.Line
import LabelPress.Text.Lines

/-!
# Scripts

A script is read line by line. Reading never fails: it gives the commands in order, and
beside them the warnings in order.
-/

namespace LabelPress

/-- What was read from a script. -/
structure Script where
  commands : List Command
  warnings : List Warning
deriving DecidableEq

namespace Script

/-- What each line of a text comes to, the first line being number one. -/
def readings (text : List Char) : List Reading :=
  ((Text.lines text).zipIdx 1).map fun line => readLine line.1 line.2

/-- The script written in a text. -/
def parse (text : String) : Script where
  commands := (readings text.toList).filterMap Reading.command?
  warnings := (readings text.toList).filterMap Reading.warning?

/-- The number of texts. -/
def textCount (s : Script) : Nat := s.commands.countP Command.isText

/-- The number of rules. -/
def ruleCount (s : Script) : Nat := s.commands.countP Command.isRule

/-- The number of barcodes. -/
def barcodeCount (s : Script) : Nat := s.commands.countP Command.isBarcode

/-- A number and a word, the word with an `s` unless the number is one. -/
def counted (n : Nat) (noun : String) : String :=
  n.repr ++ " " ++ noun ++ (if n = 1 then "" else "s")

/-- One line that says how many commands and warnings there are. -/
def summary (s : Script) : String :=
  counted s.commands.length "command" ++ " (" ++ s.textCount.repr ++ " text, "
    ++ counted s.ruleCount "line" ++ ", " ++ counted s.barcodeCount "barcode" ++ "), "
    ++ counted s.warnings.length "warning"

end Script

end LabelPress
