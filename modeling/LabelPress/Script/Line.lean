import LabelPress.Script.Token
import LabelPress.Text.Blank
import LabelPress.Warning

/-!
# One line of a script

Blanks around a line do not count. A line draws if it then starts with `!F`; every other
line is skipped without a word, be it empty, a comment, a directive for the printer, or
something unknown.

A drawing line has one of three forms, with `y` before `x` in each:

* `!F T S y x orientation font xMul yMul "value"` for a text,
* `!F B direction y x L thickness length` for a rule,
* `!F C S y x orientation height unit extra "value"` for a barcode.

`readLine` gives the command of such a line, or the warning that it cannot be used.
-/

namespace LabelPress

/-- What a drawing line says by its form, before the letter of a rule is looked at. -/
inductive Form where
  | text (x y : Dot) (spec : TextSpec)
  | rule (x y : Dot) (letter : Char) (thickness length : UInt32)
  | barcode (x y : Dot) (spec : BarcodeSpec)
deriving DecidableEq

namespace Form

open Reader

/-- The form of a command that draws a value, under the word for its kind. -/
def valueLine (kind : String)
    (form : Dot → Dot → Char → UInt32 → UInt32 → UInt32 → String → Form) : Reader Form := do
  word "!F"; gap; word kind; gap; word "S"; gap
  let y ← signed; gap
  let x ← signed; gap
  let orientation ← letter; gap
  let first ← unsigned; gap
  let second ← unsigned; gap
  let third ← unsigned; gap
  let value ← quoted; atEnd
  return form x y orientation first second third value

/-- The form of a text command. -/
def textLine : Reader Form :=
  valueLine "T" fun x y orientation font xMul yMul value =>
    .text x y { orientation, font, xMul, yMul, value }

/-- The form of a rule command. -/
def ruleLine : Reader Form := do
  word "!F"; gap; word "B"; gap
  let direction ← letter; gap
  let y ← signed; gap
  let x ← signed; gap
  word "L"; gap
  let thickness ← unsigned; gap
  let length ← unsigned; atEnd
  return .rule x y direction thickness length

/-- The form of a barcode command. -/
def barcodeLine : Reader Form :=
  valueLine "C" fun x y orientation height unit extra value =>
    .barcode x y { orientation, height, unit, extra, value }

/-- The form of a whole line, if it has one. -/
def read? (cs : List Char) : Option Form :=
  (textLine cs <|> ruleLine cs <|> barcodeLine cs).map Prod.fst

/-- The command a form stands for on a line, or the warning that its letter stands for
no direction. -/
def toCommand (line : Nat) : Form → Except Warning Command
  | text x y spec => .ok { x, y, line, shape := .text spec }
  | rule x y letter thickness length =>
    match Direction.ofLetter? letter with
    | some direction => .ok { x, y, line, shape := .rule { direction, thickness, length } }
    | none => .error (.unsupportedDirection line letter)
  | barcode x y spec => .ok { x, y, line, shape := .barcode spec }

end Form

/-- What one line of a script comes to. -/
inductive Reading where
  | skipped
  | command (c : Command)
  | warning (w : Warning)
deriving DecidableEq

namespace Reading

/-- The command, if the line gives one. -/
def command? : Reading → Option Command
  | command c => some c
  | _ => none

/-- The warning, if the line gives one. -/
def warning? : Reading → Option Warning
  | warning w => some w
  | _ => none

/-- What the result of `Form.toCommand` comes to. -/
def ofResult : Except Warning Command → Reading
  | .ok c => command c
  | .error w => warning w

end Reading

/-- Whether a line without blanks around it starts a comment. -/
def isComment (cs : List Char) : Bool := "//".toList.isPrefixOf cs

/-- Whether a line without blanks around it is a directive for the printer: it sets it up
(`!Y`), prints (`!P`, with nothing after it) or controls it (`!C`, `!Q`). -/
def isDirective (cs : List Char) : Bool :=
  "!Y".toList.isPrefixOf cs || cs == "!P".toList || "!C".toList.isPrefixOf cs
    || "!Q".toList.isPrefixOf cs

/-- Whether a line without blanks around it draws. -/
def isDrawing (cs : List Char) : Bool := "!F".toList.isPrefixOf cs

/-- What line number `n` of a script comes to. -/
def readLine (raw : List Char) (n : Nat) : Reading :=
  let cs := Text.trim raw
  if cs.isEmpty || isComment cs || isDirective cs then .skipped
  else if !isDrawing cs then .skipped
  else
    match Form.read? cs with
    | some form => .ofResult (form.toCommand n)
    | none => .warning (.unparsed n (String.ofList raw))

end LabelPress
