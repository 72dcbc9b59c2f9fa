import LabelPress.Script
import LabelPress.Text.Numeral

/-!
# Writing commands

`Command.toLine` writes a command in its usual form, with one space between its tokens. Not
every command can be written: a letter has to be a capital one, and a value can hold neither
a quote nor a line feed (`Command.Printable`).

A script that is written by hand holds other lines between its commands: `Item` is a line of
either kind.
-/

namespace LabelPress

open Text

/-- Words with one space between them. -/
def spaced : List (List Char) → List Char
  | [] => []
  | [w] => w
  | w :: ws => w ++ ' ' :: spaced ws

/-- A number without sign, as it is written in a script. -/
def unsignedToken (n : UInt32) : List Char := numeral n.toNat

/-- A number of dots, as it is written in a script. -/
def signedToken (d : Dot) : List Char := signedNumeral d.val

/-- A value, as it is written in a script. -/
def quotedToken (value : String) : List Char := '"' :: value.toList ++ ['"']

namespace Command

/-- The tokens that write a command. -/
def tokens (c : Command) : List (List Char) :=
  match c.shape with
  | .text spec =>
    [['!', 'F'], ['T'], ['S'], signedToken c.y, signedToken c.x, [spec.orientation],
      unsignedToken spec.font, unsignedToken spec.xMul, unsignedToken spec.yMul,
      quotedToken spec.value]
  | .rule spec =>
    [['!', 'F'], ['B'], [spec.direction.letter], signedToken c.y, signedToken c.x, ['L'],
      unsignedToken spec.thickness, unsignedToken spec.length]
  | .barcode spec =>
    [['!', 'F'], ['C'], ['S'], signedToken c.y, signedToken c.x, [spec.orientation],
      unsignedToken spec.height, unsignedToken spec.unit, unsignedToken spec.extra,
      quotedToken spec.value]

/-- The line that writes a command. -/
def toLine (c : Command) : List Char := spaced c.tokens

/-- Whether a value can stand between quotes on a line. -/
def PrintableValue (value : String) : Prop := '"' ∉ value.toList ∧ '\n' ∉ value.toList

/-- Whether a command can be written. -/
def Printable (c : Command) : Prop :=
  match c.shape with
  | .text spec => spec.orientation.isUpper ∧ PrintableValue spec.value
  | .rule _ => True
  | .barcode spec => spec.orientation.isUpper ∧ PrintableValue spec.value

end Command

/-- Lines with a line feed after each. -/
def unlines (ls : List (List Char)) : List Char := ls.flatMap (· ++ ['\n'])

/-- Whether a line is blank, a comment or a directive for the printer. -/
def IsAside (l : List Char) : Prop :=
  '\n' ∉ l ∧ (trim l = [] ∨ isComment (trim l) ∨ isDirective (trim l))

/-- One line of a script: a command that can be written, or a line beside the commands. -/
inductive Item where
  | command (c : Command) (h : c.Printable)
  | aside (l : List Char) (h : IsAside l)

namespace Item

/-- The line itself. -/
def line : Item → List Char
  | command c _ => c.toLine
  | aside l _ => l

/-- The command on the line when it is line number `n`, if there is one. -/
def command? (n : Nat) : Item → Option Command
  | command c _ => some { c with line := n }
  | aside _ _ => none

/-- The commands on some lines, the first of them being line number one. -/
def commands (items : List Item) : List Command :=
  (items.zipIdx 1).filterMap fun item => item.1.command? item.2

end Item

end LabelPress
