import LabelPress.Dot
import LabelPress.Text.Numeral

/-!
# Tokens of a command

A `Reader` takes a value off the front of a line, or refuses the line. The tokens of a
command are fixed words, capital letters, numbers and quoted values; spaces and tabs
separate them (`gap`), and any number of those may follow the last one (`atEnd`).

A number that does not fit its range is refused, however it is written. A quoted value
is taken as it stands and ends at the next quote.
-/

namespace LabelPress

/-- Takes a value off the front of a line, or refuses the line. -/
abbrev Reader := StateT (List Char) Option

namespace Reader

open Text

/-- The characters that separate the tokens of a command. -/
def isSeparator (c : Char) : Bool := c = ' ' || c = '\t'

/-- A fixed word. -/
def word (w : String) : Reader Unit := fun cs =>
  if w.toList.isPrefixOf cs then some ((), cs.drop w.toList.length) else none

/-- One or more separators. -/
def gap : Reader Unit := fun cs =>
  match cs with
  | c :: cs => if isSeparator c then some ((), cs.dropWhile isSeparator) else none
  | [] => none

/-- The end of the line, after any number of separators. -/
def atEnd : Reader Unit := fun cs =>
  if cs.all isSeparator then some ((), []) else none

/-- A capital letter of the Latin alphabet. -/
def letter : Reader Char := fun cs =>
  match cs with
  | c :: cs => if c.isUpper then some (c, cs) else none
  | [] => none

/-- One or more decimal digits, and the number they write. -/
def digits : Reader Nat := fun cs =>
  if cs.takeWhile Char.isDigit = [] then none
  else some (numeralValue (cs.takeWhile Char.isDigit), cs.dropWhile Char.isDigit)

/-- A number without sign that fits 32 bits. -/
def unsigned : Reader UInt32 := do
  let n ← digits
  if n ≤ 4294967295 then return UInt32.ofNat n else failure

/-- Digits, as a number of dots with the given sign. -/
def dots (sign : Int) : Reader Dot := do
  let n ← digits
  if h : -2147483648 ≤ sign * n ∧ sign * n ≤ 2147483647 then return ⟨sign * n, h.1, h.2⟩
  else failure

/-- A number of dots, with or without a sign. -/
def signed : Reader Dot := fun cs =>
  match cs with
  | '-' :: cs => dots (-1) cs
  | '+' :: cs => dots 1 cs
  | cs => dots 1 cs

/-- A value between two quotes. -/
def quoted : Reader String := fun cs =>
  match cs with
  | '"' :: cs =>
    match cs.dropWhile (· ≠ '"') with
    | _ :: rest => some (String.ofList (cs.takeWhile (· ≠ '"')), rest)
    | [] => none
  | _ => none

end Reader

end LabelPress
