import LabelPress.Single.Shortest
import LabelPress.Text.Numeral

/-!
# Numbers as text

A number is written with the fewest digits that read back, with a point where it needs
one and never with an exponent. It is read in the usual notations: digits with or without
a point, with or without an exponent, and the words for infinity and for what is not a
number, in letters of either case. A sign may stand in front.
-/

namespace LabelPress.Single

open Text

/-- The digits of a decimal before and after its point. -/
def Decimal.places (d : Decimal) : List Char × List Char :=
  let ds := numeral d.digits
  if 0 ≤ d.exponent then (ds ++ List.replicate d.exponent.toNat '0', [])
  else
    let after := (-d.exponent).toNat
    let padded := List.replicate (after + 1 - ds.length) '0' ++ ds
    (padded.take (padded.length - after), padded.drop (padded.length - after))

/-- A decimal in positional notation, without zeros at the end of its fraction. -/
def Decimal.text (d : Decimal) : String :=
  let fraction := (d.places.2.reverse.dropWhile (· = '0')).reverse
  String.ofList (d.places.1 ++ if fraction = [] then [] else '.' :: fraction)

/-- A number as it is written in messages. -/
def text (f : Float32) : String :=
  let sign := if isNegative f then "-" else ""
  match magnitude? f with
  | some m => sign ++ if m.significand = 0 then "0" else m.shortest.text
  | none => if f.isNaN then "NaN" else sign ++ "inf"

/-- Why a text is no number. -/
inductive ReadError where
  | empty
  | invalid
deriving DecidableEq

/-- The text that is shown for an unreadable number. -/
def ReadError.message : ReadError → String
  | empty => "cannot parse float from empty string"
  | invalid => "invalid float literal"

/-- A sign, if there is one, and whether it is a minus. -/
def readSign : List Char → Bool × List Char
  | '-' :: cs => (true, cs)
  | '+' :: cs => (false, cs)
  | cs => (false, cs)

/-- The exponent written at the end of a number: nothing, or a mark and a whole number. -/
def readExponent? : List Char → Option Int
  | [] => some 0
  | c :: cs =>
    let (negative, ds) := readSign cs
    if (c = 'e' ∨ c = 'E') ∧ ds ≠ [] ∧ ds.all Char.isDigit then
      some (if negative then -numeralValue ds else numeralValue ds)
    else none

/-- The decimal written in a text without sign. -/
def readDecimal? (cs : List Char) : Option Decimal :=
  let whole := cs.takeWhile Char.isDigit
  let rest := cs.dropWhile Char.isDigit
  let (fraction, rest) :=
    match rest with
    | '.' :: rest => (rest.takeWhile Char.isDigit, rest.dropWhile Char.isDigit)
    | _ => ([], rest)
  if whole ++ fraction = [] then none
  else
    (readExponent? rest).map fun e => ⟨numeralValue (whole ++ fraction), e - fraction.length⟩

/-- The number in single precision nearest to a decimal. A decimal far above the greatest
number is infinite and one far below the least is zero, whatever its digits. -/
def ofDecimal (d : Decimal) : Float32 :=
  let top := (numeral d.digits).length + d.exponent
  if d.digits = 0 ∨ top < -60 then Float32.ofBits 0
  else if 60 < top then Float32.ofBits 0x7f800000
  else ofRat d.value

/-- The number a text without sign writes. -/
def readUnsigned? (cs : List Char) : Option Float32 :=
  let word := String.ofList (cs.map Char.toLower)
  if word = "inf" ∨ word = "infinity" then some (Float32.ofBits 0x7f800000)
  else if word = "nan" then some (Float32.ofBits 0x7fc00000)
  else (readDecimal? cs).map ofDecimal

/-- The number a text writes. -/
def read (s : String) : Except ReadError Float32 :=
  if s = "" then .error .empty
  else
    let (negative, cs) := readSign s.toList
    match readUnsigned? cs with
    | some f => .ok (if negative then -f else f)
    | none => .error .invalid

end LabelPress.Single
