/-!
# Whole numbers in decimal

A numeral is a run of decimal digits, read with any number of leading zeros and written
with none.
-/

namespace LabelPress.Text

/-- The value of one decimal digit. -/
def digitValue (c : Char) : Nat := c.toNat - '0'.toNat

/-- The value of a run of digits, the first one weighing most. -/
def numeralValue (ds : List Char) : Nat := ds.foldl (fun n c => 10 * n + digitValue c) 0

/-- The digits of a number, without leading zeros. -/
def numeral (n : Nat) : List Char := Nat.toDigits 10 n

/-- A digit more weighs the digits before it by ten. -/
theorem numeralValue_concat (ds : List Char) (c : Char) :
    numeralValue (ds ++ [c]) = 10 * numeralValue ds + digitValue c := by
  simp [numeralValue]

/-- A whole number, with a sign where it is negative. -/
def signedNumeral : Int → List Char
  | .ofNat n => numeral n
  | .negSucc n => '-' :: numeral (n + 1)

end LabelPress.Text
