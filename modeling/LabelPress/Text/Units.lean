/-!
# UTF-16 units

The length of a text and its hash count 16-bit units: a character outside the basic
plane is written as two surrogates.
-/

namespace LabelPress.Text

/-- The units that write one character. -/
def charUnits (c : Char) : List UInt16 :=
  if c.toNat < 0x10000 then [UInt16.ofNat c.toNat]
  else
    let n := c.toNat - 0x10000
    [UInt16.ofNat (0xd800 + n / 0x400), UInt16.ofNat (0xdc00 + n % 0x400)]

/-- The units that write a text. -/
def units (s : String) : List UInt16 := s.toList.flatMap charUnits

/-- A text written after another has the units of both, in order. -/
theorem units_append (s t : String) : units (s ++ t) = units s ++ units t := by
  simp [units]

end LabelPress.Text
