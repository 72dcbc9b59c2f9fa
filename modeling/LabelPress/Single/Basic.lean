/-!
# Numbers in single precision

A positive number in single precision is a significand of at most 24 bits times a power
of two, and the power is never below `-149` (`Magnitude`). `nearest` is the one nearest
to a rational number, with the even significand where two are equally near.

`value?` is the rational number a `Float32` stands for, if it is finite, and `ofRat` the
`Float32` nearest to a rational number, infinite beyond the range. `round` is the rational
number that arithmetic in single precision gives for an exact result.
-/

namespace LabelPress.Single

/-- A significand times a power of two. -/
structure Magnitude where
  significand : Nat
  exponent : Int
deriving DecidableEq

/-- The least exponent of a magnitude. -/
def leastExponent : Int := -149

/-- The least significand of a magnitude above the least exponent. It has 24 bits, the most
a significand can have. -/
def leastFull : Nat := 8388608

/-- The greatest finite number. -/
def greatest : Rat := 16777215 * 2 ^ (104 : Int)

/-- The number a magnitude stands for. -/
def Magnitude.value (m : Magnitude) : Rat := m.significand * 2 ^ m.exponent

/-- The whole number nearest to a rational one, the even one of two that are equally near. -/
def roundEven (q : Rat) : Int :=
  let low := q.floor
  let part := q - low
  if part < 1 / 2 ∨ (part = 1 / 2 ∧ low % 2 = 0) then low else low + 1

/-- The whole number nearest to a rational one, the one farther from zero of two that are
equally near. -/
def roundAway (q : Rat) : Int :=
  if 0 ≤ q then (q + 1 / 2).floor else -((-q + 1 / 2).floor)

/-- The whole part of a rational number, its sign kept. -/
def towardZero (q : Rat) : Int := if 0 ≤ q then q.floor else -((-q).floor)

/-- The exponent of the greatest power of two that is at most a positive number. -/
def binade (q : Rat) : Int :=
  let e : Int := (q.num.natAbs.log2 : Int) - (q.den.log2 : Int)
  if 2 ^ e ≤ q then e else e - 1

/-- The magnitude nearest to a positive number. -/
def nearest (q : Rat) : Magnitude :=
  let exponent := max (binade q - 23) leastExponent
  { significand := (roundEven (q / 2 ^ exponent)).toNat, exponent }

/-- A number rounded to single precision, as if the exponents had no upper end. -/
def round (q : Rat) : Rat :=
  if 0 < q then (nearest q).value else if q < 0 then -(nearest (-q)).value else 0

/-- The bits that write a magnitude; those of infinity for one out of range. -/
def Magnitude.bits (m : Magnitude) : UInt32 :=
  UInt32.ofNat (min ((m.exponent - leastExponent).toNat * leastFull + m.significand) 0x7f800000)

/-- The number in single precision nearest to a rational one. -/
def ofRat (q : Rat) : Float32 :=
  if 0 < q then Float32.ofBits (nearest q).bits
  else if q < 0 then Float32.ofBits ((nearest (-q)).bits ||| 0x80000000)
  else Float32.ofBits 0

/-- Whether the sign bit of a number is set. -/
def isNegative (f : Float32) : Bool := 0x80000000 ≤ f.toBits

/-- The magnitude of a finite number. -/
def magnitude? (f : Float32) : Option Magnitude :=
  let bits := f.toBits.toNat % 0x80000000
  let biased : Nat := bits / leastFull
  let fraction : Nat := bits % leastFull
  if biased = 255 then none
  else if biased = 0 then some ⟨fraction, leastExponent⟩
  else some ⟨fraction + leastFull, (biased : Int) - 1 + leastExponent⟩

/-- The rational number a finite number stands for. -/
def value? (f : Float32) : Option Rat :=
  (magnitude? f).map fun m => if isNegative f then -m.value else m.value

end LabelPress.Single
