import LabelPress.Single.Basic

/-!
# Shortest decimals

The decimal that is written for a number in single precision has the fewest digits that
read back as the number, and of those with as many digits it is the nearest.

A decimal reads back if it lies in the stretch of numbers that round to the number, whose
ends count when the significand is even (`readsBack`). On the grid of decimals with a
given last place, only the two neighbours of the number have to be looked at (`onGrid?`):
if any point of the grid reads back, so does one of them.
-/

namespace LabelPress.Single

/-- A whole number times a power of ten. -/
structure Decimal where
  digits : Nat
  exponent : Int
deriving DecidableEq

/-- The number a decimal stands for. -/
def Decimal.value (d : Decimal) : Rat := d.digits * 10 ^ d.exponent

/-- The upper end of the numbers that round to a magnitude. -/
def Magnitude.upper (m : Magnitude) : Rat := (2 * m.significand + 1) * 2 ^ (m.exponent - 1)

/-- The lower end of the numbers that round to a magnitude. Below a power of two the
magnitudes lie twice as close. -/
def Magnitude.lower (m : Magnitude) : Rat :=
  if m.significand = leastFull ∧ leastExponent < m.exponent then
    (4 * m.significand - 1) * 2 ^ (m.exponent - 2)
  else (2 * m.significand - 1) * 2 ^ (m.exponent - 1)

/-- Whether a number rounds to a magnitude. -/
def Magnitude.readsBack (m : Magnitude) (q : Rat) : Bool :=
  if m.significand % 2 = 0 then m.lower ≤ q && q ≤ m.upper else m.lower < q && q < m.upper

/-- The exponent of the greatest power of ten that is at most a positive number. -/
def decade (q : Rat) : Int :=
  let places (n : Nat) : Int := (Nat.toDigits 10 n).length
  let e := places q.num.natAbs - places q.den
  if 10 ^ e ≤ q then e else e - 1

/-- The nearest decimal with a given exponent that reads back, the greater one of two that
are equally near. -/
def Magnitude.onGrid? (m : Magnitude) (exponent : Int) : Option Decimal :=
  let low : Decimal := ⟨(m.value / 10 ^ exponent).floor.toNat, exponent⟩
  let high : Decimal := ⟨low.digits + 1, exponent⟩
  if m.readsBack low.value then
    if m.readsBack high.value ∧ high.value - m.value ≤ m.value - low.value then some high
    else some low
  else if m.readsBack high.value then some high
  else none

/-- The shortest decimal that reads back. Nine digits are always enough. -/
def Magnitude.shortest (m : Magnitude) : Decimal :=
  ((List.range 9).findSome? fun n => m.onGrid? (decade m.value - (n : Nat))).getD ⟨0, 0⟩

end LabelPress.Single
