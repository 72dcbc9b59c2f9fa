import LabelPress.Barcode.Hash

/-!
# Stripes

An endless sequence of black and white stripes that a 32-bit shift register produces.
The stripes vary with the seed; they encode nothing.

`Stripes.next` moves the register on by one step and reads a stripe off it: the lowest
bit is its colour, the other bits choose its width, from one dot to twice the bar unit.
The register is never zero at the start, because zero is the one state it never leaves.
-/

namespace LabelPress.Barcode

/-- A stretch of one colour. -/
structure Stripe where
  black : Bool
  /-- The width in dots. -/
  width : Nat
deriving DecidableEq

/-- One step of the shift register. -/
def shiftStep (x : UInt32) : UInt32 :=
  let x := x ^^^ (x <<< 13)
  let x := x ^^^ (x >>> 17)
  x ^^^ (x <<< 5)

/-- A place in an endless sequence of stripes. -/
structure Stripes where
  /-- The shift register. -/
  state : UInt32
  /-- The greatest width of a stripe. -/
  maxWidth : Nat
deriving DecidableEq

namespace Stripes

/-- The start of the sequence with a seed and a bar unit. A seed of zero stands for the
hash of the empty text, a bar unit of zero for one dot. -/
def start (seed unit : UInt32) : Stripes where
  state := if seed = 0 then hashBasis else seed
  maxWidth := min (2 * max unit.toNat 1) 4294967295

/-- The next stripe, and the place after it. -/
def next (s : Stripes) : Stripe × Stripes :=
  let x := shiftStep s.state
  (⟨x &&& 1 = 1, 1 + (x >>> 1).toNat % s.maxWidth⟩, { s with state := x })

/-- The first stripes from a place on. -/
def take : Nat → Stripes → List Stripe
  | 0, _ => []
  | n + 1, s => s.next.1 :: take n s.next.2

/-- The place after a number of stripes. -/
def skip : Nat → Stripes → Stripes
  | 0, s => s
  | n + 1, s => skip n s.next.2

/-- The stripe that comes after a number of others. -/
def nth (s : Stripes) (n : Nat) : Stripe := (s.skip n).next.1

/-- The dots that a number of stripes measure together. -/
def extent (s : Stripes) : Nat → Nat
  | 0 => 0
  | n + 1 => s.extent n + (s.nth n).width

/-- A stripe is at least one dot wide. -/
theorem one_le_width_next (s : Stripes) : 1 ≤ s.next.1.width := by
  simp [next]

end Stripes

end LabelPress.Barcode
