import LabelPress.Barcode.Placement

/-!
# Filling a frame round by round

The stripes of a barcode are laid into its frame by a loop. Here the loop is taken apart: one
round reads one stripe (`Filling.step`), and the loop goes on round by round until a stripe ends
beyond the limit (`Filling.run`). How many rounds it is allowed is up to whoever runs it, so
nothing is said beforehand about whether it stops.
-/

namespace LabelPress.Barcode

/-- The bar for a stripe that starts at a column of a frame. -/
def barOf (frame : Box) (cursor : Dot) (stripe : Stripe) : Box where
  x := cursor
  y := frame.y + insetY
  width := Dot.clamp stripe.width
  height := frame.height - (insetY + insetY)

/-- The loop over the stripes, between two rounds. -/
structure Filling where
  /-- The column where the next stripe starts. -/
  cursor : Dot
  /-- The place of the next stripe in the sequence. -/
  stripes : Stripes
  /-- The bars so far. -/
  bars : List Box
deriving DecidableEq

namespace Filling

/-- The loop before its first round. -/
def start (frame : Box) (stripes : Stripes) : Filling := ⟨frame.x + insetX, stripes, []⟩

/-- One round of the loop, which reads a stripe. A black one becomes a bar. There is no loop to go
on with if the stripe ends beyond the limit. -/
def step (frame : Box) (f : Filling) : Option Filling :=
  let stripe := f.stripes.next.1
  let stop := stripeEnd f.cursor stripe
  if fillLimit frame < stop then none
  else
    some
      { cursor := stop
        stripes := f.stripes.next.2
        bars := if stripe.black then f.bars ++ [barOf frame f.cursor stripe] else f.bars }

/-- The bars that the loop ends with, if it stops in one of a number of rounds. -/
def run (frame : Box) : Nat → Filling → Option (List Box)
  | 0, _ => none
  | n + 1, f =>
    match f.step frame with
    | some f => run frame n f
    | none => some f.bars

end Filling

end LabelPress.Barcode
