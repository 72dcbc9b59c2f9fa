import LabelPress.Picture
import LabelPress.RunLength

/-!
# Pictures as runs

A picture is large and mostly even, so it is written as runs: stretches of equal pixels
along a row, and stretches of equal rows.

A layer changes from one column to the next at a few places only (`Figure.columnCuts`),
and likewise from row to row. Between two such places of any layer all pixels are alike,
so one of them is computed for all.
-/

namespace LabelPress

/-! ## Where layers change -/

namespace Span

/-- The pixels from the first that may have its centre in the span to the first after it. -/
def solidCuts (s : Span) : List Int := [(s.start + 1 / 2).floor, (s.stop + 1 / 2).floor]

/-- The pixels at which the covered part may change. -/
def smoothCuts (s : Span) : List Int :=
  [s.start.floor, s.start.floor + 1, s.stop.floor, s.stop.floor + 1]

end Span

namespace Figure

/-- The columns at which the coverage may change. -/
def columnCuts : Figure → List Int
  | solid r => r.columns.solidCuts
  | smooth r => r.columns.smoothCuts
  | ring outer inner => outer.columns.smoothCuts ++ inner.columns.smoothCuts

/-- The rows at which the coverage may change. -/
def rowCuts : Figure → List Int
  | solid r => r.rows.solidCuts
  | smooth r => r.rows.smoothCuts
  | ring outer inner => outer.rows.smoothCuts ++ inner.rows.smoothCuts

end Figure

/-- A layer with the places where its coverage may change. It covers nothing before the
first and from the last of them on. -/
structure CutLayer where
  layer : Layer
  columns : List Int
  rows : List Int

namespace CutLayer

/-- A layer with the places where its coverage may change, in order. -/
def ofLayer (layer : Layer) : CutLayer where
  layer
  columns := layer.figure.columnCuts.mergeSort
  rows := layer.figure.rowCuts.mergeSort

/-- Whether a place lies between the first and the last of some cuts. -/
def within (cuts : List Int) (i : Int) : Bool :=
  match cuts.head?, cuts.getLast? with
  | some first, some last => first ≤ i && i < last
  | _, _ => false

end CutLayer

/-! ## The runs of a picture -/

/-- The stretches from zero to a length between given places, each with its start. -/
def bands (length : Nat) (cuts : List Int) : List (Nat × Nat) :=
  let inside := (cuts.filter fun p => 0 < p && p < (length : Int)).map Int.toNat
  let starts := (0 :: inside.mergeSort).eraseReps
  (starts.zip (starts.tail ++ [length])).map fun band => (band.1, band.2 - band.1)

namespace Picture

/-- The grey of a pixel under the layers that may cover it. -/
def greyUnder (layers : List CutLayer) (i j : Int) : Rat :=
  layers.foldl
    (fun grey l => if CutLayer.within l.columns i then l.layer.over i j grey else grey) 1

/-- The runs of one row, each pixel being told by its grey. -/
def rowRuns {α : Type} [DecidableEq α] (tell : Rat → α) (width : Nat) (layers : List CutLayer)
    (j : Nat) : List (Nat × α) :=
  let layers := layers.filter fun l => CutLayer.within l.rows j
  joinRuns ((bands width (layers.flatMap CutLayer.columns)).map fun band =>
    (band.2, tell (greyUnder layers band.1 j)))

/-- The picture as runs of equal rows, each row as runs of equal pixels. -/
def runs {α : Type} [DecidableEq α] (tell : Rat → α) (p : Picture) :
    List (Nat × List (Nat × α)) :=
  let layers := p.layers.map CutLayer.ofLayer
  joinRuns ((bands p.height (layers.flatMap CutLayer.rows)).map fun band =>
    (band.2, rowRuns tell p.width layers band.1))

end Picture

/-! ## Shades -/

/-- The level of a grey, from zero for black to 255 for white. -/
def level (grey : Rat) : Nat := (Single.roundAway (255 * grey)).toNat

/-- Four shades that greys are told apart by. -/
inductive Shade where
  | ink
  | dark
  | faint
  | paper
deriving DecidableEq

namespace Shade

/-- The shade of a grey. -/
def ofGrey (grey : Rat) : Shade :=
  let level := level grey
  if level < 96 then ink else if level < 150 then dark else if level < 250 then faint else paper

/-- The sign that stands for a shade. -/
def sign : Shade → String
  | ink => "#"
  | dark => "+"
  | faint => ","
  | paper => "."

/-- A row of a picture in signs, each run as its length and its shade. -/
def rowText (runs : List (Nat × Shade)) : String :=
  String.join (runs.map fun run => run.1.repr ++ run.2.sign)

end Shade

end LabelPress
