/-!
# Lines

A line ends at a line feed, and a carriage return right before that line feed belongs
to the line's end. The last line may lack its line feed; then a carriage return at its
end is one of its characters.

`pieces` cuts a text after each line feed and loses nothing (`flatten_pieces`), and
`lineBody` takes the end off one piece.
-/

namespace LabelPress.Text

/-- The text cut after each of its line feeds. -/
def pieces : List Char → List (List Char)
  | [] => []
  | c :: cs =>
    if c = '\n' then [c] :: pieces cs
    else
      match pieces cs with
      | [] => [[c]]
      | p :: ps => (c :: p) :: ps

/-- A piece without its line feed and the carriage return before that. -/
def lineBody (piece : List Char) : List Char :=
  if piece.getLast? = some '\n' then
    let body := piece.dropLast
    if body.getLast? = some '\r' then body.dropLast else body
  else piece

/-- The lines of a text, in order. -/
def lines (cs : List Char) : List (List Char) := (pieces cs).map lineBody

/-- The pieces of a text make up the text. -/
theorem flatten_pieces (cs : List Char) : (pieces cs).flatten = cs := by
  induction cs with
  | nil => rfl
  | cons c cs ih =>
    rw [pieces]
    split
    · simp [ih]
    · cases h : pieces cs with
      | nil => simpa [h] using ih
      | cons p ps => simpa [h] using ih

end LabelPress.Text
