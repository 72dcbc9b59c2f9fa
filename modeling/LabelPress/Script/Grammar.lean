import LabelPress.Script.Line

/-!
# The grammar of drawing lines

What a drawing line may look like, said without reading it: `Form.Written f cs` holds if
the characters `cs` are one way to write the form `f`. Between two tokens there are one or
more separators; numbers may have leading zeros, and those with a sign a plus.
`Reading.IsMeant` says by this what a whole line comes to.
-/

namespace LabelPress

open Text

/-- One or more separators. -/
def IsGap (cs : List Char) : Prop := cs ≠ [] ∧ ∀ c ∈ cs, c = ' ' ∨ c = '\t'

/-- One or more decimal digits. -/
def IsDigits (cs : List Char) : Prop := cs ≠ [] ∧ ∀ c ∈ cs, c.isDigit

/-- A way to write a number without sign. -/
def IsUnsigned (n : UInt32) (cs : List Char) : Prop := IsDigits cs ∧ numeralValue cs = n.toNat

/-- A way to write a number of dots. -/
inductive IsSigned (d : Dot) : List Char → Prop where
  | plain {ds : List Char} : IsDigits ds → d.val = numeralValue ds → IsSigned d ds
  | plus {ds : List Char} : IsDigits ds → d.val = numeralValue ds → IsSigned d ('+' :: ds)
  | minus {ds : List Char} : IsDigits ds → d.val = -numeralValue ds → IsSigned d ('-' :: ds)

/-- A capital letter. -/
def IsLetter (c : Char) (cs : List Char) : Prop := cs = [c] ∧ 'A' ≤ c ∧ c ≤ 'Z'

/-- The way to write a value that holds no quote. -/
def IsQuoted (value : String) (cs : List Char) : Prop :=
  cs = '"' :: value.toList ++ ['"'] ∧ '"' ∉ value.toList

/-- Tokens with a gap between each two of them. -/
inductive IsSpaced : List (List Char) → List Char → Prop where
  | last (token : List Char) : IsSpaced [token] token
  | cons {token gap cs : List Char} {tokens : List (List Char)} :
    IsGap gap → IsSpaced tokens cs → IsSpaced (token :: tokens) (token ++ gap ++ cs)

/-- The tokens that may follow the kind of a command that draws a value: the word `S`, the
position, a letter, three numbers and the value. -/
inductive IsValueFields (x y : Dot) (letter : Char) (first second third : UInt32)
    (value : String) : List (List Char) → Prop where
  | mk {ys xs l n₁ n₂ n₃ v : List Char} :
    IsSigned y ys → IsSigned x xs → IsLetter letter l → IsUnsigned first n₁ →
    IsUnsigned second n₂ → IsUnsigned third n₃ → IsQuoted value v →
    IsValueFields x y letter first second third value [['S'], ys, xs, l, n₁, n₂, n₃, v]

/-- The tokens that may write a drawing line of a given form. -/
inductive Form.IsTokens : Form → List (List Char) → Prop where
  | text {x y : Dot} {spec : TextSpec} {fields : List (List Char)} :
    IsValueFields x y spec.orientation spec.font spec.xMul spec.yMul spec.value fields →
    IsTokens (.text x y spec) (['!', 'F'] :: ['T'] :: fields)
  | rule {x y : Dot} {letter : Char} {thickness length : UInt32} {l ys xs n₁ n₂ : List Char} :
    IsLetter letter l → IsSigned y ys → IsSigned x xs → IsUnsigned thickness n₁ →
    IsUnsigned length n₂ →
    IsTokens (.rule x y letter thickness length)
      [['!', 'F'], ['B'], l, ys, xs, ['L'], n₁, n₂]
  | barcode {x y : Dot} {spec : BarcodeSpec} {fields : List (List Char)} :
    IsValueFields x y spec.orientation spec.height spec.unit spec.extra spec.value fields →
    IsTokens (.barcode x y spec) (['!', 'F'] :: ['C'] :: fields)

/-- A way to write a drawing line of a given form. -/
def Form.Written (form : Form) (cs : List Char) : Prop :=
  ∃ tokens, form.IsTokens tokens ∧ IsSpaced tokens cs

/-- What the grammar makes of line number `n` of a script. A drawing line that has a form
gives its command, or a warning where it is a rule whose letter stands for no direction; one
that has no form gives a warning with the line as it was written; other lines give nothing. -/
inductive Reading.IsMeant (raw : List Char) (n : Nat) : Reading → Prop where
  | text {x y : Dot} {spec : TextSpec} :
    (Form.text x y spec).Written (trim raw) → IsMeant raw n (.command ⟨x, y, n, .text spec⟩)
  | rule {x y : Dot} {spec : RuleSpec} :
    (Form.rule x y spec.direction.letter spec.thickness spec.length).Written (trim raw) →
    IsMeant raw n (.command ⟨x, y, n, .rule spec⟩)
  | barcode {x y : Dot} {spec : BarcodeSpec} :
    (Form.barcode x y spec).Written (trim raw) →
    IsMeant raw n (.command ⟨x, y, n, .barcode spec⟩)
  | unsupportedDirection {x y : Dot} {letter : Char} {thickness length : UInt32} :
    (Form.rule x y letter thickness length).Written (trim raw) → letter ≠ 'N' → letter ≠ 'E' →
    IsMeant raw n (.warning (.unsupportedDirection n letter))
  | unparsed :
    ['!', 'F'] <+: trim raw → (∀ form : Form, ¬ form.Written (trim raw)) →
    IsMeant raw n (.warning (.unparsed n (String.ofList raw)))
  | skipped : ¬ ['!', 'F'] <+: trim raw → IsMeant raw n .skipped

end LabelPress
