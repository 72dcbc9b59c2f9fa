import LabelPress.Files.Tree
import LabelPress.Main
import LabelPress.Proofs.Lines
import LabelPress.Proofs.Tokens
import LabelPress.Script.Grammar
import LabelPress.Script.Printer
import LabelPress.Proofs.Language
import LabelPress.Proofs.Numerals
import LabelPress.Proofs.Numbering
import LabelPress.Proofs.Concatenation
import LabelPress.Proofs.RoundTrip
import LabelPress.Proofs.Indifference
import LabelPress.Checked
import LabelPress.Proofs.Padding
import LabelPress.Proofs.Range
import LabelPress.Proofs.Finite
import LabelPress.Proofs.Sizing
import LabelPress.Files.Trace
import LabelPress.Proofs.Run
import LabelPress.Proofs.Output
import LabelPress.Proofs.Rounding
import LabelPress.Proofs.Cover
import LabelPress.Proofs.Hiding
import LabelPress.Barcode.Filling
import LabelPress.Proofs.Frame
import LabelPress.Proofs.Filling
import LabelPress.Proofs.Bars
import LabelPress.Proofs.Standing
import LabelPress.Proofs.Rules
import LabelPress.Proofs.Colours
import LabelPress.Proofs.Opacity
import LabelPress.Proofs.Darkening
import LabelPress.Proofs.Collisions
import LabelPress.Proofs.Contrast
import LabelPress.Proofs.Moving
import LabelPress.Program.Groups
import LabelPress.Proofs.Groups
import LabelPress.Proofs.Requests
import LabelPress.Proofs.Messages
import LabelPress.Proofs.Exact
import LabelPress.Proofs.Seams
import LabelPress.Proofs.Culling
