import LabelPress.Layout
import LabelPress.Picture
import LabelPress.Script

/-!
# Previews

A preview is a script that was read and the picture of the label it draws.
-/

namespace LabelPress

/-- A script with the picture of its label. -/
structure Preview where
  script : Script
  picture : Picture

namespace Preview

/-- The preview of the script written in a text. -/
def ofText (text : String) (m : Magnification) : Except RenderError Preview := do
  let script := Script.parse text
  return ⟨script, ← (layout script.commands).render m⟩

/-- The texts of the warnings, in order. -/
def warnings (p : Preview) : List String := p.script.warnings.map Warning.message

/-- One line that says how many commands and warnings the script has. -/
def summary (p : Preview) : String := p.script.summary

end Preview

end LabelPress
