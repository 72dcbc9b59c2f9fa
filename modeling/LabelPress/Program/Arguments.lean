import LabelPress.Files.Path
import LabelPress.Surface

/-!
# Arguments

The arguments of the program name one script and may name the picture to write and the
two factors of the magnification. They are read from left to right, and the first one that
is wrong is reported. An option takes the argument after it whatever that looks like, and
of an option that is given twice the last one counts.
-/

namespace LabelPress

/-- The line that says how the program is called. -/
def usage : String :=
  "usage: label-preview <script> [-o out.png] [--zoom Z] [--density D]"

/-- The options that take a factor. -/
inductive FactorOption where
  | zoom
  | density
deriving DecidableEq

/-- The argument that stands for an option. -/
def FactorOption.flag : FactorOption → String
  | zoom => "--zoom"
  | density => "--density"

/-- Why arguments are refused. -/
inductive ArgumentError where
  | missingPath
  | missingValue (option : FactorOption)
  | unreadable (option : FactorOption) (value : String) (reason : Single.ReadError)
  | notPositive (option : FactorOption) (factor : Float32)
  /-- The usage was asked for, or there is no script. -/
  | usage
  | unknownOption (argument : String)
  | unexpected (argument : String)
deriving DecidableEq

namespace ArgumentError

/-- The text that is shown for refused arguments. -/
def message : ArgumentError → String
  | missingPath => "-o needs a path"
  | missingValue option => option.flag ++ " needs a value"
  | unreadable option value _ => option.flag ++ " expects a number, got '" ++ value ++ "'"
  | notPositive option factor =>
    option.flag ++ " must be positive, got " ++ Single.text factor
  | usage => LabelPress.usage
  | unknownOption argument => "unknown option '" ++ argument ++ "'\n" ++ LabelPress.usage
  | unexpected argument => "unexpected argument '" ++ argument ++ "'\n" ++ LabelPress.usage

/-- What lies behind the error, if there is more to say. -/
def cause? : ArgumentError → Option String
  | unreadable _ _ reason => some reason.message
  | _ => none

end ArgumentError

/-- What the arguments read so far have said. -/
structure Arguments where
  script : Option String := none
  output : Option String := none
  magnification : Magnification := .unit
deriving DecidableEq

/-- What the program is asked to do. -/
structure Request where
  script : String
  output : String
  magnification : Magnification
deriving DecidableEq

/-- The factor that the argument after an option writes. -/
def readFactor (option : FactorOption) (value : String) : Except ArgumentError Float32 :=
  match Single.read value with
  | .error reason => .error (.unreadable option value reason)
  | .ok factor =>
    match (Single.value? factor).filter (0 < ·) with
    | some _ => .ok factor
    | none => .error (.notPositive option factor)

namespace Arguments

/-- The arguments with a factor for an option. -/
def setFactor (a : Arguments) (factor : Float32) : FactorOption → Arguments
  | .zoom => { a with magnification := { a.magnification with zoom := factor } }
  | .density => { a with magnification := { a.magnification with density := factor } }

@[simp] theorem script_setFactor (a : Arguments) (factor : Float32) (option : FactorOption) :
    (a.setFactor factor option).script = a.script := by
  cases option <;> rfl

@[simp] theorem output_setFactor (a : Arguments) (factor : Float32) (option : FactorOption) :
    (a.setFactor factor option).output = a.output := by
  cases option <;> rfl

/-- The option that an argument stands for, if it takes a factor. -/
def factorOption? (argument : String) : Option FactorOption :=
  if argument = FactorOption.zoom.flag then some .zoom
  else if argument = FactorOption.density.flag then some .density
  else none

/-- What the arguments have said after some more of them. -/
def read (a : Arguments) : List String → Except ArgumentError Arguments
  | [] => .ok a
  | argument :: rest =>
    if argument = "-o" ∨ argument = "--output" then
      match rest with
      | [] => .error .missingPath
      | path :: rest => read { a with output := some path } rest
    else
      match factorOption? argument with
      | some option =>
        match rest with
        | [] => .error (.missingValue option)
        | value :: rest =>
          match readFactor option value with
          | .ok factor => read (a.setFactor factor option) rest
          | .error e => .error e
      | none =>
        if argument = "-h" ∨ argument = "--help" then .error .usage
        else if argument.toList.head? = some '-' then .error (.unknownOption argument)
        else if a.script = none then read { a with script := some argument } rest
        else .error (.unexpected argument)

end Arguments

/-- The picture that is written for a script if no other path is given. -/
def usualOutput (script : String) : String := Path.withExtension script "png"

/-- What the arguments ask for. -/
def Request.ofArguments (arguments : List String) : Except ArgumentError Request := do
  let a ← Arguments.read {} arguments
  match a.script with
  | none => throw .usage
  | some script => return ⟨script, a.output.getD (usualOutput script), a.magnification⟩

end LabelPress
