import LabelPress.Program.Arguments

/-!
# Groups of arguments

Arguments that go together are a group: an option and what it takes, or the name of a script by
itself. An `ArgumentGroup` is one as it should be, and arguments that are well formed are the
arguments of some groups, one after the other.

`Fault` lists the ways in which arguments can go on that do not start with such a group, each with
its error. A second script is a group like the first one, and it is where it stands that is wrong.
-/

namespace LabelPress

/-- The options for the output. -/
inductive OutputOption where
  | short
  | long
deriving DecidableEq

/-- The argument that stands for an option. -/
def OutputOption.flag : OutputOption → String
  | short => "-o"
  | long => "--output"

/-- Whether a text writes a number that is finite and above zero. -/
def WritesFactor (value : String) (factor : Float32) : Prop :=
  Single.read value = .ok factor ∧ factor.isFinite = true ∧ 0 < factor

/-- Whether an argument looks like an option. -/
def IsDashed (argument : String) : Prop := argument.toList.head? = some '-'

instance (argument : String) : Decidable (IsDashed argument) :=
  inferInstanceAs (Decidable (argument.toList.head? = some '-'))

/-- One or two arguments that go together. -/
inductive ArgumentGroup where
  | output (option : OutputOption) (path : String)
  | factor (option : FactorOption) (value : String) (factor : Float32)
    (writes : WritesFactor value factor)
  | script (path : String) (plain : ¬IsDashed path)

/-- What a group sets. -/
inductive Setting where
  | output
  | factor (option : FactorOption)
  | script
deriving DecidableEq

namespace ArgumentGroup

/-- The arguments of a group. -/
def arguments : ArgumentGroup → List String
  | output option path => [option.flag, path]
  | factor option value _ _ => [option.flag, value]
  | script path _ => [path]

/-- What the group sets. -/
def setting : ArgumentGroup → Setting
  | output .. => .output
  | factor option .. => .factor option
  | script .. => .script

/-- The path of the output, if the group sets that. -/
def output? : ArgumentGroup → Option String
  | output _ path => some path
  | _ => none

/-- The factor for an option, if the group sets that. -/
def factor? (option : FactorOption) : ArgumentGroup → Option Float32
  | factor o _ f _ => if o = option then some f else none
  | _ => none

/-- The path of the script, if the group names it. -/
def script? : ArgumentGroup → Option String
  | script path _ => some path
  | _ => none

end ArgumentGroup

/-- The options that there are. -/
def knownOptions : List String := ["-o", "--output", "--zoom", "--density", "-h", "--help"]

/-- Why arguments do not start with a group that may follow a script, or no script. -/
inductive Fault (script : Option String) : List String → ArgumentError → Prop where
  | missingPath (option : OutputOption) : Fault script [option.flag] .missingPath
  | missingValue (option : FactorOption) : Fault script [option.flag] (.missingValue option)
  | unreadable (option : FactorOption) {value : String} {reason : Single.ReadError}
    (rest : List String) : Single.read value = .error reason →
    Fault script (option.flag :: value :: rest) (.unreadable option value reason)
  | notPositive (option : FactorOption) {value : String} {factor : Float32}
    (rest : List String) : Single.read value = .ok factor →
    ¬(factor.isFinite = true ∧ 0 < factor) →
    Fault script (option.flag :: value :: rest) (.notPositive option factor)
  | help {argument : String} (rest : List String) : argument = "-h" ∨ argument = "--help" →
    Fault script (argument :: rest) .usage
  | unknownOption {argument : String} (rest : List String) : IsDashed argument →
    argument ∉ knownOptions → Fault script (argument :: rest) (.unknownOption argument)
  | unexpected {argument : String} (rest : List String) : ¬IsDashed argument →
    script ≠ none → Fault script (argument :: rest) (.unexpected argument)

/-- Whether a request is what groups ask for. They name one script, and for anything else the last
group that sets it counts. -/
structure Request.IsAskedBy (request : Request) (groups : List ArgumentGroup) : Prop where
  script : groups.filterMap ArgumentGroup.script? = [request.script]
  output : request.output =
    (groups.filterMap ArgumentGroup.output?).getLast?.getD (usualOutput request.script)
  zoom : request.magnification.zoom =
    (groups.filterMap (ArgumentGroup.factor? .zoom)).getLast?.getD 1
  density : request.magnification.density =
    (groups.filterMap (ArgumentGroup.factor? .density)).getLast?.getD 1

end LabelPress
