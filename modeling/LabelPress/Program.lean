import LabelPress.Files.Basic
import LabelPress.Preview
import LabelPress.Program.Arguments

/-!
# The program

The program reads a script, writes the picture of its label, and says what it did. It
takes four steps, each of which can fail: the arguments, the script, the picture, and the
file to write. The first failure ends it, so a picture is written only after everything
else went well.
-/

namespace LabelPress

/-- Why the program failed. -/
inductive Failure where
  | arguments (error : ArgumentError)
  | read (path : String) (error : FileError)
  | render (error : RenderError)
  | write (path : String) (error : FileError)
deriving DecidableEq

namespace Failure

/-- The text that is shown for a failure. -/
def message : Failure → String
  | arguments e => e.message
  | read path e => "failed to read script " ++ path ++ ": " ++ e.message
  | render e => e.message
  | write path _ => "failed to write " ++ path

/-- What lies behind the failure, if there is more to say. -/
def cause? : Failure → Option String
  | arguments e => e.cause?
  | read _ e => some e.message
  | render _ => none
  | write _ e => some e.message

/-- What is printed for a failure. -/
def report (f : Failure) : String :=
  "Error: " ++ f.message ++ "\n"
    ++ match f.cause? with
      | some cause => "\nCaused by:\n    " ++ cause ++ "\n"
      | none => ""

end Failure

/-- What a run of the program leaves on its outputs. -/
structure Outcome where
  code : UInt32
  stdout : String
  stderr : String
deriving DecidableEq

namespace Outcome

/-- The outcome of a run that failed. -/
def ofFailure (f : Failure) : Outcome := ⟨1, "", f.report⟩

/-- The outcome of a run that wrote a preview. Its warnings make no difference to the
code. -/
def ofPreview (output : String) (p : Preview) : Outcome :=
  ⟨0, p.summary ++ " -> " ++ output ++ "\n", String.join (p.warnings.map (· ++ "\n"))⟩

end Outcome

/-- The preview of the script in a document. -/
def previewDocument (request : Request) (d : Document) : Except Failure Preview :=
  match d.text? with
  | none => .error (.read request.script .notText)
  | some text =>
    match Preview.ofText text request.magnification with
    | .ok p => .ok p
    | .error e => .error (.render e)

/-- A run of the program on some files. -/
def run {m : Type → Type} [Monad m] (files : Files m) (arguments : List String) : m Outcome := do
  match Request.ofArguments arguments with
  | .error e => return .ofFailure (.arguments e)
  | .ok request =>
    match ← files.read request.script with
    | .error e => return .ofFailure (.read request.script e)
    | .ok document =>
      match previewDocument request document with
      | .error f => return .ofFailure f
      | .ok preview =>
        match ← files.write request.output preview.picture with
        | .error e => return .ofFailure (.write request.output e)
        | .ok () => return .ofPreview request.output preview

end LabelPress
