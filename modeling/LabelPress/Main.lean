import LabelPress.Picture.Png
import LabelPress.Program

/-!
The command line: runs the program on the files of the machine.
-/

namespace LabelPress.Main

/-- The error of a file operation of the machine. Its number may come with the sign turned
round. -/
def fileError (e : IO.Error) : FileError :=
  match e with
  | .noFileOrDirectory .. => .notFound
  | .inappropriateType _ code _ =>
    if code = 20 ∨ -code = 20 then .notFolder
    else if code = 21 ∨ -code = 21 then .isFolder
    else .other (toString e)
  | .invalidArgument _ code _ =>
    if code = 36 ∨ -code = 36 then .nameTooLong else .other (toString e)
  | e => .other (toString e)

/-- The result of a file operation of the machine. -/
def attempt {α β : Type} (f : α → β) (action : IO α) : IO (Except FileError β) :=
  try return .ok (f (← action)) catch e => return .error (fileError e)

/-- The files of the machine. -/
def files : Files IO where
  read path := attempt .bytes (IO.FS.readBinFile path)
  write path picture := attempt id (IO.FS.writeBinFile path (Png.encode picture))

end LabelPress.Main

/-- Runs the program and prints what it says. -/
def main (arguments : List String) : IO UInt32 := do
  let outcome ← LabelPress.run LabelPress.Main.files arguments
  IO.eprint outcome.stderr
  IO.print outcome.stdout
  return outcome.code
