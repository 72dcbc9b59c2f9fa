import LabelPress.Picture.Png

/-!
# Files

What a file holds, how reading and writing a file can fail, and the two operations that
the program needs of the files it works on.
-/

namespace LabelPress

/-- What a file holds. -/
inductive Document where
  | bytes (bytes : ByteArray)
  /-- A picture, encoded. -/
  | picture (picture : Picture)

/-- The text in a document, if its bytes are the UTF-8 of one. An encoded picture starts
with a byte that no text starts with. -/
def Document.text? : Document → Option String
  | bytes b => String.fromUTF8? b
  | picture _ => none

/-- The width and the height of the picture in a document, if it holds one. -/
def Document.pictureSize? : Document → Option (Nat × Nat)
  | bytes b => Png.size? b
  | picture p => some (p.width, p.height)

/-- Why a file cannot be read or written. -/
inductive FileError where
  | notFound
  | notFolder
  | isFolder
  | nameTooLong
  /-- The bytes of the file are the UTF-8 of no text. -/
  | notText
  | other (message : String)
deriving DecidableEq

/-- The text that is shown for a failed operation on a file. -/
def FileError.message : FileError → String
  | notFound => "No such file or directory (os error 2)"
  | notFolder => "Not a directory (os error 20)"
  | isFolder => "Is a directory (os error 21)"
  | nameTooLong => "File name too long (os error 36)"
  | notText => "stream did not contain valid UTF-8"
  | other message => message

/-- Files that can be read, and that pictures can be written to. -/
structure Files (m : Type → Type) where
  read : String → m (Except FileError Document)
  write : String → Picture → m (Except FileError Unit)

end LabelPress
