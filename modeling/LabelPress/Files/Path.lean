/-!
# Paths

A path is a text of names with slashes between them. `Path.names` are the names on the
way, `Path.withExtension` is the path with the end of its last name changed.
-/

namespace LabelPress.Path

/-- The most bytes of a path. -/
def longest : Nat := 4095

/-- The most bytes of a name. -/
def longestName : Nat := 255

/-- Whether a name has too many bytes for one. -/
def isLongName (name : String) : Bool := longestName < name.utf8ByteSize

/-- A text split at its slashes. -/
def splitSlashes : List Char → List (List Char)
  | [] => [[]]
  | c :: cs =>
    if c = '/' then [] :: splitSlashes cs
    else
      match splitSlashes cs with
      | [] => [[c]]
      | part :: parts => (c :: part) :: parts

/-- The names on a path. Slashes that follow each other count as one. -/
def names (path : String) : List String :=
  ((splitSlashes path.toList).filter (· ≠ [])).map String.ofList

/-- Whether a path starts at the root of all files. -/
def isAbsolute (path : String) : Bool := path.toList.head? = some '/'

/-- Whether a path ends with a slash, so that it can only be a folder's. -/
def endsInSlash (path : String) : Bool := path.toList.getLast? = some '/'

/-- A path up to its last slash, that included, and what follows it. -/
def splitLast (cs : List Char) : List Char × List Char :=
  ((cs.reverse.dropWhile (· ≠ '/')).reverse, (cs.reverse.takeWhile (· ≠ '/')).reverse)

/-- A name up to its last dot, without that, unless the dot is the first character or
there is none. -/
def stem (name : List Char) : List Char :=
  match (name.reverse.dropWhile (· ≠ '.')).reverse.dropLast with
  | [] => name
  | before => before

/-- A name that stands for a folder: no name at all, the folder itself, or the one it is
in. -/
def isFolderName (name : List Char) : Bool := name = [] || name = ['.'] || name = ['.', '.']

/-- A path, read backwards, from its last name on. Slashes behind that name are passed over,
and single dots behind slashes: they lead nowhere else. -/
def skipIdle : List Char → List Char
  | '/' :: cs => skipIdle cs
  | '.' :: '/' :: cs => skipIdle cs
  | cs => cs

/-- A path up to its last name, and that name. -/
def splitName (cs : List Char) : List Char × List Char := splitLast (skipIdle cs.reverse).reverse

/-- The number of characters behind the last dot of the last name on a path. -/
def extensionLength (cs : List Char) : Nat :=
  let name := (splitName cs).2
  name.length - (stem name).length - 1

/-- A path that goes up to the stem of its last name and on with an extension. The path of a
folder that has no name on it is left as it is. -/
def setExtension (cs extension : List Char) : List Char :=
  let (folder, name) := splitName cs
  if isFolderName name then cs else folder ++ stem name ++ '.' :: extension

/-- A path with another extension of its last name. First as many characters as the old
extension has are taken off the end of the path. If nothing follows the name, its dot then
stays, which makes a folder's name of one that starts with two dots. -/
def withExtension (path extension : String) : String :=
  let cs := path.toList
  String.ofList (setExtension (cs.take (cs.length - extensionLength cs)) extension.toList)

/-- What follows the last name goes with the old extension. -/
example : withExtension "labels/ship.v1.txt/./" "png" = "labels/ship.v1.png" := by decide

end LabelPress.Path
