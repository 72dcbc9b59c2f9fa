import LabelPress.Files.Basic
import LabelPress.Files.Path

/-!
# File trees

The folders and files below a working folder, as a value. A path is followed name by name,
and every name but the last has to be a folder's. A path may leave the tree upward; out
there nothing is known but the folders on the way up.

Writing a file changes what the tree holds at one place and nothing else.
-/

namespace LabelPress

/-- The names on the way from the working folder to a place. -/
abbrev Location := List String

/-- What is at a place. -/
inductive Entry where
  | folder
  | file (document : Document)

/-- The folders and files below a working folder. -/
structure FileTree where
  entries : List (Location × Entry)

namespace FileTree

/-- The name of the root of all files. -/
def root : String := "/"

/-- The name of the folder that a folder is in. -/
def up : String := ".."

/-- Whether a place lies in the tree. -/
def isInside (place : Location) : Bool := place.head? ≠ some up && place.head? ≠ some root

/-- What is at a place. The working folder and the folders above it are folders. -/
def find? (t : FileTree) (place : Location) : Option Entry :=
  if place.all fun name => name = up || name = root then some .folder
  else (t.entries.find? fun e => e.1 = place).map Prod.snd

/-- The folder that a folder is in. -/
def parent (place : Location) : Location :=
  if place.getLast? = some root then place
  else if place = [] ∨ place.getLast? = some up then place ++ [up]
  else place.dropLast

/-- What is at a place, unless the name it has there is too long for one. -/
def look (t : FileTree) (place : Location) : Except FileError (Option Entry) :=
  if place.getLast?.any Path.isLongName then .error .nameTooLong else .ok (t.find? place)

/-- The folder that a name leads to from a folder. -/
def enter (t : FileTree) (place : Location) (name : String) : Except FileError Location :=
  if name = "." then .ok place
  else if name = up then .ok (parent place)
  else
    match t.look (place ++ [name]) with
    | .ok (some .folder) => .ok (place ++ [name])
    | .ok (some (.file _)) => .error .notFolder
    | .ok none => .error .notFound
    | .error e => .error e

/-- The place a path leads to, all names but the last being followed through folders. A
path without a last name of its own is a folder's. -/
def locate (t : FileTree) (path : String) : Except FileError Location :=
  if path = "" then .error .notFound
  else if Path.longest < path.utf8ByteSize then .error .nameTooLong
  else
    match (Path.names path).getLast? with
    | none => .error .isFolder
    | some name => do
      let start := if Path.isAbsolute path then [root] else []
      let folder ← (Path.names path).dropLast.foldlM t.enter start
      if name = "." ∨ name = up then .error .isFolder else .ok (folder ++ [name])

/-- The document at a path. -/
def read (t : FileTree) (path : String) : Except FileError Document := do
  match ← t.look (← t.locate path) with
  | none => .error .notFound
  | some .folder => .error .isFolder
  | some (.file document) => if Path.endsInSlash path then .error .notFolder else .ok document

/-- The tree with an entry at a place, in the stead of the one it has there. -/
def put (t : FileTree) (place : Location) (entry : Entry) : FileTree :=
  ⟨(place, entry) :: t.entries.filter fun e => e.1 ≠ place⟩

/-- The tree with a picture written to a path. -/
def write (t : FileTree) (path : String) (picture : Picture) : Except FileError FileTree := do
  let place ← t.locate path
  if Path.endsInSlash path then .error .isFolder
  else
    match ← t.look place with
    | some .folder => .error .isFolder
    | _ => .ok (t.put place (.file (.picture picture)))

/-- The tree that has given files, and the folders they are in. -/
def ofFiles (files : List (String × Document)) : FileTree :=
  files.foldl (fun t file =>
    let names := Path.names file.1
    let folders := (List.range names.length).tail.map fun n => names.take n
    (folders.foldl (fun t place => t.put place .folder) t).put names (.file file.2)) ⟨[]⟩

/-- The name of a place in the tree, as a path from the working folder. -/
def name (place : Location) : String := "/".intercalate place

/-- The pictures in the tree, each with its name, its width and its height, in the order of
the names. -/
def pictures (t : FileTree) : List (String × Nat × Nat) :=
  let found := t.entries.filterMap fun
    | (place, .file document) =>
      if isInside place then document.pictureSize?.map fun size => (name place, size) else none
    | _ => none
  found.mergeSort fun a b => a.1 ≤ b.1

/-- Reading and writing the files of a tree. -/
def files : Files (StateM FileTree) where
  read path := return (← get).read path
  write path picture := do
    match (← get).write path picture with
    | .ok tree => set tree; return .ok ()
    | .error e => return .error e

end FileTree

end LabelPress
