import WhereClause.File
import WhereClause.Text.Parts

/-!
# Folders

A directory that holds some files, and the paths that start in it. A path is
walked name by name, so whatever it passes on the way has to be a directory. The
folder stands in other directories about which nothing else is known: a path can
leave it upwards or start at the root, but no name leads from there to anything.
-/
namespace WhereClause

/-- Files by their paths in a directory that holds no others. -/
structure Folder where
  files : List (String × ByteArray)

namespace Folder

/-- Where a walk has come to. -/
inductive Place where
  /-- One of the directories around the folder. -/
  | outside
  /-- What some names lead to from the folder, whether it is there or not. -/
  | inside (names : List String)
  deriving DecidableEq, Repr

/-- What can stand in a place. -/
inductive Entry where
  | file (bytes : ByteArray)
  | directory

/-- The name leads to the directory itself. -/
def stays (name : String) : Bool := name == "" || name == "."

/-- The name leads to the directory around. -/
def ascends (name : String) : Bool := name == ".."

/-- The names of a path, without those that stay where they are. -/
def names (path : String) : List String :=
  (Text.parts '/' path).filter fun name => !stays name

/-- What stands in a place. Directories are there as far as files are in them. -/
def entry? (folder : Folder) : Place → Option Entry
  | .outside => some .directory
  | .inside place =>
    match folder.files.find? fun (path, _) => names path == place with
    | some (_, bytes) => some (.file bytes)
    | none =>
      if place.isEmpty || folder.files.any fun (path, _) => place.isPrefixOf (names path) then
        some .directory
      else none

/-- The place to which a name leads from a directory. -/
def follow (place : Place) (name : String) : Except ReadFailure Place :=
  if stays name then .ok place
  else match place with
    | .outside => if ascends name then .ok .outside else .error .notFound
    | .inside [] => if ascends name then .ok .outside else .ok (.inside [name])
    | .inside place => .ok (.inside (if ascends name then place.dropLast else place ++ [name]))

/-- One name of a walk, which has to stand in a directory. -/
def step (folder : Folder) (place : Place) (name : String) : Except ReadFailure Place :=
  match folder.entry? place with
  | some .directory => follow place name
  | some (.file _) => .error .notADirectory
  | none => .error .notFound

/-- Where the walk along a path begins: at the root for a path with a slash in front. -/
def start (path : String) : Place :=
  match path.toList with
  | '/' :: _ => .outside
  | _ => .inside []

/-- The bytes of the file that a path leads to. -/
def read (folder : Folder) (path : String) : Except ReadFailure ByteArray :=
  if path.isEmpty then .error .notFound
  else do
    let place ← (Text.parts '/' path).foldlM folder.step (start path)
    match folder.entry? place with
    | some (.file bytes) => return bytes
    | some .directory => throw .isADirectory
    | none => throw .notFound

end Folder
end WhereClause
