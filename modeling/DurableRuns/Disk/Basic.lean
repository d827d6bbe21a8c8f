/-
# DurableRuns.Disk.Basic -- directories and files as a value

A `Disk` is a tree of directories and files, kept as a list of paths with what stands there.
The root directory is always there.  Operations take a path as the list of its names and
answer with the new disk or with the reason they fail; one that fails changes nothing.

A `Place` is a path together with the text that messages show for it.
-/
import DurableRuns.Disk.Fault
import DurableRuns.Json.Parser
import DurableRuns.Text.Utf8

namespace DurableRuns

set_option autoImplicit false

/-- What stands at a path. -/
inductive Entry where
  | file (content : Bytes)
  | directory
deriving DecidableEq, Repr

/-- The names that lead from the root directory to an entry. -/
abbrev Path := List String

/-- A tree of directories and files. -/
structure Disk where
  entries : List (Path × Entry)
deriving DecidableEq, Repr

namespace Disk

/-- A disk that holds the root directory only. -/
def empty : Disk := ⟨[]⟩

/-- What stands at a path. -/
def at? (disk : Disk) (path : Path) : Option Entry :=
  if path = [] then some .directory else disk.entries.lookup path

/-- Entries with the entry at one path replaced or added. -/
def setIn (path : Path) (entry : Entry) : List (Path × Entry) → List (Path × Entry)
  | [] => [(path, entry)]
  | first :: rest =>
      if first.1 = path then (path, entry) :: rest else first :: setIn path entry rest

/-- The disk with an entry at a path. -/
def set (disk : Disk) (path : Path) (entry : Entry) : Disk :=
  ⟨setIn path entry disk.entries⟩

/-- The disk without the entry at a path. -/
def erase (disk : Disk) (path : Path) : Disk :=
  ⟨disk.entries.filter (·.1 ≠ path)⟩

/-! ## Looking -/

/-- A file stands somewhere on the way to a path. -/
def hasFileAbove (disk : Disk) : Path → Path → Bool
  | _, [] => false
  | base, name :: rest =>
      match disk.at? base with
      | some (.file _) => true
      | _ => hasFileAbove disk (base ++ [name]) rest

/-- Why nothing is found at a path. -/
def missing (disk : Disk) (path : Path) : DiskFault :=
  if disk.hasFileAbove [] path then .notDirectory else .notFound

/-- Something stands at a path. -/
def exists? (disk : Disk) (path : Path) : Bool := (disk.at? path).isSome

/-- A file stands at a path. -/
def isFile (disk : Disk) (path : Path) : Bool :=
  match disk.at? path with
  | some (.file _) => true
  | _ => false

/-- A directory stands at a path. -/
def isDirectory (disk : Disk) (path : Path) : Bool := disk.at? path = some .directory

/-- The content of the file at a path. -/
def read (disk : Disk) (path : Path) : Except DiskFault Bytes :=
  match disk.at? path with
  | some (.file content) => .ok content
  | some .directory => .error .isDirectory
  | none => .error (disk.missing path)

/-- The names in the directory at a path. -/
def names (disk : Disk) (path : Path) : Except DiskFault (List String) :=
  match disk.at? path with
  | some .directory =>
      .ok (disk.entries.filterMap fun (other, _) =>
        if other.dropLast = path then other.getLast? else none)
  | some (.file _) => .error .notDirectory
  | none => .error (disk.missing path)

/-- The value that the file at a path writes, as read by `reader`. -/
def readJson {α : Type} (disk : Disk) (path : Path) (reader : Json → Option α) :
    Except ReadFault α :=
  match disk.read path with
  | .error fault => .error (.disk fault)
  | .ok content =>
      match (Json.parse content).bind reader with
      | some value => .ok value
      | none => .error .malformed

/-! ## Changing -/

/-- The disk with the directories from `base` along the given names. -/
def makeDirectoriesFrom (disk : Disk) : Path → List String → Except DiskFault Disk
  | _, [] => .ok disk
  | base, name :: rest =>
      let here := base ++ [name]
      match disk.at? here with
      | some .directory => makeDirectoriesFrom disk here rest
      | some (.file _) => .error (if rest.isEmpty then .alreadyExists else .notDirectory)
      | none => makeDirectoriesFrom (disk.set here .directory) here rest

/-- The disk with a directory at a path and on the way to it. -/
def makeDirectories (disk : Disk) (path : Path) : Except DiskFault Disk :=
  disk.makeDirectoriesFrom [] path

/-- The disk with a file at a path, and with the directories on the way to it. -/
def write (disk : Disk) (path : Path) (content : Bytes) : Except DiskFault Disk := do
  if path = [] then throw .isDirectory
  let disk ← disk.makeDirectories path.dropLast
  if disk.isDirectory path then throw .isDirectory
  return disk.set path (.file content)

/-- The disk without the file at a path. -/
def remove (disk : Disk) (path : Path) : Except DiskFault Disk :=
  match disk.at? path with
  | some (.file _) => .ok (disk.erase path)
  | some .directory => .error .isDirectory
  | none => .error (disk.missing path)

/-- The disk without the file or the whole directory at a path. -/
def removeTree (disk : Disk) (path : Path) : Except DiskFault Disk :=
  if disk.exists? path then .ok ⟨disk.entries.filter fun (other, _) => !path.isPrefixOf other⟩
  else .error (disk.missing path)

end Disk

/-! ## Places -/

/-- A path, and the text that messages show for it. -/
structure Place where
  shown : String
  path : Path
deriving DecidableEq, Repr

namespace Place

/-- The names of a path written with slashes, resolved against the names before them. -/
def resolve (base : Path) : List String → Path
  | [] => base
  | name :: rest =>
      if name = "" || name = "." then resolve base rest
      else if name = ".." then resolve base.dropLast rest
      else resolve (base ++ [name]) rest

/-- The names in a path written with slashes. -/
def namesIn (text : String) : List String := (text.toList.splitOn '/').map String.ofList

/-- The place a typed path names, seen from a working directory.  A path that begins with a
slash is seen from the root directory. -/
def ofText (workingDirectory : Path) (text : String) : Place :=
  ⟨text, resolve (if text.startsWith "/" then [] else workingDirectory) (namesIn text)⟩

/-- The place of a typed path inside a directory. -/
def join (place : Place) (name : String) : Place :=
  let separator := if place.shown.isEmpty || place.shown.endsWith "/" then "" else "/"
  ⟨place.shown ++ separator ++ name, resolve place.path (namesIn name)⟩

end Place
end DurableRuns
