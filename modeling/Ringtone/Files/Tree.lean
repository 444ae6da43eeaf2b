import Ringtone.Files.Fault
import Ringtone.Files.Path
import Ringtone.Text.Utf8

/-!
# File trees

A directory holds files and directories under their names. Every operation goes to a place, the
names on the way from the root, and finds there a file, a directory or nothing.
-/

namespace Ringtone.Files

/-- A file or a directory. -/
inductive Node where
  /-- A file and its bytes. -/
  | file (content : List UInt8)
  /-- A directory and what it holds. -/
  | directory (entries : List (Name × Node))

/-- What a directory holds, by name. -/
abbrev Entries := List (Name × Node)

/-- A place in the tree: the names on the way from the root. -/
abbrev Place := List Name

namespace Entries

/-- The entry of a name. -/
def get? : Entries → Name → Option Node
  | [], _ => none
  | (name, node) :: rest, wanted => if name = wanted then some node else get? rest wanted

/-- The entries with one replaced, or added when its name is new. -/
def set : Entries → Name → Node → Entries
  | [], name, node => [(name, node)]
  | (other, old) :: rest, name, node =>
    if other = name then (name, node) :: rest else (other, old) :: set rest name node

end Entries

namespace Node

/-- What is at a place. -/
def at? (node : Node) : Place → Option Node
  | [] => some node
  | name :: rest =>
    match node with
    | .file _ => none
    | .directory entries =>
      match Entries.get? entries name with
      | some inner => inner.at? rest
      | none => none

/-- The tree with something put at a place, directories being made on the way. -/
def put (node : Node) (place : Place) (new : Node) : Node :=
  match place with
  | [] => new
  | name :: rest =>
    let entries := match node with
      | .file _ => []
      | .directory entries => entries
    let inner := (Entries.get? entries name).getD (.directory [])
    .directory (Entries.set entries name (inner.put rest new))

/-- The greatest number of bytes of a name. -/
def nameLimit : Nat := 255

/-- Whether a name has too many bytes. -/
def isTooLong (name : Name) : Bool := nameLimit < (Text.Utf8.encode name).length

/-- The place that names lead to from a place. All but the last must lead through directories; two
dots lead back up. -/
def locate (tree : Node) (here : Place) : List Name → Except Cause Place
  | [] => .ok here
  | name :: rest =>
    match tree.at? here with
    | none => .error .missing
    | some (.file _) => .error .notDirectory
    | some (.directory _) =>
      if name = ['.', '.'] then locate tree here.dropLast rest
      else if isTooLong name then .error .nameTooLong
      else locate tree (here ++ [name]) rest

/-- The greatest number of bytes of a path. -/
def pathLimit : Nat := 4095

/-- The place of a path, the current directory being given. -/
def placeOf (tree : Node) (current : Place) (path : Path) : Except Cause Place :=
  if pathLimit < (Text.Utf8.encode path.text).length then .error .nameTooLong
  else tree.locate (if path.root = [] then current else []) path.parts

/-- What is at a path. -/
def lookup (tree : Node) (current : Place) (path : Path) : Except Cause Node := do
  match tree.at? (← tree.placeOf current path) with
  | some node => return node
  | none => throw .missing

/-- Whether a path leads to a directory; a name that is too long is a fault. -/
def isDirectory (tree : Node) (current : Place) (path : Path) : Except Cause Bool :=
  match tree.lookup current path with
  | .ok (.directory _) => .ok true
  | .ok (.file _) => .ok false
  | .error .nameTooLong => .error .nameTooLong
  | .error _ => .ok false

/-- Whether a path leads to anything; a name that is too long is a fault. -/
def isPresent (tree : Node) (current : Place) (path : Path) : Except Cause Bool :=
  match tree.lookup current path with
  | .ok _ => .ok true
  | .error .nameTooLong => .error .nameTooLong
  | .error _ => .ok false

/-- The bytes of the file at a path. -/
def read (tree : Node) (current : Place) (path : Path) : Except Cause (List UInt8) := do
  match ← tree.lookup current path with
  | .file content => return content
  | .directory _ => throw .isDirectory

/-- The tree after a file is written at a path. -/
def write (tree : Node) (current : Place) (path : Path) (content : List UInt8) :
    Except Cause Node := do
  let place ← tree.placeOf current path
  match tree.at? place with
  | some (.directory _) => throw .isDirectory
  | _ => return tree.put place (.file content)

/-- The tree after a directory is made at a path whose parent is there. -/
def makeDirectory (tree : Node) (current : Place) (path : Path) : Except Cause Node := do
  let place ← tree.placeOf current path
  match tree.at? place with
  | some _ => throw .exists
  | none => return tree.put place (.directory [])

/-- The tree after a directory is made at a path where there may be one already. -/
def makeIfAbsent (tree : Node) (current : Place) (path : Path) : Except Cause Node :=
  match tree.makeDirectory current path with
  | .ok changed => .ok changed
  | .error cause =>
    if cause = .missing then .error .missing
    else match tree.isDirectory current path with
      | .ok true => .ok tree
      | .ok false => .error cause
      | .error other => .error other

/-- The tree after the directories are made that a path needs, its names being given from the last
to the first. What is made stays made when a later step fails. -/
def ensureNames (tree : Node) (current : Place) (root : List Char) :
    List Name → Except Cause Unit × Node
  | [] =>
    match tree.makeIfAbsent current { root, parts := [] } with
    | .ok changed => (.ok (), changed)
    | .error cause => (.error cause, tree)
  | last :: before =>
    let path : Path := { root, parts := (last :: before).reverse }
    match tree.makeIfAbsent current path with
    | .ok changed => (.ok (), changed)
    | .error .missing =>
      match ensureNames tree current root before with
      | (.error cause, changed) => (.error cause, changed)
      | (.ok (), changed) =>
        match changed.makeIfAbsent current path with
        | .ok finished => (.ok (), finished)
        | .error cause => (.error cause, changed)
    | .error cause => (.error cause, tree)

/-- The tree after the directory at a path and those above it are there. -/
def ensureDirectory (tree : Node) (current : Place) (path : Path) : Except Cause Unit × Node :=
  tree.ensureNames current path.root path.parts.reverse

end Node

end Ringtone.Files
