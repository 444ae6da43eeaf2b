import Ringtone.Commands
import Std.Time.Zoned

/-!
# The program

Runs a command on the machine's own files. What the command may look at is brought into a file tree
first; the command runs on that tree, and what it has changed there is written back.
-/

namespace Ringtone.Program

open Files

/-! ## From the machine into a tree -/

/-- The text of the path of a place. -/
def placeText (place : Place) : String := Path.toString { root := ['/'], parts := place }

/-- The file or directory at a place, if there is one; a directory comes without what it holds. -/
def nodeAt? (place : Place) : IO (Option Node) := do
  match ← (IO.FS.realPath (placeText place)).toBaseIO with
  | .error _ => return none
  | .ok _ =>
    match ← (IO.FS.readBinFile (placeText place)).toBaseIO with
    | .ok content => return some (.file content.toList)
    | .error _ => return some (.directory [])

/-- A tree with what is found on the way that names lead from a place. -/
def observe (tree : Node) (here : Place) : List Name → IO Node
  | [] => return tree
  | name :: rest => do
    let place := if name = ['.', '.'] then here.dropLast else here ++ [name]
    match ← nodeAt? place with
    | none => return tree
    | some (.file content) => return tree.put place (.file content)
    | some (.directory _) =>
      let tree := if (tree.at? place).isSome then tree else tree.put place (.directory [])
      observe tree place rest

/-- A tree with what is found on the way of a path. -/
def observePath (current : Place) (tree : Node) (path : Path) : IO Node :=
  observe tree (if path.root = [] then current else []) path.parts

/-- A tree with the rendered files of a moment, counted on from an index. -/
partial def observeRenders (current : Place) (tree : Node) (directory : Path) (moment : Moment)
    (index : Nat) : IO Node := do
  let path := directory.child (Places.renderName moment index)
  let tree ← observePath current tree path
  match tree.isPresent current path with
  | .ok true => observeRenders current tree directory moment (index + 1)
  | _ => return tree

/-! ## From a tree back to the machine -/

/-- Makes the directories and writes the files at and below a place that are not what was there
before. -/
partial def writeBack (before : Option Node) (place : Place) : Node → IO Unit
  | .file content => do
    match before with
    | some (.file old) => if old = content then return ()
    | _ => pure ()
    IO.FS.writeBinFile (placeText place) ⟨content.toArray⟩
  | .directory entries => do
    let known ← match before with
      | some (.directory known) => pure known
      | _ => do
        IO.FS.createDir (placeText place)
        pure []
    entries.forM fun (name, node) =>
      writeBack (Entries.get? known name) (place ++ [name]) node

/-! ## A run -/

/-- The names of the variables that the program looks at. -/
def variableNames : List String :=
  ["COLUMNS", "HOME", directoryVariable, Places.settingsVariable, Places.dataVariable,
    Settings.tempoVariable, Settings.tuningVariable]

/-- The environment as far as the program looks at it. -/
def environment : IO Environment :=
  variableNames.filterMapM fun name => do
    return (← IO.getEnv name).map fun value => (name, value.toList)

/-- The time. -/
def now : IO Moment := do
  let time ← Std.Time.PlainDateTime.now
  return {
    year := time.year.toInt.toNat
    month := time.month.toInt.toNat
    day := time.day.toInt.toNat
    hour := time.hour.toInt.toNat
    minute := time.minute.toInt.toNat
    second := time.second.toInt.toNat }

/-- The session that a run begins with. -/
def session (arguments : List CommandLine.Argument) : IO Session := do
  let environment ← environment
  let now ← now
  let current := (Path.ofChars (toString (← IO.currentDir)).toList).parts
  let paths := Places.settingsFile environment :: Places.rendersDirectory environment
    :: (Commands.outputPath? arguments).toList
  let files ← observe (.directory []) [] current
  let files ← paths.foldlM (observePath current) files
  let files ← observeRenders current files (Places.rendersDirectory environment) now 0
  return { files, current, environment, now }

/-- What a stream holds up to its end. -/
partial def readAll (stream : IO.FS.Stream) : IO String := do
  let line ← stream.getLine
  if line.isEmpty then return "" else return line ++ (← readAll stream)

/-- Runs the program on its arguments; the result is the exit code. -/
def run (arguments : List CommandLine.Argument) : IO UInt32 := do
  let before ← session arguments
  let input ← if Commands.readsInput arguments then readAll (← IO.getStdin) else pure ""
  let (outcome, after) := (Commands.run Commands.part arguments input.toList).perform before
  writeBack (some before.files) [] after.files
  IO.print after.output
  IO.eprint after.errors
  match outcome with
  | .ok code => return code.toUInt32
  | .error fault =>
    IO.eprintln (fault.message?.getD "The command failed")
    return Commands.failure.toUInt32

end Ringtone.Program

/-- Runs the program. -/
def main (arguments : List String) : IO UInt32 :=
  Ringtone.Program.run (arguments.map String.toList)
