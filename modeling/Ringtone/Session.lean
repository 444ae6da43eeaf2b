import Ringtone.Fault
import Ringtone.Files.Tree

/-!
# Sessions

What the commands act on: the file tree with a current directory, the environment, the clock, and
what has been written to the two outputs. An action that fails keeps what it did before.
-/

namespace Ringtone

open Files

/-- A moment of local time. -/
structure Moment where
  /-- The year. -/
  year : Nat
  /-- The month, from one. -/
  month : Nat
  /-- The day of the month, from one. -/
  day : Nat
  /-- The hour. -/
  hour : Nat
  /-- The minute. -/
  minute : Nat
  /-- The second. -/
  second : Nat
deriving DecidableEq

/-- The variables of an environment and their values. -/
abbrev Environment := List (String × List Char)

/-- The value of a variable. -/
def Environment.get? : Environment → String → Option (List Char)
  | [], _ => none
  | (name, value) :: rest, wanted => if name = wanted then some value else get? rest wanted

/-- A session. -/
structure Session where
  /-- The root of the file tree. -/
  files : Node
  /-- The place of the current directory. -/
  current : Place
  /-- The environment. -/
  environment : Environment
  /-- The time. -/
  now : Moment
  /-- How many levels deep a text is read. -/
  nesting : Value.Nesting := .usual
  /-- Whether messages for debugging are written. -/
  verbose : Bool := false
  /-- Whether a pitch has been looked up yet. -/
  pitchesKnown : Bool := false
  /-- What has been written to the standard output. -/
  output : String := ""
  /-- What has been written to the error output. -/
  errors : String := ""

/-- Something that is done in a session, which may fail. -/
abbrev Action := ExceptT Fault (StateM Session)

namespace Action

/-- The outcome of an action, and the session after it. -/
def perform {α : Type} (action : Action α) (session : Session) : Except Fault α × Session :=
  ExceptT.run action session

/-- Writes a line to the standard output. -/
def say (line : String) : Action Unit :=
  modify fun session => { session with output := session.output ++ line ++ "\n" }

/-- The surrogates that come first in a text, if there are any, as a fault. `position` is the number
of code points before the text. -/
def unencodable? (position : Nat) : Text.Points → Option Fault
  | [] => none
  | point :: rest =>
    match point.toChar? with
    | some _ => unencodable? (position + 1) rest
    | none =>
      let further := (rest.takeWhile fun next => next.toChar?.isNone).length
      some (.unencodable position (1 + further) point)

/-- Writes a line of code points to the standard output, which takes no surrogates. -/
def print (line : Text.Points) : Action Unit :=
  match unencodable? 0 line with
  | none => say (String.ofList line.toChars)
  | some fault => throw fault

/-- Writes a line to the error output. -/
def complain (line : String) : Action Unit :=
  modify fun session => { session with errors := session.errors ++ line ++ "\n" }

/-- Logs a warning of a part of the program. -/
def warn (part message : String) : Action Unit :=
  complain ("WARNING " ++ part ++ ": " ++ message)

/-- Logs a message for debugging, if these are wanted. -/
def debug (part message : String) : Action Unit := do
  if (← get).verbose then complain ("DEBUG " ++ part ++ ": " ++ message)

/-- The value of a variable of the environment. -/
def getVariable? (name : String) : Action (Option (List Char)) := do
  return (← get).environment.get? name

/-- The fault of a file operation on a path. -/
def fileFault (path : Path) (cause : Cause) : Fault := .file { cause, path := path.text }

/-- Fails on paths that hold the character that ends paths. -/
def checkPath (path : Path) : Action Unit := do
  if path.text.contains '\x00' then throw .pathTerminator

/-- Makes the directory at a path, and those above it, unless it is there. -/
def ensureDirectory (path : Path) : Action Unit := do
  checkPath path
  let session ← get
  let (outcome, files) := session.files.ensureDirectory session.current path
  set { session with files }
  match outcome with
  | .ok () => return ()
  | .error cause => throw (fileFault path cause)

/-- Whether anything is at a path. -/
def isPresent (path : Path) : Action Bool := do
  let session ← get
  if path.text.contains '\x00' then return false
  match session.files.isPresent session.current path with
  | .ok present => return present
  | .error cause => throw (fileFault path cause)

/-- Writes a file. -/
def writeFile (path : Path) (content : List UInt8) : Action Unit := do
  checkPath path
  let session ← get
  match session.files.write session.current path content with
  | .ok files => set { session with files }
  | .error cause => throw (fileFault path cause)

end Action

end Ringtone
