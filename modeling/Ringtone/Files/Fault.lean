import Ringtone.Text.Quoted

/-!
# Faults of file operations
-/

namespace Ringtone.Files

/-- Why a file operation fails. -/
inductive Cause where
  /-- Nothing is there. -/
  | missing
  /-- Something is there already. -/
  | exists
  /-- A part of the path is a file and not a directory. -/
  | notDirectory
  /-- A directory is where a file is meant. -/
  | isDirectory
  /-- A name is longer than the file system allows. -/
  | nameTooLong
deriving DecidableEq

/-- The number of a cause. -/
def Cause.number : Cause → Nat
  | .missing => 2
  | .exists => 17
  | .notDirectory => 20
  | .isDirectory => 21
  | .nameTooLong => 36

/-- The words for a cause. -/
def Cause.text : Cause → String
  | .missing => "No such file or directory"
  | .exists => "File exists"
  | .notDirectory => "Not a directory"
  | .isDirectory => "Is a directory"
  | .nameTooLong => "File name too long"

/-- A file operation that failed. -/
structure Fault where
  /-- Why it failed. -/
  cause : Cause
  /-- The path it was asked for, as it is written. -/
  path : List Char
deriving DecidableEq

/-- The words for a fault: the number of the cause, its words, and the path in quotes. -/
def Fault.message (fault : Fault) : String :=
  "[Errno " ++ toString fault.cause.number ++ "] " ++ fault.cause.text ++ ": "
    ++ String.ofList (Text.quoted fault.path)

end Ringtone.Files
