/-!
# Paths

A path is a sequence of names below a root, or below the current directory when it has none. Empty
names and single dots are left out when a path is read, and two dots are kept: what they stand for
depends on the file system.
-/

namespace Ringtone.Files

/-- The name of a file or directory. -/
abbrev Name := List Char

/-- A path. -/
structure Path where
  /-- The slashes in front: none, one, or exactly two, which some systems tell from one. -/
  root : List Char
  /-- The names. -/
  parts : List Name
deriving DecidableEq

namespace Path

/-- The stretches of a text between slashes. -/
def splitSlashes : List Char → List (List Char)
  | [] => [[]]
  | c :: rest =>
    if c = '/' then [] :: splitSlashes rest
    else match splitSlashes rest with
      | [] => [[c]]
      | first :: others => (c :: first) :: others

/-- The names in a text. -/
def names (text : List Char) : List Name :=
  (splitSlashes text).filter fun name => name ≠ [] ∧ name ≠ ['.']

/-- The root that a text begins with. -/
def rootOf (text : List Char) : List Char :=
  let slashes := text.takeWhile (· = '/')
  if slashes.length = 2 then slashes else slashes.take 1

/-- The path that a text denotes. -/
def ofChars (text : List Char) : Path := { root := rootOf text, parts := names text }

/-- The path as text. -/
def text (path : Path) : List Char :=
  if path.root = [] ∧ path.parts = [] then ['.']
  else path.root ++ ['/'].intercalate path.parts

/-- A path below another. -/
def child (path : Path) (name : String) : Path := { path with parts := path.parts ++ [name.toList] }

/-- The text of a path as a string. -/
def toString (path : Path) : String := String.ofList path.text

end Path

end Ringtone.Files
