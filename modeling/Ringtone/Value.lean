import Ringtone.Number.Numeral
import Ringtone.Text.Quoted

/-!
# Values

What a settings file holds and what a caller may hand over where a number or a text is expected:
the values of JSON. A section of the settings may hold anything, so the checks on tempo, tuning,
fraction and style take values and not numbers.
-/

namespace Ringtone

open Number Text

/-- A value. -/
inductive Value where
  /-- The empty value. -/
  | null
  /-- A truth value. -/
  | bool (b : Bool)
  /-- A whole number. -/
  | int (n : Int)
  /-- A binary64 number. -/
  | real (x : Binary64)
  /-- A text. -/
  | text (s : Points)
  /-- A list of values. -/
  | list (items : List Value)
  /-- An object: named values in order. -/
  | object (members : List (Points × Value))

/-- The members of an object, each under a name of its own and in order. -/
abbrev Members := List (Points × Value)

namespace Members

/-- The value under a name. -/
def get? : Members → Points → Option Value
  | [], _ => none
  | (name, value) :: rest, wanted => if name = wanted then some value else get? rest wanted

/-- The members with one value replaced in its place, or added at the end when its name is new. -/
def set : Members → Points → Value → Members
  | [], name, value => [(name, value)]
  | (other, old) :: rest, name, value =>
    if other = name then (name, value) :: rest else (other, old) :: set rest name value

/-- The members overlaid with others, which win where both have a name. -/
def overlay (base above : Members) : Members :=
  above.foldl (fun members (name, value) => members.set name value) base

end Members

namespace Value

/-- A text value. -/
def ofString (s : String) : Value := .text (Points.ofString s)

/-- The text value of some characters. -/
def ofChars (s : List Char) : Value := .text (Points.ofChars s)

/-! ## How messages write a value

A value cannot be written when a whole number in it has too many digits, or when its parts lie
deeper within each other than there is room for. What is met first, in the order of writing, is the
reason. -/

/-- Why a value cannot be written. -/
inductive Obstacle where
  /-- A whole number in it has too many digits. -/
  | numeral
  /-- Its parts lie too deep within each other. -/
  | nesting
deriving DecidableEq

mutual

/-- What keeps a value from being written, if its parts may lie so many levels below it. -/
def obstacle? : (levels : Nat) → Value → Option Obstacle
  | _, .int n => if Number.isWritable n then none else some .numeral
  | levels, .list items => obstacleOfItems? levels items
  | levels, .object members => obstacleOfMembers? levels members
  | _, _ => none

/-- What keeps the items of a list from being written. -/
def obstacleOfItems? : (levels : Nat) → List Value → Option Obstacle
  | _, [] => none
  | 0, _ :: _ => some .nesting
  | levels + 1, item :: rest =>
    (obstacle? levels item).or (obstacleOfItems? (levels + 1) rest)

/-- What keeps the members of an object from being written. -/
def obstacleOfMembers? : (levels : Nat) → List (Points × Value) → Option Obstacle
  | _, [] => none
  | 0, _ :: _ => some .nesting
  | levels + 1, (_, value) :: rest =>
    (obstacle? levels value).or (obstacleOfMembers? (levels + 1) rest)

end

/-- How many levels below a value its parts may lie. A message goes down into the value that it
quotes by a call for every level, and there is an end to calls within each other; this is what is
left of them to a message where the program begins to write one. -/
def levelLimit : Nat := 990

/-- How many lists and objects may be open within each other where a text is read. Reading begins at
the end of more calls than the writing of a message, so that no more levels are left to it; there is
room at least for the settings as they are first made, which have two. -/
structure Nesting where
  /-- The number of levels. -/
  levels : Nat
  /-- There are two at least. -/
  two_le : 2 ≤ levels
  /-- Messages have as many. -/
  le_levelLimit : levels ≤ levelLimit

/-- The levels that are left where a command reads its settings. -/
def Nesting.usual : Nesting := { levels := 985, two_le := by decide, le_levelLimit := by decide }

/-- Whether a value can be written. -/
def isWritable (value : Value) : Bool := (value.obstacle? levelLimit).isNone

mutual

/-- A value as messages quote it. -/
def literal : Value → String
  | .null => "None"
  | .bool b => if b then "True" else "False"
  | .int n => numeral n
  | .real x => x.text
  | .text s => String.ofList (quotedPoints (s.map (·.val)))
  | .list items => "[" ++ ", ".intercalate (literals items) ++ "]"
  | .object members => "\x7b" ++ ", ".intercalate (memberLiterals members) ++ "\x7d"

/-- Some values as messages quote them. -/
def literals : List Value → List String
  | [] => []
  | item :: rest => literal item :: literals rest

/-- Some members as messages quote them. -/
def memberLiterals : List (Points × Value) → List String
  | [] => []
  | (name, value) :: rest =>
    (String.ofList (quotedPoints (name.map (·.val))) ++ ": " ++ literal value) ::
      memberLiterals rest

end

/-- A value within running text: texts stand as they are, all else as messages quote it. -/
def display : Value → Points
  | .text s => s
  | value => Points.ofString value.literal

/-- A value within a text that is shown with escapes for surrogates, as messages are. -/
def shown (value : Value) : String := String.ofList value.display.toChars

end Value

end Ringtone
