import Ringtone.CommandLine.Grammar
import Ringtone.CommandLine.Wrap

/-!
# Usage and help texts

The usage text shows how a program is called; the help text adds what it is for, and what its
operand, its commands and its switches are for, in two columns. Both are laid out for a width.
-/

namespace Ringtone.CommandLine

variable {σ : Type}

/-- The columns of a terminal that help texts leave free. -/
def margin : Int := 2

/-- A number of blanks. -/
def blanks (count : Nat) : String := String.ofList (List.replicate count ' ')

/-! ## Usage -/

/-- A switch in a usage text: its first name, with a placeholder for its argument. -/
def Switch.usage (switch : Switch σ) : String :=
  let name := switch.names.headD ""
  match switch.effect.placeholder? with
  | none => "[" ++ name ++ "]"
  | some placeholder => "[" ++ name ++ " " ++ placeholder ++ "]"

/-- The commands that an operand can name, in braces. -/
def topicNames (topics : List Topic) : String :=
  "\x7b" ++ ",".intercalate (topics.map (·.name)) ++ "\x7d"

/-- An operand in a usage text, in parts that stay on one line. -/
def Operand.usage : Operand σ → List String
  | .optional name _ _ => ["[" ++ name ++ "]"]
  | .text name _ _ | .whole name _ _ => [name]
  | .command _ _ topics _ => [topicNames topics, "..."]

/-- Parts put into lines of at most `width` characters behind an indentation, when `start`
characters of the first line are taken already. -/
def fillLines (width indent start : Nat) (parts : List String) : List String :=
  let (done, line, _) := parts.foldl
    (fun ((done, line, used) : List String × List String × Nat) part =>
      if width < used + 1 + part.length ∧ line ≠ [] then
        (" ".intercalate line :: done, [part], indent + part.length)
      else (done, line ++ [part], used + 1 + part.length))
    ([], [], start - 1)
  (if line = [] then done else " ".intercalate line :: done).reverse

/-- Lines behind an indentation. -/
def indentLines (indent : Nat) (lines : List String) : List String := lines.map (blanks indent ++ ·)

/-- The text in front of a usage. -/
def usageLead : String := "usage: "

/-- How a program is called, in lines of at most `width` characters. -/
def Grammar.usageLines (grammar : Grammar σ) (width : Int) : List String :=
  let switches := grammar.switches.map (·.usage)
  let operand := (grammar.operand.map (·.usage)).getD []
  let whole := " ".intercalate (grammar.program :: switches ++ operand)
  let lead := usageLead.length
  if ((lead + whole.length : Nat) : Int) ≤ width then [whole]
  else
    let fit := width.toNat
    if 4 * ((lead + grammar.program.length : Nat) : Int) ≤ 3 * width then
      let indent := lead + grammar.program.length + 1
      match fillLines fit indent lead (grammar.program :: switches) with
      | first :: rest =>
        first :: indentLines indent rest
          ++ indentLines indent (fillLines fit indent indent operand)
      | [] => []
    else
      let together := fillLines fit lead lead (switches ++ operand)
      let lines :=
        if together.length ≤ 1 then together
        else fillLines fit lead lead switches ++ fillLines fit lead lead operand
      grammar.program :: indentLines lead lines

/-- The usage text. -/
def Grammar.usage (grammar : Grammar σ) (width : Int) : String :=
  usageLead ++ "\n".intercalate (grammar.usageLines width) ++ "\n"

/-! ## Help -/

/-- An entry of the help text: a heading at an indentation, and what it is for. -/
structure Entry where
  /-- The indentation. -/
  indent : Nat
  /-- The heading. -/
  heading : String
  /-- What it is for. -/
  purpose : String

/-- A switch in a help text: all its names, each with a placeholder for the argument. -/
def Switch.heading (switch : Switch σ) : String :=
  ", ".intercalate (switch.names.map fun name =>
    match switch.effect.placeholder? with
    | none => name
    | some placeholder => name ++ " " ++ placeholder)

/-- The entries of an operand: its own, and those of the commands that it can name. -/
def Operand.entries : Operand σ → List Entry
  | .command _ purpose topics _ =>
    ⟨2, topicNames topics, purpose⟩ :: topics.map fun topic => ⟨4, topic.name, topic.purpose⟩
  | operand => [⟨2, operand.name, operand.purpose⟩]

/-- The entries of a grammar's switches. -/
def Grammar.switchEntries (grammar : Grammar σ) : List Entry :=
  grammar.switches.map fun switch => ⟨2, switch.heading, switch.purpose⟩

/-- The entries of a grammar's operand. -/
def Grammar.operandEntries (grammar : Grammar σ) : List Entry :=
  (grammar.operand.map (·.entries)).getD []

/-- The column in which the right side begins: behind the longest heading, but not too far right. -/
def purposeColumn (width : Int) (entries : List Entry) : Nat :=
  let longest := (entries.map (·.heading.length + 2)).foldl max 0
  min (longest + 2) (min 24 (max (width - 20) 4).toNat)

/-- The least width of a column of text. -/
def leastWidth : Nat := 11

/-- An entry, with its right side beginning in a column. -/
def Entry.lines (entry : Entry) (width : Int) (column : Nat) : List String :=
  let right := wrap (max (width - column) leastWidth).toNat entry.purpose
  let room := (column : Int) - entry.indent - 2
  let left := blanks entry.indent ++ entry.heading
  let (first, rest) := match right with
    | [] => ("", [])
    | first :: rest => (first, rest)
  if (entry.heading.length : Int) ≤ room then
    (left ++ blanks (column - left.length) ++ first) :: indentLines column rest
  else left :: indentLines column (first :: rest)

/-- A section of the help text. -/
def helpSection (title : String) (width : Int) (column : Nat) (entries : List Entry) :
    List String :=
  if entries = [] then []
  else "" :: (title ++ ":") :: entries.flatMap fun entry => entry.lines width column

/-- The help text. -/
def Grammar.help (grammar : Grammar σ) (width : Int) : String :=
  let column := purposeColumn width (grammar.operandEntries ++ grammar.switchEntries)
  let description := match grammar.description with
    | none => []
    | some text => "" :: wrap (max width leastWidth).toNat text
  let lines := description
    ++ helpSection "positional arguments" width column grammar.operandEntries
    ++ helpSection "options" width column grammar.switchEntries
  grammar.usage width ++ String.join (lines.map (· ++ "\n"))

end Ringtone.CommandLine
