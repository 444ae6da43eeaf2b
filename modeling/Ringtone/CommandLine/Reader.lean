import Ringtone.CommandLine.Grammar
import Ringtone.Number.Numeral
import Ringtone.Text.Quoted

/-!
# Reading command lines

First every argument is sorted by its looks: a switch of the grammar, something that looks like a
switch but is none, or a plain argument. Then the arguments are taken from left to right.

A long switch may be shortened as long as it stays the only one meant, and its argument may follow
an equals sign. Short switches may share a dash, and the argument of the last may follow at once.
What follows a short switch without an argument is read as letters of further switches, also behind
an equals sign; once a letter names no switch, all that is left is an argument that nothing takes.
What looks like a negative number or holds a blank is plain, and so is everything behind two
dashes. Arguments that nothing takes are left over and given back.
-/

namespace Ringtone.CommandLine

open Number Text

/-- Why the reading of a command line ends early. -/
inductive Stop where
  /-- The help text is asked for. -/
  | help
  /-- The command line is misused. -/
  | misuse (message : String)

/-- What an argument looks like. -/
inductive Looks (σ : Type) where
  /-- A plain argument. -/
  | plain
  /-- Two dashes. -/
  | dashes
  /-- A switch under one of its names, with what follows it in the same word; an equals sign between
  them is left out. -/
  | switch (switch : Switch σ) (name : Argument) (attached : Option Argument)
  /-- A switch that the grammar does not have. -/
  | unknown

/-- An argument that has been sorted. -/
structure Sorted (σ : Type) where
  /-- What is typed. -/
  typed : Argument
  /-- What it looks like. -/
  looks : Looks σ

section Sorting

variable {σ : Type}

/-- The names of a grammar's switches, each with its switch. -/
def Grammar.names (grammar : Grammar σ) : List (Argument × Switch σ) :=
  grammar.switches.flatMap fun switch => switch.names.map fun name => (name.toList, switch)

/-- The switch of a name. -/
def Grammar.find? (grammar : Grammar σ) (name : Argument) : Option (Switch σ) :=
  (grammar.names.find? fun (other, _) => other = name).map (·.2)

/-- The text before the first equals sign, and the text behind it if there is one. -/
def splitEquals (argument : Argument) : Argument × Option Argument :=
  let name := argument.takeWhile (· ≠ '=')
  match argument.dropWhile (· ≠ '=') with
  | [] => (name, none)
  | _ :: rest => (name, some rest)

/-- Whether an argument looks like a negative number: digits, or digits around a point. -/
def isNegativeNumber : Argument → Bool
  | '-' :: rest =>
    let isDigit (c : Char) : Bool := (digitValue? c).isSome
    let whole := rest.takeWhile isDigit
    match rest.dropWhile isDigit with
    | [] => whole ≠ []
    | ['\n'] => whole ≠ []
    | '.' :: places =>
      let digits := places.takeWhile isDigit
      let after := places.dropWhile isDigit
      digits ≠ [] && (after = [] || after = ['\n'])
    | _ => false
  | _ => false

/-- The switches that an argument which is no full name may mean, with the names meant. -/
def Grammar.candidates (grammar : Grammar σ) (argument : Argument) :
    List (Argument × Switch σ × Option Argument) :=
  match argument with
  | '-' :: '-' :: _ =>
    let (name, value) := splitEquals argument
    grammar.names.filterMap fun (other, switch) =>
      if name.isPrefixOf other then some (other, switch, value) else none
  | '-' :: letter :: rest =>
    grammar.names.filterMap fun (other, switch) =>
      if other = ['-', letter] then some (other, switch, some rest)
      else if argument.isPrefixOf other then some (other, switch, none)
      else none
  | _ => []

/-- The words for an argument that may mean several switches. -/
def ambiguous (argument : Argument) (names : List Argument) : String :=
  "ambiguous option: " ++ String.ofList argument ++ " could match "
    ++ ", ".intercalate (names.map String.ofList)

/-- What an argument that begins with a dash and more looks like when it is no name. -/
def Grammar.sortUnnamed (grammar : Grammar σ) (argument : Argument) : Except Stop (Looks σ) :=
  match grammar.candidates argument with
  | [(name, switch, attached)] => .ok (.switch switch name attached)
  | [] => .ok (if isNegativeNumber argument || argument.contains ' ' then .plain else .unknown)
  | several => .error (.misuse (ambiguous argument (several.map (·.1))))

/-- What an argument before two dashes looks like. -/
def Grammar.sort (grammar : Grammar σ) (argument : Argument) : Except Stop (Looks σ) :=
  match argument with
  | '-' :: _ :: _ =>
    match grammar.find? argument with
    | some switch => .ok (.switch switch argument none)
    | none =>
      match splitEquals argument with
      | (name, some value) =>
        match grammar.find? name with
        | some switch => .ok (.switch switch name (some value))
        | none => grammar.sortUnnamed argument
      | (_, none) => grammar.sortUnnamed argument
  | _ => .ok .plain

/-- The arguments, sorted. -/
def Grammar.sortAll (grammar : Grammar σ) : List Argument → Except Stop (List (Sorted σ))
  | [] => .ok []
  | argument :: rest =>
    if argument = ['-', '-'] then
      .ok (⟨argument, .dashes⟩ :: rest.map fun argument => ⟨argument, .plain⟩)
    else do
      let looks ← grammar.sort argument
      let others ← grammar.sortAll rest
      return ⟨argument, looks⟩ :: others

end Sorting

section Taking

variable {σ : Type}

/-- The words for an argument of a switch or an operand that is not valid. -/
def about (title message : String) : String := "argument " ++ title ++ ": " ++ message

/-- A list of names in quotes. -/
def quotedNames (names : List String) : String :=
  ", ".intercalate (names.map fun name => String.ofList (quoted name.toList))

/-- The words for an argument that is not one of some names. -/
def invalidChoice (argument : Argument) (names : List String) : String :=
  "invalid choice: " ++ String.ofList (quoted argument) ++ " (choose from "
    ++ quotedNames names ++ ")"

/-- The whole number that an argument denotes. -/
def wholeOf (title : String) (argument : Argument) : Except Stop Int :=
  match readInt? argument with
  | some n => .ok n
  | none =>
    .error (.misuse (about title ("invalid int value: " ++ String.ofList (quoted argument))))

/-- The settings after a switch without an argument. -/
def Switch.raise (switch : Switch σ) (settings : σ) : Except Stop σ :=
  match switch.effect with
  | .flag apply => .ok (apply settings)
  | .help => .error .help
  | _ => .ok settings

/-- The settings after a switch with its argument. -/
def Switch.set (switch : Switch σ) (argument : Argument) (settings : σ) : Except Stop σ :=
  match switch.effect with
  | .text _ apply => .ok (apply argument settings)
  | .whole _ apply => return apply (← wholeOf switch.title argument) settings
  | .choice names apply =>
    if (names.map String.toList).contains argument then .ok (apply argument settings)
    else .error (.misuse (about switch.title (invalidChoice argument names)))
  | _ => .ok settings

/-- The switches of one word. -/
structure Word (σ : Type) where
  /-- Those without an argument, in order. -/
  raised : List (Switch σ)
  /-- The last, if it takes an argument: with it, or without if it is still to come. -/
  last : Option (Switch σ × Option Argument)

/-- The words for an argument attached to a switch that takes none. -/
def ignoredArgument (switch : Switch σ) (argument : Argument) : Stop :=
  .misuse (about switch.title
    ("ignored explicit argument " ++ String.ofList (quoted argument)))

/-- The switches of a word whose first letters, up to a switch without an argument, are done;
`switch` is that one, and the letters are what follows it. -/
def Grammar.letters (grammar : Grammar σ) (switch : Switch σ) :
    List Char → Except Stop (Word σ)
  | [] => .ok { raised := [switch], last := none }
  | letter :: rest =>
    match grammar.find? ['-', letter] with
    | none => .error (ignoredArgument switch (letter :: rest))
    | some next =>
      if next.effect.takesArgument then
        .ok { raised := [switch], last := some (next, if rest = [] then none else some rest) }
      else do
        let word ← grammar.letters next rest
        return { word with raised := switch :: word.raised }

/-- The switches of a word that begins with a given one. -/
def Grammar.word (grammar : Grammar σ) (switch : Switch σ) (name : Argument)
    (attached : Option Argument) : Except Stop (Word σ) :=
  if switch.effect.takesArgument then .ok { raised := [], last := some (switch, attached) }
  else match attached with
  | none => .ok { raised := [switch], last := none }
  | some argument =>
    if argument = [] || (name.drop 1).head? = some '-' then
      .error (ignoredArgument switch argument)
    else grammar.letters switch argument

/-- The settings so far, the operand that is still missing, and the arguments left over. -/
structure Progress (σ : Type) where
  /-- The settings. -/
  settings : σ
  /-- The operand, until it is taken. -/
  operand : Option (Operand σ)
  /-- The arguments that nothing took. -/
  leftOver : List Argument

/-- The progress after an argument is left over. -/
def Progress.leave (progress : Progress σ) (argument : Argument) : Progress σ :=
  { progress with leftOver := progress.leftOver ++ [argument] }

/-- The settings after an operand has its argument. -/
def Operand.take (operand : Operand σ) (argument : Argument) (following : List Argument)
    (settings : σ) : Except Stop σ :=
  match operand with
  | .optional _ _ apply | .text _ _ apply => .ok (apply argument settings)
  | .whole name _ apply => return apply (← wholeOf name argument) settings
  | .command name _ topics apply =>
    match topics.find? fun topic => topic.name.toList = argument with
    | some topic => .ok (apply topic following settings)
    | none =>
      .error (.misuse (about name (invalidChoice argument (topics.map (·.name)))))

/-- Whether an operand takes all arguments from its own on. -/
def Operand.takesAll : Operand σ → Bool
  | .command _ _ _ _ => true
  | _ => false

/-- The progress after an operand takes an argument. -/
def Progress.take (progress : Progress σ) (operand : Operand σ) (argument : Argument)
    (following : List Argument) : Except Stop (Progress σ) := do
  let settings ← operand.take argument following progress.settings
  return { progress with settings, operand := none }

/-- The settings after the switches of a word that take no argument. -/
def raiseAll (switches : List (Switch σ)) (settings : σ) : Except Stop σ :=
  switches.foldlM (fun settings switch => switch.raise settings) settings

/-- The progress after two dashes and the plain arguments behind them. -/
def Progress.takeDashes (progress : Progress σ) (dashes : Argument) (plain : List Argument) :
    Except Stop (Progress σ) :=
  match progress.operand, plain with
  | some operand, first :: rest =>
    if operand.takesAll then progress.take operand dashes plain
    else do
      let progress ← progress.take operand first []
      return rest.foldl .leave progress
  | some (.optional _ _ _), [] => .ok progress
  | _, plain => .ok (plain.foldl .leave (progress.leave dashes))

/-- Takes the arguments from left to right. -/
def Grammar.takeAll (grammar : Grammar σ) (progress : Progress σ) :
    List (Sorted σ) → Except Stop (Progress σ)
  | [] => .ok progress
  | ⟨typed, .dashes⟩ :: rest => progress.takeDashes typed (rest.map (·.typed))
  | ⟨typed, .unknown⟩ :: rest => grammar.takeAll (progress.leave typed) rest
  | ⟨typed, .plain⟩ :: rest =>
    match progress.operand with
    | none => grammar.takeAll (progress.leave typed) rest
    | some operand =>
      if operand.takesAll then progress.take operand typed (rest.map (·.typed))
      else do
        let progress ← progress.take operand typed []
        match rest with
        | ⟨_, .dashes⟩ :: rest => return (rest.map (·.typed)).foldl .leave progress
        | rest => grammar.takeAll progress rest
  | ⟨_, .switch switch name attached⟩ :: rest => do
    let word ← grammar.word switch name attached
    match word.last with
    | none =>
      let settings ← raiseAll word.raised progress.settings
      grammar.takeAll { progress with settings } rest
    | some (last, some argument) =>
      let settings ← raiseAll word.raised progress.settings
      let settings ← last.set argument settings
      grammar.takeAll { progress with settings } rest
    | some (last, none) =>
      match rest with
      | ⟨argument, .plain⟩ :: rest =>
        let settings ← raiseAll word.raised progress.settings
        let settings ← last.set argument settings
        grammar.takeAll { progress with settings } rest
      | _ => throw (.misuse (about last.title "expected one argument"))

/-- The words for an operand that is missing, if it may not be. -/
def missingOperand : Option (Operand σ) → Option String
  | some (.text name _ _) | some (.whole name _ _) =>
    some ("the following arguments are required: " ++ name)
  | _ => none

/-- The settings that a command line makes of some others, and the arguments left over. -/
def Grammar.read (grammar : Grammar σ) (settings : σ) (arguments : List Argument) :
    Except Stop (σ × List Argument) := do
  let sorted ← grammar.sortAll arguments
  let progress ← grammar.takeAll { settings, operand := grammar.operand, leftOver := [] } sorted
  match missingOperand progress.operand with
  | some message => throw (.misuse message)
  | none => return (progress.settings, progress.leftOver)

/-- The words for arguments left over. -/
def unrecognized (arguments : List Argument) : String :=
  "unrecognized arguments: " ++ " ".intercalate (arguments.map String.ofList)

end Taking

end Ringtone.CommandLine
