/-!
# Grammars of command lines

A command line has switches, which begin with a dash and may stand anywhere, and at most one
operand. What each of them means is a change of a record of settings, so that reading a command
line gives such a record and nothing has to be looked up by name afterwards.
-/

namespace Ringtone.CommandLine

/-- An argument as it is typed. -/
abbrev Argument := List Char

/-- What a switch does, and what it takes for it. -/
inductive Effect (σ : Type) where
  /-- It takes nothing. -/
  | flag (apply : σ → σ)
  /-- It takes a text. -/
  | text (placeholder : String) (apply : Argument → σ → σ)
  /-- It takes a whole number. -/
  | whole (placeholder : String) (apply : Int → σ → σ)
  /-- It takes one of some names. -/
  | choice (names : List String) (apply : Argument → σ → σ)
  /-- It takes nothing and asks for the help text. -/
  | help

/-- A switch. -/
structure Switch (σ : Type) where
  /-- Its names, each with its dashes. -/
  names : List String
  /-- What it does. -/
  effect : Effect σ
  /-- What it is for. -/
  purpose : String

/-- A command that an operand can name. -/
structure Topic where
  /-- Its name. -/
  name : String
  /-- What it is for. -/
  purpose : String

/-- An operand. -/
inductive Operand (σ : Type) where
  /-- A text that may be left out. -/
  | optional (name purpose : String) (apply : Argument → σ → σ)
  /-- A text. -/
  | text (name purpose : String) (apply : Argument → σ → σ)
  /-- A whole number. -/
  | whole (name purpose : String) (apply : Int → σ → σ)
  /-- One of some commands, which takes all arguments that follow it. -/
  | command (name purpose : String) (topics : List Topic)
      (apply : Topic → List Argument → σ → σ)

/-- The grammar of a command line. -/
structure Grammar (σ : Type) where
  /-- The words that call the program. -/
  program : String
  /-- What the program is for. -/
  description : Option String
  /-- The switches. -/
  switches : List (Switch σ)
  /-- The operand, if it takes one. -/
  operand : Option (Operand σ)

/-- The switch that asks for help. -/
def helpSwitch {σ : Type} : Switch σ :=
  { names := ["-h", "--help"], effect := .help, purpose := "show this help message and exit" }

namespace Effect

variable {σ : Type}

/-- Whether a switch takes an argument. -/
def takesArgument : Effect σ → Bool
  | .flag _ | .help => false
  | _ => true

/-- The word that stands for the argument in help texts, if there is one. -/
def placeholder? : Effect σ → Option String
  | .flag _ | .help => none
  | .text placeholder _ | .whole placeholder _ => some placeholder
  | .choice names _ => some ("\x7b" ++ ",".intercalate names ++ "\x7d")

end Effect

namespace Operand

variable {σ : Type}

/-- The name of an operand. -/
def name : Operand σ → String
  | .optional name _ _ | .text name _ _ | .whole name _ _ | .command name _ _ _ => name

/-- What an operand is for. -/
def purpose : Operand σ → String
  | .optional _ purpose _ | .text _ purpose _ | .whole _ purpose _
  | .command _ purpose _ _ => purpose

end Operand

/-- The name of a switch in messages. -/
def Switch.title {σ : Type} (switch : Switch σ) : String := "/".intercalate switch.names

end Ringtone.CommandLine
