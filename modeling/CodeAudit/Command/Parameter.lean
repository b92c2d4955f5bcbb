import CodeAudit.Datum.Basic
import CodeAudit.Number.Reading

/-!
# Parameters of commands

## Main definitions

* `Parameter` — what a command can be given.
* `Arguments` — what a command is given.
-/

namespace CodeAudit

/-- The kinds of values. -/
inductive ParameterKind
  | text
  | int
  | float
  /-- A switch, which has a negative form too. -/
  | flag
  /-- Texts, one for each time the option is given. -/
  | texts
deriving DecidableEq

/-- What a command can be given. -/
structure Parameter where
  name : String
  kind : ParameterKind := .text
  /-- The value if none is given; a parameter without one must be given. -/
  default? : Option Datum := none
  /-- Whether it is given by its place and not by its name. -/
  isPositional : Bool := false
  /-- A letter that stands for the name. -/
  short? : Option Char := none

namespace Parameter

/-- A parameter that is given by its place. -/
def positional (name : String) (kind : ParameterKind := .text) : Parameter :=
  { name, kind, isPositional := true }

/-- An option with a default. -/
def option (name : String) (kind : ParameterKind) (default : Datum) : Parameter :=
  { name, kind, default? := some default }

/-- A switch that is off unless it is given. -/
def switch (name : String) : Parameter :=
  option name .flag (.bool false)

/-- The name on the command line. -/
def long (p : Parameter) : String :=
  "--" ++ String.ofList (p.name.toList.map fun c => if c == '_' then '-' else c)

/-- The negative form of a switch on the command line. -/
def negative (p : Parameter) : String :=
  "--no-" ++ String.ofList (p.long.toList.drop 2)

end Parameter

/-- Why a command line is refused. -/
inductive Usage
  /-- A parameter that must be given is missing. -/
  | missing
  | unknownOption
  /-- A value is no number. -/
  | badValue
  /-- An option lacks its value, or a switch has one. -/
  | badOption
  /-- There is no such command, or a word too many. -/
  | other
deriving DecidableEq

/-- What a command is given. -/
abbrev Arguments := List (String × Datum)

namespace Arguments

/-- The value of a parameter. -/
def value (args : Arguments) (name : String) : Datum :=
  (args.lookup name).getD .null

/-- The texts of a parameter. -/
def texts (args : Arguments) (name : String) : List String :=
  match args.value name with
  | .list items => items.map (·.str)
  | _ => []

end Arguments

end CodeAudit
