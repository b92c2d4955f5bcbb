import CodeAudit.Command.Parameter

/-!
# Command lines

Words that begin with a hyphen are options, up to a word of two hyphens; the others fill the positional
parameters. Options and other words may be mixed.

## Main definitions

* `Line.scan` — sorts words into options and others.
* `Line.parse` — the arguments that words give.
-/

namespace CodeAudit.Line

/-- What is written for a parameter. -/
inductive Written
  | word (s : String)
  | switched (on : Bool)

/-- What a word says about an option: all that is needed, or which option the next word is the value of. -/
inductive Reading
  | done (p : Parameter) (w : Written)
  | pending (p : Parameter)

/-- Whether a word is an option. -/
def isOption (word : String) : Bool :=
  match word.toList with
  | '-' :: _ :: _ => true
  | _ => false

variable (ps : List Parameter)

/-- An option by its name on the line; a switch is turned on or off by it. -/
def findLong? (name : String) : Option (Parameter × Bool) :=
  ps.findSome? fun p =>
    if p.isPositional then none
    else if p.long == name then some (p, true)
    else if p.kind = .flag && p.negative == name then some (p, false)
    else none

/-- The name of an option and the value behind an equals sign. -/
def splitValue (word : String) : String × Option String :=
  let cs := word.toList
  let name := cs.takeWhile (· != '=')
  match cs.drop name.length with
  | _ :: value => (String.ofList name, some (String.ofList value))
  | [] => (word, none)

/-- What a letter with the rest of its word says. -/
def readShort : List Char → Except Usage Reading
  | [] => .error .unknownOption
  | c :: rest =>
    match ps.find? fun p => p.short? == some c with
    | none => .error .unknownOption
    | some p => .ok (if rest.isEmpty then .pending p else .done p (.word (String.ofList rest)))

/-- What an option says. -/
def readOption (word : String) : Except Usage Reading :=
  let (name, value) := splitValue word
  match findLong? ps name, value with
  | some (p, on), value =>
    if p.kind = .flag then
      match value with
      | some _ => .error .badOption
      | none => .ok (.done p (.switched on))
    else .ok (value.elim (.pending p) fun s => .done p (.word s))
  | none, _ =>
    match word.toList with
    | '-' :: '-' :: _ => .error .unknownOption
    | _ :: letters => readShort ps letters
    | [] => .error .unknownOption

/-- What is given on a line: options in their order, and other words. -/
structure Given where
  options : List (Parameter × Written) := []
  words : List String := []

/-- **Sorts words into options and others.** -/
def scan : List String → Except Usage Given
  | [] => .ok {}
  | word :: rest =>
    if word == "--" then .ok { words := rest }
    else if isOption word then
      match readOption ps word, rest with
      | .error u, _ => .error u
      | .ok (.done p w), rest => do
        let g ← scan rest
        return { g with options := (p, w) :: g.options }
      | .ok (.pending _), [] => .error .badOption
      | .ok (.pending p), value :: rest => do
        let g ← scan rest
        return { g with options := (p, .word value) :: g.options }
    else do
      let g ← scan rest
      return { g with words := word :: g.words }

/-- The value of a word. -/
def convert (kind : ParameterKind) (w : Written) : Except Usage Datum :=
  match kind, w with
  | _, .switched on => .ok (.bool on)
  | .int, .word s => (Number.readInt? s).elim (.error .badValue) fun n => .ok (.int n)
  | .float, .word s => (Number.readFloat? s).elim (.error .badValue) fun x => .ok (.float x)
  | _, .word s => .ok (.text s)

/-- The value of an option: all values that are given, or the last one. -/
def optionValue (p : Parameter) (written : List Written) : Except Usage Datum :=
  match p.kind, written.getLast? with
  | .texts, _ => do return .list (← written.mapM (convert .texts))
  | kind, some w => convert kind w
  | _, none => .error .missing

/-- The value of a parameter that is not given. -/
def defaultValue (p : Parameter) : Except Usage Datum :=
  p.default?.elim (.error .missing) .ok

/-- Positional parameters with the words at their places. -/
def place (words : List String) : List (Parameter × Option String) :=
  ps.zip (words.map some ++ List.replicate ps.length none)

/-- **The arguments that words give.** Options are looked at in the order in which they are given, then the
positional parameters, then what is not given; last of all, words that are left over are refused. -/
def parse (words : List String) : Except Usage Arguments := do
  let g ← scan ps words
  let names := (g.options.map (·.1.name)).eraseDups
  let chosen := names.filterMap fun name => ps.find? (·.name == name)
  let options ← chosen.mapM fun p => do
    return (p.name, ← optionValue p ((g.options.filter (·.1.name == p.name)).map (·.2)))
  let slots := ps.filter (·.isPositional)
  let placed ← (place slots g.words).mapM fun (p, w) => do
    return (p.name, ← w.elim (defaultValue p) fun s => convert p.kind (.word s))
  let others ← (ps.filter fun p => !p.isPositional && !names.contains p.name).mapM fun p => do
    return (p.name, ← defaultValue p)
  if g.words.length > slots.length then throw .other
  return options ++ placed ++ others

end CodeAudit.Line
