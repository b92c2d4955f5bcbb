import CodeAudit.Script.Literal

/-!
# Fields in string literals

The body of a formatted literal is text with fields in braces. A field is an expression, an optional
equals sign that repeats its text, an optional conversion and an optional format, which may hold fields
itself, one level deep. A doubled brace is a brace of the text.

## Main definitions

* `takeLiteral` — the text up to the next field.
* `interpolate` — the nodes of a formatted body.
-/

namespace CodeAudit.Script

/-- Text up to the next brace. The flag says that the brace was doubled, so that text goes on behind it.
Inside the name of a character a brace is text; a format has no doubled braces. Nothing if a closing
brace stands alone. -/
def takeLiteral (raw inFormat inName : Bool) : List Char → Option (List Char × Bool × List Char)
  | [] => some ([], false, [])
  | c :: rest =>
    let go (inName : Bool) := (takeLiteral raw inFormat inName rest).map fun (t, more) => (c :: t, more)
    if inName then go (c != '\x7d')
    else if c == '\\' && !raw then
      match rest with
      | 'N' :: '\x7b' :: more =>
        (takeLiteral raw inFormat true more).map fun (t, left) => ('\\' :: 'N' :: '\x7b' :: t, left)
      | d :: more =>
        if d == '\x7b' || d == '\x7d' then go false
        else (takeLiteral raw inFormat false more).map fun (t, left) => ('\\' :: d :: t, left)
      | [] => some (['\\'], false, [])
    else if c == '\x7b' || c == '\x7d' then
      match rest with
      | d :: more =>
        if !inFormat && d == c then some ([c], true, more)
        else if !inFormat && c == '\x7d' then none
        else some ([], false, c :: rest)
      | [] => if !inFormat && c == '\x7d' then none else some ([], false, [c])
    else go false

/-- The source of a field's expression, up to the character that ends it at the outermost level. Quotes
and brackets must be balanced, and neither backslashes nor comments are allowed. `quote` is the open
string, with a flag for three quotes, and `brackets` are the open brackets. -/
def takeField? (quote : Option (Char × Bool)) (brackets : List Char) :
    List Char → Option (List Char × List Char)
  | [] => none
  | c :: rest =>
    let go (q : Option (Char × Bool)) (b : List Char) :=
      (takeField? q b rest).map fun (t, left) => (c :: t, left)
    if c == '\\' then none
    else
      match quote with
      | some (q, true) =>
        match rest with
        | b :: a :: more =>
          if c == q && b == q && a == q then
            (takeField? none brackets more).map fun (t, left) => (c :: b :: a :: t, left)
          else go quote brackets
        | _ => go quote brackets
      | some (q, false) => go (if c == q then none else quote) brackets
      | none =>
        if c == '\'' || c == '"' then
          match rest with
          | b :: a :: more =>
            if b == c && a == c then
              (takeField? (some (c, true)) brackets more).map fun (t, left) => (c :: b :: a :: t, left)
            else go (some (c, false)) brackets
          | _ => go (some (c, false)) brackets
        else if c == '(' || c == '[' || c == '\x7b' then
          if 200 ≤ brackets.length then none else go none (c :: brackets)
        else if c == '#' then none
        else if brackets.isEmpty && (c == '!' || c == ':' || c == '\x7d' || c == '=' || c == '>' || c == '<') then
          match rest with
          | d :: more =>
            if d == '=' && c != ':' && c != '\x7d' then
              (takeField? none brackets more).map fun (t, left) => (c :: d :: t, left)
            else if c == '>' || c == '<' then go none brackets
            else some ([], c :: rest)
          | [] => if c == '>' || c == '<' then go none brackets else some ([], [c])
        else if c == ')' || c == ']' || c == '\x7d' then
          match brackets with
          | opened :: outer =>
            let closes := (opened == '(' && c == ')') || (opened == '[' && c == ']') ||
              (opened == '\x7b' && c == '\x7d')
            if closes then go none outer else none
          | [] => none
        else go none brackets

/-- A blank of source text. -/
def isSourceBlank (c : Char) : Bool :=
  c == ' ' || c == '\t' || c == '\n' || c == '\x0c'

/-- The number of line feeds of a text. -/
def countNewlines (s : List Char) : Nat :=
  s.countP (· == '\n')

/-- Drops the equals sign of a self-documenting field and the blanks behind it. -/
def dropEquals : List Char → List Char
  | '=' :: rest => rest.dropWhile (fun c => isSourceBlank c || c == '\r' || c == '\x0b')
  | s => s

/-- Drops a conversion; nothing if it is unknown. -/
def dropConversion? : List Char → Option (List Char)
  | '!' :: c :: rest => if c == 's' || c == 'r' || c == 'a' then some rest else none
  | ['!'] => none
  | s => some s

/-- What is needed to read fields: how to read an expression that starts on a line, the extent of the
literal, and whether backslashes stand for themselves. -/
structure FieldContext where
  expression : Nat → List Char → Except SyntaxFault Node
  extent : Extent
  raw : Bool

namespace FieldContext

variable (ctx : FieldContext)

/-- The fault of the literal. -/
def fault : SyntaxFault :=
  ⟨ctx.extent.start.line⟩

/-- A node of a piece of text; an empty piece has none. -/
def textNode? (s : List Char) : Option (List Node) :=
  (if ctx.raw then some s else unescape? s).map fun value =>
    if value.isEmpty then []
    else [Node.mk .piece (.constant (.text (String.ofList value))) ctx.extent []]

/-- **Nodes of a formatted body.** `depth` is 0 for a literal and counts nested formats, `line` is the
line of the next character. The result ends before the brace that closes a format, or at the end. -/
def interpolate : Nat → Nat → Nat → List Char → Except SyntaxFault (List Node × Nat × List Char)
  | 0, _, _, _ => .error ctx.fault
  | bound + 1, depth, line, s =>
    match takeLiteral ctx.raw (0 < depth) false s with
    | none => .error ctx.fault
    | some (literal, doubled, rest) =>
      match ctx.textNode? literal with
      | none => .error ctx.fault
      | some text =>
        let line := line + countNewlines literal
        if doubled then
          (interpolate bound depth line rest).map fun (nodes, left) => (text ++ nodes, left)
        else
          match rest with
          | '\x7b' :: field =>
            if 2 ≤ depth then .error ctx.fault
            else
              match takeField? none [] field with
              | none => .error ctx.fault
              | some (source, behind) =>
                if source.all isSourceBlank then .error ctx.fault
                else
                  (ctx.expression line source).bind fun value =>
                  let line := line + countNewlines source
                  let line := line + (countNewlines behind - countNewlines (dropEquals behind))
                  match dropConversion? (dropEquals behind) with
                  | some (':' :: format) =>
                    (interpolate bound (depth + 1) line format).bind fun (spec, line, left) =>
                    match left with
                    | '\x7d' :: after =>
                      let node := Node.mk .piece .formattedValue ctx.extent
                        [value.asPart .value, Node.mk .piece .joinedStr ctx.extent spec]
                      (interpolate bound depth line after).map fun (nodes, left) => (text ++ node :: nodes, left)
                    | _ => .error ctx.fault
                  | some ('\x7d' :: after) =>
                    let node := Node.mk .piece .formattedValue ctx.extent [value.asPart .value]
                    (interpolate bound depth line after).map fun (nodes, left) => (text ++ node :: nodes, left)
                  | _ => .error ctx.fault
          | _ => .ok (text, line, rest)

end FieldContext

end CodeAudit.Script
