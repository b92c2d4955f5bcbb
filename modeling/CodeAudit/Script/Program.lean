import CodeAudit.Script.Lexer
import CodeAudit.Script.Grammar.Statement

/-!
# Reading programs

## Main definitions

* `rulesWithin` — the rules for constructs nested at most a given number of times.
* `parse` — the syntax tree of a source text.
-/

namespace CodeAudit.Script

open Reader

/-- Reads all of a text of tokens with a reader. -/
def readTokens {α : Type} (reader : Reader α) (tokens : List Token) : Except SyntaxFault α :=
  (reader ⟨tokens, ⟨1, 0⟩⟩).map (·.1)

/-- The expression of a field: its source is read as if it stood in parentheses. -/
def readField (rules : Rules) (line : Nat) (source : List Char) : Except SyntaxFault Node :=
  (tokenizeFrom line ('(' :: source ++ [')', '\n'])).bind (readTokens (starExpressions rules))

/-- The rules for constructs nested at most `n` times. -/
def rulesWithin : Nat → Rules
  | 0 => Rules.none
  | n + 1 =>
    { expression := fun c => expression (rulesWithin n) c
      inversion := fun c => inversion (rulesWithin n) c
      factor := fun c => factor (rulesWithin n) c
      pattern := fun c => pattern (rulesWithin n) c
      block := fun c => block (rulesWithin n) c
      field := fun line source => readField (rulesWithin n) line source
      bound := n + 1 }

/-- A whole program. -/
def program (rules : Rules) : Reader Node := do
  let start ← here
  let body ← statements rules (return !(← sees .endOfInput))
  node start .module (asBody body)

/-- **The syntax tree of a source text**, or the line of the first fault. A construct takes at least one
character and passes through at most four rules, so four times the length of the text bounds the nesting. -/
def parse (source : String) : Except SyntaxFault Node :=
  (tokenize source).bind (readTokens (program (rulesWithin (4 * source.length + 8))))

end CodeAudit.Script
