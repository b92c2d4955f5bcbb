import CodeAudit.Script.Tree
import CodeAudit.Text.Split

/-!
# The source text of a node

Columns count bytes, so a line is cut at byte offsets, which always lie between characters.

## Main definitions

* `dropBytes`, `takeBytes` — a line cut at a byte offset.
* `segment` — the source text that an extent covers.
-/

namespace CodeAudit.Script

/-- The rest of a line behind the given number of bytes. -/
def dropBytes (n : Nat) : List Char → List Char
  | [] => []
  | c :: rest => if n = 0 then c :: rest else dropBytes (n - c.utf8Size) rest

/-- The first bytes of a line. -/
def takeBytes (n : Nat) : List Char → List Char
  | [] => []
  | c :: rest => if n = 0 then [] else c :: takeBytes (n - c.utf8Size) rest

/-- **The source text of an extent**, with the line ends of the source. -/
def segment (lines : List (List Char)) (e : Extent) : String :=
  let line (n : Nat) : List Char := (lines[n - 1]?).getD []
  if e.start.line = e.stop.line then
    String.ofList (takeBytes (e.stop.column - e.start.column) (dropBytes e.start.column (line e.start.line)))
  else
    let between := (lines.drop e.start.line).take (e.stop.line - e.start.line - 1)
    String.ofList (dropBytes e.start.column (line e.start.line) ++ between.flatten ++
      takeBytes e.stop.column (line e.stop.line))

end CodeAudit.Script
