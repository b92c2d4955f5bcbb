import CodeAudit.Files.Path
import CodeAudit.Text.Case

/-!
# Languages of source files

Two classifications are in use: the scan of a repository goes by the suffix of a file's name, the analysis
by the end of its path. They agree except for the suffixes that only the scan knows.

## Main definitions

* `Language` — the languages.
* `Language.ofEnding` — the language in which a file is analysed.
-/

namespace CodeAudit

/-- A language, or the tag of one that has no rules of its own. -/
inductive Language
  | python
  | javascript
  | typescript
  | unknown
  | other (tag : String)
deriving DecidableEq, Inhabited

namespace Language

/-- The tag that stands for a language in reports. -/
def tag : Language → String
  | python => "python"
  | javascript => "javascript"
  | typescript => "typescript"
  | unknown => "unknown"
  | other t => t

/-- The language of a tag. -/
def ofTag (t : String) : Language :=
  if t == "python" then python
  else if t == "javascript" then javascript
  else if t == "typescript" then typescript
  else if t == "unknown" then unknown
  else other t

/-- The language of a file found by a scan, by the suffix of its name in either case. -/
def ofSuffix (p : Path) : Language :=
  let suffix := Text.lower p.suffix
  if suffix == ".py" then python
  else if suffix ∈ [".js", ".mjs", ".cjs"] then javascript
  else if suffix ∈ [".ts", ".tsx"] then typescript
  else unknown

/-- The language in which a file is analysed, by the end of its path in either case. -/
def ofEnding (path : String) : Language :=
  let p := Text.lower path
  if Text.endsWith p ".py" then python
  else if Text.endsWith p ".ts" then typescript
  else if Text.endsWith p ".js" then javascript
  else unknown

end Language

end CodeAudit
