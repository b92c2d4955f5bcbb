import CodeAudit.Datum.Arithmetic

/-!
# Categories of findings

## Main definitions

* `Category` — the categories.
* `advice` — what to do about a finding.
-/

namespace CodeAudit

/-- The categories of findings. -/
inductive Category
  | security
  | complexity
  | duplication
  | performance
  | documentation
  | testing
deriving DecidableEq

namespace Category

/-- All categories, in the order in which findings are listed. -/
def all : List Category :=
  [security, complexity, duplication, performance, documentation, testing]

/-- The name of a category. -/
def name : Category → String
  | security => "security"
  | complexity => "complexity"
  | duplication => "duplication"
  | performance => "performance"
  | documentation => "documentation"
  | testing => "testing"

/-- The category that a value names. -/
def ofDatum? (d : Datum) : Option Category :=
  match d with
  | .text s => all.find? (·.name == s)
  | _ => none

/-- The category that a value names, if it can be looked up. -/
def lookUp (d : Datum) : Except Fault (Option Category) :=
  match d.unhashableKind? with
  | some kind => .error (.unhashable kind)
  | none => .ok (ofDatum? d)

/-- Why findings of a category matter. -/
def why : Category → String
  | security => "Security-sensitive API usage increases the risk of injection or RCE; fix immediately."
  | complexity => "High cyclomatic complexity makes code harder to test and maintain and hides defects."
  | duplication => "Duplicated logic leads to divergence and bugs, increasing maintenance effort."
  | performance => "Loop performs expensive operations; this can dominate runtime and reduce throughput."
  | documentation => "Missing docstrings reduce readability, API clarity, and onboarding speed."
  | testing => "Missing tests risk regressions and make safe refactoring harder."

end Category

/-- Why a finding matters; a category may be unknown. -/
def explain (category : Option Category) : String :=
  (category.map Category.why).getD "Quality issue."

/-- A detail of a finding, from the details that it carries. -/
def detail (details : Datum) (name : String) (default : Datum) : Except Fault Datum := do
  let entries ← (details.orElse (.dict [])).entriesAs "get"
  return (Datum.lookup (.text name) entries).getD default

/-- What to do about slow code of a kind. -/
def speedAdvice (kind : Datum) : Except Fault String :=
  if kind == .text "string_concat_in_loop" then
    .ok "- Append to a list in the loop and join once: parts.append(x); s=''.join(parts).\n"
  else match kind.unhashableKind? with
    | some k => .error (.unhashable k)
    | none =>
      .ok (if kind == .text "io_in_loop" || kind == .text "requests_in_loop" then
        "- Hoist I/O out of the loop, batch requests, or use concurrency/async with pooling and timeouts.\n"
      else "- Reduce per-iteration work; batch or cache repeated operations.\n")

/-- **What to do about a finding** of a category with some details. -/
def advice (category : Option Category) (details : Datum) : Except Fault String := do
  match category with
  | some .security =>
    return "- Replace eval/exec; validate inputs; use safe loaders; for subprocess set shell=False and pass " ++
      "args list.\n"
  | some .complexity =>
    return "- Extract helpers; guard-return early; simplify boolean expressions with named predicates.\n"
  | some .duplication =>
    let other ← detail details "other_file" .null
    let tail := if other.truthy then " (see also " ++ other.str ++ ")" else ""
    return "- Extract common code into a shared function or module" ++ tail ++
      "; add tests for the shared path.\n"
  | some .performance => speedAdvice (← detail details "kind" (.text ""))
  | some .documentation =>
    return "- Add module/class/function docstrings (PEP 257) with parameters, returns, and brief examples.\n"
  | some .testing =>
    let expected ← detail details "expected_test" (.text "tests/test_<name>.py")
    return "- Create " ++ expected.str ++
      " and add at least one unit test; use pytest fixtures and descriptive names.\n"
  | none => return "- Apply standard refactorings and add tests.\n"

end CodeAudit
