import CodeAudit.Session.Basic

/-!
# What the detectors say

## Main definitions

* `Question.rationale` — the worst findings in a few lines.
-/

namespace CodeAudit.Question

/-- What is said if there is nothing to say. -/
def noFindings : String :=
  "No notable findings."

/-- A finding in a line. -/
def findingLine (f : ScoredFinding Float) : String :=
  f.category.name ++ " (" ++ f.severity.name ++ ") at " ++ f.file ++ ":" ++ Number.decimalInt f.firstLine ++ "-" ++
    Number.decimalInt f.lastLine ++ ": " ++ f.title

/-- The first findings in a few lines. -/
def summarized (findings : List (ScoredFinding Float)) : String :=
  if findings.isEmpty then noFindings else Text.joinWith "\n" ((findings.take 3).map findingLine)

/-- **The worst findings of an analysis in a few lines.** An analysis that fails finds nothing. -/
def rationale (scope : Audit.Scope) : Action String := do
  let outcome ← Action.attempt do
    let rules ← Action.rules Rules.usualPath
    let _ ← Action.ofResult (Audit.weights rules)
    Action.files (Audit.analyse rules scope)
  match outcome with
  | .ok a => return summarized a.scored
  | .error _ => return noFindings

end CodeAudit.Question
