import CodeAudit.Checkout

/-!
# The web service

## Main definitions

* `Service.Request` — what is asked of the service; `Service.Request.check` reads it from a value.
* `Service.analyse` — copies a repository, analyses it, and tells where the reports are.
-/

namespace CodeAudit.Service

/-- What is asked of the service. -/
structure Request where
  url : String
  branch : Option String
  wanted : Option (List String)
  unwanted : Option (List String)
  maxBytes : Option Int
  mode : Option String

/-- The usual patterns of wanted files. -/
def usualWanted : List String :=
  ["**/*.py", "**/*.ts", "**/*.js"]

/-- The usual patterns of unwanted files. -/
def usualUnwanted : List String :=
  [".git/**", "**/node_modules/**", "**/__pycache__/**", "**/.venv/**", "**/venv/**"]

/-- A field that may be null or missing. -/
def optional {α : Type} (d : Datum) (name : String) (usual : Option α) (check : Datum → Check α) : Check (Option α) :=
  match d.entry? name with
  | none => .passed usual
  | some .null => .passed none
  | some v => some <$> check v

/-- A field that must be there. -/
def required {α : Type} (d : Datum) (name : String) (check : Datum → Check α) : Check α :=
  match d.entry? name with
  | none | some .null => .failed
  | some v => check v

/-- **The request that a value describes.** -/
def Request.check (d : Datum) : Except Fault Request :=
  Check.toExcept (Request.mk
    <$> required d "github_url" Check.text
    <*> optional d "branch" none Check.text
    <*> optional d "include" (some usualWanted) (Check.items Check.text)
    <*> optional d "exclude" (some usualUnwanted) (Check.items Check.text)
    <*> optional d "max_bytes" (some Analysis.usualMaxBytes) Check.whole
    <*> optional d "clone_mode" (some "clean") Check.text)

/-- What the service answers. -/
structure Response where
  repository : Path
  report : Option Path := none
  json : Option Path := none
  filesScanned : Nat := 0
  byLanguage : Datum := .dict []
  topIssues : Nat := 0

/-- A path, or null. -/
def pathDatum (p : Option Path) : Datum :=
  p.elim .null fun p => .text p.toString

/-- An answer as a value. -/
def Response.toDatum (r : Response) : Datum :=
  .object [("repo_path", .text r.repository.toString), ("report_md", pathDatum r.report),
    ("report_json", pathDatum r.json), ("files_scanned", .int r.filesScanned), ("by_language", r.byLanguage),
    ("top_issues", .int r.topIssues)]

/-- The directory below which repositories are copied. -/
def workFolder : Path :=
  .ofString ".cqia-web-work"

/-- The scope of an audit of a copied repository. A limit of zero stands for the usual one. -/
def Request.scope (r : Request) (root : Path) : Audit.Scope where
  root := root
  wanted := r.wanted.getD []
  unwanted := r.unwanted.getD []
  maxBytes := (r.maxBytes.elim Datum.null .int).orElse (.int Analysis.usualMaxBytes)

/-- The metrics of the dependencies as they are. -/
def rawMetrics (a : Analysis) : Except Fault Datum :=
  .ok a.metrics.toDatum

/-- The rules for an audit of a copied repository. -/
def rules : Action Datum := do
  let rules ← Action.rules Rules.usualPath
  let _ ← Action.ofResult (Audit.weights rules)
  return rules

/-- The directory of a copied repository that takes its reports. -/
def reportFolder (root : Path) : Path :=
  root.child "reports"

/-- The mode in which a repository is copied. -/
def Request.checkoutMode (r : Request) : Checkout.Mode :=
  .ofText (r.mode.getD "")

/-- **Copies a repository, analyses it, and tells where the reports are.** -/
def analyse (r : Request) : Action Response := do
  match ← Action.attempt (Checkout.fresh r.url workFolder r.branch r.checkoutMode) with
  | .error f => throw (.fault (.httpStatus 400 ("Clone failed: " ++ f.message)))
  | .ok root =>
    let scope := r.scope root
    let infos ← Action.reading fun fs => Audit.files fs scope
    if infos.isEmpty then return { repository := root }
    let done ← Action.files (Audit.complete (← rules) scope (reportFolder root) infos rawMetrics)
    return { repository := root, report := done.report, json := done.json, filesScanned := infos.length,
             byLanguage := done.analysis.byLanguage, topIssues := done.analysis.scored.length }

/-- The sign that the service runs. -/
def health : Datum :=
  .object [("ok", .bool true)]

end CodeAudit.Service
