import CodeAudit.Forge
import CodeAudit.Web.Service

/-!
# The web page

The page is a script over a screen: it asks the screen's widgets for values and shows one element after the
other. An analysis is asked of the web service or done on the spot.

## Main definitions

* `Page.fromSecrets` — the address of the service among the secrets.
* `Page.run` — the page from its first element to its last.
-/

namespace CodeAudit

open CodeAudit.Action

/-- What a page finds on its screen. -/
structure Screen where
  /-- The values of the widgets by their labels. -/
  widgets : Datum := .dict []
  secrets : Datum := .dict []

/-- The value of a widget, or a default. -/
def Screen.widget (s : Screen) (label : String) (default : Datum) : Datum :=
  (s.widgets.entry? label).getD default

namespace Page

/-- Shows an element. -/
def element (name : String) (contents : List Datum) : Action Unit :=
  display (.element name contents)

/-- Shows an element with a text. -/
def tell (name text : String) : Action Unit :=
  element name [.text text]

/-- Ends the page. -/
def halt {α : Type} : Action α :=
  throw .halt

/-! ## The address of the service -/

/-- The address of the service. -/
def serviceAddress : String :=
  "https://shopping-bot-8lb1.onrender.com"

/-- The name under which secrets hold the address of the service. -/
def addressName : String :=
  "BASE_URL"

/-- A secret at the end of a row of names, if it is there. -/
def secretAt (secrets : Datum) : List String → Except Fault (Option Datum)
  | [] => .ok (some secrets)
  | name :: rest => do
    if ← secrets.holds name then secretAt (← secrets.at_ name) rest else return none

/-- **The address of the service among the secrets.** Secrets of another form hold none. -/
def fromSecrets (screen : Screen) : Datum :=
  let found (names : List String) : Option Datum := (secretAt screen.secrets names).toOption.join
  ((found ["api", addressName]).or (found [addressName])).getD .null

/-! ## Reports -/

/-- The path that a value names. -/
def pathOf (d : Datum) : Action (Path × String) :=
  match d with
  | .text s => pure (.ofString s, s)
  | d => throw (.fault (.notPath d.kind))

/-- **Shows the report.** -/
def showReport (file : Datum) : Action Unit := do
  let (path, written) ← pathOf file
  tell "subheader" "report.md"
  if ← reading (·.exists? path) then
    match ← attempt (reading (·.readText path)) with
    | .ok s => tell "markdown" s
    | .error f => tell "error" ("Failed to read report.md: " ++ f.message)
  else tell "warning" ("report.md not found at: " ++ written)

/-- **Shows the exported report**, or its text if that is malformed. -/
def showJson (file : Datum) : Action Unit := do
  let (path, written) ← pathOf file
  tell "subheader" "report.json (summary)"
  if ← reading (·.exists? path) then
    match ← attempt (reading (·.readText path)) with
    | .ok s =>
      match Json.read? s with
      | some d => element "json" [d]
      | none => tell "code" s
    | .error _ => throw (.fault (.unset "raw"))
  else tell "warning" ("report.json not found at: " ++ written)

/-! ## The form -/

/-- A text of a widget without blanks at its ends. -/
def trimmed (d : Datum) : Except Fault String :=
  match d with
  | .text s => .ok (Text.trim s)
  | d => .error (.noAttribute d.kind "strip")

/-- The lines of a widget that are not blank. -/
def patterns (d : Datum) : Except Fault (List String) :=
  match d with
  | .text s => .ok (((Text.lines s).map Text.trim).filter (!·.isEmpty))
  | d => .error (.noAttribute d.kind "splitlines")

/-- What the form asks for. -/
structure Form where
  url : String
  branch : Datum
  wanted : List String
  unwanted : List String
  maxBytes : Datum
  mode : Datum

variable (f : Form)

/-- The branch that a form names, if it names one. -/
def Form.branch? : Except Fault (Option String) := do
  let branch ← trimmed f.branch
  return if branch.isEmpty then none else some branch

/-- The service's own patterns as the text of a widget. -/
def patternText (patterns : List String) : Datum :=
  .text (Text.joinWith "\n" patterns)

/-- The patterns of a form. -/
def formPatterns (screen : Screen) : Except Fault (List String × List String) := do
  let wanted ← patterns (screen.widget "Include globs" (patternText Service.usualWanted))
  let unwanted ← patterns (screen.widget "Exclude globs" (patternText Service.usualUnwanted))
  return (wanted, unwanted)

/-! ## An analysis by the service -/

/-- What is sent to the service. -/
def Form.payload : Except Fault Datum := do
  return .object [("github_url", .text f.url), ("branch", (← f.branch?).elim .null .text),
    ("include", .list (f.wanted.map .text)), ("exclude", .list (f.unwanted.map .text)),
    ("max_bytes", .int (← f.maxBytes.toInt)), ("clone_mode", f.mode)]

/-- What is told of a refusal: the detail in the answer, or the whole answer. -/
def refusalText (reply : Reply) : String :=
  let detail := do (← Forge.bodyOf reply).ask "detail" (← Forge.bodyOf reply)
  match detail with
  | .ok d => d.str
  | .error _ => reply.body

/-- Shows an answer of the service. -/
def showAnswer (answer : Datum) : Action Unit := do
  let get (key : String) (default : Datum) : Action Datum := ofResult (answer.ask key default)
  tell "success" ("Analyzed repo at: " ++ (← get "repo_path" (.text "")).str)
  element "metric" [.text "Files scanned", ← get "files_scanned" (.int 0)]
  element "metric" [.text "Top issues", ← get "top_issues" (.int 0)]
  element "write" [.text "By language:", ← get "by_language" (.dict [])]
  let report ← get "report_md" .null
  if report.truthy then showReport report
  let json ← get "report_json" .null
  if json.truthy then showJson json

/-- Asks the service for an analysis. -/
def askService : Action Unit := do
  let body ← ofResult f.payload
  tell "spinner" ("Calling CQIA Web Service at " ++ serviceAddress ++ " ...")
  let post : Post := { url := serviceAddress ++ "/api/analyze", body, timeout := 600 }
  match ← attempt (Action.post post) with
  | .error e =>
    tell "error" ("Request failed: " ++ e.message)
    halt
  | .ok reply =>
    if reply.status ≠ 200 then
      tell "error" ("API error " ++ Number.decimalInt reply.status ++ ": " ++ refusalText reply)
      halt
    showAnswer (← ofResult (Forge.bodyOf reply))

/-! ## An analysis on the spot -/

/-- The mode in which a repository is copied. -/
def Form.checkoutMode : Checkout.Mode :=
  .ofText (if f.mode == .text "unique" then "unique" else "clean")

/-- Analyses a copied repository. -/
def analyse (root : Path) : Action Unit := do
  tell "spinner" "Walking repository..."
  let maxBytes ← ofResult f.maxBytes.toInt
  let scope : Audit.Scope := { root, wanted := f.wanted, unwanted := f.unwanted, maxBytes := .int maxBytes }
  let infos ← reading fun fs => Audit.files fs scope
  element "write" [.text "Files discovered:", .int infos.length]
  if infos.isEmpty then
    tell "warning" "No files matched include/exclude filters."
    halt
  let rules ← Service.rules
  let out := Service.reportFolder root
  let report ← Action.files (Audit.start out infos)
  tell "spinner" "Running analysis..."
  let done ← Action.files (Audit.finish rules scope report out infos.length Service.rawMetrics)
  tell "success" ("Analysis done. Reports in: " ++ out.toString)
  showReport (.text done.report.toString)
  showJson (.text done.json.toString)

/-- Copies the repository that a form names. -/
def copy : Action Path := do
  let branch ← ofResult f.branch?
  Checkout.fresh f.url Service.workFolder branch f.checkoutMode

/-- Copies a repository and analyses it. -/
def analyseHere : Action Unit := do
  tell "spinner" "Cloning repository..."
  match ← attempt (copy f) with
  | .error e =>
    tell "error" ("Clone failed: " ++ e.message)
    halt
  | .ok root => analyse f root

/-! ## The script -/

/-- What the form asks for, once its button is pressed and an address is given. -/
def submitted (screen : Screen) (url : String) : Except Fault Form := do
  let (wanted, unwanted) ← formPatterns screen
  return { url, wanted, unwanted
           branch := screen.widget "Branch (optional)" (.text "")
           maxBytes := screen.widget "Per-file byte cap" (.int Analysis.usualMaxBytes)
           mode := screen.widget "Clone mode" (.text "clean") }

/-- **The page from its first element to its last.** -/
def run (screen : Screen) : Action Unit := do
  element "set_page_config" []
  tell "title" "Code Quality Intelligence (CQIA) – Web UI"
  if (screen.widget "Analyze" (.bool false)).truthy then
    let url ← ofResult (trimmed (screen.widget "GitHub URL to analyze" (.text "")))
    unless url.isEmpty do
      let form ← ofResult (submitted screen url)
      if screen.widget "Run mode" (.text "Call FastAPI") == .text "Call FastAPI" then askService form
      else analyseHere form

end Page

end CodeAudit
