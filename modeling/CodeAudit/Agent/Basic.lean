import CodeAudit.Session.Basic

/-!
# The agent

The agent goes from step to step over a state, a dictionary that tells what is wanted and collects what was
done. A guard looks at the state and chooses the next step: an analysis, a search, or the end.

## Main definitions

* `Agent.guard` — what the guard adds to a state.
* `Agent.run` — the final state of a run.
-/

namespace CodeAudit.Agent

open CodeAudit.Action

/-- What a step adds to a state. -/
abbrev Update := List (String × Datum)

/-- A message by its role. -/
def message (role text : String) : Datum :=
  .object [("role", .text role), ("content", .text text)]

/-- What the agent says. -/
def remark (text : String) : Datum :=
  message "ai" text

variable (state : Datum)

/-- A list of a state with one more item. -/
def extended (key : String) (item : Datum) : Except Fault Datum := do
  ((← state.ask key .null).orElse (.list [])).add (.list [item])

/-- The end of a run with a remark. -/
def ending (text : String) : Except Fault Update := do
  return [("next_action", .text "end"), ("messages", ← extended state "messages" (remark text))]

/-- The mode of a state in small letters. -/
def mode : Except Fault String := do
  match (← state.ask "mode" .null).orElse (.text "") with
  | .text s => return Text.lower s
  | d => throw (.noAttribute d.kind "lower")

/-- A path that a value names. -/
def pathOf (d : Datum) : Except Fault Path :=
  match d with
  | .text s => .ok (.ofString s)
  | d => .error (.notPath d.kind)

/-- What the guard makes of a mode. -/
def judge (fs : Files) (state : Datum) (mode : String) : Except Fault Update := do
  match mode with
  | "analyze" =>
    if ← fs.exists? (← pathOf (← state.ask "path" (.text ""))) then return [("next_action", .text "run_analyze")]
    else ending state "Provided path not found; cannot analyze."
  | "chat" =>
    if (← state.ask "question" .null).truthy then return [("next_action", .text "run_chat")]
    else ending state "No question provided for chat mode."
  | _ => ending state "Unsupported mode. Use 'analyze' or 'chat'."

/-- **What the guard adds to a state**: its own step, the next one, and a remark if that is the end. -/
def guard (fs : Files) (state : Datum) : Except Fault Update := do
  let mode ← mode state
  let steps ← extended state "steps" (.text "guardrails")
  return ("steps", steps) :: (← judge fs state mode)

/-- A state with an update. -/
def updated (update : Update) : Except Fault Datum := do
  let entries ← state.entriesAs "update"
  return .dict (Datum.insertAll (update.map fun (k, v) => (.text k, v)) entries)

/-- The steps that can follow the guard. -/
inductive Step
  | analyse
  | chat
  | finish
deriving DecidableEq

namespace Step

/-- The name of a step. -/
def name : Step → String
  | analyse => "analyze_node"
  | chat => "chat_node"
  | finish => "end"

/-- **The step that a state asks for.** -/
def next : Except Fault Step := do
  let action ← state.ask "next_action" .null
  return if action == .text "run_analyze" then analyse else if action == .text "run_chat" then chat else finish

end Step

/-! ## Analysis -/

/-- The patterns of unwanted files if a state names none. -/
def usualUnwanted : List String :=
  [".git/**", "**/.git/**", "**/.venv/**", "**/venv/**", "**/env/**", "**/__pycache__/**", "**/node_modules/**",
    "**/dist/**", "**/build/**", "**/.next/**", "**/.turbo/**", "**/.idea/**", "**/.vscode/**", "**/.cache/**",
    "**/.pytest_cache/**"]

/-- Patterns that a value lists, or others if it lists none. -/
def patterns (d : Datum) (usual : List String) : Except Fault (List String) := do
  if d.truthy then return (← d.items).map (·.str) else return usual

/-- What bounds the analysis that a state asks for. -/
def scope : Except Fault Audit.Scope := do
  let path ← match state.entry? "path" with
    | some d => pathOf d
    | none => throw (.missingKey "'path'")
  let wanted ← patterns (← state.ask "include" .null) Analysis.usualWanted
  let unwanted ← patterns (← state.ask "exclude" .null) usualUnwanted
  let maxBytes ← ((← state.ask "max_bytes" .null).orElse (.int Analysis.usualMaxBytes)).toInt
  return { root := path, wanted, unwanted, maxBytes := .int maxBytes }

/-- The directory of the reports. -/
def reports : Path :=
  .ofString "reports"

/-- **What an analysis adds to a state.** -/
def analyse : Action Update := do
  let scope ← ofResult (scope state)
  let infos ← reading fun fs => Audit.files fs scope
  let steps := extended state "steps" (.text "analyze")
  if infos.isEmpty then
    ofResult do return (← ending state "No files matched include/exclude filters.") ++ [("steps", ← steps)]
  else
    let rules ← Action.rules Rules.usualPath
    let _ ← ofResult (Audit.weights rules)
    let done ← Action.files (Audit.complete rules scope reports infos Audit.normalMetrics)
    ofResult do
      return [("analysis_report_path", .text done.report.toString), ("analysis_json_path", .text done.json.toString)] ++
        (← ending state ("Wrote analysis to " ++ done.report.toString)) ++ [("steps", ← steps)]

/-! ## Search -/

/-- A line on a found document. -/
def bullet (d : Document) : Except Fault String := do
  let file ← d.detail "file_path" (.text "")
  let name ← d.detail "name" (.text "")
  let kind ← d.detail "chunk_type" (.text "")
  let first ← d.detail "start_line" (.int 1)
  let last ← d.detail "end_line" (.int 1)
  return "- " ++ file.str ++ " :: " ++ name.str ++ " [" ++ kind.str ++ "] " ++ first.str ++ "-" ++ last.str

/-- What is kept of a found document. -/
def extract (d : Document) : Except Fault Datum := do
  return .object [("file_path", ← d.detail "file_path" (.text "")), ("name", ← d.detail "name" (.text "")),
    ("chunk_type", ← d.detail "chunk_type" (.text "")),
    ("start_line", .int (← (← d.detail "start_line" (.int 1)).toInt)),
    ("end_line", .int (← (← d.detail "end_line" (.int 1)).toInt))]

/-- How the search that a state asks for is run. -/
def settings : Except Fault Search.Settings := do
  let count ← ((← state.ask "k" .null).orElse (.int 5)).toInt
  let boost ← ((← state.ask "name_match_boost" .null).orElse (.float 0.3)).toFloat
  return { count := .int count, boost := .float boost }

/-- The answer that lists found documents. -/
def answer (docs : List Document) : Except Fault String := do
  if docs.isEmpty then return "No matches."
  return "Top matches:\n" ++ Text.joinWith "\n" (← docs.mapM bullet)

/-- **What a search adds to a state.** -/
def chat : Action Update := do
  let question ← ofResult (state.ask "question" .null)
  let settings ← ofResult (settings state)
  let docs ← Action.search usualStore settings (question.orElse (.text ""))
  ofResult do
    let text ← answer docs
    return [("answer", .text text), ("retrieval_docs", .list (← docs.mapM extract))] ++ (← ending state text) ++
      [("steps", ← extended state "steps" (.text "chat"))]

/-! ## Runs -/

/-- What a step adds to a state. -/
def perform (step : Step) (state : Datum) : Action Update :=
  match step with
  | .analyse => analyse state
  | .chat => chat state
  | .finish => pure []

/-- **The final state of a run**: the guard, and the step that it chooses. -/
def run : Action Datum := do
  let update ← reading fun fs => guard fs state
  let state ← ofResult (updated state update)
  let step ← ofResult (Step.next state)
  ofResult (updated state (← perform step state))

end CodeAudit.Agent
