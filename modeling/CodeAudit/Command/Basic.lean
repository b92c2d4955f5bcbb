import CodeAudit.Agent.Basic
import CodeAudit.Command.Line
import CodeAudit.Command.Search
import CodeAudit.Command.Tune
import CodeAudit.Forge

/-!
# Commands

## Main definitions

* `Command.all` — the commands of the program.
* `Command.parse` — the command and the arguments that a line gives.
-/

namespace CodeAudit

/-- A command. -/
structure Command where
  name : String
  parameters : List Parameter
  run : Arguments → Action Unit

namespace Command

/-! ## The agent -/

/-- Runs the agent's analysis. -/
def agentAnalyze (args : Arguments) : Action Unit := do
  let path := args.value "path"
  let state ← Agent.run (.object [("mode", .text "analyze"), ("path", path), ("include", args.value "include"),
    ("exclude", args.value "exclude"), ("max_bytes", args.value "max_bytes"),
    ("messages", .list [Agent.message "human" ("Analyze " ++ path.str)])])
  let told (key : String) : Datum := (state.entry? key).getD .null
  Action.print ("[green]Graph steps:[/] " ++ (told "steps").str)
  Action.print ("[green]Report:[/] " ++ (told "analysis_report_path").str)
  Action.print ("[green]JSON:[/] " ++ (told "analysis_json_path").str)

/-- Runs the agent's search. -/
def agentChat (args : Arguments) : Action Unit := do
  let question := args.value "question"
  let state ← Agent.run (.object [("mode", .text "chat"), ("question", question), ("k", args.value "k"),
    ("name_match_boost", args.value "name_boost"), ("messages", .list [Agent.message "human" question.str])])
  Action.print ("[green]Graph steps:[/] " ++ ((state.entry? "steps").getD .null).str)
  Action.print ("[blue]" ++ ((state.entry? "answer").getD (.text "")).str)

/-! ## Others -/

/-- Leaves a comment on a pull request. -/
def comment (args : Arguments) : Action Unit := do
  let client ← Forge.connect
  let target : Forge.Target := ⟨args.value "owner", args.value "repo", args.value "number"⟩
  let answer ← Forge.comment client target (args.value "body")
  let url ← Action.ofResult (answer.ask "html_url" (.text ""))
  Action.print ("[green]Posted comment:[/] " ++ url.str)

/-- Starts the web service. -/
def serveApi (args : Arguments) : Action Unit :=
  Action.launch (.server "cqia.web.service:app" (args.value "host") (args.value "port"))

/-- Starts the web page. -/
def servePage (_ : Arguments) : Action Unit :=
  Action.launch (.interpreter ["-m", "streamlit", "run", "cqia/web/ui_app.py"])

/-! ## The table of commands -/

/-- Texts as a value. -/
def textsDatum (xs : List String) : Datum :=
  .list (xs.map .text)

/-- The option for wanted files. -/
def wantedOption : Parameter :=
  .option "include" .texts (textsDatum Analysis.usualWanted)

/-- The option for unwanted files. -/
def unwantedOption : Parameter :=
  .option "exclude" .texts
    (textsDatum [".git/**", "**/node_modules/**", "**/__pycache__/**", "**/.venv/**", "**/venv/**"])

/-- The option for the greatest size of a file. -/
def sizeOption (limit : Int) : Parameter :=
  .option "max_bytes" .int (.int limit)

/-- The options of a search. -/
def searchOptions : List Parameter :=
  [.option "k" .int (.int 5), .option "name_boost" .float (.float 0.3)]

/-- The option for the directory of the store. -/
def storeOption : Parameter :=
  .option "persist_dir" .text (.text Action.usualStore.toString)

/-- The option for the file of the rules. -/
def rulesOption : Parameter :=
  .option "rules_file" .text (.text Rules.usualPath.toString)

/-- **The commands of the program.** -/
def all : List Command := [
  ⟨"serve-api", [.option "host" .text (.text "127.0.0.1"), .option "port" .int (.int 8000)], serveApi⟩,
  ⟨"serve-ui", [], servePage⟩,
  ⟨"pr-comment", [.positional "owner", .positional "repo", .positional "number" .int,
    { name := "body", short? := some 'b' }], comment⟩,
  ⟨"chat", [.positional "analyze_path", { name := "question", short? := some 'q' }] ++ searchOptions ++
    [.option "model_name" .text (.text "openai/gpt-oss-120b"), .option "temperature" .float (.float 0),
      wantedOption, unwantedOption, sizeOption 5000000, storeOption], chat⟩,
  ⟨"graph-analyze", [.positional "path", wantedOption, unwantedOption, sizeOption Analysis.usualMaxBytes],
    agentAnalyze⟩,
  ⟨"graph-chat", .positional "question" :: searchOptions, agentChat⟩,
  ⟨"analyze", [.positional "path", wantedOption, .option "exclude" .texts (textsDatum Agent.usualUnwanted),
    sizeOption Analysis.usualMaxBytes, .option "output_dir" .text (.text "reports"), rulesOption,
    .switch "no_findings"], analyze⟩,
  ⟨"index", [.positional "path", wantedOption, unwantedOption, .switch "reset", storeOption,
    .option "embedding_model" .text (.text "sentence-transformers/all-MiniLM-L6-v2")], index⟩,
  ⟨"query", [.positional "query", .option "k" .int (.int 5), storeOption, .option "name_boost" .float (.float 0.3)],
    query⟩,
  ⟨"tune", [.option "py_repo" .text (.text "https://github.com/pallets/flask"),
    .option "js_repo" .text (.text "https://github.com/stacklok/demo-repo-js"),
    .option "tmp_dir" .text (.text ".cqia-tune"), rulesOption, sizeOption Analysis.usualMaxBytes, .switch "skip_py",
    .switch "skip_js"], tune⟩]

/-- The command with a name. -/
def find? (name : String) : Option Command :=
  all.find? (·.name == name)

/-- The words of a line from the name of the command on. -/
def fromName (words : List String) : Except Usage (List String) :=
  match words with
  | "--" :: rest => .ok rest
  | word :: _ => if Line.isOption word then .error .unknownOption else .ok words
  | [] => .ok []

/-- **The command and the arguments that a line gives.** -/
def parse (words : List String) : Except Usage (Command × Arguments) := do
  match ← fromName words with
  | [] => throw .other
  | name :: rest =>
    match find? name with
    | none => throw .other
    | some c => return (c, ← Line.parse c.parameters rest)

end Command

end CodeAudit
