import CodeAudit.Index.Chunk

/-!
# Questions about a repository

## Main definitions

* `Question.context` — retrieved documents as a text.
* `Question.prompt` — the text that asks a question about retrieved documents.
-/

namespace CodeAudit.Question

/-- The heading and text of a document with a number. -/
def snippet (d : Document) (number : Nat) : Except Fault String := do
  let path ← d.detail "file_path" (.text "")
  let name ← d.detail "name" (.text "")
  let kind ← d.detail "chunk_type" (.text "")
  let first ← (← d.detail "start_line" (.int 1)).toInt
  let last ← (← d.detail "end_line" (.int first)).toInt
  return "#" ++ Number.decimalInt number ++ " " ++ path.str ++ " :: " ++ name.str ++ " [" ++ kind.str ++ "] " ++
    Number.decimalInt first ++ "-" ++ Number.decimalInt last ++ "\n" ++ d.content

/-- **Retrieved documents as a text.** -/
def context (docs : List Document) : Except Fault String := do
  let snippets ← docs.zipIdx.mapM fun (d, i) => snippet d (i + 1)
  return String.intercalate "\n\n" snippets

/-- The rules for an answer. -/
def systemText : String :=
  "You are a senior code-review assistant answering developer questions about a specific repository.\n" ++
  "Follow these rules:\n" ++
  "- Only use the provided retrieved snippets and findings context (report.md/JSON) as ground truth.\n" ++
  "- Be concise and precise, show minimal but sufficient code.\n" ++
  "- Always add citations inline using the format [file:line_start-line_end] for each code claim, mapping to " ++
  "the provided retrieval metadata.\n" ++
  "- If the question matches function or file names, prefer those chunks.\n" ++
  "- If relevant, add one-sentence detector rationale (e.g., complexity, duplication, security) drawn from " ++
  "analysis outputs when provided.\n" ++
  "- If insufficient evidence, say more context is needed, and suggest the closest files/functions retrieved."

/-- The question with everything that is known about it. -/
def userText (question context findings rationale : String) : String :=
  "Question:\n" ++ question ++ "\n\nRetrieved code snippets:\n" ++ context ++
  "\n\nFindings context (from report.md / report.json):\n" ++ findings ++
  "\n\nOptional detector rationale:\n" ++ rationale ++
  "\n\nInstructions:\n" ++
  "- Answer the question based on the code + findings context.\n" ++
  "- For each factual code claim, include citations like [path:line_start-line_end].\n" ++
  "- If asked \"how X is implemented\", show the function signature and the most relevant code lines, then " ++
  "explain briefly with citations.\n" ++
  "- If multiple implementations exist, list the best 1–3 with their files and lines, and reference any " ++
  "relevant findings context if it clarifies design/risks."

/-- A text, or a default if it is empty. -/
def orDefault (s default : String) : String :=
  if s.isEmpty then default else s

/-- **The text that asks a question about retrieved documents.** -/
def prompt (question : String) (docs : List Document) (rationale findings : String) : Except Fault String := do
  let found ← context docs
  return "[system]\n" ++ systemText ++ "\n[user]\n" ++
    userText question found (orDefault findings "No findings context provided.")
      (orDefault rationale "None provided")

end CodeAudit.Question
