import CodeAudit.Json.Reader
import CodeAudit.Session.Basic

/-!
# Comments on pull requests

## Main definitions

* `Forge.connect` — the account that a token opens.
* `Forge.comment`, `Forge.reviewComment` — a comment on a pull request, and one on a line of it.
-/

namespace CodeAudit.Forge

/-- An account at a host of repositories. -/
structure Client where
  base : String
  token : String

/-- The usual host. -/
def usualBase : String :=
  "https://api.github.com"

/-- **The account that a token opens.** A missing token is looked for in the environment. -/
def connect (token : Datum := .null) (base : String := usualBase) : Action Client := do
  let base := String.ofList (Text.dropEndWhile (· == '/') base.toList)
  let named (name : String) : Action Datum := do
    return ((← Action.setting? name).map Datum.text).getD .null
  let token := token.orElse ((← named "GITHUB_TOKEN").orElse (← named "GH_TOKEN"))
  if token.truthy then return { base, token := token.str } else throw (.fault .missingToken)

/-- The headers of every request. -/
def Client.headers (c : Client) : List (String × String) :=
  [("Accept", "application/vnd.github+json"), ("Authorization", "Bearer " ++ c.token),
    ("X-GitHub-Api-Version", "2022-11-28")]

/-- Whether a status tells of a refusal. -/
def isRefusal (status : Int) : Bool :=
  400 ≤ status && status < 600

/-- The value in the body of an answer. -/
def bodyOf (reply : Reply) : Except Fault Datum :=
  match Json.read? reply.body with
  | some d => .ok d
  | none => .error .malformedJson

/-- A pull request: the owner of a repository, the repository, and a number. -/
structure Target where
  owner : Datum
  repository : Datum
  number : Datum

/-- The address at which comments of a kind are left. -/
def Target.url (t : Target) (c : Client) (kind : String) : String :=
  c.base ++ "/repos/" ++ t.owner.str ++ "/" ++ t.repository.str ++ "/" ++ kind ++ "/" ++ t.number.str ++ "/comments"

/-- Leaves something at an address and tells the value in the answer. -/
def send (c : Client) (url : String) (body : Datum) : Action Datum := do
  let reply ← Action.post { url, headers := c.headers, body, timeout := 60 }
  if isRefusal reply.status then throw (.fault .refusedRequest)
  Action.ofResult (bodyOf reply)

/-- **Leaves a comment on a pull request.** -/
def comment (c : Client) (t : Target) (text : Datum) : Action Datum :=
  send c (t.url c "issues") (.object [("body", text)])

/-- **Leaves a comment on a line of a pull request.** -/
def reviewComment (c : Client) (t : Target) (text commit path line : Datum) (side : Datum := .text "RIGHT") :
    Action Datum := do
  let line ← Action.ofResult line.toInt
  send c (t.url c "pulls")
    (.object [("body", text), ("commit_id", commit), ("path", path), ("line", .int line), ("side", side)])

end CodeAudit.Forge
