import CodeAudit.Checkout
import CodeAudit.Command.Audit
import CodeAudit.Tuning

/-!
# The command that tunes rules

## Main definitions

* `Command.tune` — analyses two repositories and changes the rules by what is found.
-/

namespace CodeAudit.Command

open Analysis

/-- What is asked of the first analysis: only the rules' own thresholds count. -/
def strictRequest (rules : Datum) (maxBytes : Datum) : Except Fault Request := do
  let _ ← Audit.weights rules
  let complexity ← rules.ask "complexity" (.dict [])
  return {
    wanted := usualWanted, unwanted := usualUnwanted, rules, maxBytes
    warnAt := ← complexity.ask "warn_at" .null
    p1 := ← complexity.ask "p1_cutoff" .null
    p0 := ← complexity.ask "p0_cutoff" .null }

/-- What is asked of the second analysis. -/
def usualRequest (rules : Datum) (maxBytes : Datum) : Except Fault Request :=
  Audit.request rules
    { root := ⟨"", []⟩, wanted := usualWanted, unwanted := usualUnwanted, maxBytes }

/-- Analyses a repository, which is given by a path or an address, unless none is given. -/
def sample (heading : String) (isSkipped source : Datum) (work : Path) (request : Except Fault Request) :
    Action (Option Analysis) := do
  if isSkipped.truthy || !source.truthy then return none
  Action.rule heading
  let root ← match source with
    | .text s => Checkout.locate s work
    | d => throw (.fault (.notPath d.kind))
  let request ← Action.ofResult request
  return some (← Action.reading fun fs => Analysis.run fs root request)

/-- Changes rules by what was found in samples, and tells the changed rules. Rules that no file holds are
those of the session, and change with it. -/
def adjust (own : Option Datum) (rules : Datum) (samples : List Analysis) : Action Datum := do
  let complexities := samples.flatMap fun a => a.findings.complexity.map (·.value)
  if complexities.isEmpty then Action.print "No complexity data found; keeping defaults"
  let duplicates := samples.foldr (fun a sum => a.findings.duplication.length + sum) 0
  let dependents := samples.flatMap fun a => a.metrics.fanIn.map (·.2)
  let (outcome, rules) := (Tuning.adjust complexities duplicates dependents).run.run rules
  if own.isNone then modify fun s => { s with rules }
  Action.ofResult outcome
  return rules

/-- **Analyses two repositories and changes the rules by what is found.** -/
def tune (args : Arguments) : Action Unit := do
  let work ← pathOf args "tmp_dir"
  Action.files (FileTask.makeFolders work)
  let path ← pathOf args "rules_file"
  let own ← Action.reading fun fs => Rules.ofFile fs (some path)
  let rules := own.getD (← get).rules
  let maxBytes := args.value "max_bytes"
  let first ← sample "[bold]Tuning on Python repo" (args.value "skip_py") (args.value "py_repo") work
    (strictRequest rules maxBytes)
  let second ← sample "[bold]Tuning on JS repo" (args.value "skip_js") (args.value "js_repo") work
    (usualRequest rules maxBytes)
  let rules ← adjust own rules (first.toList ++ second.toList)
  let path ← Action.files (Rules.save rules (some path))
  Action.print ("[green]Wrote tuned rules to " ++ path.toString ++ "[/]")
  let rows ← Action.ofResult (Tuning.rows rules)
  Action.display (.table "Tuned thresholds and weights" ["Key", "Value"] rows)
  Action.print "[blue]Tuning complete. Future analyze runs will use these settings.[/]"

end CodeAudit.Command
