import CodeAudit.Analysis.Basic

/-!
# Summary of an analysis

## Main definitions

* `Analysis.summary`, `Analysis.byLanguage` — counts.
* `Analysis.rawEntries` — the raw findings by category.
-/

namespace CodeAudit.Analysis

variable (a : Analysis)

/-- The number of different files of an analysis. -/
def filesAnalyzed : Nat :=
  (a.modules.map (·.path)).eraseDups.length

/-- How many files, functions and findings an analysis has. -/
def summary : Datum :=
  let count (n : Nat) : Datum := .int n
  .object
    [("files_analyzed", count a.filesAnalyzed),
      ("functions_analyzed", count (a.modules.flatMap (·.functions)).length),
      ("complexity_findings", count a.findings.complexity.length),
      ("documentation_findings", count a.findings.documentation.length),
      ("security_findings", count a.findings.security.length),
      ("test_gap_findings", count a.findings.testing.length),
      ("duplication_findings", count a.findings.duplication.length),
      ("performance_findings", count a.findings.performance.length)]

/-- How many modules of each language an analysis has. -/
def byLanguage : Datum :=
  .object ([Language.python, .javascript, .typescript].map fun lang =>
    (lang.tag, .int (a.modules.countP (·.lang == lang))))

/-- The scored findings as values. -/
def scoredDatum : Datum :=
  .list (a.scored.map (·.toDatum))

/-- The scored findings as they are exported. -/
def exported : Datum :=
  .list (a.scored.map (·.toExport))

/-- The hotspots as values. -/
def hotspotsDatum : Datum :=
  .list (a.hotspots.map (·.toDatum))

/-- The raw findings by category. -/
def rawEntries : List (String × List Datum) :=
  let raw := a.findings.raw
  [("complexity", raw.complexity), ("documentation", raw.documentation), ("security", raw.security),
    ("testing", raw.testing), ("duplication", raw.duplication), ("performance", raw.performance)]

/-- The raw findings as a value. -/
def rawDatum : Datum :=
  .object (a.rawEntries.map fun (name, xs) => (name, .list xs))

/-- The thresholds as a value. -/
def thresholdsDatum : Datum :=
  .object [("warn_at", a.thresholds.warnAt), ("p1_cutoff", a.thresholds.p1), ("p0_cutoff", a.thresholds.p0),
    ("max_bytes", a.thresholds.maxBytes)]

end CodeAudit.Analysis
