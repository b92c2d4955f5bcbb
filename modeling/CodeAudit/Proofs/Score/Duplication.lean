import CodeAudit.Proofs.Datum
import CodeAudit.Proofs.Detect.Duplication
import CodeAudit.Proofs.Score.Finding

/-!
# Where the scored findings on duplicated functions point

A finding on two functions tells the lines of both, as a pair of pairs. When it is scored, a pair stands for its second
item, so the first line of the score is the last line of the first function, and its last line is the last line of the
second function. The score points at the first function only if that has one line, which is also the last line of the
second one.

## Main definitions

* `ScoredFinding.throughDouble` — a line on its way through a double.
* `Duplication.Spans` — the lines of a function.

## Main results

* `ScoredFinding.exists_ofRaw_last_lines` — a finding is scored at the last lines of its functions.
* `ScoredFinding.duplication_locates_last_lines` — where the entries of a run point, and when that is the
  first function.
-/

namespace CodeAudit

open Datum

/-- A function has a first line and a last one that is not before it. -/
structure Duplication.Spans (fn : FunctionUnit) (first last : ℤ) : Prop where
  firstLine : fn.firstLine = .int first
  lastLine : fn.lastLine = .int last
  pos : 1 ≤ first
  le : first ≤ last

lemma Duplication.Spans.reportedLines_eq {fn : FunctionUnit} {first last : ℤ} (h : Spans fn first last) :
    reportedLines fn = .ok (first, last) := by
  rw [reportedLines, h.firstLine, h.lastLine]
  change Except.ok (if first > 0 then first else 1, if last ≥ first then last else first) = _
  rw [if_pos (by have := h.pos; omega), if_pos h.le]

namespace ScoredFinding

/-! ## Lines -/

/-- The line that a number becomes on its way through a double; what is no line becomes the first one. -/
def throughDouble (n : ℤ) : ℤ :=
  match (Datum.int n).toIntViaFloat with
  | .ok m => max 1 m
  | .error _ => 1

/-- **A line below the fifty-third power of two stays what it is.** -/
lemma throughDouble_eq {n : ℤ} (hpos : 1 ≤ n) (hn : n < 2 ^ 53) : throughDouble n = n := by
  obtain ⟨m, rfl⟩ := Int.eq_ofNat_of_zero_le (show 0 ≤ n by omega)
  have hm : m < 2 ^ 53 := by omega
  have hsmall : (m : ℤ).natAbs ≤ Number.greatest + 1 := by
    have hgreatest : 2 ^ 53 ≤ Number.greatest + 1 := by decide +kernel
    omega
  have hvia : (Datum.int m).toIntViaFloat = .ok (m : ℤ) := by
    change (intToFloat m).bind floatToInt = _
    rw [intToFloat_eq_ok hsmall]
    change floatToInt (Number.ofInt m) = _
    rw [floatToInt, Number.truncate_ofInt hm]
  rw [throughDouble, hvia]
  exact max_eq_right hpos

/-- A pair of lines stands for its second one. -/
lemma exists_toInt_pair (p : ℤ × ℤ) :
    ∃ n, Lenient.toInt (DuplicateFinding.pairDatum p) (.int 1) = .ok n ∧ max 1 n = throughDouble p.2 := by
  change ∃ n, Lenient.instead ((Datum.int p.2).toIntViaFloat) (.ok 1) = .ok n ∧ _
  rw [throughDouble]
  cases (Datum.int p.2).toIntViaFloat with
  | ok m => exact ⟨m, rfl, rfl⟩
  | error e => exact ⟨1, rfl, rfl⟩

/-- A pair of pairs of lines stands for the second line of each. -/
lemma exists_span_pairs (p q : ℤ × ℤ) :
    ∃ first last : ℤ, Lenient.span (.tuple [DuplicateFinding.pairDatum p, DuplicateFinding.pairDatum q]) (.int 1) =
        (.int first, .int last) ∧
      max 1 first = throughDouble p.2 ∧ max 1 last = throughDouble q.2 := by
  obtain ⟨first, hfirst, hfirst'⟩ := exists_toInt_pair p
  obtain ⟨last, hlast, hlast'⟩ := exists_toInt_pair q
  refine ⟨first, last, ?_, hfirst', hlast'⟩
  simp only [Lenient.span, Lenient.sequence?, hfirst, hlast, bind, Except.bind, pure, Except.pure]

/-! ## Files -/

/-- How a file is called: without the blanks around its path, unless there is nothing else. -/
def nameOf (path : String) : String :=
  if (Text.trim path).isEmpty then path else Text.trim path

lemma nameOf_eq_trim_iff {path : String} : nameOf path = Text.trim path ↔ (Text.trim path = "" → path = "") := by
  rw [nameOf]
  split_ifs with hblank
  · rw [String.isEmpty_iff.mp hblank]
    simp
  · have hne : Text.trim path ≠ "" := fun h => hblank (String.isEmpty_iff.mpr h)
    simp [hne]

lemma trimmed_text (path : String) : Lenient.trimmed (.text path) = .ok (Text.trim path) := by
  rw [Lenient.trimmed, orElse]
  split_ifs with htruthy
  · rfl
  · obtain rfl : path = "" := by simpa [Datum.truthy] using htruthy
    rfl

/-! ## Entries -/

/-- **A finding is scored at the last lines of its functions.** -/
lemma exists_ofRaw_last_lines (threshold : Datum) (f : DuplicateFinding) :
    ∃ e : ScoredFinding Float, ofRaw threshold .duplication f.toRecord = .ok e ∧ e.file = nameOf f.files.1 ∧
      e.firstLine = throughDouble f.lines.1.2 ∧ e.lastLine = throughDouble f.lines.2.2 := by
  obtain ⟨first, last, hspan, hfirst, hlast⟩ := exists_span_pairs f.lines.1 f.lines.2
  obtain ⟨j, hjudge, hfallback, fix, hfix⟩ := exists_judge_duplication f hspan
  obtain ⟨e, he, hfile, hfirst', hlast'⟩ := exists_ofRaw_at hjudge hfix rfl rfl rfl (trimmed_text f.files.1)
  refine ⟨e, he, ?_, hfirst'.trans hfirst, hlast'.trans hlast⟩
  rw [hfile, hfallback, nameOf]

/-- The place that an entry of the findings tells. -/
structure Locates (entry : Datum) (file : String) (first last : ℤ) : Prop where
  file : entry.entry? "file" = some (.text file)
  firstLine : entry.entry? "start_line" = some (.int first)
  lastLine : entry.entry? "end_line" = some (.int last)

/-- Both forms of a scored finding tell its place. -/
lemma locates_iff {e : ScoredFinding Float} {entry : Datum} (h : entry ∈ [e.toDatum, e.toExport]) {file : String}
    {first last : ℤ} : Locates entry file first last ↔ e.file = file ∧ e.firstLine = first ∧ e.lastLine = last := by
  have hentries : entry.entry? "file" = some (.text e.file) ∧ entry.entry? "start_line" = some (.int e.firstLine) ∧
      entry.entry? "end_line" = some (.int e.lastLine) := by
    rcases List.mem_pair.mp h with rfl | rfl
    all_goals
      simp only [toDatum, toExport, entry?_object]
      exact ⟨rfl, rfl, rfl⟩
  constructor
  · rintro ⟨hfile, hfirst, hlast⟩
    rw [hentries.1] at hfile
    rw [hentries.2.1] at hfirst
    rw [hentries.2.2] at hlast
    exact ⟨text.inj (Option.some.inj hfile), int.inj (Option.some.inj hfirst),
      int.inj (Option.some.inj hlast)⟩
  · rintro ⟨rfl, rfl, rfl⟩
    exact ⟨hentries.1, hentries.2.1, hentries.2.2⟩

/-- **Where the scored findings on duplicated functions point.** Every finding on two functions is scored, and both
forms of its score tell the file of the first function, the last line of the first function as the first line, and the
last line of the second function as the last line. The score points at the first function exactly if that has one line,
which is also the last line of the second function.

**Proof sketch.** A finding comes from the comparison of two functions and holds their lines. Scoring takes the second
item of each of the two pairs, by way of a double, in which lines below the fifty-third power of two are exact. -/
theorem duplication_locates_last_lines {s : Duplication.Settings} {functions : List FunctionUnit}
    {found : List DuplicateFinding} (hdetect : Duplication.detect s functions = .ok found)
    (hspans : ∀ fn ∈ functions, ∃ first last, Duplication.Spans fn first last) (threshold : Datum) :
    (∃ scored : List (ScoredFinding Float),
      ofAllRaw threshold { duplication := found.map (·.toRecord) } = .ok scored) ∧
    ∀ (raw : RawFindings) (scored : List (ScoredFinding Float)), raw.duplication = found.map (·.toRecord) →
      ofAllRaw threshold raw = .ok scored →
      List.Forall₂ (fun f e => ∃ (a b : Duplication.Printed) (first last first' last' : ℤ),
          [a.1, b.1].Sublist functions ∧ Duplication.compare s a b = .ok (some f) ∧
          Duplication.Spans a.1 first last ∧ Duplication.Spans b.1 first' last' ∧
          ∀ entry ∈ [e.toDatum, e.toExport],
            Locates entry (nameOf a.1.path.toString) (throughDouble last) (throughDouble last') ∧
            (last < 2 ^ 53 → last' < 2 ^ 53 →
              Locates entry (nameOf a.1.path.toString) last last' ∧
              (Locates entry (Text.trim a.1.path.toString) first last ↔
                (Text.trim a.1.path.toString = "" → a.1.path.toString = "") ∧ first = last ∧ last' = last)))
        found (scored.filter (·.category = .duplication)) := by
  constructor
  · refine exists_ofAllRaw fun c record hrecord => ?_
    cases c with
    | duplication =>
      obtain ⟨f, -, rfl⟩ := List.mem_map.mp hrecord
      exact exists_ofRaw_duplication f
    | _ => cases hrecord
  · intro raw scored hraw hscored
    obtain ⟨group, hgroup, rfl⟩ := exists_groups hscored
    have hrow : List.Forall₂ (fun f e => ofRaw threshold .duplication f.toRecord = .ok e) found
        (group .duplication) := by
      have hmap := Outcome.mapM_eq_ok_iff.mp (hgroup .duplication)
      rw [RawFindings.of, hraw, ← List.forall₂_eq_eq_eq] at hmap
      simpa only [List.forall₂_map_left_iff, List.forall₂_map_right_iff] using hmap
    rw [filter_flatMap_group hgroup]
    refine ((List.forall₂_and_left found (group .duplication)).mpr
      ⟨fun f hf => Duplication.exists_compared hdetect hf, hrow⟩).imp ?_
    rintro f e ⟨⟨a, b, hab, hcompare⟩, he⟩
    obtain ⟨first, last, ha⟩ := hspans a.1 (hab.subset List.mem_cons_self)
    obtain ⟨first', last', hb⟩ := hspans b.1 (hab.subset (by simp))
    refine ⟨a, b, first, last, first', last', hab, hcompare, ha, hb, fun entry hentry => ?_⟩
    obtain ⟨lines, lines', hlines, hlines', -, -, -, rfl⟩ := Duplication.eq_of_compare hcompare
    obtain rfl := Except.ok.inj (ha.reportedLines_eq.symm.trans hlines)
    obtain rfl := Except.ok.inj (hb.reportedLines_eq.symm.trans hlines')
    obtain ⟨e', he', hfile, hfirst, hlast⟩ := exists_ofRaw_last_lines threshold _
    obtain rfl := Except.ok.inj (he.symm.trans he')
    have hlocates := (locates_iff hentry).mpr ⟨hfile, hfirst, hlast⟩
    refine ⟨hlocates, fun hsmall hsmall' => ?_⟩
    have hline := throughDouble_eq (ha.pos.trans ha.le) hsmall
    have hline' := throughDouble_eq (hb.pos.trans hb.le) hsmall'
    simp only [hline, hline'] at hlocates hfirst hlast
    refine ⟨hlocates, ?_⟩
    rw [locates_iff hentry, hfile, hfirst, hlast, nameOf_eq_trim_iff, eq_comm (a := last)]

/-- A function of three lines, and a copy of it that ends before the function begins. -/
def shiftedCopies : List FunctionUnit :=
  let source := "x = a1 + b*(c - 10);"
  [{ Duplication.oneLiner "a.py" source with firstLine := .int 3, lastLine := .int 5 },
    { Duplication.oneLiner "b.py" source with firstLine := .int 1, lastLine := .int 2 }]

/-- The score of the copies goes from line five to line two, and does not point at the function in lines three to
five. -/
theorem duplication_locates_shiftedCopies : ∃ (found : List DuplicateFinding) (scored : List (ScoredFinding Float)),
    Duplication.detect {} shiftedCopies = .ok found ∧
      ofAllRaw .null { duplication := found.map (·.toRecord) } = .ok scored ∧
      ∃ e, scored.filter (·.category = .duplication) = [e] ∧ ∀ entry ∈ [e.toDatum, e.toExport],
        Locates entry "a.py" 5 2 ∧ ¬ Locates entry "a.py" 3 5 := by
  have hcount : (Duplication.detect {} shiftedCopies).toOption.map List.length = some 1 := by decide +kernel
  have hname : nameOf "a.py" = "a.py" ∧ Text.trim "a.py" = "a.py" := by decide +kernel
  have hpath : (Path.ofString "a.py").toString = "a.py" := by decide +kernel
  have hspans : ∀ fn ∈ shiftedCopies, ∃ first last, Duplication.Spans fn first last := by
    intro fn hfn
    rcases List.mem_pair.mp hfn with rfl | rfl
    · exact ⟨3, 5, rfl, rfl, by decide, by decide⟩
    · exact ⟨1, 2, rfl, rfl, by decide, by decide⟩
  obtain ⟨found, hfound, hone⟩ := Option.map_eq_some_iff.mp hcount
  have hdetect := Outcome.eq_ok_of_toOption hfound
  obtain ⟨⟨scored, hscored⟩, hlocates⟩ := duplication_locates_last_lines hdetect hspans .null
  have hentries := hlocates _ scored rfl hscored
  obtain ⟨f, rfl⟩ := List.length_eq_one_iff.mp hone
  obtain ⟨e, rest, ⟨a, b, first, last, first', last', hab, -, ha, hb, he⟩, hrest, hgroup⟩ :=
    List.forall₂_cons_left_iff.mp hentries
  obtain rfl := List.forall₂_nil_left_iff.mp hrest
  -- the two functions are the two copies
  obtain ⟨hfirst, hsecond⟩ := List.cons_eq_cons.mp (hab.eq_of_length rfl)
  rw [hfirst] at ha he
  rw [(List.cons_eq_cons.mp hsecond).1] at hb
  obtain rfl := Datum.int.inj ha.firstLine
  obtain rfl := Datum.int.inj ha.lastLine
  obtain rfl := Datum.int.inj hb.lastLine
  refine ⟨[f], scored, hdetect, hscored, e, hgroup, fun entry hentry => ?_⟩
  obtain ⟨-, hsmall⟩ := he entry hentry
  obtain ⟨hplace, hpoints⟩ := hsmall (by decide) (by decide)
  change Locates entry (nameOf (Path.ofString "a.py").toString) 5 2 at hplace
  change Locates entry (Text.trim (Path.ofString "a.py").toString) 3 5 ↔ _ at hpoints
  rw [hpath, hname.1] at hplace
  rw [hpath, hname.2] at hpoints
  exact ⟨hplace, fun h => absurd (hpoints.mp h).2.1 (by decide)⟩

end ScoredFinding

end CodeAudit
