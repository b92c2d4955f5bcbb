import CodeAudit.Glob.Ignore
import CodeAudit.Proofs.Files.Path
import CodeAudit.Proofs.Text.Pattern

/-!
# What ignore rules match

Rules are looked at in order and the last one that matches decides, so rules that do not match a path can be left out. A
rule for everything in a directory matches a path only if the directory is on the way to it.

## Main definitions

* `Ignore.topFolderRule`, `Ignore.folderRule` — the rules for everything in a directory at the top
  and at any depth.

## Main results

* `Ignore.ignores_append` — rules that do not match can be left out.
* `Ignore.ruleOf?_top_folder`, `Ignore.ruleOf?_folder` — how rules for folders are written.
-/

namespace CodeAudit.Ignore

open CodeAudit.Text List

/-! ## Lists of rules -/

/-- Rules that do not match a path can be left out. -/
lemma ignores_append (rules : List Rule) {more : List Rule} {path : String}
    (h : ∀ rule ∈ more, ¬ (rule.pattern.match? (Cursor.ofText (relative path))).isSome) :
    ignores (rules ++ more) path = ignores rules path := by
  rw [ignores, ignores, foldl_append]
  generalize rules.foldl _ false = ignored
  induction more with
  | nil => rfl
  | cons rule more ih =>
    rw [foldl_cons, if_neg (h rule mem_cons_self)]
    exact ih fun r hr => h r (mem_cons_of_mem _ hr)

/-- The rules of a well-formed line come first. -/
lemma parse?_cons {line : String} {first : List Rule} (h : ruleOf? line = some first) (lines : List String) :
    parse? (line :: lines) = (parse? lines).map (first ++ ·) := by
  rw [parse?, parse?, mapM_cons, h]
  cases lines.mapM ruleOf? with
  | none => rfl
  | some rest => simp [pure]

/-- Lines that are each a rule give these rules. -/
lemma parse?_map {α : Type} {line : α → String} {rule : α → Rule} {xs : List α}
    (h : ∀ x ∈ xs, ruleOf? (line x) = some [rule x]) : parse? (xs.map line) = some (xs.map rule) := by
  induction xs with
  | nil => rfl
  | cons x xs ih =>
    rw [map_cons, parse?_cons (h x mem_cons_self), ih fun y hy => h y (mem_cons_of_mem _ hy)]
    rfl

/-- The rules of lines to which well-formed ones are added. -/
lemma parse?_append (lines : List String) {more : List String} {added : List Rule} (h : parse? more = some added) :
    parse? (lines ++ more) = (parse? lines).map (· ++ added) := by
  rw [parse?, Option.map_eq_some_iff] at h
  obtain ⟨rows, hrows, rfl⟩ := h
  rw [parse?, parse?, mapM_append, hrows]
  cases lines.mapM ruleOf? with
  | none => rfl
  | some first => simp [pure]

/-! ## Rules for directories -/

/-- A character that stands for itself. -/
def Literal (c : Char) : Prop :=
  c ≠ '\\' ∧ c ≠ '*' ∧ c ≠ '?' ∧ c ≠ '['

/-- The pattern of a fixed text. -/
def literal (cs : List Char) : Pattern :=
  cs.foldr (fun c p => .seq (.char c) p) .empty

/-- The rule for everything in a directory at the top. -/
def topFolderRule (name : String) : Rule :=
  ⟨true, .seq (.seq (literal name.toList) (.seq (.char '/') (.many inLine))) .textEnd⟩

/-- The rule for everything in a directory at any depth. -/
def folderRule (name : String) : Rule :=
  ⟨true, .seq (.seq (.optional (.seq (.some1 inLine) (.char '/')))
    (.seq (literal name.toList) (.seq (.char '/') (.many inLine)))) .textEnd⟩

/-- Characters that stand for themselves make a fixed text. -/
lemma segment?_literal {cs : List Char} (h : ∀ c ∈ cs, Literal c) : segment? 0 cs = some (literal cs) := by
  induction cs with
  | nil => rfl
  | cons c cs ih =>
    obtain ⟨hslash, hstar, hany, hclass⟩ := h c mem_cons_self
    rw [segment?.eq_def]
    simp [ih fun d hd => h d (mem_cons_of_mem _ hd), hslash, hstar, hany, hclass, literal]

@[simp] lemma matches_literal_iff {cs s : List Char} : (literal cs).Matches s ↔ s = cs := by
  induction cs generalizing s with
  | nil => exact Pattern.matches_empty_iff
  | cons c cs ih =>
    change (Pattern.seq (.char c) (literal cs)).Matches s ↔ _
    simp [ih]

/-- The pattern of a line by its segments. -/
lemma rulePattern?_eq {s : List Char} {segments : List (List Char)} (h : (pieces '/' s) = segments)
    (hcollapse : collapse segments = segments) (hne : segments ≠ [['*', '*'], []]) :
    rulePattern? s = (pathPattern? (normalSegments segments)).map (.seq · .textEnd) := by
  rw [rulePattern?, h, hcollapse, if_neg (by simpa using hne)]

section Lines

variable {name : String} (hname : ∀ c ∈ name.toList, Literal c)

include hname

/-- The pattern of everything in a directory. -/
lemma tailPattern?_folder : tailPattern? false [name.toList, ['*', '*']] =
    some (.seq (literal name.toList) (.seq (.char '/') (.many inLine))) := by
  have hstars : name.toList ≠ ['*', '*'] := fun heq => (hname '*' (by simp [heq])).2.1 rfl
  have hstar : name.toList ≠ ['*'] := fun heq => (hname '*' (by simp [heq])).2.1 rfl
  simp [tailPattern?, tailPattern?.single?, tailPattern?.slashed, hstars, hstar, segment?_literal hname]

variable (hslash : '/' ∉ name.toList)

include hslash

/-- **The line for everything in a directory at any depth.** -/
lemma ruleOf?_folder (hstrip : stripLine ("**/" ++ name ++ "/**") = "**/" ++ name ++ "/**") :
    ruleOf? ("**/" ++ name ++ "/**") = some [folderRule name] := by
  have hchars : ("**/" ++ name ++ "/**").toList = ['*', '*'] ++ '/' :: (name.toList ++ '/' :: ['*', '*']) := by simp
  have hpieces : pieces '/' (['*', '*'] ++ '/' :: (name.toList ++ '/' :: ['*', '*'])) =
      [['*', '*'], name.toList, ['*', '*']] := by
    rw [pieces_eq_splitOn, splitOn_append_cons_self, splitOn_append_cons_self, splitOn_eq_singleton hslash,
      splitOn_eq_singleton (by simp)]
    rfl
  have hstars : name.toList ≠ ['*', '*'] := fun heq => (hname '*' (by simp [heq])).2.1 rfl
  have hpattern := rulePattern?_eq hpieces (by simp [collapse, hstars]) (by simp)
  rw [ruleOf?, hstrip, hchars]
  change (rulePattern? (['*', '*'] ++ '/' :: (name.toList ++ '/' :: ['*', '*']))).map _ = _
  rw [hpattern]
  simp [normalSegments, pathPattern?, tailPattern?_folder hname, folderRule]

/-- **The line for everything in a directory at the top.** -/
lemma ruleOf?_top_folder (hstrip : stripLine (name ++ "/**") = name ++ "/**")
    (hfirst : ∀ c, name.toList.head? = some c → c ≠ '#' ∧ c ≠ '!') (hne : name ≠ "") :
    ruleOf? (name ++ "/**") = some [topFolderRule name] := by
  have hchars : (name ++ "/**").toList = name.toList ++ '/' :: ['*', '*'] := by simp
  have hpieces : pieces '/' (name.toList ++ '/' :: ['*', '*']) = [name.toList, ['*', '*']] := by
    rw [pieces_eq_splitOn, splitOn_append_cons_self, splitOn_eq_singleton hslash,
      splitOn_eq_singleton (by simp)]
    rfl
  have hstars : name.toList ≠ ['*', '*'] := fun heq => (hname '*' (by simp [heq])).2.1 rfl
  have hpattern := rulePattern?_eq hpieces (by simp [collapse, hstars]) (by simp)
  rw [ruleOf?, hstrip, hchars]
  obtain ⟨c, cs, hcs⟩ : ∃ c cs, name.toList = c :: cs := exists_cons_of_ne_nil (by simpa using hne)
  have hcomment := hfirst c (by simp [hcs])
  -- the line is no comment and takes nothing back
  split
  · rename_i heq
    simp at heq
  · rename_i heq
    rw [hcs, cons_append] at heq
    exact absurd (cons.inj heq).1 hcomment.1
  · rename_i heq
    simpa using congrArg List.length heq
  · rename_i heq
    rw [hcs, cons_append] at heq
    exact absurd (cons.inj heq).1 hcomment.2
  · have hnormal : normalSegments [name.toList, ['*', '*']] = [name.toList, ['*', '*']] := by simp [normalSegments, hcs]
    have hpath : pathPattern? [name.toList, ['*', '*']] = tailPattern? false [name.toList, ['*', '*']] := by
      rw [pathPattern?] <;> simp [hstars]
    rw [hpattern, hnormal, hpath, tailPattern?_folder hname]
    rfl

end Lines

/-! ## What these rules match -/

/-- The text of a path with proper names is seen as it is. -/
lemma relative_toString {names : List String} (hne : names ≠ []) (h : ∀ name ∈ names, Path.IsName name) :
    relative (Path.toString ⟨"", names⟩) = (Path.toString ⟨"", names⟩).toList := by
  have hcut : ∀ (front : List Char) {back : List Char}, (Path.toString ⟨"", names⟩).toList = front ++ '/' :: back →
      names.map String.toList = front.splitOn '/' ++ back.splitOn '/' :=
    fun _ _ => Path.map_toList_eq hne fun name hname => (h name hname).no_slash
  -- no name is empty or a point
  have hproper : [] ∉ names.map String.toList ∧ ['.'] ∉ names.map String.toList := by
    constructor
    · intro hmem
      obtain ⟨name, hname, heq⟩ := mem_map.mp hmem
      exact (h name hname).ne_empty (by simpa using heq)
    · intro hmem
      obtain ⟨name, hname, heq⟩ := mem_map.mp hmem
      exact (h name hname).ne_point (String.toList_inj.mp (by simpa using heq))
  unfold relative
  split
  · rename_i rest htext
    refine absurd ?_ hproper.1
    rw [hcut [] htext]
    simp
  · rename_i rest htext
    refine absurd ?_ hproper.2
    rw [hcut ['.'] htext]
    simp [splitOn_eq_singleton]
  · rfl

/-- What the rule for a directory at any depth matches starts with the directory, or the directory stands behind a slash. -/
lemma between_of_folderRule {name path : String}
    (h : ((folderRule name).pattern.match? (Cursor.ofText (relative path))).isSome) :
    ∃ front back, relative path = front ++ (name.toList ++ '/' :: back) ∧ (front = [] ∨ ∃ above, front = above ++ ['/']) := by
  obtain ⟨s, rest, hs, htext⟩ := Pattern.exists_of_match? h
  simp only [folderRule, Pattern.matches_seq_iff, Pattern.matches_optional_iff, Pattern.matches_char_iff,
    Pattern.matches_textEnd_iff, matches_literal_iff] at hs
  obtain ⟨s, _, rfl, ⟨front, _, rfl, hfront, _, _, rfl, rfl, _, below, rfl, rfl, -⟩, rfl⟩ := hs
  refine ⟨front, below ++ rest, by simpa using htext, ?_⟩
  rcases hfront with ⟨above, _, rfl, -, rfl⟩ | rfl
  · exact .inr ⟨above, rfl⟩
  · exact .inl rfl

/-- What the rule for a directory at the top matches starts with the directory. -/
lemma starts_of_topFolderRule {name path : String}
    (h : ((topFolderRule name).pattern.match? (Cursor.ofText (relative path))).isSome) :
    ∃ back, relative path = name.toList ++ '/' :: back := by
  obtain ⟨s, rest, hs, htext⟩ := Pattern.exists_of_match? h
  simp only [topFolderRule, Pattern.matches_seq_iff, Pattern.matches_char_iff, Pattern.matches_textEnd_iff,
    matches_literal_iff] at hs
  obtain ⟨_, _, rfl, ⟨_, _, rfl, rfl, _, below, rfl, rfl, -⟩, rfl⟩ := hs
  exact ⟨below ++ rest, by simpa using htext⟩

end CodeAudit.Ignore
