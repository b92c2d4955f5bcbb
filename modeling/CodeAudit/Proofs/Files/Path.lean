import CodeAudit.Files.Tree
import CodeAudit.Proofs.Sequence

/-!
# Paths and their names

## Main definitions

* `Path.IsName` — a name that an entry of a directory can have.

## Main results

* `Path.child_of_isName`, `Path.child_point` — what a name adds to a path.
* `Path.ofString_toString` — the text of a path is read as that path.
-/

namespace CodeAudit

open List

/-- The parts of a text are what the library's splitting gives. -/
lemma Text.pieces_eq_splitOn (mark : Char) (cs : List Char) : Text.pieces mark cs = cs.splitOn mark := by
  induction cs with
  | nil => simp [Text.pieces]
  | cons c cs ih =>
    rw [Text.pieces, ih, List.splitOn, List.splitOn, splitOnP_cons_eq_if_modifyHead]
    split_ifs with hc
    · rfl
    · cases hrest : splitOnP (· == mark) cs with
      | nil => exact absurd hrest (splitOnP_ne_nil _ _)
      | cons piece more => rfl

/-- Texts without the mark are the parts of what they make with marks between them. -/
lemma Text.splitOn_intercalate {mark : Char} {separator : String} (hmark : separator.toList = [mark])
    (names : List String)
    (hne : names ≠ []) (h : ∀ name ∈ names, mark ∉ name.toList) :
    Text.splitOn mark (String.intercalate separator names) = names := by
  have hparts : List.splitOn mark ([mark].intercalate (names.map String.toList)) = names.map String.toList := by
    refine List.splitOn_intercalate mark (fun l hl => ?_) (by simpa using hne)
    obtain ⟨name, hname, rfl⟩ := mem_map.mp hl
    exact h name hname
  rw [Text.splitOn, Text.pieces_eq_splitOn, String.toList_intercalate, hmark, hparts, map_map]
  simp [Function.comp_def]

/-- The mark is in none of the parts. -/
lemma Text.mark_not_mem_of_mem_pieces {mark : Char} {cs piece : List Char} (h : piece ∈ Text.pieces mark cs) :
    mark ∉ piece := by
  rw [Text.pieces_eq_splitOn] at h
  intro hmark
  simpa using Sequence.eq_false_of_mem_splitOnP h hmark

namespace Path

variable {names : List String} {front back : List Char}

/-- A name that an entry of a directory can have: it has a character, is neither a single nor a double point,
and has no slash. -/
structure IsName (name : String) : Prop where
  ne_empty : name ≠ ""
  ne_point : name ≠ "."
  ne_points : name ≠ ".."
  no_slash : '/' ∉ name.toList

instance : DecidablePred IsName := fun name =>
  decidable_of_iff (name ≠ "" ∧ name ≠ "." ∧ name ≠ ".." ∧ '/' ∉ name.toList)
    ⟨fun h => ⟨h.1, h.2.1, h.2.2.1, h.2.2.2⟩, fun h => ⟨h.ne_empty, h.ne_point, h.ne_points, h.no_slash⟩⟩

lemma toList_slash : "/".toList = ['/'] := by decide

/-- A text that does not start with a slash has no root. -/
lemma rootOf_eq_empty {cs : List Char} (h : cs.head? ≠ some '/') : rootOf cs = "" := by
  unfold rootOf
  split <;> simp_all

/-- A text without a slash is a single name, unless it is empty or a point. -/
lemma ofString_of_no_slash {s : String} (h : '/' ∉ s.toList) :
    ofString s = ⟨"", [s].filter fun name => !name.isEmpty && name != "."⟩ := by
  have hhead : s.toList.head? ≠ some '/' := fun hhead => h (mem_of_head? hhead)
  have hsplit := Text.splitOn_intercalate toList_slash [s] (by simp) (by simpa using h)
  rw [String.intercalate_singleton] at hsplit
  rw [ofString, rootOf_eq_empty hhead, hsplit]

/-- **The names of a path that is read** are not empty, no single points and without slashes. -/
lemma of_mem_names_ofString {s name : String} (h : name ∈ (ofString s).names) :
    name ≠ "" ∧ name ≠ "." ∧ '/' ∉ name.toList := by
  obtain ⟨hmem, hproper⟩ := mem_filter.mp h
  obtain ⟨piece, hpiece, rfl⟩ := mem_map.mp hmem
  refine ⟨?_, ?_, by simpa using Text.mark_not_mem_of_mem_pieces hpiece⟩
  · rintro heq
    simp [heq] at hproper
  · rintro heq
    simp [heq] at hproper

/-- A name other than a point, put below a directory, is one more name. -/
lemma child_eq_extend {name : String} (dir : Path) (hempty : name ≠ "") (hpoint : name ≠ ".")
    (hslash : '/' ∉ name.toList) : dir.child name = Files.extend dir name := by
  rw [child, ofString_of_no_slash hslash]
  simp [join, isAbsolute, Files.extend, hempty, hpoint]

/-- A point, put below a directory, is the directory itself. -/
@[simp] lemma child_point (dir : Path) : dir.child "." = dir := by
  rw [child, ofString_of_no_slash (by decide)]
  simp [join, isAbsolute]

@[simp] lemma child_points (dir : Path) : dir.child ".." = Files.extend dir ".." :=
  child_eq_extend dir (by decide) (by decide) (by decide)

lemma child_of_isName {name : String} (dir : Path) (h : IsName name) :
    dir.child name = Files.extend dir name :=
  child_eq_extend dir h.ne_empty h.ne_point h.no_slash

/-- Proper names with slashes between them do not start with a slash. -/
lemma head?_intercalate_ne (h : ∀ name ∈ names, IsName name) :
    (String.intercalate "/" names).toList.head? ≠ some '/' := by
  cases names with
  | nil => simp
  | cons name rest =>
    obtain ⟨tail, htail⟩ : ∃ tail, (String.intercalate "/" (name :: rest)).toList = name.toList ++ tail := by
      cases rest with
      | nil => exact ⟨[], by simp⟩
      | cons next rest => exact ⟨_, by rw [String.intercalate_cons_cons, String.append_assoc, String.toList_append]⟩
    have hname := h name mem_cons_self
    have hne : name.toList ≠ [] := by simpa using hname.ne_empty
    rw [htail, head?_append_of_ne_nil _ hne]
    exact fun hslash => hname.no_slash (mem_of_head? hslash)

/-- Proper names are kept when a path is read. -/
lemma filter_names (h : ∀ name ∈ names, IsName name) :
    names.filter (fun name => !name.isEmpty && name != ".") = names :=
  filter_eq_self.mpr fun name hname => by simp [(h name hname).ne_empty, (h name hname).ne_point]

/-- The text of a path with proper names is read as that path. -/
lemma ofString_toString (h : ∀ name ∈ names, IsName name) : ofString (toString ⟨"", names⟩) = ⟨"", names⟩ := by
  cases names with
  | nil =>
    rw [show toString ⟨"", []⟩ = "." from rfl, ofString_of_no_slash (by decide)]
    simp
  | cons name rest =>
    have htext : toString ⟨"", name :: rest⟩ = String.intercalate "/" (name :: rest) := by simp [toString]
    have hsplit := Text.splitOn_intercalate toList_slash (name :: rest) (by simp) fun n hn => (h n hn).no_slash
    rw [htext, ofString, rootOf_eq_empty (head?_intercalate_ne h), hsplit, filter_names h]

/-- The text of a place with proper names is read as the path of that place. -/
lemma ofString_toString_pathOf {place : Place} (h : ∀ name ∈ place, IsName name) :
    ofString (toString (Files.pathOf place)) = Files.pathOf place := by
  cases place with
  | nil => rfl
  | cons name rest =>
    have htext : (toString (Files.pathOf (name :: rest))).toList =
        '/' :: (String.intercalate "/" (name :: rest)).toList := by
      simp [toString, Files.pathOf]
    have hroot : rootOf ('/' :: (String.intercalate "/" (name :: rest)).toList) = "/" := by
      have hhead := head?_intercalate_ne h
      unfold rootOf
      split <;> simp_all
    have hsplit := Text.splitOn_intercalate toList_slash (name :: rest) (by simp) fun n hn => (h n hn).no_slash
    have hpieces : Text.splitOn '/' (toString (Files.pathOf (name :: rest))) = "" :: (name :: rest) := by
      rw [Text.splitOn, htext, Text.pieces, if_pos (by rfl), map_cons]
      exact congrArg ("" :: ·) hsplit
    rw [ofString, htext, hroot, hpieces, filter_cons_of_neg (by simp), filter_names h, Files.pathOf]

/-- Relative paths with proper names are different texts. -/
lemma toString_injective {names' : List String} (h : ∀ name ∈ names, IsName name) (h' : ∀ name ∈ names', IsName name)
    (heq : toString ⟨"", names⟩ = toString ⟨"", names'⟩) : names = names' := by
  have := congrArg ofString heq
  rw [ofString_toString h, ofString_toString h'] at this
  simpa using this

/-! ## The text of a path -/

@[simp] lemma toString_singleton (name : String) : toString ⟨"", [name]⟩ = name := by
  simp [toString]

lemma toString_of_ne_nil (hne : names ≠ []) : toString ⟨"", names⟩ = String.intercalate "/" names := by
  simp [toString, hne]

/-- The text of a path with one more name. -/
lemma toList_toString_concat (hne : names ≠ []) (name : String) :
    (toString ⟨"", names ++ [name]⟩).toList = (toString ⟨"", names⟩).toList ++ '/' :: name.toList := by
  rw [toString_of_ne_nil hne, toString_of_ne_nil (by simp)]
  induction names with
  | nil => exact absurd rfl hne
  | cons first names ih =>
    cases names with
    | nil => simp
    | cons second names =>
      have ih := ih (by simp)
      rw [cons_append] at ih ⊢
      rw [cons_append, String.intercalate_cons_cons, String.intercalate_cons_cons, String.toList_append, ih]
      simp

/-- In the text of a path a slash stands somewhere before an ending exactly if the path has a directory and its last
name has the ending. -/
lemma slash_before_ending_iff (hne : names ≠ []) (h : ∀ name ∈ names, '/' ∉ name.toList)
    {ending : List Char} (hending : '/' ∉ ending) :
    (∃ front back, (toString ⟨"", names⟩).toList = front ++ '/' :: (back ++ ending)) ↔
      2 ≤ names.length ∧ ending <:+ (name ⟨"", names⟩).toList := by
  obtain rfl | ⟨dirs, last, rfl⟩ := eq_nil_or_concat' names
  · exact absurd rfl hne
  have hname : name ⟨"", dirs ++ [last]⟩ = last := by simp [name]
  rw [hname]
  by_cases hdirs : dirs = []
  · -- there is no slash at all
    subst hdirs
    refine ⟨?_, fun hlen => by simp at hlen⟩
    rintro ⟨front, back, htext⟩
    rw [nil_append, toString_singleton] at htext
    exact absurd (htext ▸ by simp) (h last (by simp))
  · have hlen : 2 ≤ (dirs ++ [last]).length := by
      have := length_pos_iff.mpr hdirs
      simp only [length_append, length_singleton]
      omega
    rw [toList_toString_concat hdirs]
    constructor
    · rintro ⟨front, back, htext⟩
      refine ⟨hlen, ?_⟩
      have hsuffix : ending <:+ (toString ⟨"", dirs⟩).toList ++ '/' :: last.toList :=
        htext ▸ ⟨front ++ '/' :: back, by simp⟩
      rcases suffix_or_suffix_of_suffix hsuffix (suffix_append _ _) with hshort | hlong
      · exact (suffix_cons_iff.mp hshort).resolve_left fun heq => hending (heq ▸ mem_cons_self)
      · exact absurd (hlong.subset mem_cons_self) hending
    · rintro ⟨-, back, hback⟩
      exact ⟨_, back, by rw [hback]⟩

/-- At a slash in its text a path is cut between two names. -/
lemma map_toList_eq (hne : names ≠ []) (h : ∀ name ∈ names, '/' ∉ name.toList)
    (htext : (toString ⟨"", names⟩).toList = front ++ '/' :: back) :
    names.map String.toList = front.splitOn '/' ++ back.splitOn '/' := by
  have hsplit := Text.splitOn_intercalate toList_slash names hne h
  rw [Text.splitOn, Text.pieces_eq_splitOn, ← toString_of_ne_nil hne, htext, splitOn_append_cons_self] at hsplit
  rw [← hsplit, map_map]
  simp [Function.comp_def]

/-- What stands in the text of a path between two slashes, or between its start and a slash, is the name of a directory
on the way. -/
lemma mem_dropLast_of_between (hne : names ≠ []) (h : ∀ name ∈ names, '/' ∉ name.toList)
    {dir : String} (hdir : '/' ∉ dir.toList)
    (htext : (toString ⟨"", names⟩).toList = front ++ (dir.toList ++ '/' :: back))
    (hfront : front = [] ∨ ∃ above, front = above ++ ['/']) : dir ∈ names.dropLast := by
  rw [← append_assoc] at htext
  have hcut := map_toList_eq hne h htext
  obtain ⟨before, hbefore⟩ : ∃ before, (front ++ dir.toList).splitOn '/' = before ++ [dir.toList] := by
    rcases hfront with rfl | ⟨above, rfl⟩
    · exact ⟨[], by rw [nil_append, splitOn_eq_singleton hdir, nil_append]⟩
    · refine ⟨above.splitOn '/', ?_⟩
      rw [append_assoc, singleton_append, splitOn_append_cons_self, splitOn_eq_singleton hdir]
  have hmem : dir.toList ∈ names.dropLast.map String.toList := by
    rw [map_dropLast, hcut, hbefore, dropLast_append_of_ne_nil (splitOn_ne_nil _ _)]
    simp
  obtain ⟨name, hname, heq⟩ := mem_map.mp hmem
  exact String.toList_inj.mp heq ▸ hname

end Path

end CodeAudit
