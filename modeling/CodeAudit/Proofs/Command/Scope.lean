import CodeAudit.Command.Search
import CodeAudit.Proofs.Files.Straight
import CodeAudit.Proofs.Outcome
import CodeAudit.Proofs.Text.Case

/-!
# The scope of an answer

A question is answered from the found documents whose file lies within a scope. Whether it does is decided by the texts of
the two paths, in which backslashes count as slashes: the text of the scope must stand at the start of that of the file.
This keeps every file below the scope, but also those in a neighbour whose name only begins as that of the scope.

## Main definitions

* `Command.segments` — the parts of the text of a place, between slashes and backslashes.
* `Command.Continues` — the text of a place begins with that of another.

## Main results

* `Command.startsWith_slashed_iff` — when the text of a place begins with that of another.
* `Command.scope_keeps_below_and_beside` — which documents are within a scope.
-/

namespace CodeAudit

open List

/-! ## Names of places -/

namespace Files

variable {fs : Files}

lemma slash_not_mem_of_resolveFrom {links : ℕ} {place target : Place} {names : List String}
    (h : fs.resolveFrom links place names = .ok target) (hplace : ∀ name ∈ place, '/' ∉ name.toList)
    (hnames : ∀ name ∈ names, '/' ∉ name.toList) : ∀ name ∈ target, '/' ∉ name.toList := by
  fun_induction resolveFrom fs links place names with
  | case1 => exact Except.ok.inj h ▸ hplace
  | case2 _ place _ rest _ ih =>
    exact ih h (fun name hname => hplace name (mem_of_mem_dropLast hname))
      fun name hname => hnames name (mem_cons_of_mem _ hname)
  | case3 => cases h
  | case4 place name rest _ target _ _ path ih =>
    refine ih h ?_ ?_
    · split
      · simp
      · exact hplace
    · intro part hpart
      rcases mem_append.mp hpart with hpart | hpart
      · exact (Path.of_mem_names_ofString hpart).2.2
      · exact hnames part (mem_cons_of_mem _ hpart)
  | case5 _ place name rest _ _ ih =>
    refine ih h ?_ fun part hpart => hnames part (mem_cons_of_mem _ hpart)
    intro part hpart
    rcases mem_append.mp hpart with hpart | hpart
    · exact hplace part hpart
    · exact hnames part (mem_singleton.mp hpart ▸ mem_cons_self)

/-- **No name of a place that a text names has a slash.** -/
lemma WellFormed.slash_not_mem_of_resolve (hfs : fs.WellFormed) {text : String} {place : Place}
    (h : fs.resolve (.ofString text) = .ok place) : ∀ name ∈ place, '/' ∉ name.toList := by
  refine slash_not_mem_of_resolveFrom h ?_ fun name hname => (Path.of_mem_names_ofString hname).2.2
  unfold start
  split
  · simp
  · exact fun name hname => (hfs.isName_of_entry?_eq_some hfs.here hname).1.no_slash

end Files

namespace Command

variable {parts : List (List Char)} {place top : Place} {part part' : List Char} {d : Document}

variable {fs : Files}

/-! ## Texts of places -/

/-- The parts of the text of a place, between slashes and backslashes. The root has one part, which is empty. -/
def segments (place : Place) : List (List Char) :=
  if place = [] then [[]] else place.flatMap fun name => Text.pieces '\\' name.toList

/-- The text that parts make, with a slash before each. -/
def marked (parts : List (List Char)) : List Char :=
  parts.flatMap ('/' :: ·)

/-- The text of a place, with slashes for backslashes. -/
def slashed (place : Place) : String :=
  String.ofList ((Files.pathOf place).toString.toList.map fun c => if c == '\\' then '/' else c)

lemma cons_intercalate (c : Char) (h : parts ≠ []) : c :: [c].intercalate parts = parts.flatMap (c :: ·) := by
  induction parts with
  | nil => exact absurd rfl h
  | cons part rest ih =>
    cases rest with
    | nil => simp
    | cons next rest =>
      rw [intercalate_cons_cons, flatMap_cons, ← ih (by simp)]
      simp

/-- The parts of a text make up the text, with a mark before each. -/
lemma flatMap_pieces (c : Char) (cs : List Char) : (Text.pieces c cs).flatMap (c :: ·) = c :: cs := by
  have hne : cs.splitOn c ≠ [] := splitOnP_ne_nil _ _
  rw [Text.pieces_eq_splitOn, ← cons_intercalate c hne, intercalate_splitOn]

/-- A name with slashes for backslashes is made of its parts. -/
lemma cons_map_eq_marked (cs : List Char) :
    '/' :: cs.map (fun c => if c == '\\' then '/' else c) = marked (Text.pieces '\\' cs) := by
  have hmap := congrArg (List.map fun c => if c == '\\' then '/' else c) (flatMap_pieces '\\' cs).symm
  rw [map_cons, map_flatMap] at hmap
  refine hmap.trans (flatMap_congr fun part hpart => ?_)
  have hkept : part.map (fun c => if c == '\\' then '/' else c) = part := by
    refine (map_congr_left fun c hc => ?_).trans (map_id part)
    have hc : c ≠ '\\' := fun heq => Text.mark_not_mem_of_mem_pieces hpart (heq ▸ hc)
    simp [hc]
  rw [map_cons, hkept]
  rfl

/-- The text of a place is made of its parts. -/
lemma toList_slashed (place : Place) : (slashed place).toList = marked (segments place) := by
  by_cases hplace : place = []
  · subst hplace
    rfl
  · have htext : (Files.pathOf place).toString.toList = place.flatMap fun name => '/' :: name.toList := by
      have hslash : "/".toList = ['/'] := rfl
      rw [Path.toString, if_neg (by simp [Files.pathOf]), String.toList_append, Files.pathOf, String.toList_intercalate,
        hslash, singleton_append, cons_intercalate '/' (by simpa using hplace), flatMap_map]
    rw [slashed, String.toList_ofList, htext, map_flatMap, segments, if_neg hplace, marked, flatMap_assoc]
    exact flatMap_congr fun name _ => cons_map_eq_marked name.toList

lemma slash_not_mem_of_mem_segments (h : ∀ name ∈ place, '/' ∉ name.toList)
    (hpart : part ∈ segments place) : '/' ∉ part := by
  unfold segments at hpart
  split_ifs at hpart with hplace
  · simp_all
  · obtain ⟨name, hname, hpart⟩ := mem_flatMap.mp hpart
    intro hmem
    have hmarked : '/' ∈ (Text.pieces '\\' name.toList).flatMap ('\\' :: ·) :=
      mem_flatMap.mpr ⟨part, hpart, mem_cons_of_mem _ hmem⟩
    rw [flatMap_pieces] at hmarked
    exact h name hname (by simpa using hmarked)

/-! ## Texts that begin with others -/

/-- **The text of a place begins with that of another**: the parts are the same up to the last part of the other, which
may go on. -/
def Continues (top place : Place) : Prop :=
  ∃ front last more rest, segments top = front ++ [last] ∧ segments place = front ++ (last ++ more) :: rest

/-- The text of a place begins with that of another, but the place does not lie below the other. -/
def Beside (top place : Place) : Prop :=
  ¬ top <+: place ∧ Continues top place

/-- A part before a slash is the first part of every text that begins so. -/
lemma eq_of_marked_prefix {parts' : List (List Char)} (hpart : '/' ∉ part)
    (hpart' : '/' ∉ part') (hne : parts ≠ []) (h : part ++ marked parts <+: part' ++ marked parts') :
    part = part' ∧ marked parts <+: marked parts' := by
  obtain ⟨first, others, rfl⟩ := exists_cons_of_ne_nil hne
  obtain ⟨tail, htail⟩ := h
  cases parts' with
  | nil =>
    -- a slash would stand in a part
    have hmem : '/' ∈ part' ++ marked [] := by
      rw [← htail]
      simp [marked]
    exact absurd (by simpa [marked] using hmem) hpart'
  | cons first' others' =>
    have hcons : part ++ '/' :: (first ++ marked others ++ tail) = part' ++ '/' :: (first' ++ marked others') := by
      simpa [marked] using htail
    obtain ⟨rfl, hrest⟩ := Sequence.append_cons_inj hpart hpart' hcons
    exact ⟨rfl, tail, by simpa [marked] using hrest⟩

/-- Only the first part of a text can begin with a part that the text begins with. -/
lemma prefix_of_prefix_append_marked (hpart : '/' ∉ part) (h : part <+: part' ++ marked parts) : part <+: part' := by
  rcases prefix_or_prefix_of_prefix h (prefix_append part' _) with hprefix | ⟨tail, rfl⟩
  · exact hprefix
  · have htail : tail <+: marked parts := (prefix_append_right_inj part').mp h
    cases tail with
    | nil => simp
    | cons c tail =>
      cases parts with
      | nil => simp [marked] at htail
      | cons first others =>
        obtain rfl : c = '/' := (cons_prefix_cons.mp htail).1
        simp at hpart

/-- **A text begins with another exactly if its parts do**, where the last part may go on. -/
lemma marked_prefix_iff {front : List (List Char)} {last : List Char}
    (hfront : ∀ part ∈ front ++ [last], '/' ∉ part) (hparts : ∀ part ∈ parts, '/' ∉ part) :
    marked (front ++ [last]) <+: marked parts ↔ ∃ more rest, parts = front ++ (last ++ more) :: rest := by
  induction front generalizing parts with
  | nil =>
    cases parts with
    | nil => simp [marked]
    | cons first others =>
      have hlast : '/' ∉ last := hfront last (by simp)
      change '/' :: (last ++ []) <+: '/' :: (first ++ marked others) ↔ _
      rw [append_nil, cons_prefix_cons]
      constructor
      · rintro ⟨-, h⟩
        obtain ⟨more, rfl⟩ := prefix_of_prefix_append_marked hlast h
        exact ⟨more, others, rfl⟩
      · rintro ⟨more, rest, heq⟩
        obtain ⟨rfl, rfl⟩ := cons.inj heq
        exact ⟨rfl, by simp⟩
  | cons part front ih =>
    cases parts with
    | nil => simp [marked]
    | cons first others =>
      have hpart : '/' ∉ part := hfront part (by simp)
      have ih : marked (front ++ [last]) <+: marked others ↔ _ :=
        ih (fun p hp => hfront p (mem_cons_of_mem _ hp)) fun p hp => hparts p (mem_cons_of_mem _ hp)
      change '/' :: (part ++ marked (front ++ [last])) <+: '/' :: (first ++ marked others) ↔ _
      rw [cons_prefix_cons]
      constructor
      · rintro ⟨-, h⟩
        obtain ⟨rfl, hrest⟩ := eq_of_marked_prefix hpart (hparts first mem_cons_self) (by simp) h
        obtain ⟨more, rest, rfl⟩ := ih.mp hrest
        exact ⟨more, rest, rfl⟩
      · rintro ⟨more, rest, heq⟩
        obtain ⟨rfl, rfl⟩ := cons.inj heq
        exact ⟨rfl, (prefix_append_right_inj first).mpr (ih.mpr ⟨more, rest, rfl⟩)⟩

lemma segments_ne_nil (place : Place) : segments place ≠ [] := by
  unfold segments
  split_ifs with hplace
  · simp
  · obtain ⟨name, rest, rfl⟩ := exists_cons_of_ne_nil hplace
    have hne : name.toList.splitOn '\\' ≠ [] := splitOnP_ne_nil _ _
    simp [Text.pieces_eq_splitOn, hne]

/-- **When the text of a place begins with that of another.** -/
lemma startsWith_slashed_iff (htop : ∀ name ∈ top, '/' ∉ name.toList) (hplace : ∀ name ∈ place, '/' ∉ name.toList) :
    Text.startsWith (slashed place) (slashed top) = true ↔ Continues top place := by
  have hfront : segments top = (segments top).dropLast ++ [(segments top).getLast (segments_ne_nil top)] :=
    (dropLast_concat_getLast (segments_ne_nil top)).symm
  rw [Text.startsWith_iff, toList_slashed, toList_slashed, hfront,
    marked_prefix_iff (hfront ▸ fun _ => slash_not_mem_of_mem_segments htop)
      fun _ => slash_not_mem_of_mem_segments hplace]
  constructor
  · rintro ⟨more, rest, heq⟩
    exact ⟨_, _, more, rest, hfront, heq⟩
  · rintro ⟨front, last, more, rest, heq, hrest⟩
    obtain ⟨rfl, hlast⟩ := append_inj' (hfront.symm.trans heq) rfl
    obtain rfl := singleton_inj.mp hlast
    exact ⟨more, rest, hrest⟩

/-- The text of what lies below a place begins with that of the place. -/
lemma continues_of_prefix (h : top <+: place) : Continues top place := by
  obtain ⟨rest, rfl⟩ := h
  by_cases htop : top = []
  · obtain ⟨first, others, hsegments⟩ := exists_cons_of_ne_nil (segments_ne_nil rest)
    subst htop
    exact ⟨[], [], first, others, rfl, hsegments⟩
  · refine ⟨(segments top).dropLast, (segments top).getLast (segments_ne_nil top), [],
      rest.flatMap fun name => Text.pieces '\\' name.toList, (dropLast_concat_getLast _).symm, ?_⟩
    rw [append_nil, append_cons, dropLast_concat_getLast]
    simp [segments, htop]

lemma continues_iff : Continues top place ↔ top <+: place ∨ Beside top place := by
  by_cases hbelow : top <+: place
  · simp [hbelow, continues_of_prefix hbelow]
  · simp [hbelow, Beside]

/-! ## Documents within a scope -/

/-- The place of the file of a document, if the document names one. -/
def location (fs : Files) (d : Document) : Except Fault (Option Place) := do
  match ← d.detail "file_path" (.text "") with
  | .text s => if s.isEmpty then return none else return some (← fs.resolve (.ofString s))
  | v => if v.truthy then throw (.notPath v.kind) else return none

lemma resolvedText_eq (fs : Files) (p : Path) : resolvedText fs p = (fs.resolve p).map slashed := by
  cases hplace : fs.resolve p <;> simp [resolvedText, hplace, slashed, bind, Except.bind, Except.map, pure, Except.pure]

/-- A document is within a scope by the place of its file alone. -/
lemma isScoped_eq (fs : Files) (scope : String) (d : Document) :
    isScoped fs scope d = (location fs d).map (·.any fun place => Text.startsWith (slashed place) scope) := by
  unfold isScoped location
  cases hdetail : d.detail "file_path" (.text "") with
  | error e => rfl
  | ok v =>
    simp only [bind, Except.bind]
    cases v with
    | text s =>
      simp only [resolvedText_eq]
      split_ifs with hempty
      · rfl
      · cases fs.resolve (.ofString s) <;> rfl
    | _ =>
      simp only
      split_ifs <;> rfl

lemma slash_not_mem_of_location (hfs : fs.WellFormed)
    (h : location fs d = .ok (some place)) : ∀ name ∈ place, '/' ∉ name.toList := by
  obtain ⟨v, -, h⟩ := Outcome.bind_eq_ok.mp h
  split at h
  · rename_i s
    split_ifs at h with hempty
    · cases h
    · obtain ⟨place', hplace, h⟩ := Outcome.bind_eq_ok.mp h
      obtain rfl := Option.some.inj (Except.ok.inj h)
      exact hfs.slash_not_mem_of_resolve hplace
  · split_ifs at h
    cases h

/-- Whether a document is within a scope can be told if its place can. -/
lemma exists_isScoped_iff {scope : String} :
    (∃ inside, isScoped fs scope d = .ok inside) ↔ ∃ p, location fs d = .ok p := by
  rw [isScoped_eq]
  cases location fs d <;> simp [Except.map]

/-- **A document is within a scope if its file lies below the scope or beside it.** -/
lemma isScoped_slashed_iff (hfs : fs.WellFormed) (htop : ∀ name ∈ top, '/' ∉ name.toList)
    (d : Document) : isScoped fs (slashed top) d = .ok true ↔
      ∃ place, location fs d = .ok (some place) ∧ (top <+: place ∨ Beside top place) := by
  rw [isScoped_eq]
  cases hplace : location fs d with
  | error e => simp [Except.map]
  | ok p =>
    cases p with
    | none => simp [Except.map]
    | some place =>
      simp [Except.map, startsWith_slashed_iff htop (slash_not_mem_of_location hfs hplace), continues_iff]

/-- **Which documents are within a scope.** The documents can be looked through exactly if each has a place or names no
file. Then those below the scope are kept, and with them those beside it; so only documents below the scope are kept if and
only if there are none beside it. -/
theorem scope_keeps_below_and_beside {fs : Files} (hfs : fs.WellFormed) {text : String} {top : Place}
    (htop : fs.resolve (.ofString text) = .ok top) (docs : List Document) :
    ((∃ kept, withinScope fs (.ofString text) docs = .ok kept) ↔ ∀ d ∈ docs, ∃ p, location fs d = .ok p) ∧
      ∀ kept, withinScope fs (.ofString text) docs = .ok kept →
        kept.Sublist docs ∧
        (∀ d ∈ docs, d ∈ kept ↔ ∃ place, location fs d = .ok (some place) ∧ (top <+: place ∨ Beside top place)) ∧
        ((∀ d ∈ kept, ∃ place, location fs d = .ok (some place) ∧ top <+: place) ↔
          ∀ d ∈ docs, ∀ place, location fs d = .ok (some place) → ¬ Beside top place) := by
  have hscope : withinScope fs (.ofString text) docs = docs.filterM (isScoped fs (slashed top)) := by
    rw [withinScope, resolvedText_eq, htop]
    rfl
  have hkeeps := isScoped_slashed_iff hfs (hfs.slash_not_mem_of_resolve htop)
  rw [hscope]
  constructor
  · rw [Outcome.exists_filterM_iff]
    exact forall₂_congr fun d _ => exists_isScoped_iff
  · intro kept hkept
    obtain ⟨hsublist, hmem⟩ := Outcome.of_filterM_eq_ok hkept
    refine ⟨hsublist, fun d hd => (hmem d hd).trans (hkeeps d), ?_⟩
    constructor
    · intro hbelow d hd place hplace hbeside
      obtain ⟨place', hplace', hprefix⟩ := hbelow d ((hmem d hd).mpr ((hkeeps d).mpr ⟨place, hplace, .inr hbeside⟩))
      obtain rfl : place = place' := Option.some.inj (Except.ok.inj (hplace.symm.trans hplace'))
      exact hbeside.1 hprefix
    · intro hnone d hd
      have hd' := hsublist.subset hd
      obtain ⟨place, hplace, hprefix | hbeside⟩ := (hkeeps d).mp ((hmem d hd').mp hd)
      · exact ⟨place, hplace, hprefix⟩
      · exact absurd hbeside (hnone d hd' place hplace)

/-- Two directories, of which one begins as the other. -/
def neighbours : Files :=
  ⟨[(["repo"], .folder), (["repo2"], .folder), (["repo2", "b.py"], .file [] 0)], []⟩

/-- A document on a file of the other directory. -/
def outsider : Document :=
  ⟨"", .dict [(.text "file_path", .text "repo2/b.py")]⟩

lemma wellFormed_neighbours : neighbours.WellFormed where
  toRooted := Files.Rooted.of_entries (by decide) (by decide)
  distinct := by decide
  ne_nil := by decide
  named := by decide

/-- The document is kept although its file does not lie below the scope. -/
theorem scope_keeps_outsider :
    ∃ kept place, withinScope neighbours (.ofString "repo") [outsider] = .ok kept ∧ outsider ∈ kept ∧
      location neighbours outsider = .ok (some place) ∧ Beside ["repo"] place := by
  have hplace : location neighbours outsider = .ok (some ["repo2", "b.py"]) := by cbv
  have hbeside : Beside ["repo"] ["repo2", "b.py"] :=
    ⟨by decide, [], "repo".toList, ['2'], ["b.py".toList], by cbv, by cbv⟩
  have hscope : neighbours.resolve (.ofString "repo") = .ok ["repo"] := by cbv
  obtain ⟨hiff, hall⟩ := scope_keeps_below_and_beside wellFormed_neighbours hscope [outsider]
  obtain ⟨kept, hkept⟩ := hiff.mpr (List.forall_mem_singleton.mpr ⟨_, hplace⟩)
  have hmem := ((hall kept hkept).2.1 outsider List.mem_cons_self).mpr ⟨_, hplace, .inr hbeside⟩
  exact ⟨kept, _, hkept, hmem, hplace, hbeside⟩

end Command

end CodeAudit
