import CodeAudit.Index.Chunker
import CodeAudit.Proofs.Script.Address
import CodeAudit.Proofs.Sequence.Pairs

/-!
# Chunks of definitions

The chunks of a program come from a walk over all nodes of its tree. The walk meets a function that stands in the body of
a class twice: as a node of its own, and as a method when the class is met. This module tells from which definitions the
chunks of functions and methods are made, by the addresses of the definitions in the tree, and that one chunk is made from
each of them exactly if no class has a method.

## Main definitions

* `Script.Node.definitions` — where a tree defines functions, at any depth.
* `Chunker.Covers` — some chunks are made from the definitions at some addresses, one from each.

## Main results

* `Chunker.covers_methods` — every method has one chunk as a method.
* `Chunker.definitions_indexed_once_iff` — when every definition has one chunk.
-/

namespace CodeAudit

open List

namespace Script.Node

variable {tree : Node} {p : List ℕ}

variable {c n : Node} {i : ℕ} {q : List ℕ}

/-! ## Definitions and methods -/

/-- **The addresses of the functions that a tree defines**, at any depth. -/
def definitions (tree : Node) : List (List ℕ) :=
  tree.addresses.filter fun p => (tree.at? p).any isFunction

/-- The name of a class. -/
def className? (n : Node) : Option String :=
  match n.shape with
  | .classDef name => some name
  | _ => none

/-- **The class in whose body the node at an address stands**, as one of its statements. -/
def classOf? (tree : Node) (p : List ℕ) : Option String := do
  let i ← p.getLast?
  let c ← tree.at? p.dropLast
  let n ← c.children[i]?
  if n.part = .body then c.className? else none

/-- The addresses of the functions that stand in the body of a class. -/
def methods (tree : Node) : List (List ℕ) :=
  tree.definitions.filter fun p => (tree.classOf? p).isSome

/-- The numbers of the children that are functions in the body of a node. -/
def bodyFunctions (c : Node) : List ℕ :=
  c.children.findIdxs fun n => n.part = .body && n.isFunction

/-- The addresses of the methods of the class at an address. -/
def methodsAt (tree : Node) (q : List ℕ) : List (List ℕ) :=
  match tree.at? q with
  | some c => if c.className?.isSome then c.bodyFunctions.map fun i => q ++ [i] else []
  | none => []

lemma mem_definitions_iff : p ∈ tree.definitions ↔ ∃ n, tree.at? p = some n ∧ n.isFunction = true := by
  rw [definitions, mem_filter, mem_addresses_iff]
  constructor
  · rintro ⟨⟨n, hn⟩, hfunction⟩
    rw [hn, Option.any_some] at hfunction
    exact ⟨n, hn, hfunction⟩
  · rintro ⟨n, hn, hfunction⟩
    rw [hn, Option.any_some]
    exact ⟨⟨n, rfl⟩, hfunction⟩

lemma mem_bodyFunctions_iff :
    i ∈ c.bodyFunctions ↔ ∃ n, c.children[i]? = some n ∧ n.part = .body ∧ n.isFunction = true := by
  simp [bodyFunctions, List.getElem?_eq_some_iff]

/-- The class of a child is its parent, if the child stands in the body. -/
lemma classOf?_concat (hc : tree.at? q = some c) (hn : c.children[i]? = some n)
    (hbody : n.part = .body) : tree.classOf? (q ++ [i]) = c.className? := by
  simp [classOf?, hc, hn, hbody]

lemma exists_of_classOf? {name : String} (h : tree.classOf? p = some name) :
    ∃ q i c n, p = q ++ [i] ∧ tree.at? q = some c ∧ c.children[i]? = some n ∧ n.part = .body ∧
      c.className? = some name := by
  simp only [classOf?, bind, Option.bind_eq_some_iff] at h
  obtain ⟨i, hi, c, hc, n, hn, hname⟩ := h
  split_ifs at hname with hbody
  exact ⟨p.dropLast, i, c, n, (dropLast_append_getLast? i hi).symm, hc, hn, hbody, hname⟩

lemma mem_methodsAt_iff : p ∈ tree.methodsAt q ↔
    ∃ i c n name, p = q ++ [i] ∧ tree.at? q = some c ∧ c.children[i]? = some n ∧ n.part = .body ∧ n.isFunction = true ∧
      c.className? = some name := by
  unfold methodsAt
  cases hc : tree.at? q with
  | none => simp
  | some c =>
    simp only [Option.some.injEq]
    cases hname : c.className? with
    | none =>
      simp only [Option.isSome_none, Bool.false_eq_true, if_false, not_mem_nil, false_iff]
      rintro ⟨i, c', n, name, -, rfl, -, -, -, hname'⟩
      rw [hname] at hname'
      cases hname'
    | some name =>
      rw [Option.isSome_some, if_pos rfl, mem_map]
      constructor
      · rintro ⟨i, hi, rfl⟩
        obtain ⟨n, hn, hbody, hfunction⟩ := mem_bodyFunctions_iff.mp hi
        exact ⟨i, c, n, name, rfl, rfl, hn, hbody, hfunction, hname⟩
      · rintro ⟨i, c', n, -, rfl, rfl, hn, hbody, hfunction, -⟩
        exact ⟨i, mem_bodyFunctions_iff.mpr ⟨n, hn, hbody, hfunction⟩, rfl⟩

lemma at?_concat (hc : tree.at? q = some c) (hn : c.children[i]? = some n) : tree.at? (q ++ [i]) = some n := by
  rw [at?_append, hc, Option.bind_some, at?_cons_of_getElem? hn, at?_nil]

lemma mem_methods_iff : p ∈ tree.methods ↔ ∃ q ∈ tree.addresses, p ∈ tree.methodsAt q := by
  rw [methods, mem_filter, mem_definitions_iff, Option.isSome_iff_exists]
  constructor
  · rintro ⟨⟨n, hn, hfunction⟩, name, hname⟩
    obtain ⟨q, i, c, n', rfl, hc, hn', hbody, hname⟩ := exists_of_classOf? hname
    obtain rfl : n' = n := Option.some.inj ((at?_concat hc hn').symm.trans hn)
    exact ⟨q, mem_addresses_iff.mpr ⟨c, hc⟩, mem_methodsAt_iff.mpr ⟨i, c, n', name, rfl, hc, hn', hbody, hfunction, hname⟩⟩
  · rintro ⟨q, -, hp⟩
    obtain ⟨i, c, n, name, rfl, hc, hn, hbody, hfunction, hname⟩ := mem_methodsAt_iff.mp hp
    exact ⟨⟨n, at?_concat hc hn, hfunction⟩, name, (classOf?_concat hc hn hbody).trans hname⟩

lemma nodup_methodsAt (tree : Node) (q : List ℕ) : (tree.methodsAt q).Nodup := by
  unfold methodsAt
  cases tree.at? q with
  | none => exact nodup_nil
  | some c =>
    simp only
    split_ifs
    · have hidxs : c.bodyFunctions.Nodup := pairwise_findIdxs.imp fun h => h.ne
      refine hidxs.map fun i j hij => ?_
      simpa using hij
    · exact nodup_nil

/-- **The methods of a tree are those of its classes**, each of them once. -/
lemma methods_perm (tree : Node) : (tree.addresses.flatMap tree.methodsAt).Perm tree.methods := by
  have hleft : (tree.addresses.flatMap tree.methodsAt).Nodup := by
    rw [nodup_flatMap]
    refine ⟨fun q _ => tree.nodup_methodsAt q, (nodup_addresses tree).imp fun {q q'} hne => ?_⟩
    intro p hp hp'
    obtain ⟨i, _, _, _, rfl, -⟩ := mem_methodsAt_iff.mp hp
    obtain ⟨j, _, _, _, heq, -⟩ := mem_methodsAt_iff.mp hp'
    exact hne (append_inj_left' heq rfl)
  have hright : tree.methods.Nodup := ((nodup_addresses tree).filter _).filter _
  rw [perm_ext_iff_of_nodup hleft hright]
  intro p
  rw [mem_flatMap, mem_methods_iff]

end Script.Node

namespace Chunker

open Script

variable (file : String) (lines : List String)

/-! ## What is made from a node -/

/-- The chunks of the methods of a class. -/
def methodChunks (n : Node) : List Chunk :=
  match n.className? with
  | some name => (n.body.filter (·.isFunction)).map (functionChunk file lines (some name))
  | none => []

/-- The chunks of a definition, by its kind. -/
lemma definitionChunks_eq (n : Node) :
    definitionChunks file lines n = (if n.isFunction then [functionChunk file lines none n] else []) ++
      (if n.className?.isSome then [classChunk file lines n] else []) ++ methodChunks file lines n := by
  unfold definitionChunks Node.isFunction methodChunks Node.className?
  cases n.shape <;> rfl

lemma kind_of_mem_methodChunks {n : Node} {c : Chunk} (h : c ∈ methodChunks file lines n) : c.kind = .method := by
  unfold methodChunks at h
  split at h
  · obtain ⟨m, -, rfl⟩ := mem_map.mp h
    rfl
  · cases h

/-- Only a function has a chunk as a function. -/
lemma filter_function_definitionChunks (n : Node) :
    (definitionChunks file lines n).filter (·.kind = .function) =
      if n.isFunction then [functionChunk file lines none n] else [] := by
  have hmethods : (methodChunks file lines n).filter (·.kind = .function) = [] := by
    rw [filter_eq_nil_iff]
    intro c hc
    simp [kind_of_mem_methodChunks file lines hc]
  rw [definitionChunks_eq, filter_append, filter_append, hmethods]
  cases n.isFunction <;> cases n.className?.isSome <;> simp [functionChunk, classChunk]

/-- Only a class has chunks of methods. -/
lemma filter_method_definitionChunks (n : Node) :
    (definitionChunks file lines n).filter (·.kind = .method) = methodChunks file lines n := by
  have hmethods : (methodChunks file lines n).filter (·.kind = .method) = methodChunks file lines n := by
    rw [filter_eq_self]
    intro c hc
    simp [kind_of_mem_methodChunks file lines hc]
  rw [definitionChunks_eq, filter_append, filter_append, hmethods]
  cases n.isFunction <;> cases n.className?.isSome <;> simp [functionChunk, classChunk]

/-- The module itself has neither kind of chunk. -/
lemma filter_moduleChunk {kind : ChunkKind} (hkind : kind ≠ .moduleDoc) (doc : Option String) :
    ((doc.map (moduleChunk file)).toList).filter (·.kind = kind) = [] := by
  cases doc with
  | none => rfl
  | some doc => simp [moduleChunk, Ne.symm hkind]

lemma filter_function_ofTree (source : String) (tree : Node) :
    (ofTree file source tree).filter (·.kind = .function) =
      (tree.levelOrder.filter (·.isFunction)).map (functionChunk file (Text.lines source) none) := by
  rw [ofTree, filter_append, filter_moduleChunk file (by simp), nil_append, filter_flatMap]
  simp only [filter_function_definitionChunks]
  rw [Sequence.flatMap_ite_nil, map_eq_flatMap]

lemma filter_method_ofTree (source : String) (tree : Node) :
    (ofTree file source tree).filter (·.kind = .method) =
      tree.levelOrder.flatMap (methodChunks file (Text.lines source)) := by
  rw [ofTree, filter_append, filter_moduleChunk file (by simp), nil_append, filter_flatMap]
  simp only [filter_method_definitionChunks]

/-! ## One chunk from each definition -/

/-- A chunk is made from the definition at an address, as a method of the class that `parent` tells. -/
def MadeFrom (tree : Node) (parent : List ℕ → Option String) (p : List ℕ) (c : Chunk) : Prop :=
  ∃ n, tree.at? p = some n ∧ c = functionChunk file lines (parent p) n

/-- **Some chunks are made from the definitions at some addresses**, one from each of them. -/
def Covers (tree : Node) (parent : List ℕ → Option String) (addresses : List (List ℕ)) (chunks : List Chunk) : Prop :=
  ∃ row, row.Perm addresses ∧ Forall₂ (MadeFrom file lines tree parent) row chunks

section Covers

variable {file lines} {tree : Node} {parent : List ℕ → Option String} {addresses : List (List ℕ)} {chunks : List Chunk}

lemma Covers.length_eq (h : Covers file lines tree parent addresses chunks) : chunks.length = addresses.length := by
  obtain ⟨row, hperm, hmade⟩ := h
  rw [← hmade.length_eq, hperm.length_eq]

/-- What is told of the classes of other nodes does not matter. -/
lemma Covers.congr (h : Covers file lines tree parent addresses chunks) {parent' : List ℕ → Option String}
    (hparent : ∀ p ∈ addresses, parent p = parent' p) : Covers file lines tree parent' addresses chunks := by
  obtain ⟨row, hperm, hmade⟩ := h
  have hrow : ∀ p ∈ row, parent p = parent' p := fun p hp => hparent p (hperm.mem_iff.mp hp)
  refine ⟨row, hperm, ((forall₂_and_left row chunks).mpr ⟨hrow, hmade⟩).imp ?_⟩
  rintro p c ⟨hp, n, hn, rfl⟩
  exact ⟨n, hn, by rw [hp]⟩

/-- A chunk is made from a definition at one of the addresses. -/
lemma Covers.exists_of_mem (h : Covers file lines tree parent addresses chunks) {c : Chunk} (hc : c ∈ chunks) :
    ∃ p ∈ addresses, MadeFrom file lines tree parent p c := by
  obtain ⟨row, hperm, hmade⟩ := h
  obtain ⟨i, hi, rfl⟩ := mem_iff_getElem.mp hc
  obtain ⟨hlength, hget⟩ := forall₂_iff_get.mp hmade
  have hi' : i < row.length := hlength ▸ hi
  exact ⟨row[i], hperm.mem_iff.mp (getElem_mem hi'), hget i hi' hi⟩

end Covers

/-- **Every definition has one chunk as a function.** -/
lemma covers_functions (source : String) (tree : Node) :
    Covers file (Text.lines source) tree (fun _ => none) tree.definitions
      ((ofTree file source tree).filter (·.kind = .function)) := by
  obtain ⟨row, hperm, hrow⟩ := tree.exists_addresses_levelOrder
  refine ⟨row.filter fun p => (tree.at? p).any (·.isFunction), hperm.filter _, ?_⟩
  have hiff : ∀ p n, tree.at? p = some n → ((tree.at? p).any (·.isFunction) = true ↔ n.isFunction = true) := by
    intro p n hn
    rw [hn, Option.any_some]
  rw [filter_function_ofTree, forall₂_map_right_iff]
  exact (rel_filter (fun p n => hiff p n) hrow).imp fun p n hn => ⟨n, hn, rfl⟩

/-- The methods of the class at an address have one chunk each. -/
lemma forall₂_methodChunks {tree c : Node} {q : List ℕ} (hc : tree.at? q = some c) :
    Forall₂ (MadeFrom file lines tree tree.classOf?) (tree.methodsAt q) (methodChunks file lines c) := by
  cases hname : c.className? with
  | none => simp [Node.methodsAt, methodChunks, hc, hname]
  | some name =>
    have hbody : c.body.filter (·.isFunction) = c.children.filter fun n => n.part = .body && n.isFunction := by
      rw [Node.body, Node.parts, filter_filter]
      exact filter_congr fun n _ => Bool.and_comm _ _
    have hnodes : Forall₂ (fun i n => c.children[i]? = some n) c.bodyFunctions (c.body.filter (·.isFunction)) := by
      rw [hbody]
      exact Sequence.forall₂_findIdxs _ _
    have hclass : ∀ i ∈ c.bodyFunctions, tree.classOf? (q ++ [i]) = some name := by
      intro i hi
      obtain ⟨n, hn, hpart, -⟩ := Node.mem_bodyFunctions_iff.mp hi
      rw [Node.classOf?_concat hc hn hpart, hname]
    simp only [Node.methodsAt, methodChunks, hc, hname, Option.isSome_some, if_true]
    rw [forall₂_map_left_iff, forall₂_map_right_iff]
    refine ((forall₂_and_left _ _).mpr ⟨hclass, hnodes⟩).imp ?_
    rintro i n ⟨hi, hn⟩
    exact ⟨n, Node.at?_concat hc hn, by rw [hi]⟩

/-- **Every method has one chunk as a method** of its class. -/
lemma covers_methods (source : String) (tree : Node) :
    Covers file (Text.lines source) tree tree.classOf? tree.methods
      ((ofTree file source tree).filter (·.kind = .method)) := by
  obtain ⟨row, hperm, hrow⟩ := tree.exists_addresses_levelOrder
  refine ⟨row.flatMap tree.methodsAt, (hperm.flatMap_right _).trans tree.methods_perm, ?_⟩
  rw [filter_method_ofTree]
  exact rel_flatMap hrow fun q c hc => forall₂_methodChunks file (Text.lines source) hc

/-! ## Functions and methods together -/

/-- A chunk of a function or of a method. -/
def isCode (c : Chunk) : Bool :=
  c.kind = .function || c.kind = .method

/-- A chunk has one kind. -/
lemma length_filter_isCode (chunks : List Chunk) :
    (chunks.filter isCode).length = (chunks.filter (·.kind = .function)).length +
    (chunks.filter (·.kind = .method)).length := by
  rw [length_eq_countP_add_countP (fun c => decide (c.kind = .function)), countP_filter, countP_filter,
    ← countP_eq_length_filter, ← countP_eq_length_filter]
  congr 1
  · refine countP_congr fun c _ => ?_
    by_cases hfunction : c.kind = .function <;> simp [isCode, hfunction]
  · refine countP_congr fun c _ => ?_
    by_cases hfunction : c.kind = .function <;> simp [isCode, hfunction]

lemma extract_eq_ofTree (split : Splitter) {source language : String} (hlanguage : Text.lower language = "python")
    {tree : Node} (hparse : parse source = .ok tree) : extract split file source language = ofTree file source tree := by
  simp [extract, hlanguage, ofScript, hparse]

/-- **When every definition has one chunk.** Of a program, the chunks of functions are made from all definitions of
functions, those at any depth included, one from each. The chunks of methods are made from the definitions in the bodies
of classes, one from each, as methods of these classes. So there are as many chunks of both kinds as definitions and
methods, and they are made from all definitions, one from each and a method as the method of its class, exactly if there is
no method.

**Proof sketch.** The walk meets every address once (`Node.exists_addresses_levelOrder`). A function gives a chunk where it
is met, and its class gives one more (`definitionChunks_eq`). If there is a method, the chunks are more than the
definitions; otherwise those of functions are all of them. -/
theorem definitions_indexed_once_iff (split : Splitter) {source language : String}
    (hlanguage : Text.lower language = "python") {tree : Node} (hparse : parse source = .ok tree) :
    Covers file (Text.lines source) tree (fun _ => none) tree.definitions
        ((extract split file source language).filter (·.kind = .function)) ∧
      Covers file (Text.lines source) tree tree.classOf? tree.methods
        ((extract split file source language).filter (·.kind = .method)) ∧
      ((extract split file source language).filter isCode).length = tree.definitions.length + tree.methods.length ∧
      (Covers file (Text.lines source) tree tree.classOf? tree.definitions
        ((extract split file source language).filter isCode) ↔ tree.methods = []) := by
  rw [extract_eq_ofTree file split hlanguage hparse]
  have hfunctions := covers_functions file source tree
  have hmethods := covers_methods file source tree
  have hlength : ((ofTree file source tree).filter isCode).length = tree.definitions.length + tree.methods.length := by
    rw [length_filter_isCode, hfunctions.length_eq, hmethods.length_eq]
  refine ⟨hfunctions, hmethods, hlength, ?_, ?_⟩
  · intro hcovers
    have hsame := hcovers.length_eq
    rw [← List.length_eq_zero_iff]
    omega
  · intro hnone
    have hempty : (ofTree file source tree).filter (·.kind = .method) = [] := by
      rw [← List.length_eq_zero_iff, hmethods.length_eq, hnone]
      rfl
    have hcode : (ofTree file source tree).filter isCode = (ofTree file source tree).filter (·.kind = .function) := by
      refine List.filter_congr fun c hc => ?_
      have hother := List.filter_eq_nil_iff.mp hempty c hc
      simp only [decide_eq_true_eq] at hother
      simp [isCode, hother]
    rw [hcode]
    refine hfunctions.congr fun p hp => ?_
    have hp' := List.filter_eq_nil_iff.mp hnone p hp
    rw [Bool.not_eq_true, Option.isSome_eq_false_iff, Option.isNone_iff_eq_none] at hp'
    exact hp'.symm

/-- A class with one method. -/
def oneMethod : String := "class A:\n  def f(self): pass\n"

/-- One definition, and two chunks are made from it. -/
theorem not_indexed_once_oneMethod : ∃ tree, parse oneMethod = .ok tree ∧ tree.definitions.length = 1 ∧
    ((extract whole "a.py" oneMethod "python").filter isCode).length = 2 ∧
    ¬ Covers "a.py" (Text.lines oneMethod) tree tree.classOf? tree.definitions
      ((extract whole "a.py" oneMethod "python").filter isCode) := by
  have hprogram : ((parse oneMethod).toOption.map fun tree => (tree.definitions, tree.methods)) =
      some ([[0, 0]], [[0, 0]]) := by decide +kernel
  cases hparse : parse oneMethod with
  | error fault =>
    rw [hparse] at hprogram
    cases hprogram
  | ok tree =>
    rw [hparse] at hprogram
    obtain ⟨hdefinitions, hmethods⟩ := Prod.mk.inj (Option.some.inj hprogram)
    have hlanguage : Text.lower "python" = "python" := by decide +kernel
    obtain ⟨-, -, hlength, hiff⟩ := definitions_indexed_once_iff "a.py" whole hlanguage hparse
    refine ⟨tree, rfl, by rw [hdefinitions]; rfl, by rw [hlength, hdefinitions, hmethods]; rfl, ?_⟩
    rw [hiff, hmethods]
    simp

end Chunker

end CodeAudit
