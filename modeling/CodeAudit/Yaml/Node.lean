import CodeAudit.Yaml.Token

/-!
# The document in a YAML text

## Main definitions

* `Yaml.Node` — a document as a tree, in which references are replaced by what they refer to.
* `Yaml.document?` — the one document of a list of tokens.
-/

namespace CodeAudit.Yaml

/-- A node of a document. A scalar is free if nothing but its text says what it stands for. -/
inductive Node
  | scalar (tag : Option String) (isFree : Bool) (text : String)
  | list (tag : Option String) (items : List Node)
  | map (tag : Option String) (entries : List (Node × Node))

/-- A node that is not written out. -/
def Node.absent : Node :=
  .scalar none true ""

/-- What a reader of nodes holds: the tokens ahead and the nodes that have names. -/
structure Reading where
  tokens : List Token
  named : List (String × Node) := []

/-- Reading nodes, which can fail. -/
abbrev Read := StateT Reading Option

/-- What handles of tags stand for. -/
abbrev Handles := List (String × String)

/-- The beginning of the common tags. -/
def commonTag : String :=
  "tag:yaml.org,2002:"

/-- The handles that every document has. -/
def usualHandles : Handles :=
  [("!", "!"), ("!!", commonTag)]

namespace Read

/-- The token ahead. -/
def peek? : Read (Option Token) := do
  return (← get).tokens.head?

/-- Passes the token ahead. -/
def pass : Read Unit :=
  modify fun r => { r with tokens := r.tokens.drop 1 }

/-- Whether the token ahead is of a class. -/
def ahead (p : Token → Bool) : Read Bool := do
  return (← peek?).any p

/-- Passes the token ahead if it is of a class, and tells whether it was. -/
def passIf (p : Token → Bool) : Read Bool := do
  let found ← ahead p
  if found then pass
  return found

/-- Passes a token of a class, which must be ahead. -/
def need (p : Token → Bool) : Read Unit := do
  unless ← passIf p do failure

/-- Gives a node its name. A name is given once. -/
def name (anchor : Option String) (n : Node) : Read Node := do
  match anchor with
  | none => return n
  | some a =>
    if (← get).named.any (·.1 == a) then failure
    else
      modify fun r => { r with named := (a, n) :: r.named }
      return n

end Read

/-- The end of an indented collection. -/
def Token.isBlockEnd : Token → Bool
  | .blockEnd => true
  | _ => false

/-- The sign of an item. -/
def Token.isItem : Token → Bool
  | .item => true
  | _ => false

/-- The sign of a key. -/
def Token.isKey : Token → Bool
  | .key => true
  | _ => false

/-- The sign of a value. -/
def Token.isValue : Token → Bool
  | .value => true
  | _ => false

/-- A comma. -/
def Token.isComma : Token → Bool
  | .comma => true
  | _ => false

/-- The end of a list in brackets. -/
def Token.closesList : Token → Bool
  | .closeList => true
  | _ => false

/-- The end of a map in braces. -/
def Token.closesMap : Token → Bool
  | .closeMap => true
  | _ => false

/-- The anchor ahead, if any. -/
def anchor? : Read (Option String) := do
  match ← Read.peek? with
  | some (.anchor a) => Read.pass; return some a
  | _ => return none

/-- The tag ahead, if any, in full. -/
def fullTag? (handles : Handles) : Read (Option String) := do
  match ← Read.peek? with
  | some (.tag none rest) => Read.pass; return some rest
  | some (.tag (some h) rest) =>
    Read.pass
    match handles.find? (·.1 == h) with
    | some (_, meaning) => return some (meaning ++ rest)
    | none => failure
  | _ => return none

/-- The anchor and the tag ahead, in either order. -/
def properties (handles : Handles) : Read (Option String × Option String) := do
  match ← anchor? with
  | some a => return (some a, ← fullTag? handles)
  | none =>
    let tag ← fullTag? handles
    if tag.isSome then return (← anchor?, tag) else return (none, none)

/-- A tag that leaves open what a node stands for. -/
def isOpenTag (tag : Option String) : Bool :=
  tag.isNone || tag == some "!"

/-- The node of an anchor or a tag behind which nothing is written. -/
def nothing (anchor tag : Option String) : Read Node :=
  if anchor.isSome || tag.isSome then Read.name anchor (.scalar tag (isOpenTag tag) "") else failure

mutual

/-- A node. Indented collections are read only if `inBlock`; `bare` allows a list without an indentation of
its own. -/
def node (handles : Handles) (inBlock bare : Bool) : (fuel : Nat) → Read Node
  | 0 => failure
  | fuel + 1 => do
    if let some (.alias a) ← Read.peek? then
      Read.pass
      match (← get).named.find? (·.1 == a) with
      | some (_, n) => return n
      | none => failure
    else
      let (anchor, tag) ← properties handles
      if bare && (← Read.ahead Token.isItem) then
        Read.name anchor (.list tag (← bareItems handles fuel))
      else
        match ← Read.peek? with
        | some (.scalar text isPlain) =>
          Read.pass
          Read.name anchor (.scalar tag ((isPlain && tag.isNone) || tag == some "!") text)
        | some .openList => Read.pass; Read.name anchor (.list tag (← flowItems handles true fuel))
        | some .openMap => Read.pass; Read.name anchor (.map tag (← flowEntries handles true fuel))
        | some .listStart =>
          if inBlock then Read.pass; Read.name anchor (.list tag (← blockItems handles fuel))
          else nothing anchor tag
        | some .mapStart =>
          if inBlock then Read.pass; Read.name anchor (.map tag (← blockEntries handles fuel))
          else nothing anchor tag
        | _ => nothing anchor tag

/-- A node, unless a token of a class is ahead. -/
def nodeUnless (handles : Handles) (inBlock bare : Bool) (stop : Token → Bool) : (fuel : Nat) → Read Node
  | 0 => failure
  | fuel + 1 => do
    if ← Read.ahead stop then return .absent else node handles inBlock bare fuel

/-- The items of an indented list. -/
def blockItems (handles : Handles) : (fuel : Nat) → Read (List Node)
  | 0 => failure
  | fuel + 1 => do
    if ← Read.passIf Token.isItem then
      let n ← nodeUnless handles true false (fun t => t.isItem || t.isBlockEnd) fuel
      return n :: (← blockItems handles fuel)
    else
      Read.need Token.isBlockEnd
      return []

/-- The items of a list that stands at the column of its key. -/
def bareItems (handles : Handles) : (fuel : Nat) → Read (List Node)
  | 0 => failure
  | fuel + 1 => do
    if ← Read.passIf Token.isItem then
      let stop (t : Token) := t.isItem || t.isKey || t.isValue || t.isBlockEnd
      let n ← nodeUnless handles true false stop fuel
      return n :: (← bareItems handles fuel)
    else return []

/-- The entries of an indented map. -/
def blockEntries (handles : Handles) : (fuel : Nat) → Read (List (Node × Node))
  | 0 => failure
  | fuel + 1 => do
    if ← Read.passIf Token.isKey then
      let stop (t : Token) := t.isKey || t.isValue || t.isBlockEnd
      let k ← nodeUnless handles true true stop fuel
      let v ← if ← Read.passIf Token.isValue then nodeUnless handles true true stop fuel else pure .absent
      return (k, v) :: (← blockEntries handles fuel)
    else
      Read.need Token.isBlockEnd
      return []

/-- The items of a list in brackets. An item with a key is a map of one entry. -/
def flowItems (handles : Handles) (isFirst : Bool) : (fuel : Nat) → Read (List Node)
  | 0 => failure
  | fuel + 1 => do
    if ← Read.passIf Token.closesList then return []
    unless isFirst do Read.need Token.isComma
    if ← Read.passIf Token.isKey then
      let k ← nodeUnless handles false false (fun t => t.isValue || t.isComma || t.closesList) fuel
      let v ← if ← Read.passIf Token.isValue then
          nodeUnless handles false false (fun t => t.isComma || t.closesList) fuel
        else pure .absent
      return .map none [(k, v)] :: (← flowItems handles false fuel)
    else if ← Read.passIf Token.closesList then return []
    else
      let n ← node handles false false fuel
      return n :: (← flowItems handles false fuel)

/-- The entries of a map in braces. An item without a key's sign is a key alone. -/
def flowEntries (handles : Handles) (isFirst : Bool) : (fuel : Nat) → Read (List (Node × Node))
  | 0 => failure
  | fuel + 1 => do
    if ← Read.passIf Token.closesMap then return []
    unless isFirst do Read.need Token.isComma
    if ← Read.passIf Token.isKey then
      let k ← nodeUnless handles false false (fun t => t.isValue || t.isComma || t.closesMap) fuel
      let v ← if ← Read.passIf Token.isValue then
          nodeUnless handles false false (fun t => t.isComma || t.closesMap) fuel
        else pure .absent
      return (k, v) :: (← flowEntries handles false fuel)
    else if ← Read.passIf Token.closesMap then return []
    else
      let n ← node handles false false fuel
      return (n, .absent) :: (← flowEntries handles false fuel)

end

/-- The handles that directives before a document add. At most one directive tells the version, which must
be of the first generation, and no handle is told twice. -/
def handlesOf? : List Directive → (versioned : Bool) → Handles → Option Handles
  | [], _, told => some (told ++ usualHandles.filter fun (h, _) => !told.any (·.1 == h))
  | .version major _ :: rest, versioned, told =>
    if versioned || major ≠ 1 then none else handlesOf? rest true told
  | .handle h meaning :: rest, versioned, told =>
    if told.any (·.1 == h) then none else handlesOf? rest versioned (told ++ [(h, meaning)])
  | .other :: rest, versioned, told => handlesOf? rest versioned told

/-- The directive in a token. -/
def Token.directive? : Token → Option Directive
  | .directive d => some d
  | _ => none

/-- The end of a document. -/
def Token.endsDocument : Token → Bool
  | .documentEnd => true
  | _ => false

/-- The node of a document that ends at the last of some tokens. -/
def content? (handles : Handles) (tokens : List Token) : Option Node := do
  let (n, r) ← (node handles true false (3 * tokens.length + 3)).run { tokens := tokens }
  if r.tokens.all Token.endsDocument then some n else none

/-- **The one document of a text**, given its tokens. A text without one holds nothing. -/
def document? (tokens : List Token) : Option Node :=
  match tokens with
  | [] => some .absent
  | .directive _ :: _ | .documentStart :: _ =>
    let directives := (tokens.takeWhile (·.directive?.isSome)).filterMap Token.directive?
    match tokens.drop directives.length with
    | .documentStart :: rest => do
      let handles ← handlesOf? directives false []
      if rest.all Token.endsDocument then some .absent else content? handles rest
    | _ => none
  | _ => content? usualHandles tokens

end CodeAudit.Yaml
