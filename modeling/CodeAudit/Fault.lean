import CodeAudit.Script.Tree
import CodeAudit.Text.Quoted

/-!
# Faults

Everything that can go wrong is named by its cause. Values from outside may have any kind, so many faults
tell of a value whose kind does not fit its use.

## Main definitions

* `Fault` — the causes.
* `Fault.message` — what is reported of a cause.
-/

namespace CodeAudit

/-- Why a path cannot be used. -/
inductive FileFault
  /-- Nothing stands there. -/
  | missing
  /-- Something stands where a directory is to be made. -/
  | taken
  /-- The path leads through a file, or to one where a directory is needed. -/
  | notFolder
  /-- A directory stands where a file is needed. -/
  | isFolder
  /-- A name is too long. -/
  | longName
  /-- Too many links lead from the path to its file. -/
  | linkLoop
  /-- What stands there cannot be opened. -/
  | noDevice
deriving DecidableEq

/-- What the system says of a path that cannot be used. -/
def FileFault.reason : FileFault → String
  | missing => "[Errno 2] No such file or directory"
  | noDevice => "[Errno 6] No such device or address"
  | taken => "[Errno 17] File exists"
  | notFolder => "[Errno 20] Not a directory"
  | isFolder => "[Errno 21] Is a directory"
  | longName => "[Errno 36] File name too long"
  | linkLoop => "[Errno 40] Too many levels of symbolic links"

/-- The causes of failure. A `kind` is the name of a value's kind. -/
inductive Fault
  /-- The items of a value without items are asked for. -/
  | notIterable (kind : String)
  /-- A value lacks a named attribute. -/
  | noAttribute (kind name : String)
  /-- A changeable value is used as a key. -/
  | unhashable (kind : String)
  /-- Two values have no order. -/
  | unordered (sign left right : String)
  /-- An operator does not apply to two kinds. -/
  | operands (sign left right : String)
  /-- A sequence is joined with a value of another kind. -/
  | concatenation (kind other : String)
  /-- A sequence is repeated by a value that is no integer. -/
  | repetition (kind : String)
  | divisionByZero
  /-- A bound of a stretch is no integer. -/
  | badSlice
  /-- A count is no integer. -/
  | notIndex (kind : String)
  | badInteger (shown : String)
  | badFloat (shown : String)
  | noInteger (kind : String)
  | noFloat (kind : String)
  | nanInteger
  | infiniteInteger
  | integerTooGreat
  | noLength (kind : String)
  | tooManyValues (wanted : Nat)
  | tooFewValues (wanted got : Nat)
  | notUnpackable (kind : String)
  | notSubscriptable (kind : String)
  /-- A value is looked for in one that holds nothing. -/
  | notContainer (kind : String)
  /-- A list is asked for an item by a text. -/
  | listIndex
  /-- A text is asked for a character by a text. -/
  | textIndex
  /-- A file name is expected. -/
  | notPath (kind : String)
  /-- A source text is no program. -/
  | malformedSource (fault : Script.SyntaxFault)
  /-- A record does not have the required form. -/
  | invalidRecord
  /-- A text is not JSON. -/
  | malformedJson
  /-- A value has no JSON form. -/
  | unwritable (kind : String)
  /-- A value cannot be a key in JSON. -/
  | unwritableKey (kind : String)
  /-- A value has no YAML form. -/
  | unwritableYaml (shown : String)
  /-- A server refuses a request. -/
  | refusedRequest
  /-- The network fails. -/
  | network (reason : String)
  /-- A request is answered with an error status and a reason. -/
  | httpStatus (status : Nat) (detail : String)
  /-- A path, whose text is given, cannot be used. -/
  | file (fault : FileFault) (path : String)
  /-- The links of a path lead back to themselves. -/
  | circularLink (path : String)
  /-- A program that was started fails. -/
  | failedRun (reason : String)
  | missingToken
  | missingCollection (name : String)
  | zeroStep
  /-- A value is used before it is set. -/
  | unset (name : String)
  /-- A text lacks a required key. -/
  | missingKey (shown : String)
  /-- A text cannot be decoded. -/
  | malformedText
deriving DecidableEq

/-- What is reported of a cause. -/
def Fault.message : Fault → String
  | .notIterable kind => "'" ++ kind ++ "' object is not iterable"
  | .noAttribute kind name => "'" ++ kind ++ "' object has no attribute '" ++ name ++ "'"
  | .unhashable kind => "unhashable type: '" ++ kind ++ "'"
  | .unordered sign left right =>
    "'" ++ sign ++ "' not supported between instances of '" ++ left ++ "' and '" ++ right ++ "'"
  | .operands sign left right =>
    "unsupported operand type(s) for " ++ sign ++ ": '" ++ left ++ "' and '" ++ right ++ "'"
  | .concatenation kind other =>
    "can only concatenate " ++ kind ++ " (not \"" ++ other ++ "\") to " ++ kind
  | .repetition kind => "can't multiply sequence by non-int of type '" ++ kind ++ "'"
  | .badSlice => "slice indices must be integers or None or have an __index__ method"
  | .divisionByZero => "float division by zero"
  | .notIndex kind => "'" ++ kind ++ "' object cannot be interpreted as an integer"
  | .badInteger shown => "invalid literal for int() with base 10: " ++ shown
  | .badFloat shown => "could not convert string to float: " ++ shown
  | .noInteger kind =>
    "int() argument must be a string, a bytes-like object or a real number, not '" ++ kind ++ "'"
  | .noFloat kind => "float() argument must be a string or a real number, not '" ++ kind ++ "'"
  | .nanInteger => "cannot convert float NaN to integer"
  | .infiniteInteger => "cannot convert float infinity to integer"
  | .integerTooGreat => "int too large to convert to float"
  | .noLength kind => "object of type '" ++ kind ++ "' has no len()"
  | .tooManyValues wanted => "too many values to unpack (expected " ++ toString wanted ++ ")"
  | .tooFewValues wanted got =>
    "not enough values to unpack (expected " ++ toString wanted ++ ", got " ++ toString got ++ ")"
  | .notUnpackable kind => "cannot unpack non-iterable " ++ kind ++ " object"
  | .notSubscriptable kind => "'" ++ kind ++ "' object is not subscriptable"
  | .notContainer kind => "argument of type '" ++ kind ++ "' is not iterable"
  | .listIndex => "list indices must be integers or slices, not str"
  | .textIndex => "string indices must be integers, not 'str'"
  | .notPath kind => "expected str, bytes or os.PathLike object, not " ++ kind
  | .malformedSource fault => fault.message
  | .unwritable kind => "Object of type " ++ kind ++ " is not JSON serializable"
  | .unwritableKey kind => "keys must be str, int, float, bool or None, not " ++ kind
  | .unwritableYaml shown => "('cannot represent an object', " ++ shown ++ ")"
  | .network reason => reason
  | .httpStatus _ detail => detail
  | .failedRun reason => reason
  | .missingToken => "Missing GitHub token (set GITHUB_TOKEN or GH_TOKEN)."
  | .missingCollection name => "Collection " ++ name ++ " does not exist."
  | .zeroStep => "range() arg 3 must not be zero"
  | .unset name => "cannot access local variable '" ++ name ++ "' where it is not associated with a value"
  | .missingKey shown => shown
  | .circularLink path => "Symlink loop from " ++ Text.quoted path
  | .file fault path => fault.reason ++ ": " ++ Text.quoted path
  | .invalidRecord | .malformedJson | .refusedRequest | .malformedText => ""

end CodeAudit
