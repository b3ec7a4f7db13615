/-!
Kinds of errors.
-/

namespace LivePreview

/-- The kind of an error. -/
inductive ErrorKind where
  /-- An import or a name that leads nowhere. -/
  | missingImport
  /-- A broken rule about the order and the place of hooks. -/
  | hookRule
  | typeError
  | syntaxError
  | runtimeError
  | styleIssue
  | unknown
deriving DecidableEq, Repr, Inhabited

namespace ErrorKind

/-- All kinds. -/
def all : List ErrorKind :=
  [missingImport, hookRule, typeError, syntaxError, runtimeError, styleIssue, unknown]

/-- The name of a kind in documents. -/
def name : ErrorKind → String
  | missingImport => "import-missing"
  | hookRule => "lifecycle-violation"
  | typeError => "type-error"
  | syntaxError => "syntax"
  | runtimeError => "runtime"
  | styleIssue => "style"
  | unknown => "unknown"

/-- The name of a kind for people. -/
def label : ErrorKind → String
  | missingImport => "Missing Import"
  | hookRule => "Hook Rule Violation"
  | typeError => "Type Error"
  | syntaxError => "Syntax Error"
  | runtimeError => "Runtime Error"
  | styleIssue => "Style Issue"
  | unknown => "Unknown Issue"

/-- The kind of a name. -/
def ofName? (name : String) : Option ErrorKind := all.find? (·.name == name)

/-- What is said of a name that no kind has. -/
def unknownNameMessage (name : String) : String := s!"unknown error kind: {name}"

-- Every kind is found by its name.
theorem ofName?_name (kind : ErrorKind) : ofName? kind.name = some kind := by
  cases kind <;> rfl

/-- The kinds on which an attempt at repair may be spent. -/
def isFixable : ErrorKind → Bool
  | missingImport | typeError | syntaxError | hookRule => true
  | _ => false

end ErrorKind

end LivePreview
