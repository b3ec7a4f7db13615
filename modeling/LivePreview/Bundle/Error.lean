import LivePreview.Linking.Output

/-!
Why there is no bundle. A `BuildError` is the answer of a compile engine; a `BundleError` is what the
bundler reports, for people and, as `raw` text, for diagnosis.
-/

namespace LivePreview

/-- A message of a compile engine about a file. -/
structure BuildMessage where
  text : String
  file? : Option String
  line? : Option Nat
  column? : Option Nat
deriving DecidableEq, Repr

/-- A finding of the linker as a message. -/
def BuildMessage.ofFinding (finding : Linking.Finding) : BuildMessage :=
  ⟨finding.problem.message, some finding.path, finding.place?.map (·.line),
    finding.place?.map (·.column)⟩

/-- Why a compile engine does not start or does not build. -/
inductive BuildError where
  | alreadyStarted
  | notStarted (reason : String)
  | failed (messages : List BuildMessage)
  | missingModule (path : String)
  | other (reason : String)
deriving DecidableEq, Repr

/-- What a build error is called. -/
def BuildError.message : BuildError → String
  | alreadyStarted => "Backend already initialized"
  | notStarted reason => s!"Backend initialization failed: {reason}"
  | failed messages => s!"Build failed with {messages.length} error(s)"
  | missingModule path => s!"Could not load {path}"
  | other reason => s!"Backend error: {reason}"

/-- The kind of a bundle error. -/
inductive BundleErrorKind where
  | noFiles
  | noBundleableFiles
  | noEntryPoint
  | unresolvedFile
  | compile
deriving DecidableEq, Repr

/-- The name of a kind. -/
def BundleErrorKind.name : BundleErrorKind → String
  | noFiles => "no-files"
  | noBundleableFiles => "no-bundleable-files"
  | noEntryPoint => "no-entry-point"
  | unresolvedFile => "unresolved-file"
  | compile => "compile"

/-- An error of a bundle, with its place if it has one. -/
structure BundleError where
  kind : BundleErrorKind
  message : String
  file? : Option String
  line? : Option Nat
  column? : Option Nat
deriving DecidableEq, Repr

namespace BundleError

/-- An error without a place. -/
def ofKind (kind : BundleErrorKind) (message : String) : BundleError :=
  ⟨kind, message, none, none, none⟩

/-- An error about a file that cannot be loaded. -/
def missingModule (path : String) : BundleError :=
  ⟨.unresolvedFile, s!"Could not load \"{path}\"", some path, none, none⟩

/-- The message of a compile engine as an error. -/
def ofMessage (message : BuildMessage) : BundleError :=
  let kind := if Text.startsWith "Could not load".toList message.text.toList then
    BundleErrorKind.unresolvedFile else .compile
  ⟨kind, message.text, message.file?, message.line?, message.column?⟩

/-- The errors that a build error stands for. -/
def ofBuildError : BuildError → List BundleError
  | .failed messages => messages.map ofMessage
  | .missingModule path => [missingModule path]
  | other => [ofKind .compile other.message]

/-- The error as it would show at run time: the message and, below it, its place in the form of a
stack frame. -/
def raw (error : BundleError) : String :=
  match error.file?, error.line?, error.column? with
  | some file, some line, some column => s!"{error.message}\n    at {file}:{line}:{column}"
  | some file, some line, none => s!"{error.message}\n    at {file}:{line}:1"
  | some file, none, _ => s!"{error.message}\n    at {file}"
  | none, _, _ => error.message

/-- The error for people: the place, then the message. -/
def display (error : BundleError) : String :=
  match error.file?, error.line?, error.column? with
  | some file, some line, some column => s!"{file}:{line}:{column}: {error.message}"
  | some file, _, _ => s!"{file}: {error.message}"
  | none, _, _ => error.message

end BundleError

end LivePreview
