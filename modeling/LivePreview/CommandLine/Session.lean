import LivePreview.CommandLine.FileAccess
import LivePreview.CommandLine.Help
import LivePreview.Diagnosis.Wire
import LivePreview.Healing.Wire
import LivePreview.Text.Lines

/-!
The commands of the program. A command prints lines, may change files, and ends well or with a failure
that tells the exit code.
-/

namespace LivePreview.CommandLine

/-- Why a command does not end well. -/
inductive Failure where
  | badArguments (reason : String)
  | buildFailed (errors : Nat)
  | healingIncomplete (remaining : Nat)
  | configNotFound (path : String)
  | unsupportedFormat (path : String)
  | badConfig (e : Config.ReadError)
  /-- The file of a configuration cannot be read or written. -/
  | configFile (e : FileError)
  | file (e : FileError)
  /-- A file error, with what was being done. -/
  | doing (action : String) (e : FileError)
  /-- The settings cannot be written in a format. -/
  | unwritable
deriving DecidableEq, Repr

namespace Failure

/-- The exit code: 2 for arguments that make no sense, 3 for a build that failed, 4 for a
configuration, 1 for all else. -/
def exitCode : Failure → Nat
  | badArguments _ => 2
  | buildFailed _ | healingIncomplete _ => 3
  | configNotFound _ | unsupportedFormat _ | badConfig _ => 4
  | _ => 1

/-- What is said about a text that is no configuration. -/
def malformedMessage : Config.Format → String
  | .toml => "TOML parsing error: the text is no configuration"
  | .yaml => "YAML parsing error: the text is no configuration"

/-- What a failure is called; the reason for it follows once more where it has a message of its
own. -/
def message : Failure → String
  | badArguments reason => s!"Invalid arguments: {reason}"
  | buildFailed errors => s!"Build failed with {errors} error(s)"
  | healingIncomplete remaining => s!"Healing incomplete: {remaining} diagnosis(es) remain"
  | configNotFound path => s!"Invalid configuration: config file not found: {path}"
  | unsupportedFormat path => Config.Format.unsupportedMessage path
  | badConfig (.malformed format) => malformedMessage format
  | badConfig (.invalid (.scheduler e)) => s!"{(ConfigError.scheduler e).message}: {e.message}"
  | badConfig (.invalid e) => e.message
  | configFile e => s!"IO error: {e.message}: {e.message}"
  | file e => e.message
  | doing action e => s!"{action}: {e.message}"
  | unwritable => "TOML serialization error: an integer is too large"

end Failure

/-- What a command does: it prints, uses files and may fail. -/
abbrev Session (m : Type → Type) := ExceptT Failure (StateT String m)

namespace Session

variable {m : Type → Type} [Monad m]

/-- Print a text. -/
def print (s : String) : Session m Unit := modify (· ++ s)

/-- Print a line. -/
def say (s : String) : Session m Unit := print (s ++ "\n")

/-- The result of an operation on files. -/
def attempt {α : Type} (failure : FileError → Failure) (step : m (Except FileError α)) :
    Session m α := do
  match ← (liftM step : StateT String m (Except FileError α)) with
  | .ok a => pure a
  | .error e => throw (failure e)

/-- The value of an operation on files that does not fail. -/
def ask {α : Type} (step : m α) : Session m α := (liftM step : StateT String m α)

/-- The texts of the files in a project. -/
def collectSources (access : FileAccess m) (dir : String) : Session m Sources := do
  if (← ask (access.kind? dir)) = some .directory then
    .ofList <$> ask (access.texts FileAccess.deepest dir "")
  else throw (.badArguments s!"{dir} is not a directory")

/-- Read a configuration from a file. -/
def readConfig (access : FileAccess m) (path : String) : Session m Config := do
  match Config.Format.ofPath? path with
  | none => throw (.unsupportedFormat path)
  | some format =>
    let content ← attempt .configFile (access.read path)
    match Config.parse format content with
    | .ok config => pure config
    | .error e => throw (.badConfig e)

/-- The file in the directory of a project that holds its configuration. -/
def configName : String := "forge.toml"

/-- The configuration that was named, or that of the project, or the usual one. -/
def findConfig (access : FileAccess m) (dir : String) (path? : Option String) :
    Session m Config := do
  match path? with
  | some path =>
    if (← ask (access.kind? path)).isNone then throw (.configNotFound path)
    else readConfig access path
  | none =>
    let path := joinPath dir configName
    if (← ask (access.kind? path)).isNone then pure {} else readConfig access path

/-- Print the outcome of bundling. -/
def sayResult (result : BundleResult) : Session m Unit := do
  if let some entry := result.entryPoint? then
    let mode := if entry.mountsItself then "self-mounting" else "wrapped"
    say s!"📦 Entry: {entry.path} ({mode})"
  if result.success then
    say s!"   ✅ Bundled {result.code.utf8ByteSize} bytes of JS, {result.css.utf8ByteSize} bytes of CSS"
  else
    say "   ❌ Build failed:"
    result.errors.forM fun error => say s!"      - {error.display}"
  if result.externals.toList ≠ [] then
    let names := ", ".intercalate result.externals.toList
    say s!"   📚 Externals: {names}"
  result.warnings.forM fun warning => say s!"   ⚠️  {warning}"

/-- Print a value as JSON. -/
def sayJson (value : Json) : Session m Unit := say (value.pretty "")

/-- Bundle a project. -/
def bundle (access : FileAccess m) (dir : String) (out? config? : Option String) (json : Bool) :
    Session m Unit := do
  let files ← collectSources access dir
  let config ← findConfig access dir config?
  let (result, _) := (Bundler.onLinker config.bundler).bundle files
  if json then sayJson result.toJson else sayResult result
  if !result.success then throw (.buildFailed result.errors.length)
  if let some out := out? then
    attempt (.doing s!"creating {out}") (access.makeDirectories FileAccess.deepest out)
    attempt .file (access.write (joinPath out "bundle.js") result.code)
    attempt .file (access.write (joinPath out "bundle.css") result.css)
    unless json do say s!"   💾 Wrote {out}"

/-- The errors in a text, which blank lines keep apart. -/
def blocks (s : String) : List String :=
  let add (line : List Char) (found : List (List (List Char))) : List (List (List Char)) :=
    if Text.trim line = [] then [] :: found
    else match found with
      | block :: later => (line :: block) :: later
      | [] => [[line]]
  let found := (Text.lines s.toList).foldr add []
  (found.filter (· ≠ [])).map fun block => String.ofList (List.intercalate ['\n'] block)

/-- A diagnosis as JSON, with what follows from its kind. -/
def diagnosisJson (diagnosis : Diagnosis) : Json :=
  match diagnosis.toJson with
  | .record fields => .record (fields ++ [("label", .text diagnosis.kind.label),
      ("auto_fixable", .bool diagnosis.isFixable)])
  | other => other

/-- Print a diagnosis. -/
def sayDiagnosis (diagnosis : Diagnosis) : Session m Unit := do
  let effort := if diagnosis.isFixable then "auto-fixable" else "manual"
  let kind := diagnosis.kind
  say s!"🔎 [{kind.name}] {kind.label} ({diagnosis.confidence.twoPlaces}, {effort})"
  say s!"   {diagnosis.message}"
  if let some location := diagnosis.location.text? then say s!"   at {location}"
  say s!"   💡 {diagnosis.suggestion}"

/-- Diagnose errors. -/
def classify (access : FileAccess m) (errors : List String) (stdin json : Bool) :
    Session m Unit := do
  let more ← if stdin then blocks <$> attempt (.doing "reading errors from stdin") access.input
    else pure []
  let raws := errors ++ more
  if raws = [] then throw (.badArguments "no error text given (pass ERRORS or --stdin)")
  let diagnoses := Classifier.usual.classifyAll raws
  if json then sayJson (.list (diagnoses.map diagnosisJson)) else diagnoses.forM sayDiagnosis

/-- Print what came of healing. -/
def sayReport (report : Healing.Report) : Session m Unit := do
  say s!"🩺 Healing finished after {report.rounds} round(s)"
  report.fixes.forM fun fix =>
    say s!"   🔧 {fix.target} [{fix.kind.name}]: {fix.description} ({fix.origin.name})"
  report.remaining.forM fun diagnosis => say s!"   ❗ [{diagnosis.kind.name}] {diagnosis.message}"
  sayResult report.result

/-- Heal a project by patches. -/
def heal (access : FileAccess m) (dir : String) (config? : Option String) (write json : Bool) :
    Session m Unit := do
  let files ← collectSources access dir
  let config ← findConfig access dir config?
  let healer : Healing.Healer Unit := ⟨.usual, .patchOnly, config.scheduler, config.healing⟩
  match healer.heal (.onLinker config.bundler) () files with
  | .error e => throw (.badConfig (.invalid (.scheduler e)))
  | .ok (report, _) =>
    if json then sayJson report.toJson else sayReport report
    if write then
      report.modified.forM fun key => do
        let path := joinPath dir key
        let content := (report.files.get? key).getD ""
        attempt (.doing s!"writing {path}") (access.write path content)
      if !json && report.modified ≠ [] then say s!"   💾 Updated {report.modified.length} file(s)"
    if !report.success then throw (.healingIncomplete report.remaining.length)

/-- Print the usual configuration, or write it to a file. -/
def config (access : FileAccess m) (output? : Option String) (format : Config.Format) :
    Session m Unit := do
  let usual : Config := {}
  let render (format : Config.Format) : Session m String :=
    match usual.render? format with
    | some rendered => pure rendered
    | none => throw .unwritable
  match output? with
  | none => print (← render format)
  | some path =>
    match Config.Format.ofPath? path with
    | none => throw (.unsupportedFormat path)
    | some format =>
      let rendered ← render format
      let parent := (parentPath? path).getD ""
      attempt .configFile (access.makeDirectories FileAccess.deepest parent)
      attempt .configFile (access.write path rendered)
      say s!"✅ Wrote default configuration to {path}"

/-- Carry out a command. -/
def run (access : FileAccess m) : Command → Session m Unit
  | .bundle dir out? config? json => bundle access dir out? config? json
  | .classify errors stdin json => classify access errors stdin json
  | .heal dir config? write json => heal access dir config? write json
  | .config output? format => config access output? format

end Session

/-- What the program leaves behind, apart from files. -/
structure Outcome where
  printed : String
  exitCode : Nat
  /-- What is said about a failure. -/
  complaint? : Option String
deriving DecidableEq, Repr

namespace Outcome

/-- The version of the program. -/
def version : String := "0.1.0"

/-- Run the program on its arguments. -/
def ofArguments {m : Type → Type} [Monad m] (access : FileAccess m) (arguments : List String) :
    m Outcome :=
  match Request.ofArguments arguments with
  | .help topic => pure ⟨Help.ofTopic topic, 0, none⟩
  | .version name => pure ⟨s!"{name} {version}\n", 0, none⟩
  | .refused => pure ⟨"", 2, none⟩
  | .run command => do
    let (result, printed) ← StateT.run (ExceptT.run (Session.run access command)) ""
    match result with
    | .ok () => pure ⟨printed, 0, none⟩
    | .error failure => pure ⟨printed, failure.exitCode, some s!"❌ Error: {failure.message}"⟩

end Outcome

end LivePreview.CommandLine
