import LivePreview.Bundle.Engine
import LivePreview.Bundle.Wrapper
import LivePreview.EntryPoint

/-!
The bundler turns the files of a project into one script and one text of styles. `BuildPlan.make`
decides what is to be built without asking the compile engine; `Bundler.bundle` starts the engine if
need be, lets it build and completes the styles. Bundling never fails: what goes wrong is reported in
the result.
-/

namespace LivePreview

/-- Settings of a bundler. -/
structure BundleOptions where
  /-- The element that the wrapper mounts into. -/
  mountElement : String := Wrapper.defaultMountElement
  /-- The channel on which the wrapper reports errors. -/
  channel : String := Wrapper.defaultChannel
  /-- The path that the wrapper takes among the files, if it is free. -/
  wrapperKey : String := "__forge_entry__.jsx"
  /-- Leave out files whose content does not look like source. -/
  skipInvalid : Bool := true
deriving DecidableEq, Repr, Inhabited

/-- The outcome of bundling. -/
structure BundleResult where
  success : Bool
  code : String
  css : String
  /-- The packages that are to be installed. -/
  externals : NameSet
  errors : List BundleError
  warnings : List String
  entryPoint? : Option EntryPoint
deriving DecidableEq, Repr

namespace BundleResult

/-- A failure for one reason. -/
def failure (error : BundleError) (warnings : List String) (entryPoint? : Option EntryPoint) :
    BundleResult :=
  ⟨false, "", "", .empty, [error], warnings, entryPoint?⟩

end BundleResult

/-- A path with a number behind its stem. -/
def numberedPath (path : String) (n : Nat) : String :=
  match Path.splitLastDot? path.toList with
  | some (stem, suffix) =>
    if stem = [] ∨ '/' ∈ suffix then s!"{path}-{n}"
    else s!"{String.ofList stem}-{n}.{String.ofList suffix}"
  | none => s!"{path}-{n}"

/-- The path itself if no file has it, otherwise its first numbered form that no file has. One of the
numbers up to one more than there are files is free. -/
def Sources.freePath (files : Sources) (path : String) : String :=
  if files.contains path then
    let numbered := (List.range (files.size + 1)).map fun n => numberedPath path (n + 1)
    (numbered.find? (!files.contains ·)).getD path
  else path

/-- What is to be built. -/
structure BuildPlan where
  entry : EntryPoint
  files : Sources
  /-- The path at which the build starts: the entry or its wrapper. -/
  start : String
  warnings : List String
deriving DecidableEq, Repr

namespace BuildPlan

/-- The warning about a file that was left out. -/
def skippedWarning (path : String) : String :=
  s!"Skipped {path}: content does not look like source code"

/-- The warning about a wrapper that could not have its own path. -/
def renamedWarning (key path : String) : String :=
  s!"Project file {key} shadows the preview wrapper; wrapper renamed to {path}"

/-- The wrapper of an entry that does not mount itself. -/
def wrapper (options : BundleOptions) (entry : EntryPoint) : Wrapper :=
  { Wrapper.ofEntry entry.path with
    channel := options.channel, mountElement := options.mountElement }

/-- The plan for prepared files with an entry. -/
def ofEntry (options : BundleOptions) (files : Sources) (warnings : List String)
    (entry : EntryPoint) : BuildPlan :=
  if entry.mountsItself then ⟨entry, files, entry.path, warnings⟩
  else
    let path := files.freePath options.wrapperKey
    let renamed := if path = options.wrapperKey then [] else
      [renamedWarning options.wrapperKey path]
    ⟨entry, files.insert path (wrapper options entry).source, path, warnings ++ renamed⟩

/-- Decide what is to be built, or why nothing can be. -/
def make (options : BundleOptions) (files : Sources) : Except BundleResult BuildPlan :=
  let failure (kind : BundleErrorKind) (message : String) (warnings : List String) :=
    BundleResult.failure (.ofKind kind message) warnings none
  if files.toList = [] then .error (failure .noFiles "No files to bundle" [])
  else
    let prepared := files.prepare options.skipInvalid
    let warnings := prepared.skipped.map skippedWarning
    if prepared.files.toList = [] then
      .error (failure .noBundleableFiles "No bundleable files" warnings)
    else match EntryPoint.detect? prepared.files with
      | none =>
        let available := ", ".intercalate prepared.files.paths
        .error (failure .noEntryPoint
          s!"No entry point found. Available files: {available}" warnings)
      | some entry => .ok (ofEntry options prepared.files warnings entry)

end BuildPlan

/-- The styles with one more file, unless the file is no style sheet, is blank or occurs in the
styles already. -/
def appendStyle (css : String) (file : String × String) : String :=
  let content := Text.trim file.2.toList
  if FileKind.ofPath? file.1 ≠ some .style ∨ content = [] ∨ Text.contains content css.toList then css
  else css ++ s!"/* {file.1} */\n" ++ String.ofList content ++ "\n"

namespace BuildPlan

/-- The result of a build that followed the plan. -/
def result (plan : BuildPlan) (built : Built) : BundleResult :=
  let warnings := plan.warnings ++ built.outside.warnings
  match built.result with
  | .error e =>
    ⟨false, "", "", built.outside.packages, BundleError.ofBuildError e, warnings, some plan.entry⟩
  | .ok output =>
    ⟨true, output.code, plan.files.toList.foldl appendStyle output.css, built.outside.packages, [],
      warnings ++ output.warnings, some plan.entry⟩

end BuildPlan

/-- A bundler on a compile engine whose state is a `σ`. -/
structure Bundler (σ : Type) where
  engine : Engine σ
  options : BundleOptions
  state : σ
  /-- The engine was started. -/
  ready : Bool

namespace Bundler

variable {σ : Type}

/-- A bundler on an engine in the given state. -/
def ofEngine (engine : Engine σ) (state : σ) (options : BundleOptions) : Bundler σ :=
  ⟨engine, options, state, false⟩

/-- A bundler on the linker. -/
def onLinker (options : BundleOptions) : Bundler Bool := ofEngine .linker false options

/-- Start the engine unless it was started. That it runs already is as good as a start. -/
def ensureReady (bundler : Bundler σ) : Except BuildError Unit × Bundler σ :=
  if bundler.ready then (.ok (), bundler)
  else match bundler.engine.start bundler.state with
    | (.ok (), state) => (.ok (), { bundler with state := state, ready := true })
    | (.error .alreadyStarted, state) => (.ok (), { bundler with state := state, ready := true })
    | (.error e, state) => (.error e, { bundler with state := state })

/-- Bundle the files of a project. -/
def bundle (bundler : Bundler σ) (files : Sources) : BundleResult × Bundler σ :=
  match BuildPlan.make bundler.options files with
  | .error result => (result, bundler)
  | .ok plan =>
    match bundler.ensureReady with
    | (.error e, bundler) =>
      (.failure (.ofKind .compile e.message) plan.warnings (some plan.entry), bundler)
    | (.ok (), bundler) =>
      let (built, state) := bundler.engine.build plan.files plan.start bundler.state
      (plan.result built, { bundler with state := state })

end Bundler

end LivePreview
