import LivePreview.Bundle.Bundler
import LivePreview.Json.Document

/-!
Bundles and their errors as JSON, and settings of a bundler as part of a document.
-/

namespace LivePreview

namespace BundleErrorKind

/-- All kinds. -/
def all : List BundleErrorKind :=
  [noFiles, noBundleableFiles, noEntryPoint, unresolvedFile, compile]

end BundleErrorKind

namespace BundleError

/-- An error as JSON; what it does not have is left out. -/
def toJson (error : BundleError) : Json :=
  .record (Json.present [("kind", some (.text error.kind.name)),
    ("message", some (.text error.message)), ("file", error.file?.map .text),
    ("line", error.line?.map .nat), ("column", error.column?.map .nat)])

/-- Read an error. -/
def ofDocument? {δ : Type} [Document δ] (d : δ) : Option BundleError := do
  let record ← Document.record? ["kind", "message", "file", "line", "column"] d
  pure {
    kind := ← Document.need record "kind" (Document.named BundleErrorKind.all BundleErrorKind.name)
    message := ← Document.need record "message" Document.text?
    file? := ← Document.may record "file" Document.text?
    line? := ← Document.may record "line" Document.nat32
    column? := ← Document.may record "column" Document.nat32 }

end BundleError

/-- An entry point as JSON. -/
def EntryPoint.toJson (entry : EntryPoint) : Json :=
  .record [("file", .text entry.path), ("is_self_mounting", .bool entry.mountsItself)]

/-- The outcome of bundling as JSON. -/
def BundleResult.toJson (result : BundleResult) : Json :=
  .record [("success", .bool result.success), ("code", .text result.code), ("css", .text result.css),
    ("externals", .texts result.externals.toList),
    ("errors", .list (result.errors.map BundleError.toJson)),
    ("warnings", .texts result.warnings), ("entry_point", .ofOption EntryPoint.toJson result.entryPoint?)]

/-- The settings of a bundler as JSON. -/
def BundleOptions.toJson (options : BundleOptions) : Json :=
  .record [("mount_element_id", .text options.mountElement),
    ("error_channel", .text options.channel), ("wrapper_key", .text options.wrapperKey),
    ("skip_invalid_content", .bool options.skipInvalid)]

/-- Read the settings of a bundler; each has a default. -/
def BundleOptions.ofDocument? {δ : Type} [Document δ] (d : δ) : Option BundleOptions := do
  let usual : BundleOptions := {}
  let record ← Document.record?
    ["mount_element_id", "error_channel", "wrapper_key", "skip_invalid_content"] d
  pure {
    mountElement := ← Document.orElse record "mount_element_id" usual.mountElement Document.text?
    channel := ← Document.orElse record "error_channel" usual.channel Document.text?
    wrapperKey := ← Document.orElse record "wrapper_key" usual.wrapperKey Document.text?
    skipInvalid := ←
      Document.orElse record "skip_invalid_content" usual.skipInvalid Document.bool? }

end LivePreview
